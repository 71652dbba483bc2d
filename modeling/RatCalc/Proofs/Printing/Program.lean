import Mathlib
import RatCalc.Grammar.Program
import RatCalc.Proofs.Grammar.Lines
import RatCalc.Proofs.Printing.Expression

/-!
# Reading the text of a program

The text of a program is read as the program. A statement that is a mere expression may start
like the other forms of a statement do, as a name such as `variable` does; but then the word of
the form is not followed by a blank or a quote. Behind a statement there is the end of the text
or of the line, so that neither an expression nor the run of line ends goes on into the next
statement.

## Main definitions

* `Statement.Printable`: what the parts of a statement have to be.
* `Grammar.EndsLine`: a text that is empty or starts with the end of a line.
* `Grammar.OpensLine`: a text that starts with neither a blank nor the end of a line.

## Main results

* `Grammar.accepts_statement_text`: the text of a statement is read as the statement.
* `Program.lines_text`: the text of a program is read line by line.
* `Program.parse?_print`: reading undoes printing, for expressions and for programs.
-/

namespace RatCalc

/-- The expression of a statement is printable, a bound name is a name of the grammar, and a text
to print has neither quotes nor line ends. -/
def Statement.Printable : Statement → Prop
  | print text => ∀ c ∈ text.toList, c ≠ '"' ∧ c ≠ '\n'
  | out value => value.Printable
  | var name value => IsName name.toList ∧ value.Printable
  | expression value => value.Printable

/-! ### The text of every statement, up to its expression -/

namespace Statement

theorem text_print (text : String) (r : List Char) :
    (print text).text ++ r =
      ['p', 'r', 'i', 'n', 't'] ++ ' ' :: '"' :: (text.toList ++ '"' :: r) := by
  have written : (print text).text = "print \"".toList ++ text.toList ++ ['"'] := rfl
  simp [written]

theorem text_out (value : Expression) (r : List Char) :
    (out value).text ++ r = ['o', 'u', 't'] ++ ([' '] ++ (value.text ++ r)) := by
  have written : (out value).text = "out ".toList ++ value.text := rfl
  simp [written]

theorem text_var (name : Name) (value : Expression) (r : List Char) :
    (var name value).text ++ r =
      ['v', 'a', 'r'] ++ ([' '] ++
        (name.toList ++ ' ' :: (['='] ++ ' ' :: (value.text ++ r)))) := by
  have written : (var name value).text =
      "var ".toList ++ name.toList ++ " = ".toList ++ value.text := rfl
  simp [written]

end Statement

namespace Grammar

variable {s r t word : List Char} {e : Expression} {st : Statement}

/-- A text that is empty or starts with the end of a line. -/
def EndsLine (r : List Char) : Prop :=
  r = [] ∨ ∃ u, r = '\n' :: u

namespace EndsLine

/-- No expression goes on with the end of a line. -/
theorem ends (h : EndsLine r) : Ends r := by
  rcases h with rfl | ⟨u, rfl⟩
  · exact Ends.nil
  · intro c hc
    obtain rfl := Option.some.inj hc
    exact ⟨rfl, rfl, Operator.toChar_ne rfl⟩

/-- No name goes on with the end of a line. -/
theorem stops (h : EndsLine r) : Stops isNameRest r :=
  fun c hc => isNameRest_of_continues (h.ends c hc).2.1

end EndsLine

/-- A text that starts with neither a blank nor the end of a line. -/
def OpensLine (s : List Char) : Prop :=
  ∃ c cs, s = c :: cs ∧ isBlank c = false ∧ c ≠ '\n' ∧ c ≠ '\r'

theorem OpensLine.append (h : OpensLine s) (t : List Char) : OpensLine (s ++ t) := by
  obtain ⟨c, cs, rfl, starts⟩ := h
  exact ⟨c, cs ++ t, rfl, starts⟩

theorem OpensLine.skipBlanks_eq (h : OpensLine s) : skipBlanks s = s := by
  obtain ⟨c, cs, rfl, solid, -⟩ := h
  exact skipBlanks_of_stops (.cons solid)

/-! ### The first character of an expression -/

/-- The text of an expression other than a name starts with a digit, a sign, a bracket or the
word of a form. -/
theorem head_of_text (h : e.Printable) :
    (∃ name, e = .identifier name) ∨
      ∃ c cs, e.text = c :: cs ∧ (c.isDigit = true ∨ c ∈ ['-', '(', '{', 'm', 'r']) := by
  cases e with
  | number value =>
    obtain ⟨k, small, divides⟩ := h
    have spelled := Fraction.ofLiteral?_decimal divides small Expression.literalDigits
    obtain ⟨c, cs, text, first⟩ := head_of_spelled spelled
    refine .inr ⟨c, cs, text, first.imp_right ?_⟩
    rintro rfl
    decide
  | identifier name => exact .inl ⟨name, rfl⟩
  | sequence first last => exact .inr ⟨_, _, Expression.text_sequence first last, .inr (by decide)⟩
  | operation left op right =>
    exact .inr ⟨_, _, Expression.text_operation left op right, .inr (by decide)⟩
  | map input parameter body =>
    exact .inr ⟨_, _, Expression.text_map input parameter body, .inr (by decide)⟩
  | reduce input initial left right body =>
    exact .inr ⟨_, _, Expression.text_reduce input initial left right body, .inr (by decide)⟩

/-- No character of a name is a blank or belongs to the end of a line. -/
theorem opens_of_isNameRest {c : Char} (h : isNameRest c = true) :
    isBlank c = false ∧ c ≠ '\n' ∧ c ≠ '\r' := by
  refine ⟨isBlank_of_isNameRest h, ?_, ?_⟩
  · rintro rfl
    cases h
  · rintro rfl
    cases h

/-- The text of an expression opens a line. -/
theorem opensLine_text (h : e.Printable) : OpensLine e.text := by
  rcases head_of_text h with ⟨name, rfl⟩ | ⟨c, cs, text, digit | bracket⟩
  · have isName : IsName name.toList := h
    obtain ⟨c, cs, text, -, -⟩ := id isName
    have first : c ∈ name.toList := by rw [text]; exact List.mem_cons_self
    exact ⟨c, cs, text, opens_of_isNameRest (isName.inside c first)⟩
  · exact ⟨c, cs, text, opens_of_isNameRest (isNameRest_of_isDigit digit)⟩
  · refine ⟨c, cs, text, ?_⟩
    simp only [List.mem_cons, List.not_mem_nil, or_false] at bracket
    rcases bracket with rfl | rfl | rfl | rfl | rfl <;> decide

/-- A word at the front of an expression that does not go on behind it is the whole expression,
unless the word is that of a form. -/
theorem eq_of_text_append {c : Char} (h : e.Printable) (ends : EndsLine r)
    (start : isNameStart c = true) (form : c ≠ 'm' ∧ c ≠ 'r')
    (inside : ∀ d ∈ c :: word, isNameRest d = true) (stops : Stops isNameRest t)
    (spelled : e.text ++ r = c :: word ++ t) : r = t := by
  rcases head_of_text h with ⟨name, rfl⟩ | ⟨d, ds, text, first⟩
  · have isName : IsName name.toList := h
    exact (ends.stops.append_inj stops isName.inside inside spelled).2
  · rw [text] at spelled
    obtain rfl : d = c := (List.cons.inj spelled).1
    rcases first with digit | bracket
    · rw [isNameStart_eq_false (.inl digit)] at start
      cases start
    · simp only [List.mem_cons, List.not_mem_nil, or_false] at bracket
      rcases bracket with rfl | rfl | rfl | rfl | rfl
      · cases start
      · cases start
      · cases start
      · exact absurd rfl form.1
      · exact absurd rfl form.2

/-! ### Statements in front of the end of a line -/

/-- A text without quotes and line ends is read up to the quote behind it. -/
theorem accepts_printedText {text : String} (h : (Statement.print text).Printable) :
    (printedText (text.toList ++ '"' :: r)).Accepts text r := by
  have inside : ∀ c ∈ text.toList, isPrintable c = true := by
    intro c hc
    obtain ⟨quote, newline⟩ := h c hc
    rw [isPrintable, Bool.and_eq_true, bne_iff_ne, bne_iff_ne]
    exact ⟨quote, newline⟩
  have stops : Stops isPrintable ('"' :: r) := .cons rfl
  rw [accepts_printedText_iff, stops.dropWhile_append inside, stops.takeWhile_append inside]
  exact ⟨rfl, String.ofList_toList⟩

/-- The text of an expression is read as the expression at the end of a line. -/
theorem accepts_text (h : e.Printable) (ends : EndsLine r) :
    (expression 0 (e.text ++ r)).Accepts e r :=
  Reaches.accepts (Expression.derives_text h).reaches Blanks.nil ends.ends

/-- The text of an expression is also read behind a space. -/
theorem accepts_space_text (h : e.Printable) (ends : EndsLine r) :
    (expression 0 (skipBlanks (' ' :: (e.text ++ r)))).Accepts e r := by
  have skipped : skipBlanks ([' '] ++ (e.text ++ r)) = e.text ++ r :=
    skipBlanks_append Blanks.space ((Expression.derives_text h).solid.append r).stops
  rw [List.singleton_append] at skipped
  rw [skipped]
  exact accepts_text h ends

/-- An expression is not taken for a binding or an output: there is no blank behind the word. -/
theorem not_blank_behind_word {c : Char} {b : List Char} (h : e.Printable) (ends : EndsLine r)
    (start : isNameStart c = true) (form : c ≠ 'm' ∧ c ≠ 'r')
    (inside : ∀ d ∈ c :: word, isNameRest d = true) (some : b ≠ []) (blanks : Blanks b) :
    e.text ++ r ≠ c :: word ++ (b ++ t) := by
  intro spelled
  obtain ⟨d, b, rfl⟩ := List.exists_cons_of_ne_nil some
  have blank : isBlank d = true := blanks d List.mem_cons_self
  have behind : Stops isNameRest (d :: b ++ t) := .cons (isNameRest_of_isBlank d blank)
  have same := eq_of_text_append h ends start form inside behind spelled
  have solid := ends.ends.stops d (by rw [same]; rfl)
  rw [solid] at blank
  cases blank

theorem varStatement_text (h : e.Printable) (ends : EndsLine r) :
    (varStatement (e.text ++ r)).reading = none := by
  refine Reply.reading_eq_none_iff.2 fun st u accepted => ?_
  obtain ⟨b, t, -, -, -, -, some, blanks, -, spelled, -⟩ := accepts_varStatement.1 accepted
  exact not_blank_behind_word h ends rfl (by decide) (List.all_eq_true.1 rfl) some blanks spelled

theorem outStatement_text (h : e.Printable) (ends : EndsLine r) :
    (outStatement (e.text ++ r)).reading = none := by
  refine Reply.reading_eq_none_iff.2 fun st u accepted => ?_
  obtain ⟨b, t, -, some, blanks, -, spelled, -⟩ := accepts_outStatement.1 accepted
  exact not_blank_behind_word h ends rfl (by decide) (List.all_eq_true.1 rfl) some blanks spelled

/-- An expression is not taken for a text to print: there is no quote behind the word. -/
theorem printStatement_text (h : e.Printable) (ends : EndsLine r) :
    (printStatement (e.text ++ r)).reading = none := by
  refine Reply.reading_eq_none_iff.2 fun st u accepted => ?_
  obtain ⟨t, v, -, spelled, quote, -⟩ := accepts_printStatement.1 accepted
  have behind : Stops isNameRest t := by
    obtain ⟨b, blanks, split⟩ := exists_blanks_append_skipBlanks t
    rw [split, quote]
    exact .blanks_append blanks isNameRest_of_isBlank (.cons rfl)
  obtain rfl := eq_of_text_append h ends rfl (by decide) (List.all_eq_true.1 rfl) behind spelled
  rw [skipBlanks_of_stops ends.ends.stops] at quote
  rcases ends with rfl | ⟨w, rfl⟩
  · cases quote
  · exact absurd (List.cons.inj quote).1 (by decide)

/-- **The text of a statement is read as the statement** at the end of a line. -/
theorem accepts_statement_text (h : st.Printable) (ends : EndsLine r) :
    (statement (st.text ++ r)).Accepts st r := by
  cases st with
  | print text =>
    rw [Statement.text_print]
    have quote : skipBlanks ([' '] ++ '"' :: (text.toList ++ '"' :: r)) =
        ['"'] ++ (text.toList ++ '"' :: r) := skipBlanks_append Blanks.space (.cons rfl)
    have accepted := accepts_printStatement.2
      ⟨_, text.toList ++ '"' :: r, text, rfl, quote, accepts_printedText h, rfl⟩
    refine accepts_orElse_of_none (bind_eq_none (token_eq_none rfl (by decide))) ?_
    refine accepts_orElse_of_none (bind_eq_none (token_eq_none rfl (by decide))) ?_
    exact accepts_orElse_of_accepts accepted
  | out value =>
    have solid : Solid (value.text ++ r) := (Expression.derives_text h).solid.append r
    have read : (expression 0 (skipBlanks (value.text ++ r))).Accepts value r := by
      rw [skipBlanks_of_stops solid.stops]
      exact accepts_text h ends
    rw [Statement.text_out]
    have accepted := accepts_outStatement.2 ⟨[' '], value.text ++ r, value, List.cons_ne_nil _ _,
      Blanks.space, solid.stops, rfl, read, rfl⟩
    refine accepts_orElse_of_none (bind_eq_none (token_eq_none rfl (by decide))) ?_
    exact accepts_orElse_of_accepts accepted
  | var name value =>
    obtain ⟨isName, h⟩ := h
    have solid : Solid (name.toList ++ ' ' :: (['='] ++ ' ' :: (value.text ++ r))) :=
      isName.solid.append _
    have named : (identifier (skipBlanks (name.toList ++ ' ' :: (['='] ++
        ' ' :: (value.text ++ r))))).Accepts name (' ' :: (['='] ++ ' ' :: (value.text ++ r))) := by
      rw [skipBlanks_of_stops solid.stops]
      exact accepts_identifier.2 ⟨isName, .cons rfl, rfl⟩
    rw [Statement.text_var]
    exact accepts_orElse_of_accepts (accepts_varStatement.2 ⟨[' '], _, name, _, _, value,
      List.cons_ne_nil _ _, Blanks.space, solid.stops, rfl, named, rfl,
      accepts_space_text h ends, rfl⟩)
  | expression value =>
    refine accepts_orElse_of_none (varStatement_text h ends) ?_
    refine accepts_orElse_of_none (outStatement_text h ends) ?_
    refine accepts_orElse_of_none (printStatement_text h ends) ?_
    exact Reply.accepts_map.2 ⟨value, accepts_text h ends, rfl⟩

/-- The text of a statement opens a line. -/
theorem opensLine_statement_text (h : st.Printable) : OpensLine st.text := by
  cases st with
  | print text =>
    have text := Statement.text_print text []
    rw [List.append_nil] at text
    exact ⟨_, _, text, by decide⟩
  | out value =>
    have text := Statement.text_out value []
    rw [List.append_nil] at text
    exact ⟨_, _, text, by decide⟩
  | var name value =>
    have text := Statement.text_var name value []
    rw [List.append_nil] at text
    exact ⟨_, _, text, by decide⟩
  | expression value => exact opensLine_text h

end Grammar

namespace Program

open Grammar

variable {p : Program}

/-- The first of several statements stands on a line of its own. -/
theorem text_cons_cons (first second : Statement) (p : Program) :
    text (first :: second :: p) = first.text ++ '\n' :: text (second :: p) := by
  simp [text, List.intercalate_cons_cons]

/-- The text of a program that is not empty opens a line. -/
theorem opensLine_text {st : Statement} (h : st.Printable) (p : Program) :
    OpensLine (text (st :: p)) := by
  cases p with
  | nil =>
    have single : text [st] = st.text ++ [] := by simp [text]
    rw [single]
    exact (opensLine_statement_text h).append []
  | cons second p =>
    rw [text_cons_cons]
    exact (opensLine_statement_text h).append _

/-- **The text of a program is read line by line.** -/
theorem lines_text (h : ∀ st ∈ p, st.Printable) : Lines p.text p := by
  induction p with
  | nil => exact .blank Blanks.nil
  | cons first p ih =>
    have printable : first.Printable := h first List.mem_cons_self
    have opens := (opensLine_text printable p).skipBlanks_eq
    cases p with
    | nil =>
      have single : text [first] = first.text ++ [] := by simp [text]
      refine .last (r := []) ?_ Blanks.nil
      rw [opens, single]
      exact accepts_statement_text printable (.inl rfl)
    | cons second p =>
      have more := ih fun st hst => h st (List.mem_cons_of_mem _ hst)
      refine .cons (r := '\n' :: text (second :: p)) ?_ (accepts_lineEnd_iff.2 (.inl rfl)) more
      rw [opens, text_cons_cons]
      exact accepts_statement_text printable (.inr ⟨_, rfl⟩)

/-- Reading the text of a program gives the program back. -/
theorem parse?_text (h : ∀ st ∈ p, st.Printable) : parse? p.text = .ok p :=
  parse?_eq_ok_iff_lines.2 (lines_text h)

/-- **Reading undoes printing**, for expressions whose literals have decimal expansions that end,
and for programs of such statements whose texts to print have neither quotes nor line ends. -/
theorem parse?_print :
    (∀ e : Expression, e.Printable → Expression.parse? e.print.toList = .ok e) ∧
      ∀ p : Program, (∀ st ∈ p, st.Printable) → Program.parse? p.print.toList = .ok p := by
  refine ⟨fun e h => ?_, fun p h => ?_⟩
  · rw [Expression.print, String.toList_ofList]
    exact Expression.parse?_text h
  · rw [Program.print, String.toList_ofList]
    exact parse?_text h

/-- A name spelled like a form, a negative literal behind a minus sign, and a statement spelled like
the word of another one. -/
theorem parse?_print_words :
    Expression.parse? (Expression.operation (.identifier "map") .subtract
        (.number ⟨-5, 2, by decide, by decide⟩)).print.toList =
      .ok (.operation (.identifier "map") .subtract (.number ⟨-5, 2, by decide, by decide⟩)) ∧
    Program.parse? (Program.print
        [.var "out" (.identifier "map"), .print "1, 2", .expression (.identifier "print")]).toList =
      .ok [.var "out" (.identifier "map"), .print "1, 2", .expression (.identifier "print")] := by
  have map_isName : IsName "map".toList := ⟨'m', ['a', 'p'], by simp, rfl, List.all_eq_true.1 rfl⟩
  have out_isName : IsName "out".toList := ⟨'o', ['u', 't'], by simp, rfl, List.all_eq_true.1 rfl⟩
  have print_isName : IsName "print".toList :=
    ⟨'p', ['r', 'i', 'n', 't'], by simp, rfl, List.all_eq_true.1 rfl⟩
  have terminates : Fraction.Terminates ⟨-5, 2, by decide, by decide⟩ := ⟨1, by decide, by decide⟩
  refine ⟨parse?_print.1 _ ⟨map_isName, terminates⟩, parse?_print.2 _ ?_⟩
  intro st hst
  simp only [List.mem_cons, List.not_mem_nil, or_false] at hst
  rcases hst with rfl | rfl | rfl
  · exact ⟨out_isName, map_isName⟩
  · intro c hc
    have digits : c ∈ ['1', ',', ' ', '2'] := by simpa using hc
    rw [List.mem_cons, List.mem_cons, List.mem_cons, List.mem_singleton] at digits
    rcases digits with rfl | rfl | rfl | rfl <;> decide
  · exact print_isName

end Program

end RatCalc
