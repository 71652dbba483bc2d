import Mathlib
import RatCalc.Proofs.Grammar.Lines

/-!
# Keywords are not reserved

A statement is tried as a binding, as an output and as a printed text before it is tried as an
expression, and a choice once made is kept. Still no expression is misread. Behind a word, an
expression goes on with an operator or not at all, and what makes a statement of `var` or `print`
is a name or a quote. Behind `out` there has to be an expression, which starts like an operator
only if it starts with a negative literal. Such a text is both, a difference from `out` and an
output, and it is read as an output, of the whole text behind the word.

## Main definitions

* `OutputOfNegative`: the texts that are read as an output, though they are expressions.

## Main results

* `Grammar.accepts_statement_of_expression`: the statement that an expression is read as.
* `Program.parse?_of_expression`: the program that an expression is read as.
-/

namespace RatCalc

open Grammar

/-- The text starts with `out`, one blank or more and a minus sign that belongs to a literal. -/
def OutputOfNegative (s : List Char) : Prop :=
  ∃ front between digit rest, Blanks front ∧ Blanks between ∧ between ≠ [] ∧
    digit.isDigit = true ∧ s = front ++ ['o', 'u', 't'] ++ between ++ '-' :: digit :: rest

namespace OutputOfNegative

variable {s : List Char}

/-- Blanks may be put in front. -/
theorem of_skipBlanks (h : OutputOfNegative (skipBlanks s)) : OutputOfNegative s := by
  obtain ⟨front, between, digit, rest, blanks, blanks', some, isDigit, split⟩ := h
  obtain ⟨b, before, whole⟩ := exists_blanks_append_skipBlanks s
  refine ⟨b ++ front, between, digit, rest, before.append blanks, blanks', some, isDigit, ?_⟩
  rw [whole, split]
  simp

/-- Behind the blanks in front, the text starts with the word. -/
theorem skipBlanks_eq (h : OutputOfNegative s) : ∃ between digit rest, Blanks between ∧
    between ≠ [] ∧ digit.isDigit = true ∧
      skipBlanks s = ['o', 'u', 't'] ++ (between ++ '-' :: digit :: rest) := by
  obtain ⟨front, between, digit, rest, blanks, blanks', some, isDigit, rfl⟩ := h
  refine ⟨between, digit, rest, blanks', some, isDigit, ?_⟩
  rw [List.append_assoc, List.append_assoc]
  exact skipBlanks_append blanks (.cons rfl)

end OutputOfNegative

namespace Grammar

variable {s t r r' : List Char} {e x y z : Expression} {level level' : ℕ}

/-! ### Climbing from another operand -/

/-- The steps do not depend on what was read so far. -/
theorem Climbs.exists_from (h : Climbs level x t e r) (x' : Expression) :
    ∃ e', Climbs level x' t e' r := by
  induction h generalizing x' with
  | stop stuck => exact ⟨x', .stop stuck⟩
  | step tight symbol right _ ih =>
    obtain ⟨e', climbs⟩ := ih (.operation x' _ _)
    exact ⟨e', .step tight symbol right climbs⟩

/-- Steps over tight operators and then over looser ones are steps over the looser ones. -/
theorem Climbs.exists_through (h : Climbs level x t y r') (looser : level' ≤ level)
    (more : Climbs level' z r' e r) (x' : Expression) : ∃ e', Climbs level' x' t e' r := by
  induction h generalizing x' with
  | stop => exact more.exists_from x'
  | step tight symbol right _ ih =>
    obtain ⟨e', climbs⟩ := ih more (.operation x' _ _)
    exact ⟨e', .step (looser.trans tight) symbol right climbs⟩

/-! ### Expressions that start with a word -/

/-- An operator starts neither a name nor a bracket. -/
theorem toChar_apart (op : Operator) : isNameStart op.toChar = false ∧ op.toChar ≠ '"' ∧
    op.toChar ≠ '(' ∧ op.toChar ≠ '{' ∧ op.toChar.isDigit = false := by
  cases op <;> decide

/-- Nothing goes on over a blank. -/
theorem stops_of_blanks {b : List Char} (some : b ≠ []) (blanks : Blanks b) :
    Stops continues (b ++ t) := by
  obtain ⟨c, cs, rfl⟩ := List.exists_cons_of_ne_nil some
  exact .cons (continues_of_isBlank c (blanks c List.mem_cons_self))

/-- Behind a word that does not go on, the reader climbs from the name. -/
theorem climbs_of_word {word : List Char} (isName : IsName word) (stops : Stops continues t)
    (h : (expression 0 (word ++ t)).Accepts e r) :
    Climbs 0 (.identifier (String.ofList word)) t e r := by
  obtain ⟨x, u, first, climbs⟩ := accepts_expression.1 h
  have named : IsName (String.ofList word).toList := by rwa [String.toList_ofList]
  have read := accepts_operand_of_identifier named stops fun r _ => expression 0 r
  rw [String.toList_ofList] at read
  obtain ⟨rfl, rfl⟩ := first.unique read
  exact climbs

/-- Behind a word of an expression that reaches to the end there is nothing or an operator. -/
theorem skipBlanks_of_word {word : List Char} (isName : IsName word) (stops : Stops continues t)
    (h : (expression 0 (word ++ t)).Accepts e r) (blanks : Blanks r) :
    skipBlanks t = [] ∨ ∃ op u, skipBlanks t = Operator.toChar op :: u := by
  cases climbs_of_word isName stops h with
  | stop => exact .inl (blanks_iff_skipBlanks_eq_nil.1 blanks)
  | step _ symbol => exact .inr ⟨_, _, symbol⟩

/-- Where a literal with a digit in front is read, it is read with a sign in front, too. -/
theorem exists_accepts_number_neg {digit : Char} (isDigit : digit.isDigit = true) {q : Fraction}
    (h : (number (digit :: s)).Accepts q r) :
    ∃ q', (number ('-' :: digit :: s)).Accepts q' r := by
  obtain ⟨text, some, cut, read⟩ := accepts_number.1 h
  have unsigned : unsignedNumeral (digit :: s) = (text, r) := by
    rw [← cut, numeral]
    rintro s' split
    exact Literal.ne_sign isDigit (List.cons.inj split).1
  have parts := numeral_append (digit :: s)
  rw [cut] at parts
  obtain ⟨l, rfl, -⟩ := Fraction.ofLiteral?_eq_ok_iff.1 read
  have positive : l.negative = false := by
    by_contra negative
    rw [Literal.text, if_pos (Bool.eq_true_of_not_eq_false negative)] at parts
    exact Literal.ne_sign isDigit (List.cons.inj parts).1.symm
  have spelled : ({ l with negative := true } : Literal).text = '-' :: l.text := by
    simp [Literal.text, Literal.unsigned, positive]
  refine ⟨_, accepts_number.2 ⟨'-' :: l.text, List.cons_ne_nil _ _, ?_,
    Fraction.ofLiteral?_eq_ok_iff.2 ⟨_, spelled, rfl⟩⟩⟩
  rw [numeral, unsigned]
  split
  · next none => exact absurd (congrArg Prod.fst none) some
  · next pair =>
    cases pair
    rfl

/-- An operand that starts neither with a bracket nor like a name is a literal. -/
theorem accepts_number_of_operand {c : Char} (group : c ≠ '(') (sequence : c ≠ '{')
    (name : isNameStart c = false) {inner : Inner (c :: s)}
    (h : (operand (c :: s) inner).Accepts e r) :
    ∃ q, (number (c :: s)).Accepts q r := by
  have refused {t : Token} {d : Char} {ds : List Char} (chars : t.chars = d :: ds) (other : c ≠ d)
      {next : Unit → (r : List Char) → r.length < (c :: s).length → Reply Expression r} :
      ¬ ((token t (c :: s)).andThen next).Accepts e r :=
    Reply.reading_eq_none_iff.1 (andThen_eq_none (token_eq_none chars other)) e r
  have letter {d : Char} (start : isNameStart d = true) : c ≠ d := by
    rintro rfl
    rw [start] at name
    cases name
  simp only [operand, Reply.accepts_orElse] at h
  rcases h with h | ⟨-, h | ⟨-, h | ⟨-, h | ⟨-, number | ⟨-, identifier⟩⟩⟩⟩⟩
  · exact absurd h (refused rfl group)
  · exact absurd h (refused rfl sequence)
  · exact absurd h (refused rfl (letter rfl))
  · exact absurd h (refused rfl (letter rfl))
  · obtain ⟨q, accepted, -⟩ := Reply.accepts_map.1 number
    exact ⟨q, accepted⟩
  · obtain ⟨x, accepted, -⟩ := Reply.accepts_map.1 identifier
    obtain ⟨⟨d, ds, spelled, start, -⟩, -, split⟩ := accepts_identifier.1 accepted
    rw [spelled] at split
    exact absurd (List.cons.inj split).1 (letter start)

/-- An expression that starts like an operator starts with a negative literal. -/
theorem exists_digit_of_accepts {op : Operator}
    (h : (expression level (op.toChar :: s)).Accepts e r) :
    op = .subtract ∧ ∃ digit rest, digit.isDigit = true ∧ s = digit :: rest := by
  obtain ⟨name, -, group, sequence, noDigit⟩ := toChar_apart op
  obtain ⟨x, t, first, -⟩ := accepts_expression.1 h
  obtain ⟨q, read⟩ := accepts_number_of_operand group sequence name first
  obtain ⟨text, split, spelled⟩ := exists_of_accepts_number read
  obtain ⟨l, rfl, -⟩ := Fraction.ofLiteral?_eq_ok_iff.1 spelled
  obtain ⟨digit, digits, whole⟩ := List.exists_cons_of_ne_nil l.whole_ne_nil
  have isDigit : digit.isDigit = true :=
    l.whole_digits digit (by rw [whole]; exact List.mem_cons_self)
  rw [Literal.text, Literal.unsigned, whole] at split
  split_ifs at split
  · obtain ⟨sign, rfl⟩ := List.cons.inj split
    exact ⟨Operator.toChar_injective sign, digit, _, isDigit, rfl⟩
  · rw [(List.cons.inj split).1, isDigit] at noDigit
    cases noDigit

/-- An expression that goes on with a sign and a literal, and is read to the end, is read from the
sign on, too. -/
theorem exists_accepts_of_negative {digit : Char} (isDigit : digit.isDigit = true)
    (h : Climbs 0 x t e r) (symbol : skipBlanks t = '-' :: digit :: s) (blanks : Blanks r) :
    ∃ e', (expression 0 ('-' :: digit :: s)).Accepts e' r := by
  cases h with
  | stop =>
    rw [blanks_iff_skipBlanks_eq_nil.1 blanks] at symbol
    cases symbol
  | @step _ y _ op _ u r' _ _ symbol' right climbs =>
    obtain ⟨-, rfl⟩ := List.cons.inj (symbol'.symm.trans symbol)
    have solid : Stops isBlank (digit :: s) :=
      .cons (isBlank_of_isNameRest (isNameRest_of_isDigit isDigit))
    have ne {c : Char} (other : c.isDigit = false) (sign : c ≠ '-') : digit ≠ c :=
      ne_of_head (.inl isDigit) other sign
    rw [skipBlanks_of_stops solid] at right
    obtain ⟨z, v, first, steps⟩ := accepts_expression.1 right
    obtain ⟨q, read⟩ := accepts_number_of_operand (ne rfl (by decide)) (ne rfl (by decide))
      (isNameStart_eq_false (.inl isDigit)) first
    obtain ⟨q', read'⟩ := exists_accepts_number_neg isDigit read
    obtain ⟨e', climbs'⟩ := steps.exists_through (Nat.zero_le _) climbs (.number q')
    exact ⟨e', accepts_expression.2
      ⟨_, v, accepts_operand_of_accepts_number read' _, climbs'⟩⟩

/-! ### The statement that an expression is read as -/

section Statement

variable (h : (expression 0 s).Accepts e r) (blanks : Blanks r)
include h blanks

/-- An expression is no binding, as no operator is a name. -/
theorem varStatement_eq_none : (varStatement s).reading = none := by
  refine Reply.reading_eq_none_iff.2 fun st u accepted => ?_
  obtain ⟨b, v, name, w, -, -, some, between, solid, rfl, named, -⟩ :=
    accepts_varStatement.1 accepted
  obtain ⟨⟨c, cs, spelled', start, -⟩, -, spelled⟩ := accepts_identifier.1 named
  rw [skipBlanks_of_stops solid, spelled'] at spelled
  have word : IsName ['v', 'a', 'r'] := ⟨'v', ['a', 'r'], rfl, rfl, List.all_eq_true.1 rfl⟩
  have stops : Stops continues (b ++ v) := stops_of_blanks some between
  rcases skipBlanks_of_word word stops h blanks with none | ⟨op, u', symbol⟩
  · rw [skipBlanks_append between solid, spelled] at none
    cases none
  · rw [skipBlanks_append between solid, spelled] at symbol
    rw [(List.cons.inj symbol).1, (toChar_apart op).1] at start
    cases start

/-- An expression is no printed text, as no operator is a quote. -/
theorem printStatement_eq_none : (printStatement s).reading = none := by
  refine Reply.reading_eq_none_iff.2 fun st u accepted => ?_
  obtain ⟨t, v, -, rfl, quote, -⟩ := accepts_printStatement.1 accepted
  have word : IsName ['p', 'r', 'i', 'n', 't'] :=
    ⟨'p', ['r', 'i', 'n', 't'], rfl, rfl, List.all_eq_true.1 rfl⟩
  have stops : Stops continues t := by
    obtain ⟨b, between, split⟩ := exists_blanks_append_skipBlanks t
    rw [split, quote]
    exact .blanks_append between continues_of_isBlank (.cons rfl)
  rcases skipBlanks_of_word word stops h blanks with none | ⟨op, u', symbol⟩
  · rw [quote] at none
    cases none
  · rw [quote] at symbol
    exact (toChar_apart op).2.1 (List.cons.inj symbol).1.symm

/-- An expression is an output only if a negative literal follows the word. -/
theorem outStatement_eq_none (other : ¬ OutputOfNegative s) :
    (outStatement s).reading = none := by
  refine Reply.reading_eq_none_iff.2 fun st u accepted => other ?_
  obtain ⟨b, v, x, some, between, solid, rfl, value, -⟩ := accepts_outStatement.1 accepted
  have word : IsName ['o', 'u', 't'] := ⟨'o', ['u', 't'], rfl, rfl, List.all_eq_true.1 rfl⟩
  have stops : Stops continues (b ++ v) := stops_of_blanks some between
  rw [skipBlanks_of_stops solid] at value
  rcases skipBlanks_of_word word stops h blanks with none | ⟨op, u', symbol⟩
  · rw [skipBlanks_append between solid] at none
    subst none
    exact absurd value.shorter (Nat.not_lt_zero _)
  · rw [skipBlanks_append between solid] at symbol
    subst symbol
    obtain ⟨rfl, digit, rest, isDigit, rfl⟩ := exists_digit_of_accepts value
    exact ⟨[], b, digit, rest, .nil, between, some, isDigit, by simp; rfl⟩

/-- An output of a negative literal, read as an expression, is read as an output as far. -/
theorem exists_accepts_outStatement (negative : OutputOfNegative s) :
    ∃ e', (outStatement s).Accepts (.out e') r := by
  obtain ⟨between, digit, rest, blanks', some, isDigit, split⟩ := negative.skipBlanks_eq
  obtain ⟨⟨text, level, parts, -, derived⟩, -⟩ := derives_of_accepts s (Nat.zero_le _) h
  rw [parts, skipBlanks_of_stops (derived.solid.append r).stops, ← parts] at split
  subst split
  have word : IsName ['o', 'u', 't'] := ⟨'o', ['u', 't'], rfl, rfl, List.all_eq_true.1 rfl⟩
  have sign : Stops isBlank ('-' :: digit :: rest) := .cons rfl
  have climbs := climbs_of_word word (stops_of_blanks some blanks') h
  obtain ⟨e', value⟩ :=
    exists_accepts_of_negative isDigit climbs (skipBlanks_append blanks' sign) blanks
  rw [← skipBlanks_of_stops sign] at value
  exact ⟨e', accepts_outStatement.2 ⟨between, _, e', some, blanks', sign, rfl, value, rfl⟩⟩

/-- **The statement that an expression is read as** is this expression, or an output of an
expression that starts with a negative literal. -/
theorem accepts_statement_of_expression :
    (¬ OutputOfNegative s → (statement s).Accepts (.expression e) r) ∧
      (OutputOfNegative s → ∃ e', (statement s).Accepts (.out e') r) := by
  have no_var := varStatement_eq_none h blanks
  constructor
  · intro other
    have no_out := outStatement_eq_none h blanks other
    have no_print := printStatement_eq_none h blanks
    exact accepts_orElse_of_none no_var (accepts_orElse_of_none no_out
      (accepts_orElse_of_none no_print (Reply.accepts_map.2 ⟨e, h, rfl⟩)))
  · intro negative
    obtain ⟨e', accepted⟩ := exists_accepts_outStatement h blanks negative
    exact ⟨e', accepts_orElse_of_none no_var (accepts_orElse_of_accepts accepted)⟩

end Statement

end Grammar

namespace Program

variable {s : List Char} {e : Expression}

/-- A line that holds a statement and nothing else is a program. -/
theorem parse?_of_statement {st : Statement} {r : List Char}
    (h : (statement (skipBlanks s)).Accepts st r) (blanks : Blanks r) : parse? s = .ok [st] :=
  parse?_eq_ok_iff_lines.2 (.last h blanks)

/-- **Keywords are not reserved.** What is parsed as an expression is parsed as a program of this
expression alone, whatever names it has in it. There is one exception: a text that starts with
`out` and a negative literal behind blanks is parsed as a single output. -/
theorem parse?_of_expression (h : Expression.parse? s = .ok e) :
    (¬ OutputOfNegative s → parse? s = .ok [.expression e]) ∧
      (OutputOfNegative s → ∃ e', parse? s = .ok [.out e']) := by
  obtain ⟨r, accepted, closed⟩ := Expression.parse?_eq_ok_iff_accepts.1 h
  have blanks : Blanks r := blanks_iff_skipBlanks_eq_nil.2 closed
  obtain ⟨expression, output⟩ := accepts_statement_of_expression accepted blanks
  constructor
  · intro other
    exact parse?_of_statement (expression fun negative => other negative.of_skipBlanks) blanks
  · intro negative
    obtain ⟨between, digit, rest, blanks', some, isDigit, split⟩ := negative.skipBlanks_eq
    obtain ⟨e', accepted'⟩ := output ⟨[], between, digit, rest, .nil, blanks', some, isDigit,
      by rw [split, List.nil_append, List.append_assoc]⟩
    exact ⟨e', parse?_of_statement accepted' blanks⟩

/-- The difference of two names that are spelled like keywords, and a difference that is an
output. -/
theorem parse?_of_expression_words :
    let var := Expression.operation (.identifier "var") .subtract (.identifier "out")
    let out := Expression.operation (.identifier "out") .subtract (.number 1)
    (Expression.parse? "var -out".toList = .ok var ∧
        parse? "var -out".toList = .ok [.expression var]) ∧
      (Expression.parse? " out\t-1".toList = .ok out ∧
        ∃ e', parse? " out\t-1".toList = .ok [.out e']) := by
  intro var out
  have first : Expression.parse? "var -out".toList = .ok var := by decide +kernel
  have second : Expression.parse? " out\t-1".toList = .ok out := by decide +kernel
  have other : ¬ OutputOfNegative "var -out".toList := by
    intro negative
    obtain ⟨_, _, _, -, -, -, split⟩ := negative.skipBlanks_eq
    cases split
  exact ⟨⟨first, (parse?_of_expression first).1 other⟩, second, (parse?_of_expression second).2
    ⟨[' '], ['\t'], '1', [], .space, List.all_eq_true.1 rfl, List.cons_ne_nil _ _, rfl, rfl⟩⟩

end Program

end RatCalc
