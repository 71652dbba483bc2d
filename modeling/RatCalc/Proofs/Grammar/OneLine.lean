import Mathlib
import RatCalc.Grammar.Program
import RatCalc.Proofs.Grammar.Numeral

/-!
# Readers stay on one line

Words, expressions and statements are read without going over a line feed. Whatever such a reader
leaves, and wherever it meets trouble, only characters other than line feeds have been passed. In
particular the rest is an end of the text, and the place of the trouble lies in the text.

## Main definitions

* `OnLine`: what is left of a text behind characters of its first line.
* `Reply.StaysOnLine`: a reply leaves its rest and meets its trouble on the first line.

## Main results

* `Grammar.staysOnLine_expression`: expressions are read on one line.
* `Grammar.staysOnLine_statement`: statements are read on one line.
-/

namespace RatCalc

/-- The second text is what is left of the first one behind characters that are no line feeds. -/
def OnLine (s r : List Char) : Prop :=
  ∃ front, '\n' ∉ front ∧ s = front ++ r

namespace OnLine

variable {s t r : List Char}

theorem refl (s : List Char) : OnLine s s :=
  ⟨[], List.not_mem_nil, rfl⟩

theorem trans (h : OnLine s t) (h' : OnLine t r) : OnLine s r := by
  obtain ⟨front, inside, rfl⟩ := h
  obtain ⟨front', inside', rfl⟩ := h'
  refine ⟨front ++ front', ?_, (List.append_assoc _ _ _).symm⟩
  rw [List.mem_append]
  exact not_or_intro inside inside'

theorem cons {c : Char} (other : c ≠ '\n') (h : OnLine s r) : OnLine (c :: s) r := by
  obtain ⟨front, inside, rfl⟩ := h
  refine ⟨c :: front, ?_, rfl⟩
  rw [List.mem_cons]
  exact not_or_intro other.symm inside

/-- A run of characters that has no line feed is passed on one line. -/
theorem dropWhile {p : Char → Bool} (newline : p '\n' = false) (s : List Char) :
    OnLine s (s.dropWhile p) := by
  refine ⟨s.takeWhile p, fun inside => ?_, List.takeWhile_append_dropWhile.symm⟩
  rw [List.mem_takeWhile_imp inside] at newline
  cases newline

theorem skipBlanks (s : List Char) : OnLine s (RatCalc.skipBlanks s) :=
  dropWhile rfl s

theorem suffix (h : OnLine s r) : r <:+ s := by
  obtain ⟨front, -, rfl⟩ := h
  exact List.suffix_append front r

/-- What is left of a text in front of a line feed still stands in front of it. -/
theorem exists_append {tail : List Char} (h : OnLine (s ++ '\n' :: tail) r) :
    ∃ v, r = v ++ '\n' :: tail ∧ OnLine s v := by
  obtain ⟨front, inside, split⟩ := h
  rcases List.append_eq_append_iff.1 split with ⟨beyond, rfl, rest⟩ | ⟨v, rfl, rfl⟩
  · cases beyond with
    | nil =>
      rw [List.append_nil] at inside
      exact ⟨[], rest.symm, s, inside, (List.append_nil s).symm⟩
    | cons c beyond =>
      obtain rfl := (List.cons.inj rest).1
      exact absurd (List.mem_append_right s List.mem_cons_self) inside
  · exact ⟨v, rfl, front, inside, rfl⟩

end OnLine

/-! ### Trouble that is met on the way -/

/-- The further one of two places of trouble is one of the two places. -/
theorem left_furthest {a b : Option Trouble} {t : Trouble} (h : t ∈ furthest a b) :
    (∃ u ∈ a, u.left = t.left) ∨ ∃ u ∈ b, u.left = t.left := by
  cases a with
  | none => exact .inr ⟨t, h, rfl⟩
  | some first =>
    cases b with
    | none => exact .inl ⟨t, h, rfl⟩
    | some second =>
      unfold furthest at h
      dsimp only at h
      split_ifs at h
      · exact .inl ⟨first, rfl, by rw [Option.some.inj h]⟩
      · exact .inr ⟨second, rfl, by rw [Option.some.inj h]⟩
      · exact .inl ⟨first, rfl, by rw [← Option.some.inj h]⟩

/-- Trouble that is met on the first line of a text. -/
def MetOnLine (s : List Char) (trouble : Option Trouble) : Prop :=
  ∀ t ∈ trouble, ∃ r, OnLine s r ∧ t.left = r.length

namespace MetOnLine

variable {s r : List Char} {a b : Option Trouble}

theorem none (s : List Char) : MetOnLine s .none :=
  fun _ h => absurd h (Option.not_mem_none _)

theorem some {expected : List Expected} (h : OnLine s r) :
    MetOnLine s (.some ⟨r.length, expected⟩) := by
  intro t ht
  rw [← Option.some.inj ht]
  exact ⟨r, h, rfl⟩

theorem furthest (h : MetOnLine s a) (h' : MetOnLine s b) :
    MetOnLine s (RatCalc.furthest a b) := by
  intro t ht
  rcases left_furthest ht with ⟨u, hu, same⟩ | ⟨u, hu, same⟩
  · rw [← same]
    exact h u hu
  · rw [← same]
    exact h' u hu

theorem trans (reached : OnLine s r) (h : MetOnLine r a) : MetOnLine s a := by
  intro t ht
  obtain ⟨v, behind, left⟩ := h t ht
  exact ⟨v, reached.trans behind, left⟩

end MetOnLine

/-! ### Sequencing and choice -/

/-- A reply leaves its rest and meets its trouble on the first line of the text. -/
structure Reply.StaysOnLine {α : Type} {s : List Char} (p : Reply α s) : Prop where
  rest : ∀ {value r}, p.Accepts value r → OnLine s r
  trouble : MetOnLine s p.trouble

namespace Reply.StaysOnLine

variable {α β : Type} {s t : List Char} {p : Reply α s}

theorem none {trouble : Option Trouble} (met : MetOnLine s trouble) :
    (⟨.none, trouble⟩ : Reply α s).StaysOnLine where
  rest := by
    rintro _ _ ⟨_, ⟨⟩⟩
  trouble := met

theorem some {x : Reading α s} {trouble : Option Trouble} (reached : OnLine s x.rest)
    (met : MetOnLine s trouble) : (⟨.some x, trouble⟩ : Reply α s).StaysOnLine where
  rest := by
    rintro _ _ ⟨_, ⟨⟩⟩
    exact reached
  trouble := met

theorem accept {value : α} {r : List Char} {shorter : r.length < s.length} (h : OnLine s r) :
    (Reply.accept value r shorter).StaysOnLine :=
  .some h (.none s)

theorem refuse (s : List Char) (expected : List Expected) :
    (Reply.refuse s expected : Reply α s).StaysOnLine :=
  .none (.some (.refl s))

theorem map {f : α → β} (h : p.StaysOnLine) : (p.map f).StaysOnLine where
  rest accepted := by
    obtain ⟨x, accepted, -⟩ := accepts_map.1 accepted
    exact h.rest accepted
  trouble := h.trouble

theorem after {earlier : Option Trouble} (h : p.StaysOnLine) (met : MetOnLine s earlier) :
    (p.after earlier).StaysOnLine where
  rest accepted := h.rest (accepts_after.1 accepted)
  trouble := met.furthest h.trouble

/-- A reply that stays on the line from a place on the line does so from the front. -/
theorem widen {q : Reply α t} {shorter : t.length ≤ s.length} (h : q.StaysOnLine)
    (reached : OnLine s t) : (q.widen shorter : Reply α s).StaysOnLine where
  rest accepted := reached.trans (h.rest (accepts_widen.1 accepted))
  trouble := .trans reached h.trouble

theorem orElse {q : Unit → Reply α s} (h : p.StaysOnLine) (h' : (q ()).StaysOnLine) :
    (p.orElse q).StaysOnLine := by
  unfold Reply.orElse
  split
  · exact h
  · exact h'.after h.trouble

theorem bind {next : α → (r : List Char) → r.length < s.length → Reply β r}
    (h : p.StaysOnLine) (later : ∀ x r less, (next x r less).StaysOnLine) :
    (p.bind next).StaysOnLine := by
  unfold Reply.bind
  split
  · exact .none h.trouble
  · next x some =>
    exact ((later _ _ _).widen (h.rest ⟨x.shorter, some⟩)).after h.trouble

theorem andThen {next : α → (r : List Char) → r.length < s.length → Reply β r}
    (h : p.StaysOnLine) (later : ∀ x r less, (next x r less).StaysOnLine) :
    (p.andThen next).StaysOnLine :=
  h.bind fun x r _ => (later x (skipBlanks r) _).widen (.skipBlanks r)

end Reply.StaysOnLine

namespace Grammar

open Reply (StaysOnLine)

variable {s : List Char}

/-! ### Words -/

theorem staysOnLine_token (t : Token) (s : List Char) : (token t s).StaysOnLine := by
  have newline : '\n' ∉ t.chars := by
    cases t with
    | operator op => cases op <;> decide
    | _ => decide
  unfold token
  split
  · next h => exact .accept ⟨t.chars, newline, eq_append_of_afterChars? h⟩
  · exact .refuse _ _

theorem staysOnLine_identifier (s : List Char) : (identifier s).StaysOnLine := by
  cases s with
  | nil => exact .refuse _ _
  | cons c s =>
    unfold identifier
    dsimp only
    split_ifs with start
    · refine .accept (.cons ?_ (.dropWhile rfl s))
      rintro rfl
      exact absurd start (by decide)
    · exact .refuse _ _

/-- Digits, the sign and the point of a literal are no line feeds. -/
theorem newline_not_mem_literal {text : List Char} {q : Fraction}
    (h : Fraction.ofLiteral? text = .ok q) : '\n' ∉ text := by
  obtain ⟨l, rfl, -⟩ := Fraction.ofLiteral?_eq_ok_iff.1 h
  have digit : ∀ {run : List Char}, (∀ c ∈ run, c.isDigit = true) → '\n' ∉ run :=
    fun digits inside => absurd (digits _ inside) (by decide)
  have places : '\n' ∉ Literal.pointed l.places := by
    have inside := digit l.places_digits
    cases some : l.places with
    | nil => exact List.not_mem_nil
    | cons c cs =>
      rw [some] at inside
      rw [Literal.pointed, List.mem_cons]
      exact not_or_intro (by decide) inside
  have unsigned : '\n' ∉ l.unsigned := by
    rw [Literal.unsigned, List.mem_append]
    exact not_or_intro (digit l.whole_digits) places
  rw [Literal.text]
  split
  · rw [List.mem_cons]
    exact not_or_intro (by decide) unsigned
  · exact unsigned

theorem staysOnLine_number (s : List Char) : (number s).StaysOnLine where
  rest accepted := by
    obtain ⟨text, rfl, read⟩ := exists_of_accepts_number accepted
    exact ⟨text, newline_not_mem_literal read, rfl⟩
  trouble := by
    unfold number
    split
    · exact .some (.refl s)
    · split
      · exact .none s
      · exact .some (.refl s)

theorem staysOnLine_operator (level : ℕ) (s : List Char) : (operator level s).StaysOnLine := by
  cases s with
  | nil => exact .refuse _ _
  | cons c s =>
    unfold operator
    dsimp only
    split
    · next op found =>
      have spelled := List.find?_some found
      rw [beq_iff_eq] at spelled
      refine .accept (.cons ?_ (.refl s))
      rw [← spelled]
      cases op <;> decide
    · exact .refuse _ _

theorem staysOnLine_whitespace (s : List Char) : (whitespace s).StaysOnLine := by
  cases s with
  | nil => exact .refuse _ _
  | cons c s =>
    unfold whitespace
    dsimp only
    split_ifs with blank
    · refine .accept (.cons ?_ (.skipBlanks s))
      rintro rfl
      exact absurd blank (by decide)
    · exact .refuse _ _

/-! ### Expressions -/

theorem staysOnLine_operand {inner : Inner s} (h : ∀ r less, (inner r less).StaysOnLine) :
    (operand s inner).StaysOnLine := by
  have symbol := staysOnLine_token
  refine .orElse ?group (.orElse ?sequence (.orElse ?map (.orElse ?reduce
    (.orElse (staysOnLine_number s).map (staysOnLine_identifier s).map))))
  case group =>
    exact .andThen (symbol _ _) fun _ _ _ => .andThen (h _ _) fun _ _ _ => (symbol _ _).map
  case sequence =>
    exact .andThen (symbol _ _) fun _ _ _ => .andThen (h _ _) fun _ _ _ =>
      .andThen (symbol _ _) fun _ _ _ => .andThen (h _ _) fun _ _ _ => (symbol _ _).map
  case map =>
    exact .andThen (symbol _ _) fun _ _ _ => .andThen (h _ _) fun _ _ _ =>
      .andThen (symbol _ _) fun _ _ _ => .andThen (staysOnLine_identifier _) fun _ _ _ =>
        .andThen (symbol _ _) fun _ _ _ => .andThen (h _ _) fun _ _ _ => (symbol _ _).map
  case reduce =>
    exact .andThen (symbol _ _) fun _ _ _ => .andThen (h _ _) fun _ _ _ =>
      .andThen (symbol _ _) fun _ _ _ => .andThen (h _ _) fun _ _ _ =>
        .andThen (symbol _ _) fun _ _ _ => .bind (staysOnLine_identifier _) fun _ _ _ =>
          .andThen (staysOnLine_whitespace _) fun _ _ _ =>
            .andThen (staysOnLine_identifier _) fun _ _ _ => .andThen (symbol _ _) fun _ _ _ =>
              .andThen (h _ _) fun _ _ _ => (symbol _ _).map

/-- Climbing stays on the line if the operands do that are read on the way. -/
theorem staysOnLine_climb {level : ℕ}
    (h : ∀ t : List Char, t.length < s.length → ∀ level, (expression level t).StaysOnLine)
    {left : Reading Expression s} {trouble : Option Trouble} (reached : OnLine s left.rest)
    (met : MetOnLine s trouble) :
    (climb level (fun tighter r _ => expression tighter r) left trouble).StaysOnLine := by
  induction size : left.rest.length using Nat.strong_induction_on generalizing left trouble with
  | _ n ih =>
    subst size
    have within : OnLine s (skipBlanks left.rest) := reached.trans (.skipBlanks _)
    have next : ((operator level (skipBlanks left.rest)).andThen fun op r _ =>
        (expression (op.precedence + 1) r).map fun right => (op, right)).StaysOnLine :=
      .andThen (staysOnLine_operator _ _) fun op r less =>
        (h r (less.trans ((length_skipBlanks_le _).trans_lt left.shorter)) _).map
    have met' := met.furthest (.trans within next.trouble)
    rw [climb]
    split
    · exact .some reached met'
    · next op right rest shorter some =>
      exact ih rest.length (Nat.lt_of_lt_of_le shorter (length_skipBlanks_le left.rest))
        (within.trans (next.rest ⟨shorter, some⟩)) met' rfl

/-- **An expression is read on one line.** -/
theorem staysOnLine_expression (level : ℕ) (s : List Char) :
    (expression level s).StaysOnLine := by
  induction size : s.length using Nat.strong_induction_on generalizing s level with
  | _ n ih =>
    subst size
    have inner : ∀ t : List Char, t.length < s.length → ∀ level, (expression level t).StaysOnLine :=
      fun t less level => ih t.length less level t rfl
    have first : (operand s fun r _ => expression 0 r).StaysOnLine :=
      staysOnLine_operand fun r less => inner r less 0
    rw [expression]
    split
    · next none =>
      rw [none] at first
      exact .none first.trouble
    · next left trouble some =>
      rw [some] at first
      exact staysOnLine_climb inner (first.rest ⟨left.shorter, rfl⟩) first.trouble

/-! ### Statements -/

theorem staysOnLine_printedText (s : List Char) : (printedText s).StaysOnLine := by
  have stop : OnLine s (s.dropWhile isPrintable) := .dropWhile rfl s
  unfold printedText
  dsimp only
  split
  · next rest found =>
    have behind : OnLine ('"' :: rest) rest := .cons (by decide) (.refl rest)
    exact .some ((found ▸ stop).trans behind) (.some stop)
  · exact .none (.some stop)

/-- **A statement is read on one line.** -/
theorem staysOnLine_statement (s : List Char) : (statement s).StaysOnLine := by
  have symbol := staysOnLine_token
  have value := staysOnLine_expression 0
  refine .orElse ?var (.orElse ?out (.orElse ?print (value s).map))
  case var =>
    exact .bind (symbol _ _) fun _ _ _ => .andThen (staysOnLine_whitespace _) fun _ _ _ =>
      .andThen (staysOnLine_identifier _) fun _ _ _ => .andThen (symbol _ _) fun _ r _ =>
        (value r).map
  case out =>
    exact .bind (symbol _ _) fun _ _ _ => .andThen (staysOnLine_whitespace _) fun _ r _ =>
      (value r).map
  case print =>
    exact .andThen (symbol _ _) fun _ _ _ => .bind (symbol _ _) fun _ r _ =>
      (staysOnLine_printedText r).map

end Grammar

end RatCalc
