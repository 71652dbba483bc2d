import Mathlib
import RatCalc.Grammar.Program
import RatCalc.Proofs.Grammar.Climbing
import RatCalc.Proofs.Grammar.Numeral
import RatCalc.Proofs.Grammar.Statement

/-!
# Reading in front of a line break

No word, expression or statement goes on over a line break. So a reader does in front of a line
break what it does at the end of the text: it accepts the same things, with the break and all that
follows it behind the rest, and where it refused it still refuses.

## Main definitions

* `IsBreak`: a text that starts with a line break.
* `Reply.Extends`: a reply accepts what another one does, with more text behind the rest.

## Main results

* `Grammar.extends_expression`: expressions in front of a line break.
* `Grammar.extends_statement`: statements in front of a line break.
-/

namespace RatCalc

/-- A text that starts with a line break, which may have a carriage return. -/
def IsBreak (tail : List Char) : Prop :=
  ∃ s, tail = '\n' :: s ∨ tail = '\r' :: '\n' :: s

/-- The second reply accepts what the first one does, with `tail` behind the rest, and nothing
else. -/
def Reply.Extends {α : Type} {s t : List Char} (tail : List Char) (p : Reply α s)
    (q : Reply α t) : Prop :=
  ∀ value u, q.Accepts value u ↔ ∃ r, u = r ++ tail ∧ p.Accepts value r

/-! ### Runs of characters -/

namespace Stops

variable {p : Char → Bool} {tail : List Char}

/-- A run of characters is the same in front of a text that does not go on with it. -/
theorem takeWhile_eq (stops : Stops p tail) (s : List Char) :
    (s ++ tail).takeWhile p = s.takeWhile p := by
  induction s with
  | nil => exact stops.takeWhile_append fun _ mem => absurd mem List.not_mem_nil
  | cons c s ih =>
    rw [List.cons_append, List.takeWhile_cons, List.takeWhile_cons, ih]

theorem dropWhile_eq (stops : Stops p tail) (s : List Char) :
    (s ++ tail).dropWhile p = s.dropWhile p ++ tail := by
  induction s with
  | nil => exact stops.dropWhile_append fun _ mem => absurd mem List.not_mem_nil
  | cons c s ih =>
    rw [List.cons_append, List.dropWhile_cons, List.dropWhile_cons]
    split
    · exact ih
    · rfl

theorem append_iff (stops : Stops p tail) {s : List Char} : Stops p (s ++ tail) ↔ Stops p s := by
  cases s with
  | nil => exact ⟨fun _ => .nil, fun _ => stops⟩
  | cons c s => rfl

end Stops

namespace IsBreak

variable {tail : List Char}

/-- A class of characters that has no line break stops in front of one. -/
theorem stops {p : Char → Bool} (h : IsBreak tail) (newline : p '\n' = false)
    (carriage : p '\r' = false) : Stops p tail := by
  obtain ⟨s, rfl | rfl⟩ := h
  · exact .cons newline
  · exact .cons carriage

theorem skipBlanks_append (h : IsBreak tail) (s : List Char) :
    skipBlanks (s ++ tail) = skipBlanks s ++ tail :=
  (h.stops rfl rfl).dropWhile_eq s

/-- A text without line breaks that stands in front of a rest does not reach over one. -/
theorem append_eq_append_iff (h : IsBreak tail) {word s u : List Char}
    (newline : '\n' ∉ word) (carriage : '\r' ∉ word) :
    s ++ tail = word ++ u ↔ ∃ r, u = r ++ tail ∧ s = word ++ r := by
  constructor
  · intro split
    rcases List.append_eq_append_iff.1 split with ⟨beyond, rfl, rest⟩ | ⟨r, rfl, rfl⟩
    · cases beyond with
      | nil => exact ⟨[], rest.symm, by rw [List.append_nil, List.append_nil]⟩
      | cons c beyond =>
        have inside : c ∈ s ++ c :: beyond := List.mem_append_right s List.mem_cons_self
        obtain ⟨v, rfl | rfl⟩ := h
        · obtain rfl := (List.cons.inj rest).1
          exact absurd inside newline
        · obtain rfl := (List.cons.inj rest).1
          exact absurd inside carriage
    · exact ⟨r, rfl, rfl⟩
  · rintro ⟨r, rfl, rfl⟩
    exact List.append_assoc word r tail

end IsBreak

/-! ### Sequencing and choice -/

namespace Reply.Extends

variable {α β : Type} {s t tail : List Char} {p : Reply α s} {q : Reply α t}

/-- Where one reply refuses, the other one does. -/
theorem reading_eq_none_iff (h : p.Extends tail q) : q.reading = none ↔ p.reading = none := by
  rw [Reply.reading_eq_none_iff, Reply.reading_eq_none_iff]
  constructor
  · intro refuses value r accepted
    exact refuses value _ ((h value _).2 ⟨r, rfl, accepted⟩)
  · intro refuses value u accepted
    obtain ⟨r, -, accepted'⟩ := (h value u).1 accepted
    exact refuses value r accepted'

theorem map {f : α → β} (h : p.Extends tail q) : (p.map f).Extends tail (q.map f) := by
  intro value u
  simp only [accepts_map]
  constructor
  · rintro ⟨x, accepted, rfl⟩
    obtain ⟨r, rfl, accepted'⟩ := (h x u).1 accepted
    exact ⟨r, rfl, x, accepted', rfl⟩
  · rintro ⟨r, rfl, x, accepted, rfl⟩
    exact ⟨x, (h x _).2 ⟨r, rfl, accepted⟩, rfl⟩

theorem orElse {p' : Unit → Reply α s} {q' : Unit → Reply α t} (h : p.Extends tail q)
    (h' : (p' ()).Extends tail (q' ())) : (p.orElse p').Extends tail (q.orElse q') := by
  intro value u
  simp only [accepts_orElse]
  rw [h.reading_eq_none_iff, h value u, h' value u]
  constructor
  · rintro (⟨r, rfl, accepted⟩ | ⟨none, r, rfl, accepted⟩)
    · exact ⟨r, rfl, .inl accepted⟩
    · exact ⟨r, rfl, .inr ⟨none, accepted⟩⟩
  · rintro ⟨r, rfl, accepted | ⟨none, accepted⟩⟩
    · exact .inl ⟨r, rfl, accepted⟩
    · exact .inr ⟨none, r, rfl, accepted⟩

theorem bind {next : α → (r : List Char) → r.length < s.length → Reply β r}
    {next' : α → (r : List Char) → r.length < t.length → Reply β r} (h : p.Extends tail q)
    (later : ∀ x r less less', (next x r less).Extends tail (next' x (r ++ tail) less')) :
    (p.bind next).Extends tail (q.bind next') := by
  intro value u
  simp only [accepts_bind]
  constructor
  · rintro ⟨x, v, accepted, accepted'⟩
    obtain ⟨r, rfl, first⟩ := (h x v).1 accepted
    obtain ⟨w, rfl, second⟩ := (later x r first.shorter accepted.shorter value u).1 accepted'
    exact ⟨w, rfl, x, r, first, second⟩
  · rintro ⟨w, rfl, x, r, first, second⟩
    have accepted : q.Accepts x (r ++ tail) := (h x _).2 ⟨r, rfl, first⟩
    exact ⟨x, r ++ tail, accepted,
      (later x r first.shorter accepted.shorter value _).2 ⟨w, rfl, second⟩⟩

theorem andThen {next : α → (r : List Char) → r.length < s.length → Reply β r}
    {next' : α → (r : List Char) → r.length < t.length → Reply β r} (isBreak : IsBreak tail)
    (h : p.Extends tail q)
    (later : ∀ x r less less', (next x r less).Extends tail (next' x (r ++ tail) less')) :
    (p.andThen next).Extends tail (q.andThen next') := by
  refine h.bind fun x r less less' value u => ?_
  simp only [accepts_widen]
  have skipped : ∀ v (behind : v = skipBlanks r ++ tail) (shorter : v.length < t.length),
      (next' x v shorter).Accepts value u ↔
        ∃ w, u = w ++ tail ∧ (next x (skipBlanks r)
          (Nat.lt_of_le_of_lt (length_skipBlanks_le r) less)).Accepts value w := by
    rintro _ rfl shorter
    exact later x (skipBlanks r) _ shorter value u
  exact skipped _ (isBreak.skipBlanks_append r) _

end Reply.Extends

namespace Grammar

open Reply (Extends)

variable {s tail : List Char}

/-! ### Words -/

theorem extends_token (isBreak : IsBreak tail) (t : Token) (s : List Char) :
    (token t s).Extends tail (token t (s ++ tail)) := by
  intro value u
  have newline : '\n' ∉ t.chars := by
    cases t with
    | operator op => cases op <;> decide
    | _ => decide
  have carriage : '\r' ∉ t.chars := by
    cases t with
    | operator op => cases op <;> decide
    | _ => decide
  simp only [accepts_token]
  exact isBreak.append_eq_append_iff newline carriage

/-- A class of characters without line breaks holds none. -/
theorem not_mem_of_forall {p : Char → Bool} {word : List Char} {c : Char}
    (inside : ∀ d ∈ word, p d = true) (other : p c = false) : c ∉ word := by
  intro h
  rw [inside c h] at other
  cases other

theorem extends_identifier (isBreak : IsBreak tail) (s : List Char) :
    (identifier s).Extends tail (identifier (s ++ tail)) := by
  intro name u
  have stops : Stops isNameRest tail := isBreak.stops rfl rfl
  simp only [accepts_identifier]
  constructor
  · rintro ⟨isName, ends, split⟩
    have newline := not_mem_of_forall isName.inside (rfl : isNameRest '\n' = false)
    have carriage := not_mem_of_forall isName.inside (rfl : isNameRest '\r' = false)
    obtain ⟨r, rfl, rfl⟩ := (isBreak.append_eq_append_iff newline carriage).1 split
    exact ⟨r, rfl, isName, stops.append_iff.1 ends, rfl⟩
  · rintro ⟨r, rfl, isName, ends, rfl⟩
    exact ⟨isName, stops.append_iff.2 ends, List.append_assoc _ _ _⟩

theorem extends_whitespace (isBreak : IsBreak tail) (s : List Char) :
    (whitespace s).Extends tail (whitespace (s ++ tail)) := by
  intro value u
  have stops : Stops isBlank tail := isBreak.stops rfl rfl
  simp only [accepts_whitespace]
  constructor
  · rintro ⟨b, some, blanks, solid, split⟩
    have newline := not_mem_of_forall blanks (rfl : isBlank '\n' = false)
    have carriage := not_mem_of_forall blanks (rfl : isBlank '\r' = false)
    obtain ⟨r, rfl, rfl⟩ := (isBreak.append_eq_append_iff newline carriage).1 split
    exact ⟨r, rfl, b, some, blanks, stops.append_iff.1 solid, rfl⟩
  · rintro ⟨r, rfl, b, some, blanks, solid, rfl⟩
    exact ⟨b, some, blanks, stops.append_iff.2 solid, List.append_assoc _ _ _⟩

/-- An operator is not written with a line break. -/
theorem toChar_ne_break (op : Operator) : op.toChar ≠ '\n' ∧ op.toChar ≠ '\r' := by
  cases op <;> decide

/-- An operator in front of a rest stands in front of the line break. -/
theorem append_eq_toChar_cons_iff (isBreak : IsBreak tail) {op : Operator} {u : List Char} :
    s ++ tail = op.toChar :: u ↔ ∃ r, u = r ++ tail ∧ s = op.toChar :: r := by
  have newline : '\n' ∉ [op.toChar] := by simpa using (toChar_ne_break op).1.symm
  have carriage : '\r' ∉ [op.toChar] := by simpa using (toChar_ne_break op).2.symm
  exact isBreak.append_eq_append_iff newline carriage

/-- The longest literal is the same in front of a line break. -/
theorem unsignedNumeral_append_break (isBreak : IsBreak tail) (s : List Char) :
    unsignedNumeral (s ++ tail) = ((unsignedNumeral s).1, (unsignedNumeral s).2 ++ tail) := by
  have stops : Stops Char.isDigit tail := isBreak.stops rfl rfl
  unfold unsignedNumeral
  dsimp only
  rw [stops.takeWhile_eq, stops.dropWhile_eq]
  cases whole : s.takeWhile Char.isDigit with
  | nil => rfl
  | cons c cs =>
    cases rest : s.dropWhile Char.isDigit with
    | nil => obtain ⟨v, rfl | rfl⟩ := isBreak <;> rfl
    | cons d ds =>
      rw [List.cons_append]
      by_cases point : d = '.'
      · subst point
        simp only [stops.takeWhile_eq, stops.dropWhile_eq]
        cases ds.takeWhile Char.isDigit <;> rfl
      · simp [point]

theorem numeral_append_break (isBreak : IsBreak tail) (s : List Char) :
    numeral (s ++ tail) = ((numeral s).1, (numeral s).2 ++ tail) := by
  cases s with
  | nil => obtain ⟨v, rfl | rfl⟩ := isBreak <;> rfl
  | cons c s =>
    have cut := unsignedNumeral_append_break isBreak
    by_cases sign : c = '-'
    · subst sign
      rw [List.cons_append, numeral, numeral, cut]
      cases h : unsignedNumeral s with
      | mk literal rest => cases literal <;> rfl
    · have plain : ∀ r, numeral (c :: r) = unsignedNumeral (c :: r) := by
        intro r
        rw [numeral]
        rintro r' h
        exact absurd (List.cons.inj h).1 sign
      rw [List.cons_append, plain, plain, ← List.cons_append, cut]

theorem extends_number (isBreak : IsBreak tail) (s : List Char) :
    (number s).Extends tail (number (s ++ tail)) := by
  intro q u
  simp only [accepts_number, numeral_append_break isBreak, Prod.mk.injEq]
  constructor
  · rintro ⟨text, some, ⟨rfl, rfl⟩, read⟩
    exact ⟨_, rfl, _, some, rfl, read⟩
  · rintro ⟨r, rfl, text, some, cut, read⟩
    exact ⟨text, some, by rw [cut]; exact ⟨rfl, rfl⟩, read⟩

/-! ### Expressions -/

section Operand

variable {inner : Inner s} {inner' : Inner (s ++ tail)}

theorem extends_operand (isBreak : IsBreak tail)
    (h : ∀ r less less', (inner r less).Extends tail (inner' (r ++ tail) less')) :
    (operand s inner).Extends tail (operand (s ++ tail) inner') := by
  have symbol := extends_token isBreak
  refine .orElse ?group (.orElse ?sequence (.orElse ?map (.orElse ?reduce
    (.orElse (extends_number isBreak s).map (extends_identifier isBreak s).map))))
  case group =>
    exact .andThen isBreak (symbol _ _) fun _ _ _ _ => .andThen isBreak (h _ _ _)
      fun _ _ _ _ => (symbol _ _).map
  case sequence =>
    exact .andThen isBreak (symbol _ _) fun _ _ _ _ => .andThen isBreak (h _ _ _)
      fun _ _ _ _ => .andThen isBreak (symbol _ _) fun _ _ _ _ => .andThen isBreak (h _ _ _)
        fun _ _ _ _ => (symbol _ _).map
  case map =>
    exact .andThen isBreak (symbol _ _) fun _ _ _ _ => .andThen isBreak (h _ _ _)
      fun _ _ _ _ => .andThen isBreak (symbol _ _)
        fun _ _ _ _ => .andThen isBreak (extends_identifier isBreak _)
          fun _ _ _ _ => .andThen isBreak (symbol _ _)
            fun _ _ _ _ => .andThen isBreak (h _ _ _) fun _ _ _ _ => (symbol _ _).map
  case reduce =>
    exact .andThen isBreak (symbol _ _) fun _ _ _ _ => .andThen isBreak (h _ _ _)
      fun _ _ _ _ => .andThen isBreak (symbol _ _) fun _ _ _ _ => .andThen isBreak (h _ _ _)
        fun _ _ _ _ => .andThen isBreak (symbol _ _)
          fun _ _ _ _ => .bind (extends_identifier isBreak _)
            fun _ _ _ _ => .andThen isBreak (extends_whitespace isBreak _)
              fun _ _ _ _ => .andThen isBreak (extends_identifier isBreak _)
                fun _ _ _ _ => .andThen isBreak (symbol _ _)
                  fun _ _ _ _ => .andThen isBreak (h _ _ _) fun _ _ _ _ => (symbol _ _).map

end Operand

/-- An expression reader in front of a line break is stuck where it is at the end of the text. -/
theorem stuck_append_iff (isBreak : IsBreak tail) {level : ℕ}
    (h : ∀ t : List Char, t.length < s.length → ∀ level,
      (expression level t).Extends tail (expression level (t ++ tail))) :
    Stuck level (s ++ tail) ↔ Stuck level s := by
  have same : ∀ (op : Operator) (t : List Char), skipBlanks s = op.toChar :: t →
      ((expression (op.precedence + 1) (skipBlanks (t ++ tail))).reading = none ↔
        (expression (op.precedence + 1) (skipBlanks t)).reading = none) := by
    intro op t symbol
    rw [isBreak.skipBlanks_append]
    exact (h (skipBlanks t) (length_skipBlanks_lt symbol) _).reading_eq_none_iff
  constructor
  · intro stuck op t tight symbol
    refine (same op t symbol).1 (stuck op (t ++ tail) tight ?_)
    rw [isBreak.skipBlanks_append, symbol, List.cons_append]
  · intro stuck op u tight symbol
    rw [isBreak.skipBlanks_append, append_eq_toChar_cons_iff isBreak] at symbol
    obtain ⟨t, rfl, symbol⟩ := symbol
    exact (same op t symbol).2 (stuck op t tight symbol)

/-- The steps in front of a line break are those at the end of the text. -/
theorem climbs_append_iff (isBreak : IsBreak tail) {level : ℕ} {x e : Expression}
    {t u : List Char} (less : t.length < s.length)
    (h : ∀ t : List Char, t.length < s.length → ∀ level,
      (expression level t).Extends tail (expression level (t ++ tail))) :
    Climbs level x (t ++ tail) e u ↔ ∃ r, u = r ++ tail ∧ Climbs level x t e r := by
  have shorter : ∀ {t : List Char}, t.length < s.length → ∀ v : List Char, v.length < t.length →
      ∀ level, (expression level v).Extends tail (expression level (v ++ tail)) :=
    fun less v less' => h v (Nat.lt_trans less' less)
  constructor
  · intro climbs
    generalize behind : t ++ tail = w at climbs
    induction climbs generalizing t with
    | stop stuck =>
      subst behind
      exact ⟨t, rfl, .stop ((stuck_append_iff isBreak (shorter less)).1 stuck)⟩
    | @step x y e op r v r' r'' tight symbol right _ ih =>
      subst behind
      rw [isBreak.skipBlanks_append, append_eq_toChar_cons_iff isBreak] at symbol
      obtain ⟨v, rfl, symbol⟩ := symbol
      have less' := (length_skipBlanks_lt symbol).trans less
      rw [isBreak.skipBlanks_append] at right
      obtain ⟨w, rfl, right'⟩ := (h _ less' _ y r').1 right
      obtain ⟨r, rfl, climbs⟩ := ih (Nat.lt_trans right'.shorter less') rfl
      exact ⟨r, rfl, .step tight symbol right' climbs⟩
  · rintro ⟨r, rfl, climbs⟩
    induction climbs with
    | stop stuck => exact .stop ((stuck_append_iff isBreak (shorter less)).2 stuck)
    | @step x y e op t v r' r'' tight symbol right _ ih =>
      have less' := (length_skipBlanks_lt symbol).trans less
      refine .step (t := v ++ tail) tight ?_ ?_ (ih (Nat.lt_trans right.shorter less'))
      · rw [isBreak.skipBlanks_append, symbol, List.cons_append]
      · rw [isBreak.skipBlanks_append]
        exact (h _ less' _ y _).2 ⟨r', rfl, right⟩

/-- **An expression is read in front of a line break as at the end of the text.** -/
theorem extends_expression (isBreak : IsBreak tail) (level : ℕ) (s : List Char) :
    (expression level s).Extends tail (expression level (s ++ tail)) := by
  induction size : s.length using Nat.strong_induction_on generalizing s level with
  | _ n ih =>
    subst size
    have inner : ∀ t : List Char, t.length < s.length → ∀ level,
        (expression level t).Extends tail (expression level (t ++ tail)) :=
      fun t less level => ih t.length less level t rfl
    have first : (operand s fun r _ => expression 0 r).Extends tail
        (operand (s ++ tail) fun r _ => expression 0 r) :=
      extends_operand isBreak fun r less _ => inner r less 0
    intro e u
    simp only [accepts_expression]
    constructor
    · rintro ⟨x, v, accepted, climbs⟩
      obtain ⟨t, rfl, accepted'⟩ := (first x v).1 accepted
      obtain ⟨r, rfl, climbs'⟩ := (climbs_append_iff isBreak accepted'.shorter inner).1 climbs
      exact ⟨r, rfl, x, t, accepted', climbs'⟩
    · rintro ⟨r, rfl, x, t, accepted, climbs⟩
      exact ⟨x, t ++ tail, (first x _).2 ⟨t, rfl, accepted⟩,
        (climbs_append_iff isBreak accepted.shorter inner).2 ⟨r, rfl, climbs⟩⟩

/-! ### Statements -/

/-- A printed text may hold a carriage return, but a quote behind a line break does not close it. -/
theorem extends_printedText (isBreak : IsBreak tail) (s : List Char) :
    (printedText s).Extends tail (printedText (s ++ tail)) := by
  intro text u
  simp only [accepts_printedText_iff]
  by_cases whole : ∀ c ∈ s, isPrintable c = true
  · have front : ∀ v, (s ++ v).dropWhile isPrintable = v.dropWhile isPrintable :=
      fun v => List.dropWhile_append_of_pos whole
    have none : s.dropWhile isPrintable = [] := List.dropWhile_eq_nil_iff.2 whole
    rw [front, none]
    constructor
    · rintro ⟨found, -⟩
      obtain ⟨v, rfl | rfl⟩ := isBreak
      · cases found
      · cases found
    · rintro ⟨r, -, found, -⟩
      cases found
  · have some : s.dropWhile isPrintable ≠ [] := fun none => whole (List.dropWhile_eq_nil_iff.1 none)
    have front : (s ++ tail).takeWhile isPrintable = s.takeWhile isPrintable := by
      have parts : s.takeWhile isPrintable ++ s.dropWhile isPrintable = s :=
        List.takeWhile_append_dropWhile
      have total := congrArg List.length parts
      have left := List.length_pos_of_ne_nil some
      rw [List.length_append] at total
      rw [List.takeWhile_append, if_neg (by omega)]
    have behind : (s ++ tail).dropWhile isPrintable = s.dropWhile isPrintable ++ tail := by
      rw [List.dropWhile_append, if_neg (by simpa using some)]
    rw [front, behind]
    constructor
    · rintro ⟨found, same⟩
      cases cut : s.dropWhile isPrintable with
      | nil => exact absurd cut some
      | cons c r =>
        rw [cut, List.cons_append] at found
        obtain ⟨rfl, rfl⟩ := List.cons.inj found
        exact ⟨r, rfl, rfl, same⟩
    · rintro ⟨r, rfl, found, same⟩
      exact ⟨by rw [found, List.cons_append], same⟩

/-- **A statement is read in front of a line break as at the end of the text.** -/
theorem extends_statement (isBreak : IsBreak tail) (s : List Char) :
    (statement s).Extends tail (statement (s ++ tail)) := by
  have symbol := extends_token isBreak
  have value := extends_expression isBreak 0
  refine .orElse ?var (.orElse ?out (.orElse ?print (value s).map))
  case var =>
    exact .bind (symbol _ _) fun _ _ _ _ => .andThen isBreak (extends_whitespace isBreak _)
      fun _ _ _ _ => .andThen isBreak (extends_identifier isBreak _)
        fun _ _ _ _ => .andThen isBreak (symbol _ _) fun _ r _ _ => (value r).map
  case out =>
    exact .bind (symbol _ _) fun _ _ _ _ => .andThen isBreak (extends_whitespace isBreak _)
      fun _ r _ _ => (value r).map
  case print =>
    exact .andThen isBreak (symbol _ _) fun _ _ _ _ => .bind (symbol _ _)
      fun _ r _ _ => (extends_printedText isBreak r).map

end Grammar

end RatCalc
