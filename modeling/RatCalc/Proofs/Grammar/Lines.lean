import Mathlib
import RatCalc.Proofs.Grammar.Exactness
import RatCalc.Proofs.Grammar.LineBreak

/-!
# Programs are read line by line

A text is a program if each of its lines is empty or holds one statement. The reader of programs
skips several line ends at once, and leaves those behind the last statement to the end; this comes
to the same. So a program and another one behind a line break are one program.

## Main definitions

* `Program.Lines`: a text is read as a program, one line after another.

## Main results

* `Program.parse?_eq_ok_iff_lines`: the texts that are read as a program.
* `Program.parse?_append`: two programs with a line break between them.
-/

namespace RatCalc

/-- Blanks are skipped up to the end. -/
theorem blanks_iff_skipBlanks_eq_nil {s : List Char} : Blanks s ↔ skipBlanks s = [] :=
  List.dropWhile_eq_nil_iff.symm

namespace Grammar

variable {s r t : List Char} {st : Statement} {p : Program}

/-- Nothing is read from the empty text. -/
theorem reading_nil {α : Type} (p : Reply α []) : p.reading = none :=
  Reply.reading_eq_none_iff.2 fun _ _ h => absurd h.shorter (Nat.not_lt_zero _)

/-- A reply accepts something if it does not refuse. -/
theorem exists_accepts {α : Type} {p : Reply α s} (h : p.reading ≠ none) :
    ∃ value r, p.Accepts value r := by
  obtain ⟨x, some⟩ := Option.ne_none_iff_exists'.1 h
  exact ⟨x.value, x.rest, x.shorter, some⟩

/-! ### Line ends -/

/-- A line ends behind blanks. -/
theorem accepts_lineEnd_iff {u : Unit} :
    (lineEnd s).Accepts u r ↔ skipBlanks s = '\n' :: r ∨ skipBlanks s = '\r' :: '\n' :: r := by
  unfold lineEnd
  split
  · next rest found =>
    rw [Reply.accepts_accept, found]
    simp [eq_comm]
  · next rest found =>
    rw [Reply.accepts_accept, found]
    simp [eq_comm]
  · next newline carriage =>
    constructor
    · intro h
      exact absurd h Reply.not_accepts_refuse
    · rintro (found | found)
      · exact absurd found (newline r)
      · exact absurd found (carriage r)

/-- A line that ends starts with a line break, up to blanks. -/
theorem isBreak_of_accepts {u : Unit} (h : (lineEnd s).Accepts u r) : IsBreak (skipBlanks s) :=
  ⟨r, accepts_lineEnd_iff.1 h⟩

section Front

variable {tail : List Char} (isBreak : IsBreak tail)
include isBreak

/-- Blanks in front of a break belong to the line that it ends. -/
theorem accepts_lineEnd_of_blanks (ends : (lineEnd tail).Accepts () r) (blanks : Blanks s) :
    (lineEnd (s ++ tail)).Accepts () r := by
  rw [accepts_lineEnd_iff] at ends ⊢
  rw [skipBlanks_append blanks (isBreak.stops rfl rfl)]
  rwa [skipBlanks_of_stops (isBreak.stops rfl rfl)] at ends

/-- A line that ends does so in front of a break, too. -/
theorem accepts_lineEnd_in_front (ends : (lineEnd s).Accepts () r) :
    (lineEnd (s ++ tail)).Accepts () (r ++ tail) := by
  rw [accepts_lineEnd_iff] at ends ⊢
  rw [isBreak.skipBlanks_append]
  rcases ends with found | found
  · exact .inl (by rw [found, List.cons_append])
  · exact .inr (by rw [found, List.cons_append, List.cons_append])

/-- The statement of a line is the same in front of a break, and it does not reach behind. -/
theorem accepts_statement_in_front_iff : (statement (skipBlanks (s ++ tail))).Accepts st t ↔
    ∃ u, t = u ++ tail ∧ (statement (skipBlanks s)).Accepts st u := by
  rw [isBreak.skipBlanks_append]
  exact extends_statement isBreak _ st t

end Front

/-- No statement is read in an empty line. -/
theorem statement_eq_none_of_isBreak {tail : List Char} (isBreak : IsBreak tail) :
    (statement tail).reading = none :=
  (extends_statement isBreak []).reading_eq_none_iff.2 (reading_nil _)

/-- A line that holds a statement is not empty. -/
theorem lineEnd_eq_none_of_statement (h : (statement (skipBlanks s)).Accepts st r) :
    (lineEnd s).reading = none := by
  refine Reply.reading_eq_none_iff.2 fun u t ends => ?_
  have refused := statement_eq_none_of_isBreak (isBreak_of_accepts ends)
  exact Reply.reading_eq_none_iff.1 refused st r h

theorem lineEnd_eq_none_of_blanks (h : Blanks s) : (lineEnd s).reading = none := by
  refine Reply.reading_eq_none_iff.2 fun u r ends => ?_
  rw [accepts_lineEnd_iff, blanks_iff_skipBlanks_eq_nil.1 h] at ends
  rcases ends with found | found <;> cases found

/-- Where there is no line end, none is skipped. -/
theorem skipLineEnds_of_none (h : (lineEnd s).reading = none) :
    (lineEnds s).reading = none ∧ (skipLineEnds s).1 = s := by
  have refused : (lineEnds s).reading = none := by
    rw [lineEnds]
    split
    · rfl
    · next found =>
      rw [found] at h
      cases h
  refine ⟨refused, ?_⟩
  unfold skipLineEnds
  split
  · rfl
  · next found =>
    rw [found] at refused
    cases refused

/-- Where there is a line end, it and those behind it are skipped. -/
theorem skipLineEnds_of_accepts (h : (lineEnd s).Accepts () r) :
    (lineEnds s).Accepts () (skipLineEnds r).1 ∧ (skipLineEnds s).1 = (skipLineEnds r).1 := by
  have accepted : (lineEnds s).Accepts () (skipLineEnds r).1 := by
    obtain ⟨shorter, first⟩ := h
    rw [lineEnds]
    split
    · next found =>
      rw [found] at first
      cases first
    · next found =>
      rw [found] at first
      cases first
      unfold skipLineEnds
      split
      · next last =>
        rw [last]
        exact ⟨shorter, rfl⟩
      · next more =>
        rw [more]
        exact ⟨_, rfl⟩
  refine ⟨accepted, ?_⟩
  obtain ⟨shorter, accepted⟩ := accepted
  rw [skipLineEnds]
  split
  · next found =>
    rw [found] at accepted
    cases accepted
  · next found =>
    rw [found] at accepted
    cases accepted
    rfl

/-- Skipping line ends leaves a text that is no longer, without a line end in front. -/
theorem lineEnd_skipLineEnds (s : List Char) :
    (lineEnd (skipLineEnds s).1).reading = none ∧ (skipLineEnds s).1.length ≤ s.length := by
  induction size : s.length using Nat.strong_induction_on generalizing s with
  | _ n ih =>
    subst size
    by_cases refused : (lineEnd s).reading = none
    · rw [(skipLineEnds_of_none refused).2]
      exact ⟨refused, le_rfl⟩
    · obtain ⟨⟨⟩, r, accepted⟩ := exists_accepts refused
      rw [(skipLineEnds_of_accepts accepted).2]
      obtain ⟨refused, le⟩ := ih r.length accepted.shorter r rfl
      exact ⟨refused, le.trans accepted.shorter.le⟩

/-! ### Blocks -/

/-- Where no statement is read, a block is empty. -/
theorem block_of_none (h : (statement (skipBlanks s)).reading = none) :
    block s = ⟨[], s, (statement (skipBlanks s)).trouble⟩ := by
  rw [block]
  split
  · next found => rw [found]
  · next found =>
    rw [found] at h
    cases h

/-- A statement that no line end follows is the last one. -/
theorem block_of_last (h : (statement (skipBlanks s)).Accepts st r)
    (last : (lineEnds r).reading = none) :
    block s = ⟨[st], r, furthest (statement (skipBlanks s)).trouble (lineEnds r).trouble⟩ := by
  obtain ⟨shorter, first⟩ := h
  rw [block]
  split
  · next found =>
    rw [found] at first
    cases first
  · next found =>
    rw [found] at first ⊢
    cases first
    split
    · next again => rw [again]
    · next again =>
      rw [again] at last
      cases last

/-- A statement comes before those that follow behind line ends. Where there are none, the line
ends are left in the rest. -/
theorem block_of_more (h : (statement (skipBlanks s)).Accepts st r)
    (lines : (lineEnds r).Accepts () t) :
    block s = ⟨st :: (block t).statements,
      if (block t).statements = [] then r else (block t).rest,
      furthest (furthest (statement (skipBlanks s)).trouble (lineEnds r).trouble)
        (block t).trouble⟩ := by
  obtain ⟨shorter, first⟩ := h
  obtain ⟨shorter', lines⟩ := lines
  rw [block]
  split
  · next found =>
    rw [found] at first
    cases first
  · next found =>
    rw [found] at first ⊢
    cases first
    split
    · next again =>
      rw [again] at lines
      cases lines
    · next again =>
      rw [again] at lines ⊢
      cases lines
      dsimp only
      split
      · next empty => rw [empty, if_pos rfl]
      · next more => rw [if_neg more]

/-- An empty block leaves the whole text. -/
theorem rest_of_statements_eq_nil (h : (block s).statements = []) : (block s).rest = s := by
  by_cases refused : (statement (skipBlanks s)).reading = none
  · rw [block_of_none refused]
  · obtain ⟨st, r, accepted⟩ := exists_accepts refused
    by_cases last : (lineEnds r).reading = none
    · rw [block_of_last accepted last] at h
      cases h
    · obtain ⟨⟨⟩, t, lines⟩ := exists_accepts last
      rw [block_of_more accepted lines] at h
      cases h

/-- The statements in front of a text are these, and behind them there are empty lines only. -/
def Ended (s : List Char) (p : Program) : Prop :=
  (block s).statements = p ∧ skipBlanks (skipLineEnds (block s).rest).1 = []

end Grammar

namespace Program

open Grammar

variable {s r : List Char} {p q : Program}

/-- A text is read as a program line by line: a line is empty or holds one statement, and the last
one need not end. -/
inductive Lines : List Char → Program → Prop
  | blank {s : List Char} (h : Blanks s) : Lines s []
  | last {s r : List Char} {st : Statement} (h : (statement (skipBlanks s)).Accepts st r)
      (behind : Blanks r) : Lines s [st]
  | skip {s r : List Char} {p : Program} (ends : (lineEnd s).Accepts () r) (more : Lines r p) :
      Lines s p
  | cons {s r t : List Char} {st : Statement} {p : Program}
      (h : (statement (skipBlanks s)).Accepts st r) (ends : (lineEnd r).Accepts () t)
      (more : Lines t p) : Lines s (st :: p)

namespace Lines

/-- Line ends may be put in front. -/
theorem of_skipLineEnds (h : Lines (skipLineEnds s).1 p) : Lines s p := by
  induction size : s.length using Nat.strong_induction_on generalizing s with
  | _ n ih =>
    subst size
    by_cases refused : (lineEnd s).reading = none
    · rwa [(skipLineEnds_of_none refused).2] at h
    · obtain ⟨⟨⟩, r, accepted⟩ := exists_accepts refused
      rw [(skipLineEnds_of_accepts accepted).2] at h
      exact .skip accepted (ih r.length accepted.shorter h rfl)

/-- A text that is read line by line is a block of statements with empty lines around it. -/
theorem ended (h : Lines s p) : Ended (skipLineEnds s).1 p := by
  induction h with
  | @blank s blanks =>
    have empty := blanks_iff_skipBlanks_eq_nil.1 blanks
    have same := (skipLineEnds_of_none (lineEnd_eq_none_of_blanks blanks)).2
    have refused : (statement (skipBlanks s)).reading = none := by
      rw [empty]
      exact reading_nil _
    rw [same, Ended, block_of_none refused]
    exact ⟨rfl, by rw [same, empty]⟩
  | @last s r st first blanks =>
    obtain ⟨refused, behind⟩ := skipLineEnds_of_none (lineEnd_eq_none_of_blanks blanks)
    rw [(skipLineEnds_of_none (lineEnd_eq_none_of_statement first)).2, Ended,
      block_of_last first refused]
    exact ⟨rfl, by rw [behind]; exact blanks_iff_skipBlanks_eq_nil.1 blanks⟩
  | skip ends _ ih =>
    rw [(skipLineEnds_of_accepts ends).2]
    exact ih
  | @cons s r t st p first ends _ ih =>
    obtain ⟨lines, behind⟩ := skipLineEnds_of_accepts ends
    rw [(skipLineEnds_of_none (lineEnd_eq_none_of_statement first)).2, Ended,
      block_of_more first lines]
    refine ⟨by rw [ih.1], ?_⟩
    dsimp only
    split_ifs with empty
    · -- Nothing is left behind the line ends, and they are skipped at the end of the text.
      have closed := ih.2
      rw [rest_of_statements_eq_nil empty,
        (skipLineEnds_of_none (lineEnd_skipLineEnds t).1).2] at closed
      rw [behind, closed]
    · exact ih.2

/-- A block of statements with empty lines behind it is read line by line. -/
theorem of_ended (h : Ended s p) : Lines s p := by
  induction size : s.length using Nat.strong_induction_on generalizing s p with
  | _ n ih =>
    subst size
    obtain ⟨rfl, closed⟩ := h
    have empty : ∀ {t : List Char}, skipBlanks (skipLineEnds t).1 = [] → Lines t [] :=
      fun closed => of_skipLineEnds (.blank (blanks_iff_skipBlanks_eq_nil.2 closed))
    by_cases refused : (statement (skipBlanks s)).reading = none
    · rw [block_of_none refused] at closed ⊢
      exact empty closed
    · obtain ⟨st, r, accepted⟩ := exists_accepts refused
      by_cases last : (lineEnd r).reading = none
      · obtain ⟨refused, behind⟩ := skipLineEnds_of_none last
        rw [block_of_last accepted refused] at closed ⊢
        rw [behind] at closed
        exact .last accepted (blanks_iff_skipBlanks_eq_nil.2 closed)
      · obtain ⟨⟨⟩, t, ends⟩ := exists_accepts last
        obtain ⟨lines, behind⟩ := skipLineEnds_of_accepts ends
        rw [block_of_more accepted lines] at closed ⊢
        refine .cons accepted ends ?_
        dsimp only at closed
        split_ifs at closed with nothing
        · rw [nothing]
          rw [behind] at closed
          exact empty closed
        · have shorter : (skipLineEnds t).1.length < s.length :=
            calc (skipLineEnds t).1.length ≤ t.length := (lineEnd_skipLineEnds t).2
              _ < r.length := ends.shorter
              _ < (skipBlanks s).length := accepted.shorter
              _ ≤ s.length := length_skipBlanks_le s
          exact of_skipLineEnds (ih _ shorter ⟨rfl, closed⟩ rfl)

/-- A program in front of a line break goes on with the program behind it. -/
theorem append {tail : List Char} (isBreak : (lineEnd tail).Accepts () r) (solid : IsBreak tail)
    (h : Lines s p) (more : Lines r q) : Lines (s ++ tail) (p ++ q) := by
  have statements {t u : List Char} {st : Statement}
      (first : (statement (skipBlanks t)).Accepts st u) :
      (statement (skipBlanks (t ++ tail))).Accepts st (u ++ tail) :=
    (accepts_statement_in_front_iff solid).2 ⟨u, rfl, first⟩
  induction h with
  | blank blanks => exact .skip (accepts_lineEnd_of_blanks solid isBreak blanks) more
  | last first blanks =>
    exact .cons (statements first) (accepts_lineEnd_of_blanks solid isBreak blanks) more
  | skip ends _ ih => exact .skip (accepts_lineEnd_in_front solid ends) ih
  | cons first ends _ ih =>
    exact .cons (statements first) (accepts_lineEnd_in_front solid ends) ih

end Lines

/-- **A text is read as a program if it is read line by line.** -/
theorem parse?_eq_ok_iff_lines : parse? s = .ok p ↔ Lines s p := by
  have final : ∀ t : List Char, skipFinalBlanks t = [] ↔ skipBlanks t = [] := by
    intro t
    unfold skipFinalBlanks
    split_ifs with blank
    · exact ⟨fun _ => List.isEmpty_iff.1 blank, fun _ => rfl⟩
    · refine ⟨fun empty => ?_, fun empty => absurd (List.isEmpty_iff.2 empty) blank⟩
      rw [empty]
      rfl
  have whole : parse? s = .ok p ↔ Ended (skipLineEnds s).1 p := by
    unfold parse? Ended
    rw [finishReading_eq_ok_iff, final, and_comm]
  rw [whole]
  exact ⟨fun h => .of_skipLineEnds (.of_ended h), Lines.ended⟩

/-- **Two programs with a line break between them are one program.** -/
theorem parse?_append (h : parse? s = .ok p) (h' : parse? r = .ok q) :
    parse? (s ++ '\n' :: r) = .ok (p ++ q) := by
  rw [parse?_eq_ok_iff_lines] at h h' ⊢
  have isBreak : IsBreak ('\n' :: r) := ⟨r, .inl rfl⟩
  have ends : (lineEnd ('\n' :: r)).Accepts () r := accepts_lineEnd_iff.2 (.inl rfl)
  exact h.append ends isBreak h'

end Program

end RatCalc
