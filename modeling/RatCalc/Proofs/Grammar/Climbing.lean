import Mathlib
import RatCalc.Grammar.Expression
import RatCalc.Proofs.Grammar.Reading

/-!
# Climbing over operators

Behind an operand the reader of expressions takes steps. A step joins an operator that binds
tightly enough and the operand behind it to what was read so far. The reader stops where no step
can be taken: where no such operator stands, or where none of its operands can be read.

## Main definitions

* `Grammar.Stuck`: no step can be taken in front of a rest.
* `Grammar.Climbs`: the steps from one expression and rest to another.

## Main results

* `Grammar.accepts_climb`: the reader climbs.
* `Grammar.accepts_expression`: an expression is an operand from which the reader climbs.
-/

namespace RatCalc

namespace Grammar

/-- No operator that binds at least as tightly as `level` can be joined with an operand behind
it. -/
def Stuck (level : ℕ) (r : List Char) : Prop :=
  ∀ (op : Operator) (t : List Char), level ≤ op.precedence → skipBlanks r = op.toChar :: t →
    (expression (op.precedence + 1) (skipBlanks t)).reading = none

/-- The reader climbs from an expression in front of a rest to another one, and is stuck there. -/
inductive Climbs (level : ℕ) : Expression → List Char → Expression → List Char → Prop
  | stop {e : Expression} {r : List Char} (stuck : Stuck level r) : Climbs level e r e r
  | step {x y e : Expression} {op : Operator} {r t r' r'' : List Char}
      (tight : level ≤ op.precedence) (symbol : skipBlanks r = op.toChar :: t)
      (right : (expression (op.precedence + 1) (skipBlanks t)).Accepts y r')
      (climbs : Climbs level (.operation x op y) r' e r'') : Climbs level x r e r''

/-- A step reads an operator and the operand behind it. -/
theorem accepts_step {level : ℕ} {s r' : List Char} {op : Operator} {y : Expression} :
    ((operator level s).andThen fun o t _ =>
        (expression (o.precedence + 1) t).map fun right => (o, right)).Accepts (op, y) r' ↔
      level ≤ op.precedence ∧ ∃ t, s = op.toChar :: t ∧
        (expression (op.precedence + 1) (skipBlanks t)).Accepts y r' := by
  simp only [Reply.accepts_andThen, Reply.accepts_map, accepts_operator, exists_prop]
  constructor
  · rintro ⟨o, t, ⟨tight, spelled⟩, right, accepted, same⟩
    cases same
    exact ⟨tight, t, spelled, accepted⟩
  · rintro ⟨tight, t, rfl, accepted⟩
    exact ⟨op, t, ⟨tight, rfl⟩, y, accepted, rfl⟩

/-- **The reader climbs.** -/
theorem accepts_climb {level : ℕ} {s : List Char} (left : Reading Expression s)
    (trouble : Option Trouble) {e : Expression} {r : List Char} :
    (climb level (fun tighter r _ => expression tighter r) left trouble).Accepts e r ↔
      Climbs level left.value left.rest e r := by
  induction size : left.rest.length using Nat.strong_induction_on generalizing left trouble with
  | _ n ih =>
    subst size
    rw [climb]
    split
    · next none =>
      have stuck : Stuck level left.rest := by
        intro op t tight symbol
        refine Reply.reading_eq_none_iff.2 fun y r' accepted => ?_
        exact Reply.reading_eq_none_iff.1 none (op, y) r'
          (accepts_step.2 ⟨tight, t, symbol, accepted⟩)
      constructor
      · rintro ⟨_, h⟩
        cases h
        exact .stop stuck
      · intro h
        cases h with
        | stop => exact ⟨left.shorter, rfl⟩
        | step tight symbol right _ =>
          exact absurd right (Reply.reading_eq_none_iff.1 (stuck _ _ tight symbol) _ _)
    · next op right rest shorter some =>
      obtain ⟨tight, t, symbol, accepted⟩ := accepts_step.1 ⟨shorter, some⟩
      have less : rest.length < left.rest.length :=
        Nat.lt_of_lt_of_le shorter (length_skipBlanks_le left.rest)
      rw [ih rest.length less _ _ rfl]
      constructor
      · intro h
        exact .step tight symbol accepted h
      · intro h
        cases h with
        | stop stuck =>
          exact absurd accepted (Reply.reading_eq_none_iff.1 (stuck _ _ tight symbol) _ _)
        | step _ symbol' accepted' climbs =>
          obtain ⟨sameChar, rfl⟩ := List.cons.inj (symbol.symm.trans symbol')
          cases Operator.toChar_injective sameChar
          obtain ⟨rfl, rfl⟩ := accepted.unique accepted'
          exact climbs

/-- **An expression is an operand from which the reader climbs.** -/
theorem accepts_expression {level : ℕ} {s : List Char} {e : Expression} {r : List Char} :
    (expression level s).Accepts e r ↔
      ∃ x t, (operand s fun r _ => expression 0 r).Accepts x t ∧ Climbs level x t e r := by
  rw [expression]
  split
  · next trouble none =>
    constructor
    · rintro ⟨_, h⟩
      cases h
    · rintro ⟨x, t, ⟨_, h⟩, -⟩
      rw [none] at h
      cases h
  · next left trouble some =>
    rw [accepts_climb]
    constructor
    · intro climbs
      exact ⟨left.value, left.rest, ⟨left.shorter, by rw [some]⟩, climbs⟩
    · rintro ⟨x, t, ⟨_, h⟩, climbs⟩
      rw [some] at h
      cases h
      exact climbs

end Grammar

end RatCalc
