import Mathlib
import RatCalc.Proofs.Evaluation.Success

/-!
# Evaluation keeps values well formed

A range has its ends in order, and a list has an item. Every value that an expression comes to is
of this form if the values of its names are. A sequence literal is refused if its ends are
reversed, a `map` keeps the number of items, and what a `reduce` comes to is the initial value, the
sum of a range, or the value of its body for two values of this form. A fraction needs no
condition, as it carries the proof that it is in lowest terms.

## Main definitions

* `Sequence.WellFormed`, `Value.WellFormed`, `Environment.WellFormed`.

## Main results

* `Expression.wellFormed_of_evaluate`: an expression has well-formed values only.
-/

namespace RatCalc

/-- The ends of a range are in order, and a list has an item. -/
def Sequence.WellFormed : Sequence → Prop
  | range first last => first ≤ last
  | list items => 0 < items.size

/-- A number, or a well-formed sequence. -/
def Value.WellFormed : Value → Prop
  | number _ => True
  | sequence items => items.WellFormed

/-- All values of an environment are well formed. -/
def Environment.WellFormed (env : Environment) : Prop :=
  ∀ name v, env.lookup? name = some v → v.WellFormed

/-- A well-formed sequence has an item. -/
theorem Sequence.WellFormed.length_pos {s : Sequence} (h : s.WellFormed) {n : ℕ}
    (fits : s.length? = some n) : 0 < n := by
  cases s with
  | range first last =>
    have order : first ≤ last := h
    have count := (length?_range_eq_some_iff.1 fits).1
    omega
  | list items =>
    obtain rfl : items.size = n := Option.some.inj fits
    exact h

namespace Environment

theorem wellFormed_empty : empty.WellFormed :=
  fun _ _ h => nomatch h

theorem WellFormed.bind {env : Environment} (h : env.WellFormed) (name : Name) {v : Value}
    (hv : v.WellFormed) : (env.bind name v).WellFormed := by
  intro other w hw
  by_cases same : other = name
  · subst same
    rw [lookup?_bind_self] at hw
    exact Option.some.inj hw ▸ hv
  · rw [lookup?_bind_of_ne _ _ same] at hw
    exact h other w hw

end Environment

namespace Expression

variable {config : Config}

/-- What a `reduce` comes to is well formed if its body keeps values well formed. -/
theorem wellFormed_of_reduceSequence {items : Sequence} {initial : Fraction} {sum : Bool}
    {apply : Bool → Value → Value → Except EvalError Value} {v : Value}
    (step : ∀ x y w, x.WellFormed → y.WellFormed → apply false x y = .ok w → w.WellFormed)
    (h : reduceSequence config false items initial sum apply = .ok v) : v.WellFormed := by
  by_cases closed : sum = true ∧ ∃ first last, items = .range first last
  · obtain ⟨rfl, first, last, rfl⟩ := closed
    cases h
    trivial
  · obtain ⟨n, fits, -, run⟩ := (reduceSequence_eq_ok_iff fun summed first last range =>
      closed ⟨summed, first, last, range⟩).1 h
    refine Bracketing.run_keeps step (fun x hx => ?_) run
    rw [Bracketing.items_halving] at hx
    obtain ⟨_, -, rfl⟩ := List.mem_map.1 hx
    trivial

/-- **Evaluation keeps values well formed.** The induction is on the expression. The body of a
`map` or of a `reduce` is evaluated where its parameters are bound to values that are well formed
by the same induction. -/
theorem wellFormed_of_evaluate_uncanceled {e : Expression} {env : Environment}
    (well : env.WellFormed) {v : Value} (h : e.evaluate config false env = .ok v) :
    v.WellFormed := by
  induction e generalizing env v with
  | number value =>
    rw [evaluate_number_eq_ok_iff.1 h]
    trivial
  | identifier name => exact well name v (evaluate_identifier_eq_ok_iff.1 h)
  | sequence first last _ _ =>
    obtain ⟨start, stop, -, -, order, rfl⟩ := evaluate_sequence_eq_ok_iff.1 h
    exact order
  | operation left op right _ _ =>
    obtain ⟨x, y, z, -, -, -, rfl⟩ := evaluate_operation_eq_ok_iff.1 h
    trivial
  | map input parameter body hi _ =>
    obtain ⟨items, input_value, value⟩ := evaluate_map_eq_ok_iff.1 h
    have some_items : items.WellFormed := hi well input_value
    split at value
    · exact value ▸ some_items
    · obtain ⟨n, fits, results, rfl, answers⟩ := value
      have count := answers.length_eq
      rw [Sequence.length_elements, Array.length_toList] at count
      have several : 0 < results.size := count ▸ some_items.length_pos fits
      exact several
  | reduce input initial left right body _ _ hb =>
    obtain ⟨items, start, -, -, -, value⟩ := evaluate_reduce_eq_ok_iff.1 h
    refine wellFormed_of_reduceSequence (fun x y w hx hy hw => ?_) value
    exact hb ((Environment.wellFormed_empty.bind left hx).bind right hy) hw

/-- A canceled evaluation has no value. -/
theorem evaluate_canceled (e : Expression) (env : Environment) :
    e.evaluate config true env = .error .canceled := by
  cases e <;> rfl

/-- Whatever the token says, an expression has well-formed values only. -/
theorem wellFormed_of_evaluate {e : Expression} {env : Environment} (well : env.WellFormed)
    {canceled : Bool} {v : Value} (h : e.evaluate config canceled env = .ok v) :
    v.WellFormed := by
  cases canceled with
  | false => exact wellFormed_of_evaluate_uncanceled well h
  | true =>
    rw [evaluate_canceled] at h
    cases h

end Expression

end RatCalc
