import Mathlib
import RatCalc.Proofs.Evaluation.Success

/-!
# Ranges and their lists

Two evaluations of the same meaning may differ in one way only: where the one has a list of
integers that follow one another, the other may have kept the range. Such a list unrolls the
range. It is short enough to be indexed, has the same items at the same indices, and is equal to
the range as a value.

## Main definitions

* `Sequence.Unrolls`, `Value.Unrolls`, `Environment.Unrolls`: the first is the second, except
  that lists may stand for ranges.

## Main results

* `Sequence.elements_range_eq_toList`: what is indexed in a range is what it yields.
* `Sequence.Unrolls.elements_eq`: the same items stand at the same indices.
* `Value.Unrolls.equal`: the two values are equal.
* `Value.Unrolls.equal_of_common`: values that unroll the same value are equal to one another.
-/

namespace RatCalc

/-- The first sequence is the second, or the list of the items of the range that the second is. -/
inductive Sequence.Unrolls : Sequence → Sequence → Prop
  | refl (s : Sequence) : Unrolls s s
  | range {first last : ℤ} {items : Array Fraction} {n : ℕ}
      (fits : (Sequence.range first last).length? = some n)
      (same : items.toList = (Sequence.range first last).elements fits) :
      Unrolls (.list items) (.range first last)

/-- The first value is the second, except that a list may stand for a range. -/
inductive Value.Unrolls : Value → Value → Prop
  | number (x : Fraction) : Unrolls (.number x) (.number x)
  | sequence {s t : Sequence} (h : s.Unrolls t) : Unrolls (.sequence s) (.sequence t)

/-- The second environment binds what the first one binds, to values that the values of the first
one unroll. -/
def Environment.Unrolls (env env' : Environment) : Prop :=
  ∀ name v, env.lookup? name = some v → ∃ w, env'.lookup? name = some w ∧ v.Unrolls w

namespace Sequence

/-- Integers that follow one another count up to the last one of them. -/
theorem countsUp_consecutive (first : ℤ) (n : ℕ) :
    countsUp first (first + n - 1) (consecutive first n) = true := by
  induction n generalizing first with
  | zero => simp [consecutive, countsUp]
  | succ n ih =>
    have tail := ih (first + 1)
    rw [show first + 1 + (n : ℤ) - 1 = first + (n + 1 : ℕ) - 1 by push_cast; ring] at tail
    have order : first ≤ first + (n + 1 : ℕ) - 1 := by push_cast; omega
    simp only [consecutive_succ', countsUp, tail, Fraction.ofInt, beq_self_eq_true, order,
      decide_true, Bool.and_self]

/-- A list that counts up has the integers that follow one another. -/
theorem eq_consecutive_of_countsUp {first last : ℤ} {items : List Fraction}
    (h : countsUp first last items = true) :
    items = consecutive first items.length ∧ last = first + items.length - 1 := by
  induction items generalizing first with
  | nil =>
    have passed : first = last + 1 := by simpa [countsUp] using h
    exact ⟨rfl, by simp; omega⟩
  | cons x items ih =>
    simp only [countsUp, Bool.and_eq_true, beq_iff_eq, decide_eq_true_eq] at h
    obtain ⟨⟨⟨above, below⟩, -⟩, rest⟩ := h
    obtain ⟨tail, ends⟩ := ih rest
    have front : x = .ofInt first := by
      rw [← Fraction.toInt?_eq_ok_iff, Fraction.toInt?, Fraction.isInt, below, above]
      rfl
    rw [List.length_cons, consecutive_succ', ← tail, ← front]
    exact ⟨rfl, by push_cast; omega⟩

/-- The items of a range that are looked at one by one are all its items. -/
theorem elements_range_eq_toList {first last : ℤ} {n : ℕ} (order : first ≤ last)
    (fits : (range first last).length? = some n) :
    (range first last).elements fits = (range first last).toList := by
  have count := rangeYield_eq order
  have distance := (length?_range_eq_some_iff.1 fits).1
  have same : rangeYield first last = n := by omega
  rw [elements_range, toList_range_eq, same]

theorem equal_self (s : Sequence) : s.equal s = true := by
  cases s <;> simp [equal]

/-- Equality does not depend on the side on which the range stands. -/
theorem equal_comm (s t : Sequence) : s.equal t = t.equal s := by
  cases s <;> cases t <;> simp only [equal, Bool.beq_comm]

namespace Unrolls

variable {s t : Sequence}

/-- The same items stand at the same indices. -/
theorem elements_eq (h : s.Unrolls t) {n : ℕ} (fits : s.length? = some n) :
    ∃ fits' : t.length? = some n, t.elements fits' = s.elements fits := by
  cases h with
  | refl => exact ⟨fits, rfl⟩
  | @range first last items m fits' same =>
    have count := congrArg List.length same
    rw [length_elements, Array.length_toList] at count
    obtain rfl : m = n := by simpa [length?, count] using fits
    exact ⟨fits', by rw [elements_list, same]⟩

/-- The list of the items of a sequence unrolls it. -/
theorem of_elements {items : Array Fraction} {n : ℕ} (fits : t.length? = some n)
    (same : items.toList = t.elements fits) : (list items).Unrolls t := by
  cases t with
  | range first last => exact .range fits same
  | list items' =>
    rw [elements_list] at same
    rw [Array.toList_inj.1 same]
    exact .refl _

/-- A list is equal to the range that it unrolls. -/
theorem equal (h : s.Unrolls t) : s.equal t = true := by
  cases h with
  | refl => exact s.equal_self
  | @range first last items n fits same =>
    obtain rfl : last = first + n - 1 := by
      have count := (length?_range_eq_some_iff.1 fits).1
      omega
    rw [Sequence.equal, same, elements_range]
    exact countsUp_consecutive first n

/-- Sequences that unroll the same sequence are equal. -/
theorem equal_of_common {u : Sequence} (hs : s.Unrolls u) (ht : t.Unrolls u) :
    s.equal t = true := by
  cases hs with
  | refl =>
    have back := ht.equal
    cases ht with
    | refl => exact back
    | range _ _ => exact back
  | range fits same =>
    have forth := (Unrolls.range fits same).equal
    cases ht with
    | refl => exact forth
    | range fits' same' =>
      cases fits.symm.trans fits'
      have items := same.trans same'.symm
      simp [Sequence.equal, Array.toList_inj.1 items]

end Unrolls

end Sequence

namespace Value

/-- A value unrolls itself. -/
theorem Unrolls.refl (v : Value) : v.Unrolls v := by
  cases v with
  | number x => exact .number x
  | sequence s => exact .sequence (.refl s)

theorem Unrolls.equal {v w : Value} (h : v.Unrolls w) : v.equal w = true := by
  cases h with
  | number x => simp [Value.equal]
  | sequence h => exact h.equal

/-- Values that unroll the same value are equal. -/
theorem Unrolls.equal_of_common {v w u : Value} (hv : v.Unrolls u) (hw : w.Unrolls u) :
    v.equal w = true := by
  cases hv with
  | number x => cases hw; simp [Value.equal]
  | sequence hs => cases hw with
    | sequence ht => exact hs.equal_of_common ht

end Value

namespace Environment

theorem Unrolls.refl (env : Environment) : env.Unrolls env :=
  fun _ v h => ⟨v, h, .refl v⟩

/-- Binding a name to values of which the one unrolls the other keeps that up. -/
theorem Unrolls.bind {env env' : Environment} (h : env.Unrolls env') (name : Name) {v w : Value}
    (hv : v.Unrolls w) : (env.bind name v).Unrolls (env'.bind name w) := by
  intro other u hu
  by_cases same : other = name
  · subst same
    rw [lookup?_bind_self] at hu ⊢
    cases hu
    exact ⟨w, rfl, hv⟩
  · rw [lookup?_bind_of_ne _ _ same] at hu ⊢
    exact h other u hu

end Environment

end RatCalc
