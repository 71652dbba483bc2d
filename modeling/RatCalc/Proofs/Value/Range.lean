import Mathlib
import RatCalc.Value.Sequence

/-!
# What a range yields

A range yields its items one at a time: behind each of them it goes on with the next integer, for as
long as that is not past its last one. Whether all of its items are collected or only some at the
front, they are the integers that follow one another from the first one on. There are as many of
them as the ends are apart and one more, or a single one if the ends are reversed.

## Main definitions

* `Sequence.consecutive`: integers that follow one another.
* `Sequence.rangeYield`: how many items a range yields.

## Main results

* `Sequence.toList_yieldFrom`, `Sequence.yieldAtMost_eq`: both loops over a range in closed form.
* `Sequence.take_eq_take_toList`: the items at the front are the first ones of all items.
* `Sequence.toList_range`: the items of a range are the integers from its first to its last.
-/

namespace RatCalc

namespace Sequence

/-! ### Integers that follow one another -/

/-- The integers that follow one another from `first`, as many as `count`. -/
def consecutive (first : ℤ) (count : ℕ) : List Fraction :=
  (List.range count).map fun i : ℕ => .ofInt (first + i)

@[simp]
theorem length_consecutive (first : ℤ) (count : ℕ) : (consecutive first count).length = count := by
  rw [consecutive, List.length_map, List.length_range]

/-- The first integer stands at the front, the others follow it. -/
theorem consecutive_succ' (first : ℤ) (n : ℕ) :
    consecutive first (n + 1) = .ofInt first :: consecutive (first + 1) n := by
  have step (i : ℕ) : first + ((i : ℤ) + 1) = first + 1 + i := by ring
  simp [consecutive, List.range_succ_eq_map, Function.comp_def, step]

theorem take_consecutive (first : ℤ) (count n : ℕ) :
    (consecutive first n).take count = consecutive first (min count n) := by
  rw [consecutive, ← List.map_take, List.take_range, consecutive]

/-- The integer at an index. -/
theorem getElem?_consecutive {first : ℤ} {n i : ℕ} (inside : i < n) :
    (consecutive first n)[i]? = some (.ofInt (first + i)) := by
  simp [consecutive, inside]

/-! ### How many items a range yields -/

/-- How many items a range yields: one at least, also when its ends are reversed. -/
def rangeYield (first last : ℤ) : ℕ :=
  (max 1 (rangeLength first last)).toNat

/-- A range yields as many items as its ends are apart, and one more. -/
theorem rangeYield_eq {first last : ℤ} (order : first ≤ last) :
    (rangeYield first last : ℤ) = last - first + 1 := by
  unfold rangeYield rangeLength
  omega

/-- Behind an item that is not the last one a range yields what it yields from the next one on. -/
theorem rangeYield_of_successor? {last x next : ℤ} (h : successor? last x = some next) :
    next = x + 1 ∧ rangeYield x last = rangeYield next last + 1 := by
  obtain ⟨below, rfl⟩ := successor?_eq_some_iff.1 h
  refine ⟨rfl, ?_⟩
  unfold rangeYield rangeLength
  omega

/-- Nothing is yielded behind the last item. -/
theorem rangeYield_of_successor?_eq_none {last x : ℤ} (h : successor? last x = none) :
    rangeYield x last = 1 := by
  have past : ¬ x < last := fun below => by
    rw [successor?, if_pos below] at h
    cases h
  unfold rangeYield rangeLength
  omega

/-! ### Both loops -/

/-- **All items that a range yields** follow one another from the one on that is next. -/
theorem toList_yieldFrom (last x : ℤ) (yielded : Array Fraction) :
    (yieldFrom last x yielded).toList = yielded.toList ++ consecutive x (rangeYield x last) := by
  fun_induction yieldFrom last x yielded with
  | case1 x yielded next h ih =>
    obtain ⟨rfl, more⟩ := rangeYield_of_successor? h
    rw [ih, more, consecutive_succ', Array.toList_push, List.append_assoc, List.singleton_append]
  | case2 x yielded h =>
    rw [rangeYield_of_successor?_eq_none h, Array.toList_push]
    simp [consecutive]

/-- A range that is asked for some items only yields the first ones. -/
theorem yieldAtMost_eq (last : ℤ) (count : ℕ) (x : ℤ) :
    yieldAtMost last count x = consecutive x (min count (rangeYield x last)) := by
  induction count generalizing x with
  | zero => simp [yieldAtMost, consecutive]
  | succ count ih =>
    rw [yieldAtMost]
    cases h : successor? last x with
    | some next =>
      obtain ⟨rfl, more⟩ := rangeYield_of_successor? h
      dsimp only
      rw [ih, more, Nat.succ_min_succ, consecutive_succ']
    | none =>
      rw [rangeYield_of_successor?_eq_none h, Nat.min_eq_right (Nat.succ_pos count)]
      simp [consecutive]

theorem toList_range_eq (first last : ℤ) :
    (range first last).toList = consecutive first (rangeYield first last) := by
  rw [toList, toList_yieldFrom, List.nil_append]

/-- **The items at the front** are the first ones of all items. -/
theorem take_eq_take_toList (count : ℕ) (s : Sequence) : s.take count = s.toList.take count := by
  cases s with
  | range first last => rw [take, yieldAtMost_eq, toList_range_eq, take_consecutive]
  | list items => rfl

/-- A range yields its first integer first. -/
theorem head?_toList_range (first last : ℤ) :
    (range first last).toList.head? = some (.ofInt first) := by
  obtain ⟨n, some⟩ : ∃ n, rangeYield first last = n + 1 :=
    ⟨rangeYield first last - 1, by unfold rangeYield; omega⟩
  rw [toList_range_eq, some, consecutive_succ', List.head?_cons]

section Order

variable {first last : ℤ} (order : first ≤ last)
include order

/-- **The items of a range** are the integers from its first to its last, in order. -/
theorem toList_range :
    (range first last).toList = (Int.range first (last + 1)).map Fraction.ofInt := by
  have count : (last + 1 - first).toNat = rangeYield first last := by
    have := rangeYield_eq order
    omega
  rw [toList_range_eq, Int.range, List.map_map, count]
  rfl

theorem length_toList_range : ((range first last).toList.length : ℤ) = last - first + 1 := by
  rw [toList_range_eq, length_consecutive, rangeYield_eq order]

end Order

end Sequence

end RatCalc
