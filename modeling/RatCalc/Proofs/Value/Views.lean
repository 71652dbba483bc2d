import Mathlib
import RatCalc.Proofs.Evaluation.Alike

/-!
# The views of a sequence

A sequence is looked at in four ways: its items one after another, how many there are, the item at
an index, and its text. A range and a list answer each of them in a way of their own: a range goes
on from item to item, and finds its length and the item at an index from its ends. All views tell
the same row of items, and two sequences are equal if their rows are, whichever of them is a range
or a list.

## Main results

* `Sequence.countsUp_iff`: a list counts up if it is the row of the range.
* `Sequence.length?_eq_some_iff`: the length is the number of items, if that fits a word.
* `Sequence.item?_eq`, `Sequence.getElem?_toList`: the item at an index.
* `Sequence.equal_iff_toList_eq`: equality is that of the rows.
* `Sequence.views_coherent`: all of these, and equality as an equivalence.
-/

namespace RatCalc

namespace Sequence

/-! ### Lists that are the row of a range -/

section Range

variable {first last : ℤ} (order : first ≤ last)
include order

/-- **A list counts up** from the first to the last integer of a range if it is the row of the
range. It does not if it is shorter or longer, or has a fraction or another integer somewhere. -/
theorem countsUp_iff {items : List Fraction} :
    countsUp first last items = true ↔ items = (range first last).toList := by
  have count := rangeYield_eq order
  constructor
  · intro h
    obtain ⟨same, ends⟩ := eq_consecutive_of_countsUp h
    -- `ends` rules out a list that stops too early, or that runs past the range.
    have filled : items.length = rangeYield first last := by omega
    rwa [filled, ← toList_range_eq] at same
  · rintro rfl
    rw [toList_range_eq]
    have counts := countsUp_consecutive first (rangeYield first last)
    rwa [show first + (rangeYield first last : ℤ) - 1 = last by omega] at counts

/-- Ranges with the same row have the same ends. -/
theorem range_eq_of_toList_eq {first' last' : ℤ} (order' : first' ≤ last')
    (h : (range first last).toList = (range first' last').toList) :
    first = first' ∧ last = last' := by
  have front : some (Fraction.ofInt first) = some (Fraction.ofInt first') := by
    rw [← head?_toList_range first last, h, head?_toList_range]
  have same : first = first' := congrArg Fraction.numerator (Option.some.inj front)
  have count := length_toList_range order
  rw [h, length_toList_range order'] at count
  exact ⟨same, by omega⟩

end Range

/-! ### The other views -/

section Storable

variable {s t : Sequence} {n : ℕ}

/-- The items that are looked at one by one are the row. -/
theorem elements_eq_toList (h : s.Storable) (fits : s.length? = some n) :
    s.elements fits = s.toList := by
  cases s with
  | range first last => exact elements_range_eq_toList h fits
  | list items => exact elements_list fits

/-- **The length** is the number of items, if that fits a word. -/
theorem length?_eq_some_iff (h : s.Storable) :
    s.length? = some n ↔ s.toList.length = n ∧ n < wordBound := by
  cases s with
  | range first last =>
    have count := length_toList_range h
    rw [length?_range_eq_some_iff]
    omega
  | list items =>
    have short : items.size < wordBound := lt_trans h vectorBound_lt_wordBound
    rw [length?, Option.some_inj, toList, Array.length_toList]
    exact ⟨fun same => ⟨same, same ▸ short⟩, And.left⟩

/-- **The item at an index** stands there in the row, whether the length fits a word or not. -/
theorem item?_eq {i : ℕ} (inside : i < s.toList.length) : s.item? i = s.toList[i]? := by
  cases s with
  | range first last =>
    rw [toList_range_eq, length_consecutive] at inside
    rw [toList_range_eq, getElem?_consecutive inside, item?]
  | list items => simp [item?, toList]

/-- The item at an index below the length stands there in the row. -/
theorem getElem?_toList (h : s.Storable) (fits : s.length? = some n) {i : ℕ} (inside : i < n) :
    s.toList[i]? = some (s.get fits i inside) := by
  rw [← elements_eq_toList h fits, elements, List.getElem?_ofFn, dif_pos inside]

/-- **Sequences are equal if their rows are**, ranges and lists in all combinations. -/
theorem equal_iff_toList_eq (hs : s.Storable) (ht : t.Storable) :
    s.equal t = true ↔ s.toList = t.toList := by
  cases s with
  | range first last =>
    cases t with
    | range first' last' =>
      rw [equal, Bool.and_eq_true, beq_iff_eq, beq_iff_eq]
      refine ⟨?_, range_eq_of_toList_eq hs ht⟩
      rintro ⟨rfl, rfl⟩
      rfl
    | list items => exact (countsUp_iff hs).trans eq_comm
  | list items =>
    cases t with
    | range first last => exact countsUp_iff ht
    | list items' => rw [equal, beq_iff_eq, toList, toList, Array.toList_inj]

/-- Equal sequences have the same length, or neither fits a word. -/
theorem length?_eq_of_equal (hs : s.Storable) (ht : t.Storable) (h : s.equal t = true) :
    s.length? = t.length? := by
  have rows := (equal_iff_toList_eq hs ht).1 h
  ext n
  rw [length?_eq_some_iff hs, length?_eq_some_iff ht, rows]

/-- Equal sequences have the same text. -/
theorem render_eq_of_equal (hs : s.Storable) (ht : t.Storable) (h : s.equal t = true)
    (precision : ℕ) : s.render precision = t.render precision := by
  rw [render, render, (equal_iff_toList_eq hs ht).1 h]

end Storable

/-- Equality is an equivalence of all sequences that can be stored: that of having the same row. -/
theorem equivalence_equal :
    Equivalence fun s t : { s : Sequence // s.Storable } => s.1.equal t.1 = true where
  refl s := (equal_iff_toList_eq s.2 s.2).2 rfl
  symm {s t} h := (equal_iff_toList_eq t.2 s.2).2 ((equal_iff_toList_eq s.2 t.2).1 h).symm
  trans {s t u} h h' := (equal_iff_toList_eq s.2 u.2).2
    (((equal_iff_toList_eq s.2 t.2).1 h).trans ((equal_iff_toList_eq t.2 u.2).1 h'))

/-- **All views of a sequence tell one row of items, and equality is that of the rows.** A range
yields the integers from its first to its last, a list its fractions, and whoever stops early has
got the first ones of them. The length is the number of items, if it fits a word; at every index
below it stands the item of the row. Sequences are equal if their rows are, so equality is an
equivalence, and equal sequences have the same length and the same text. -/
theorem views_coherent {s t : Sequence} (hs : s.Storable) (ht : t.Storable) :
    (∀ first last, s = range first last →
      s.toList = (Int.range first (last + 1)).map Fraction.ofInt) ∧
    (∀ items, s = list items → s.toList = items.toList) ∧
    (∀ count, s.take count = s.toList.take count) ∧
    (∀ n, s.length? = some n ↔ s.toList.length = n ∧ n < wordBound) ∧
    (∀ i < s.toList.length, s.item? i = s.toList[i]?) ∧
    (∀ n (fits : s.length? = some n) i (inside : i < n),
      s.toList[i]? = some (s.get fits i inside)) ∧
    (s.equal t = true ↔ s.toList = t.toList) ∧
    (s.equal t = true →
      s.length? = t.length? ∧ ∀ precision, s.render precision = t.render precision) ∧
    Equivalence fun s t : { s : Sequence // s.Storable } => s.1.equal t.1 = true := by
  refine ⟨?_, ?_, fun count => take_eq_take_toList count s, fun n => length?_eq_some_iff hs,
    fun i => item?_eq, fun n fits i inside => getElem?_toList hs fits inside,
    equal_iff_toList_eq hs ht,
    fun h => ⟨length?_eq_of_equal hs ht h, render_eq_of_equal hs ht h⟩, equivalence_equal⟩
  · rintro first last rfl
    exact toList_range hs
  · rintro items rfl
    rfl

/-- A range across zero and the list of its items. -/
theorem views_coherent_across_zero :
    let s := range (-1) 2
    let t := list #[.ofInt (-1), 0, 1, .ofInt 2]
    s.Storable ∧ t.Storable ∧ s.equal t = true ∧ s.toList = t.toList ∧
      s.take 2 = t.toList.take 2 ∧ s.length? = some 4 ∧ t.length? = some 4 ∧
      s.toList[3]? = some (.ofInt 2) ∧
      ∀ precision, s.render precision = t.render precision := by
  intro s t
  have order : s.Storable := (by decide : (-1 : ℤ) ≤ 2)
  have short : t.Storable := (by decide : 4 < vectorBound)
  have same : s.equal t = true := by decide
  obtain ⟨-, -, front, -, -, item, rows, views, -⟩ := views_coherent order short
  have count : s.length? = some 4 := rfl
  exact ⟨order, short, same, rows.1 same, (front 2).trans (congrArg _ (rows.1 same)), count,
    (views same).1 ▸ count, item 4 count 3 (by decide), (views same).2⟩

end Sequence

end RatCalc
