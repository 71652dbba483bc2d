import RatCalc.Fraction.Decimal

/-!
# Sequences

A sequence is either a range of integers, known by its two ends, or a list of fractions. A range
and a list with the same items are equal.

## Main definitions

* `Sequence`: a range or a list.
* `Sequence.successor?`: how a range goes on behind an item.
* `Sequence.toList`: the items in order; `Sequence.take`: those at the front.
* `Sequence.length?`: the number of items, if it fits a word.
* `Sequence.item?`: the item at an index; a range does not look at its end.
* `Sequence.equal`: whether two sequences have the same items.
-/

namespace RatCalc

/-- The number of lengths and indices that fit a word of 64 bits. -/
def wordBound : Nat := Nat.pow 2 64

/-- An ordered run of numbers. -/
inductive Sequence where
  /-- Every integer from the first to the last. -/
  | range (first last : Int)
  | list (items : Array Fraction)
  deriving DecidableEq

namespace Sequence

/-- The number of items of a range. One whose ends are reversed counts none or fewer. -/
def rangeLength (first last : Int) : Int :=
  last - first + 1

/-- The number of items, if it fits a word. -/
def length? : Sequence → Option Nat
  | range first last =>
    let count := rangeLength first last
    if 0 ≤ count ∧ count < (wordBound : Int) then some count.toNat else none
  | list items => some items.size

/-- Whether there is no item; a range always has its first. -/
def isEmpty : Sequence → Bool
  | range .. => false
  | list items => items.isEmpty

/-- The item at an index. A range goes on behind its end. -/
def item? : Sequence → Nat → Option Fraction
  | range first _, i => some (.ofInt (first + i))
  | list items, i => items[i]?

/-- The integer that a range up to `last` yields behind `x`, if it goes on. -/
def successor? (last x : Int) : Option Int :=
  if x < last then some (x + 1) else none

theorem successor?_eq_some_iff {last x next : Int} :
    successor? last x = some next ↔ x < last ∧ next = x + 1 := by
  simp [successor?, eq_comm]

/-- The items that a range up to `last` yields from `x` on, behind those that it has yielded. -/
def yieldFrom (last x : Int) (yielded : Array Fraction) : Array Fraction :=
  match h : successor? last x with
  | some next => yieldFrom last next (yielded.push (.ofInt x))
  | none => yielded.push (.ofInt x)
termination_by (last - x).toNat
decreasing_by
  have := successor?_eq_some_iff.1 h
  omega

/-- At most `count` items that a range up to `last` yields from `x` on. -/
def yieldAtMost (last : Int) : (count : Nat) → (x : Int) → List Fraction
  | 0, _ => []
  | count + 1, x =>
    .ofInt x ::
      match successor? last x with
      | some next => yieldAtMost last count next
      | none => []

/-- The items in order. A range yields one at least, also when its ends are reversed. -/
def toList : Sequence → List Fraction
  | range first last => (yieldFrom last first #[]).toList
  | list items => items.toList

/-- At most `count` items from the front, in order. -/
def take (count : Nat) : Sequence → List Fraction
  | range first last => yieldAtMost last count first
  | list items => items.toList.take count

/-- The items as decimals in braces, with a blank between any two. -/
def render (precision : Nat) (s : Sequence) : String :=
  "\x7b" ++ " ".intercalate (s.toList.map fun x => x.toDecimalString precision) ++ "\x7d"

/-- Whether a list counts up from `next` by one and ends exactly at `last`. -/
def countsUp (next last : Int) : List Fraction → Bool
  | [] => next == last + 1
  | x :: items =>
    x.numerator == next && x.denominator == 1 && next ≤ last && countsUp (next + 1) last items

/-- Whether two sequences have the same items. -/
def equal : Sequence → Sequence → Bool
  | range first last, range first' last' => first == first' && last == last'
  | range first last, list items | list items, range first last =>
    countsUp first last items.toList
  | list items, list items' => items == items'

end Sequence

end RatCalc
