import RatCalc.Evaluation.Group

/-!
# Divide and conquer

A row of items is folded with an operation by halving it: both halves are folded and their
results combined, and a row of one is its item. The upper levels of the recursion may run their
halves as a group of two tasks.

## Main definitions

* `Reduction`: the items, the operation and how many levels fork.
* `Reduction.fold`: the fold over adjacent items.
-/

namespace RatCalc

/-- What a fold by halving works on: a row of `size` items, the operation on two results under a
token that may be canceled, and the number of levels that run their halves as a group. -/
structure Reduction (α : Type) where
  size : Nat
  item : (i : Nat) → i < size → α
  apply : Bool → α → α → Except EvalError α
  parallelDepth : Nat

namespace Reduction

variable {α : Type}

/-- Folds the `count` items from `start` on. The token is looked at before every part. -/
def fold (r : Reduction α) (start count : Nat) (nonempty : 0 < count)
    (inside : start + count ≤ r.size) (depth : Nat) (canceled : Bool) : Except EvalError α :=
  if canceled then
    .error .canceled
  else if one : count = 1 then
    .ok (r.item start (by omega))
  else if two : count = 2 then
    r.apply canceled (r.item start (by omega)) (r.item (start + 1) (by omega))
  else if depth < r.parallelDepth then do
    let (left, right) ← join canceled
      (r.fold start (count / 2) (by omega) (by omega) (depth + 1))
      (r.fold (start + count / 2) (count - count / 2) (by omega) (by omega) (depth + 1))
    r.apply canceled left right
  else do
    let left ← r.fold start (count / 2) (by omega) (by omega) (depth + 1) canceled
    let right ← r.fold (start + count / 2) (count - count / 2) (by omega) (by omega) (depth + 1)
      canceled
    r.apply canceled left right
termination_by count

end Reduction

end RatCalc
