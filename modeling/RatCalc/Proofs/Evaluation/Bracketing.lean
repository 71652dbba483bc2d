import Mathlib
import RatCalc.Evaluation.Reduction
import RatCalc.Proofs.Evaluation.Siblings

/-!
# Bracketings of a row of items

A row of items can be combined by an operation on two results in as many ways as there are binary
trees with the items at their leaves, from left to right. The fold by halving is one of these
ways, the fold from left to right another one. Where the levels of a fold run their halves as a
group, its successful results are the same as where they run one after the other.

## Main definitions

* `Bracketing`: a binary tree with the items of a row at its leaves.
* `Bracketing.run`: combines the items as the tree says.
* `Bracketing.halving`, `Bracketing.fromLeft`: the two usual ways.

## Main results

* `Bracketing.run_related`: an operation that imitates another one imitates it on every tree.
* `Bracketing.run_keeps`, `Bracketing.exists_run`: what holds for the result, and that there is one.
* `Reduction.fold_eq_ok_iff`: the fold by halving runs the tree `Bracketing.halving`.
-/

namespace RatCalc

/-- A row of items, bracketed for an operation on two results. -/
inductive Bracketing (α : Type) where
  | item (x : α)
  | join (left right : Bracketing α)

namespace Bracketing

variable {α β : Type}

/-- The items from left to right. -/
def items : Bracketing α → List α
  | item x => [x]
  | join left right => left.items ++ right.items

/-- Combines the items as they are bracketed, the left part first. -/
def run (apply : α → α → Except EvalError α) : Bracketing α → Except EvalError α
  | item x => .ok x
  | join left right => do
    let x ← left.run apply
    let y ← right.run apply
    apply x y

/-- No tree is without items. -/
theorem items_ne_nil (t : Bracketing α) : t.items ≠ [] := by
  induction t with
  | item x => exact List.cons_ne_nil x []
  | join left right ihl _ => exact List.append_ne_nil_of_left_ne_nil ihl _

/-- A tree with a single item is that item. -/
theorem eq_item_of_items {t : Bracketing α} {x : α} (h : t.items = [x]) : t = item x := by
  cases t with
  | item y => rw [List.singleton_inj.1 h]
  | join left right =>
    have hl := List.length_pos_of_ne_nil left.items_ne_nil
    have hr := List.length_pos_of_ne_nil right.items_ne_nil
    have total := congrArg List.length h
    rw [items, List.length_append, List.length_singleton] at total
    omega

/-- A row of two items has one bracketing only. -/
theorem eq_join_of_items {t : Bracketing α} {x y : α} (h : t.items = [x, y]) :
    t = join (item x) (item y) := by
  cases t with
  | item z => cases h
  | join left right =>
    obtain ⟨x', xs, hl⟩ := List.exists_cons_of_ne_nil left.items_ne_nil
    obtain ⟨y', ys, hr⟩ := List.exists_cons_of_ne_nil right.items_ne_nil
    rw [items, hl, hr] at h
    cases xs with
    | nil =>
      obtain ⟨rfl, rfl, rfl⟩ : x' = x ∧ y' = y ∧ ys = [] := by simpa using h
      rw [eq_item_of_items hl, eq_item_of_items hr]
    | cons z zs => simp at h

/-- A tree has a result if both parts have one and the operation makes that result of them. -/
theorem run_join_eq_ok_iff {apply : α → α → Except EvalError α} {left right : Bracketing α}
    {v : α} : (join left right).run apply = .ok v ↔
      ∃ x y, left.run apply = .ok x ∧ right.run apply = .ok y ∧ apply x y = .ok v := by
  simp only [run, bind_eq_ok_iff]
  constructor
  · rintro ⟨x, hx, y, hy, hv⟩
    exact ⟨x, y, hx, hy, hv⟩
  · rintro ⟨x, y, hx, hy, hv⟩
    exact ⟨x, hx, y, hy, hv⟩

/-- If one operation imitates another one on related operands, it imitates it on every tree
whose items are related to themselves. -/
theorem run_related {R : α → α → Prop} {f g : α → α → Except EvalError α}
    (step : ∀ x y x' y' v, R x x' → R y y' → f x y = .ok v → ∃ w, g x' y' = .ok w ∧ R v w)
    {t : Bracketing α} (self : ∀ x ∈ t.items, R x x) {v : α} (h : t.run f = .ok v) :
    ∃ w, t.run g = .ok w ∧ R v w := by
  induction t generalizing v with
  | item x =>
    cases h
    exact ⟨x, rfl, self x (List.mem_singleton_self x)⟩
  | join left right ihl ihr =>
    obtain ⟨x, y, hx, hy, hv⟩ := run_join_eq_ok_iff.1 h
    obtain ⟨x', hx', rx⟩ := ihl (fun z hz => self z (List.mem_append_left _ hz)) hx
    obtain ⟨y', hy', ry⟩ := ihr (fun z hz => self z (List.mem_append_right _ hz)) hy
    obtain ⟨w, hw, rw⟩ := step x y x' y' v rx ry hv
    exact ⟨w, run_join_eq_ok_iff.2 ⟨x', y', hx', hy', hw⟩, rw⟩

/-- What an operation keeps holds for the result of every tree whose items have it. -/
theorem run_keeps {P : α → Prop} {apply : α → α → Except EvalError α}
    (step : ∀ x y v, P x → P y → apply x y = .ok v → P v) {t : Bracketing α}
    (items : ∀ x ∈ t.items, P x) {v : α} (h : t.run apply = .ok v) : P v := by
  obtain ⟨_, -, -, kept⟩ := run_related (R := fun x y => x = y ∧ P x)
    (fun x y _ _ v hx hy hv => by
      obtain ⟨rfl, px⟩ := hx
      obtain ⟨rfl, py⟩ := hy
      exact ⟨v, hv, rfl, step x y v px py hv⟩)
    (fun x hx => ⟨rfl, items x hx⟩) h
  exact kept

/-- A tree has a result if the operation has one for all operands that can come up. -/
theorem exists_run {P : α → Prop} {f : α → α → Except EvalError α}
    (step : ∀ x y, P x → P y → ∃ v, f x y = .ok v ∧ P v) {t : Bracketing α}
    (items : ∀ x ∈ t.items, P x) : ∃ v, t.run f = .ok v ∧ P v := by
  induction t with
  | item x => exact ⟨x, rfl, items x (List.mem_singleton_self x)⟩
  | join left right ihl ihr =>
    obtain ⟨x, hx, px⟩ := ihl fun z hz => items z (List.mem_append_left _ hz)
    obtain ⟨y, hy, py⟩ := ihr fun z hz => items z (List.mem_append_right _ hz)
    obtain ⟨v, hv, pv⟩ := step x y px py
    exact ⟨v, run_join_eq_ok_iff.2 ⟨x, y, hx, hy, hv⟩, pv⟩

section Three

variable {f : α → α → Except EvalError α} {x y z : α}

/-- Three items grouped from the left. -/
theorem exists_run_three_left : (∃ v, (join (join (item x) (item y)) (item z)).run f = .ok v) ↔
    ∃ u v, f x y = .ok u ∧ f u z = .ok v := by
  have step (v : α) : (join (join (item x) (item y)) (item z)).run f = .ok v ↔
      ∃ u, f x y = .ok u ∧ f u z = .ok v := bind_eq_ok_iff
  simp only [step]
  exact exists_comm

/-- Three items grouped from the right. -/
theorem exists_run_three_right : (∃ v, (join (item x) (join (item y) (item z))).run f = .ok v) ↔
    ∃ u v, f y z = .ok u ∧ f x u = .ok v := by
  have step (v : α) : (join (item x) (join (item y) (item z))).run f = .ok v ↔
      ∃ u, f y z = .ok u ∧ f x u = .ok v := by
    change (f y z >>= fun u => f x u) = .ok v ↔ _
    exact bind_eq_ok_iff
  simp only [step]
  exact exists_comm

end Three

/-! ### The two usual ways -/

/-- Combines the items one after another, from the left. -/
def fromLeft (x : α) (xs : List α) : Bracketing α :=
  xs.foldl (fun t y => join t (item y)) (item x)

/-- Splits a row in the middle, and each half again. -/
def halving (xs : List α) (nonempty : xs ≠ []) : Bracketing α :=
  if single : xs.length = 1 then
    item (xs.head nonempty)
  else
    have := List.length_pos_of_ne_nil nonempty
    join (halving (xs.take (xs.length / 2)) (List.ne_nil_of_length_pos (by simp; omega)))
      (halving (xs.drop (xs.length / 2)) (List.ne_nil_of_length_pos (by simp; omega)))
termination_by xs.length
decreasing_by all_goals (simp; omega)

theorem items_fromLeft (x : α) (xs : List α) : (fromLeft x xs).items = x :: xs := by
  suffices ∀ t : Bracketing α,
      (xs.foldl (fun t y => join t (item y)) t).items = t.items ++ xs from this (item x)
  induction xs with
  | nil => exact fun t => (List.append_nil t.items).symm
  | cons y ys ih =>
    intro t
    rw [List.foldl_cons, ih, items, items, List.append_assoc, List.singleton_append]

theorem items_halving (xs : List α) (nonempty : xs ≠ []) : (halving xs nonempty).items = xs := by
  fun_induction halving xs nonempty with
  | case1 xs nonempty single =>
    obtain ⟨x, rfl⟩ := List.length_eq_one_iff.1 single
    rfl
  | case2 xs nonempty single _ ihl ihr => rw [items, ihl, ihr, List.take_append_drop]

/-- A row of two parts of the lengths that halving asks for is split between them. -/
theorem halving_append {xs ys : List α} (hx : xs ≠ []) (hy : ys ≠ [])
    (middle : xs.length = (xs.length + ys.length) / 2) (nonempty : xs ++ ys ≠ []) :
    halving (xs ++ ys) nonempty = join (halving xs hx) (halving ys hy) := by
  have px := List.length_pos_of_ne_nil hx
  have py := List.length_pos_of_ne_nil hy
  rw [halving, dif_neg (by rw [List.length_append]; omega)]
  simp only [List.length_append, ← middle, List.take_left', List.drop_left']

end Bracketing

namespace Reduction

variable {α : Type} (r : Reduction α)

/-- The `count` items from `start` on. -/
def row (start count : ℕ) (inside : start + count ≤ r.size) : List α :=
  (List.range' start count).pmap r.item fun i hi => by
    have := (List.mem_range'_1.1 hi).2
    omega

@[simp]
theorem length_row (start count : ℕ) (inside : start + count ≤ r.size) :
    (r.row start count inside).length = count := by
  simp [row]

theorem row_ne_nil {start count : ℕ} (nonempty : 0 < count) (inside : start + count ≤ r.size) :
    r.row start count inside ≠ [] :=
  List.ne_nil_of_length_pos (by rwa [length_row])

theorem row_one (start : ℕ) (inside : start + 1 ≤ r.size) :
    r.row start 1 inside = [r.item start inside] :=
  rfl

/-- A row is the row of its first items and that of the others. -/
theorem row_add (start m n : ℕ) (inside : start + (m + n) ≤ r.size) :
    r.row start (m + n) inside =
      r.row start m (by omega) ++ r.row (start + m) n (by omega) := by
  simp only [row, ← List.range'_append_1, List.pmap_append]

/-- A row of two items or more is halved where the fold halves it. -/
theorem halving_row {start count : ℕ} (several : 2 ≤ count) (inside : start + count ≤ r.size) :
    Bracketing.halving (r.row start count inside) (r.row_ne_nil (by omega) inside) =
      .join
        (.halving (r.row start (count / 2) (by omega)) (r.row_ne_nil (by omega) _))
        (.halving (r.row (start + count / 2) (count - count / 2) (by omega))
          (r.row_ne_nil (by omega) _)) := by
  have halves : r.row start count inside =
      r.row start (count / 2) (by omega) ++
        r.row (start + count / 2) (count - count / 2) (by omega) := by
    have sum := r.row_add start (count / 2) (count - count / 2) (by omega)
    simpa only [Nat.add_sub_cancel' (Nat.div_le_self count 2)] using sum
  simp only [halves]
  refine Bracketing.halving_append _ _ ?_ _
  rw [length_row, length_row]
  omega

/-- **The fold by halving runs the tree that halves its row**, whether its upper levels run as
groups or not. -/
theorem fold_eq_ok_iff {start count : ℕ} (nonempty : 0 < count) (inside : start + count ≤ r.size)
    (depth : ℕ) {v : α} :
    r.fold start count nonempty inside depth false = .ok v ↔
      (Bracketing.halving (r.row start count inside) (r.row_ne_nil nonempty inside)).run
        (r.apply false) = .ok v := by
  induction count using Nat.strong_induction_on generalizing start depth v with
  | _ count ih =>
    rw [fold]
    by_cases one : count = 1
    · subst one
      simp [row_one, Bracketing.halving, Bracketing.run]
    rw [halving_row r (by omega), Bracketing.run_join_eq_ok_iff]
    by_cases two : count = 2
    · subst two
      simp [row_one, Bracketing.halving, Bracketing.run]
    simp only [Bool.false_eq_true, if_false, dif_neg one, dif_neg two]
    have left := @ih (count / 2) (by omega) start (by omega) (by omega) (depth + 1)
    have right := @ih (count - count / 2) (by omega) (start + count / 2) (by omega) (by omega)
      (depth + 1)
    split
    · simp only [bind_eq_ok_iff, Prod.exists, join_eq_ok_iff, left, right, and_assoc]
    · simp only [bind_eq_ok_iff, left, right]
      constructor
      · rintro ⟨x, hx, y, hy, hv⟩
        exact ⟨x, y, hx, hy, hv⟩
      · rintro ⟨x, y, hx, hy, hv⟩
        exact ⟨x, hx, y, hy, hv⟩

end Reduction

end RatCalc
