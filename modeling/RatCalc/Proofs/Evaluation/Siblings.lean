import Mathlib
import RatCalc.Evaluation.Group

/-!
# Sibling tasks that all succeed

A group of tasks comes to a result exactly if every task does when it is started without being
canceled. Only a failure cancels the group, so a successful group never shows a canceled token
to any of its tasks, and its result does not depend on how the indices are spread over workers.

## Main definitions

* `Answers`: the results of the tasks of consecutive indices.

## Main results

* `join_eq_ok_iff`: two tasks succeed together exactly if each succeeds.
* `mapIndexed_eq_ok_iff`: the same for one task for each index.
-/

namespace RatCalc

/-- A bind has a result if its first part has one of which the second part makes that result. -/
theorem bind_eq_ok_iff {ε α β : Type} {x : Except ε α} {f : α → Except ε β} {b : β} :
    (x >>= f) = .ok b ↔ ∃ a, x = .ok a ∧ f a = .ok b := by
  cases x with
  | error e => simp [bind, Except.bind]
  | ok a => simp [bind, Except.bind]

namespace Group

variable {α : Type}

/-- Only a task that succeeds leaves a value behind, and it leaves the group as it was. -/
theorem settle_of_some {g : Group} {r : Except EvalError α} {value : α}
    (h : (g.settle r).2 = some value) : r = .ok value ∧ (g.settle r).1 = g := by
  cases r with
  | ok x => cases h; exact ⟨rfl, rfl⟩
  | error e => cases e <;> cases h

/-- A group comes to a value if no task failed and the tasks together gave that value. -/
theorem finish_eq_ok_iff {g : Group} {x : Option α} {value : α} :
    g.finish x = .ok value ↔ g.failure = none ∧ x = some value := by
  unfold finish
  split <;> simp_all

end Group

/-- Two sibling tasks succeed together exactly if each of them does on its own. -/
theorem join_eq_ok_iff {α β : Type} {left : Bool → Except EvalError α}
    {right : Bool → Except EvalError β} {x : α} {y : β} :
    join false left right = .ok (x, y) ↔ left false = .ok x ∧ right false = .ok y := by
  have start : Group.isCanceled { callerCanceled := false } = false := rfl
  simp only [join, start]
  constructor
  · intro h
    generalize hs : Group.settle { callerCanceled := false } (left false) = first at h
    obtain ⟨-, values⟩ := Group.finish_eq_ok_iff.1 h
    obtain ⟨a, ha, values⟩ := Option.bind_eq_some_iff.1 values
    subst hs
    obtain ⟨hl, same⟩ := Group.settle_of_some ha
    rw [same, start] at values
    obtain ⟨b, hb, pair⟩ := Option.map_eq_some_iff.1 values
    cases pair
    exact ⟨hl, (Group.settle_of_some hb).1⟩
  · rintro ⟨hl, hr⟩
    simp only [hl, Group.settle, start, hr]
    rfl

/-! ### One task for each index -/

section Indexed

variable {α : Type} {length : ℕ}

/-- The tasks of the indices from `i` on give these results, one after another, when none of
them is canceled. -/
def Answers (task : IndexedTask length α) : ℕ → List α → Prop
  | _, [] => True
  | i, y :: ys => (∃ h : i < length, (task i h false).result = .ok y) ∧ Answers task (i + 1) ys

/-- Results of consecutive indices are split where the indices are. -/
theorem answers_append {task : IndexedTask length α} {i : ℕ} {xs ys : List α} :
    Answers task i (xs ++ ys) ↔ Answers task i xs ∧ Answers task (i + xs.length) ys := by
  induction xs generalizing i with
  | nil => simp [Answers]
  | cons x xs ih =>
    rw [List.cons_append, Answers, Answers, ih, and_assoc, List.length_cons,
      show i + 1 + xs.length = i + (xs.length + 1) by omega]

/-- Each result is that of the task of its index. -/
theorem answers_iff {task : IndexedTask length α} {i : ℕ} {ys : List α} :
    Answers task i ys ↔
      ∀ k (hk : k < ys.length),
        ∃ h : i + k < length, (task (i + k) h false).result = .ok ys[k] := by
  induction ys generalizing i with
  | nil => simp [Answers]
  | cons y ys ih =>
    rw [Answers, ih]
    constructor
    · rintro ⟨first, others⟩ (_ | k) hk
      · exact first
      · obtain ⟨h, result⟩ := others k (by simpa using hk)
        simp only [show i + 1 + k = i + (k + 1) by omega] at h result
        exact ⟨h, result⟩
    · intro all
      refine ⟨all 0 (by simp), fun k hk => ?_⟩
      obtain ⟨h, result⟩ := all (k + 1) (by simpa using hk)
      simp only [show i + (k + 1) = i + 1 + k by omega] at h result
      exact ⟨h, result⟩

namespace Sweep

variable {task : IndexedTask length α}

/-- A chunk that comes to its end has run all of its tasks, each with success, and leaves the
group as it was. -/
theorem answers_of_runChunk (quiet : ∀ i h, (task i h false).cancels = false)
    {stop : ℕ} {inside : stop ≤ length} {i : ℕ} {group : Group} {visited : Array ℕ}
    {results out : Array α}
    (h : (runChunk task stop inside i group visited results).results = some out) :
    (runChunk task stop inside i group visited results).group = group ∧
      ∃ ys, out = results ++ ys.toArray ∧ ys.length = stop - i ∧ Answers task i ys := by
  fun_induction runChunk task stop inside i group visited results with
  | case1 i group visited results hi canceled => cases h
  | case2 i group visited results hi canceled outcome group' group'' value settled ih =>
    have alive : group.isCanceled = false := by simpa using canceled
    have untouched : group' = group := by simp [group', outcome, alive, quiet]
    obtain ⟨result, kept⟩ := Group.settle_of_some (congrArg Prod.snd settled)
    rw [settled] at kept
    obtain ⟨same, ys, rfl, count, others⟩ := ih h
    refine ⟨same.trans (kept.trans untouched), value :: ys, by simp, ?_, ⟨by omega, ?_⟩, others⟩
    · rw [List.length_cons, count]
      omega
    · rw [← alive]
      exact result
  | case3 i group visited results hi canceled outcome group' group'' settled => cases h
  | case4 i group visited results hi =>
    cases h
    exact ⟨rfl, [], by simp, by simp; omega, trivial⟩

/-- A chunk whose tasks all succeed comes to its end with their results. -/
theorem runChunk_of_answers (quiet : ∀ i h, (task i h false).cancels = false)
    {stop : ℕ} (inside : stop ≤ length) {i : ℕ} {group : Group} (visited : Array ℕ)
    (results : Array α) (alive : group.isCanceled = false) {ys : List α}
    (answers : Answers task i ys) (count : ys.length = stop - i) :
    ∃ visited', runChunk task stop inside i group visited results =
      ⟨group, visited', some (results ++ ys.toArray)⟩ := by
  fun_induction runChunk task stop inside i group visited results generalizing ys with
  | case1 i group visited results hi canceled => exact absurd canceled (by simp [alive])
  | case2 i group visited results hi canceled outcome group' group'' value settled =>
    rename_i ih
    have untouched : group' = group := by simp [group', outcome, alive, quiet]
    obtain ⟨result, kept⟩ := Group.settle_of_some (congrArg Prod.snd settled)
    rw [settled] at kept
    obtain rfl : group'' = group := kept.trans untouched
    obtain ⟨y, ys, rfl⟩ := List.exists_cons_of_length_pos (l := ys) (by omega)
    obtain ⟨⟨_, answer⟩, others⟩ := answers
    rw [← alive] at answer
    cases result.symm.trans answer
    obtain ⟨visited', run⟩ := ih alive others (by simp only [List.length_cons] at count; omega)
    exact ⟨visited', by simpa using run⟩
  | case3 i group visited results hi canceled outcome group' group'' =>
    rename_i settled
    obtain ⟨y, ys, rfl⟩ := List.exists_cons_of_length_pos (l := ys) (by omega)
    obtain ⟨⟨_, answer⟩, -⟩ := answers
    rw [← alive] at answer
    rw [show outcome.result = .ok y from answer] at settled
    cases settled
  | case4 i group visited results hi =>
    obtain rfl := List.eq_nil_of_length_eq_zero (by omega : ys.length = 0)
    exact ⟨visited, by simp⟩

end Sweep

/-! ### All chunks together -/

/-- Rounding up loses no index. -/
theorem le_ceilDiv_mul (n : ℕ) {d : ℕ} (hd : 0 < d) : n ≤ ceilDiv n d * d := by
  have parts := Nat.div_add_mod (n + d - 1) d
  have rest := Nat.mod_lt (n + d - 1) hd
  rw [ceilDiv, Nat.mul_comm]
  omega

theorem chunkSize_pos (length workers : ℕ) : 0 < chunkSize length workers :=
  Nat.lt_of_lt_of_le Nat.one_pos (Nat.le_max_left ..)

namespace Sweep

variable {task : IndexedTask length α} {size : ℕ}

/-- The first `count` chunks, one after another. -/
abbrev chunks (task : IndexedTask length α) (size count : ℕ) (start : Sweep α) : Sweep α :=
  (List.range count).foldl (addChunk task size) start

theorem chunks_succ (count : ℕ) (start : Sweep α) :
    chunks task size (count + 1) start =
      addChunk task size (chunks task size count start) count := by
  rw [chunks, List.range_succ, List.foldl_append]
  rfl

/-- If the first chunks have results, these are those of the tasks of all indices before the
next chunk, and the group is as it was. -/
theorem answers_of_chunks (quiet : ∀ i h, (task i h false).cancels = false)
    {group : Group} {count : ℕ} {out : Array α}
    (h : (chunks task size count { group }).results = some out) :
    (chunks task size count { group }).group = group ∧
      out.size = min (count * size) length ∧ Answers task 0 out.toList := by
  induction count generalizing out with
  | zero =>
    cases h
    exact ⟨rfl, by simp, trivial⟩
  | succ count ih =>
    rw [chunks_succ] at h ⊢
    obtain ⟨done, hdone, h⟩ := Option.bind_eq_some_iff.1 h
    obtain ⟨next, hnext, rfl⟩ := Option.map_eq_some_iff.1 h
    obtain ⟨same, filled, answers⟩ := ih hdone
    obtain ⟨kept, ys, rfl, added, others⟩ := answers_of_runChunk quiet hnext
    refine ⟨kept.trans same, ?_, ?_⟩
    · rw [Nat.add_mul, one_mul] at added ⊢
      simp only [Array.empty_append, Array.size_append, List.size_toArray, added, filled]
      omega
    · rw [Array.toList_append, answers_append]
      refine ⟨answers, ?_⟩
      -- A chunk that starts behind the last index is empty, wherever it is said to start.
      by_cases within : count * size ≤ length
      · simpa [filled, within] using others
      · obtain rfl := List.eq_nil_of_length_eq_zero (by omega : ys.length = 0)
        trivial

/-- If the tasks of all indices before the next chunk succeed, the first chunks have their
results. -/
theorem chunks_of_answers (quiet : ∀ i h, (task i h false).cancels = false)
    {group : Group} (alive : group.isCanceled = false) {count : ℕ} {ys : List α}
    (filled : ys.length = min (count * size) length) (answers : Answers task 0 ys) :
    (chunks task size count { group }).group = group ∧
      (chunks task size count { group }).results = some ys.toArray := by
  induction count generalizing ys with
  | zero =>
    obtain rfl := List.eq_nil_of_length_eq_zero (by simpa using filled)
    exact ⟨rfl, rfl⟩
  | succ count ih =>
    rw [Nat.add_mul, one_mul] at filled
    obtain ⟨xs, zs, rfl, hxs⟩ : ∃ xs zs, ys = xs ++ zs ∧ xs.length = min (count * size) length :=
      ⟨ys.take (count * size), ys.drop (count * size), (List.take_append_drop ..).symm, by
        rw [List.length_take]
        omega⟩
    rw [List.length_append, hxs] at filled
    obtain ⟨before, after⟩ := answers_append.1 answers
    obtain ⟨same, results⟩ := ih hxs before
    have added : zs.length = min ((count + 1) * size) length - count * size := by
      rw [Nat.add_mul, one_mul]
      omega
    have placed : Answers task (count * size) zs := by
      by_cases within : count * size ≤ length
      · simpa [hxs, within] using after
      · obtain rfl := List.eq_nil_of_length_eq_zero (by omega : zs.length = 0)
        trivial
    rw [chunks_succ, addChunk, same, results]
    obtain ⟨visited, run⟩ := runChunk_of_answers quiet (Nat.min_le_right ..)
      (chunks task size count { group }).visited #[] alive placed added
    rw [run]
    simp

end Sweep

/-- **Tasks for all indices succeed together exactly if each of them does on its own.** The
results stand in the order of the indices, whatever the number of workers. -/
theorem mapIndexed_eq_ok_iff {task : IndexedTask length α} {workers : ℕ} {results : Array α}
    (quiet : ∀ i h, (task i h false).cancels = false) :
    mapIndexed false length workers task = .ok results ↔
      results.size = length ∧ Answers task 0 results.toList := by
  have all : min (chunkCount length workers * chunkSize length workers) length = length :=
    Nat.min_eq_right (le_ceilDiv_mul length (chunkSize_pos length workers))
  constructor
  · intro h
    obtain ⟨-, values⟩ := Group.finish_eq_ok_iff.1 h
    obtain ⟨-, filled, answers⟩ := Sweep.answers_of_chunks quiet values
    exact ⟨filled.trans all, answers⟩
  · rintro ⟨filled, answers⟩
    have alive : Group.isCanceled { callerCanceled := false } = false := rfl
    obtain ⟨same, values⟩ := Sweep.chunks_of_answers quiet alive (filled.trans all.symm) answers
    exact Group.finish_eq_ok_iff.2 ⟨congrArg Group.failure same, values⟩

end Indexed

end RatCalc
