import Mathlib
import RatCalc.Proofs.Evaluation.Siblings

/-!
# Sibling tasks at work

The tasks of a group are run by workers that take their turns in any order. A worker has a chunk
of adjacent indices and goes through it: it looks at the token, runs the task, and hands what the
task returned to the group, which takes it in. It stops at the end of its chunk or when the group
has got nothing from it. A turn is one look, one return of a task or one settlement; between the
turns anybody may cancel the token of the caller.

Where a worker stands is told by the stages of the indices in its chunk: all indices before it
have given a value.

## Main definitions

* `Crew`: the group and how far the task of each index is.
* `Crew.Step`: one turn of one worker.
* `Crew.Finished`, `Crew.result`: no worker goes on, and what the group comes to then.
* `Crew.spread`, `Crew.pair`: tasks for all indices, and two tasks that start at once.
* `Crew.results`, `Crew.both`: how the callers of these collect what the workers hand over.

## Main results

* `Crew.results_eq`: the chunks of the workers, one behind the other, hold the values in the
  order of the indices.
* `Crew.exists_step`, `Crew.Step.rest_lt`: as long as a worker has to go on, one can, and no
  worker goes on forever.
-/

namespace RatCalc

namespace Group

variable {α : Type}

@[simp]
theorem callerCanceled_settle (g : Group) (r : Except EvalError α) :
    (g.settle r).1.callerCanceled = g.callerCanceled := by
  cases r with
  | ok value => rfl
  | error e => cases e <;> rfl

/-- A group gets a value from a task that succeeds, and nothing from any other. -/
@[simp]
theorem settle_value (g : Group) (r : Except EvalError α) : (g.settle r).2 = r.toOption := by
  cases r with
  | ok value => rfl
  | error e => cases e <;> rfl

@[simp]
theorem settle_ok (g : Group) (value : α) : (g.settle (.ok value)).1 = g :=
  rfl

@[simp]
theorem settle_canceled (g : Group) : (g.settle (.error .canceled : Except EvalError α)).1 = g :=
  rfl

/-- A failure cancels the group, which keeps it unless it has one already. -/
theorem settle_failure (g : Group) {e : EvalError} (real : e ≠ .canceled) :
    (g.settle (.error e : Except EvalError α)).1 =
      { g with canceled := true, failure := g.failure.or (some e) } := by
  cases e <;> first | rfl | exact absurd rfl real

/-- A group comes to be canceled only without a failure, and when a value is missing. -/
theorem finish_eq_canceled_iff {g : Group} (real : g.failure ≠ some .canceled)
    {value : Option α} : g.finish value = .error .canceled ↔ g.failure = none ∧ value = none := by
  cases kept : g.failure with
  | some e =>
    have other : e ≠ .canceled := fun same => real (kept.trans (congrArg some same))
    simp [finish, kept, other]
  | none => cases value <;> simp [finish, kept]

/-- The failure that a group keeps is what it comes to. -/
theorem finish_of_failure {g : Group} {e : EvalError} (kept : g.failure = some e)
    (value : Option α) : g.finish value = .error e := by
  simp [finish, kept]

end Group

/-! ### Stages and turns -/

/-- How far the task of an index is. -/
inductive Stage (α : Type) where
  /-- No worker has looked at the token for it yet. -/
  | waiting
  /-- The task runs. -/
  | working
  /-- The worker has something to hand to the group. -/
  | returned (result : Except EvalError α)
  /-- The group has taken it in and got this value from it. -/
  | settled (value : Option α)

/-- The value that the group got. -/
def Stage.value? {α : Type} : Stage α → Option α
  | settled value => value
  | _ => none

theorem Stage.value?_eq_some_iff {α : Type} {s : Stage α} {x : α} :
    s.value? = some x ↔ s = .settled (some x) := by
  cases s <;> simp [value?]

/-- How many turns an index still takes. -/
def Stage.rest {α : Type} : Stage α → ℕ
  | waiting => 3
  | working => 2
  | returned _ => 1
  | settled _ => 0

/-- Values for all indices, if there is one for each. -/
def gather {length : ℕ} {τ : Fin length → Type} (values : (i : Fin length) → Option (τ i)) :
    Option ((i : Fin length) → τ i) :=
  if all : ∀ i, (values i).isSome then some fun i => (values i).get (all i) else none

theorem gather_eq_some_iff {length : ℕ} {τ : Fin length → Type}
    {values : (i : Fin length) → Option (τ i)} {xs : (i : Fin length) → τ i} :
    gather values = some xs ↔ ∀ i, values i = some (xs i) := by
  unfold gather
  split
  · next all =>
    rw [Option.some.injEq, funext_iff]
    exact forall_congr' fun i =>
      ⟨fun h => h ▸ (Option.some_get _).symm, fun h => Option.get_of_mem _ h⟩
  · next missing =>
    refine iff_of_false nofun fun all => missing fun i => ?_
    rw [all i, Option.isSome_some]

/-- Values cannot be gathered if and only if one is missing. -/
theorem gather_eq_none_iff {length : ℕ} {τ : Fin length → Type}
    {values : (i : Fin length) → Option (τ i)} : gather values = none ↔ ∃ i, values i = none := by
  simp [gather]

/-- Two values, the left one first. -/
def leftRight {τ : Fin 2 → Type} (values : (i : Fin 2) → τ i) : τ 0 × τ 1 :=
  (values 0, values 1)

/-- Two values are gathered from the left one to the right one. -/
theorem map_gather_two {τ : Fin 2 → Type} (values : (i : Fin 2) → Option (τ i)) :
    (gather values).map leftRight = (values 0).bind fun x => (values 1).map fun y => (x, y) := by
  cases gathered : gather values with
  | some xs =>
    rw [gather_eq_some_iff] at gathered
    simp [gathered, leftRight]
  | none =>
    rw [gather_eq_none_iff, Fin.exists_fin_two] at gathered
    rcases gathered with missing | missing <;> simp [missing]

/-- Something that happens while the tasks of a group are run. -/
inductive Event {length : ℕ} (τ : Fin length → Type) where
  /-- Somebody cancels the token of the caller. -/
  | interrupt
  /-- A worker looks at the token before it runs the task of an index. -/
  | look (i : Fin length) (saw : Bool)
  /-- The task of an index returns. -/
  | outcome (i : Fin length) (outcome : Outcome (τ i))
  /-- The group takes in what there is for an index. -/
  | settle (i : Fin length) (result : Except EvalError (τ i))

/-- A group of tasks at work. `τ i` is the type of the result that is wanted for the index `i`. -/
structure Crew {length : ℕ} (τ : Fin length → Type) where
  group : Group
  /-- How many adjacent indices a worker takes. -/
  size : ℕ
  size_pos : 0 < size
  stage : (i : Fin length) → Stage (τ i)

namespace Crew

section Work

variable {length : ℕ} {τ : Fin length → Type}

/-- The crew with the token of its caller as it is now. -/
def under (c : Crew τ) (canceled : Bool) : Crew τ :=
  { c with group := { c.group with callerCanceled := canceled } }

/-- The crew with another group and with another stage of one index. -/
def move (c : Crew τ) (group : Group) (i : Fin length) (s : Stage (τ i)) : Crew τ :=
  { c with
    group := group
    stage := Function.update c.stage i s }

/-- Two indices belong to the same worker. -/
def SameWorker (c : Crew τ) (i j : Fin length) : Prop :=
  (i : ℕ) / c.size = (j : ℕ) / c.size

/-- A worker stands at an index when all indices before it in its chunk have given a value. -/
def StandsAt (c : Crew τ) (i : Fin length) : Prop :=
  ∀ j < i, c.SameWorker j i → ∃ x, c.stage j = .settled (some x)

/-- No worker goes on: every index is settled, or the group got nothing from one before it in its
chunk. -/
def Finished (c : Crew τ) : Prop :=
  ∀ i, (∃ x, c.stage i = .settled x) ∨ ∃ j < i, c.SameWorker j i ∧ c.stage j = .settled none

/-- One turn of one worker. `task i canceled` says what the task of an index may return when its
token is, or is not, canceled by then. -/
inductive Step (task : (i : Fin length) → Bool → Outcome (τ i) → Prop) (c : Crew τ) :
    Event τ → Crew τ → Prop
  /-- The task is not run if its token is found canceled. -/
  | look (i : Fin length) (waits : c.stage i = .waiting) (stands : c.StandsAt i) :
      Step task c (.look i c.group.isCanceled)
        (c.move c.group i
          (if c.group.isCanceled then .returned (.error .canceled) else .working))
  /-- The task returns, and has canceled the token of its group before if it does that. -/
  | outcome (i : Fin length) (o : Outcome (τ i)) (works : c.stage i = .working)
      (may : task i c.group.isCanceled o) :
      Step task c (.outcome i o)
        (c.move (if o.cancels then c.group.cancel else c.group) i (.returned o.result))
  /-- The group takes in what there is for the index. -/
  | settle (i : Fin length) (r : Except EvalError (τ i)) (returned : c.stage i = .returned r) :
      Step task c (.settle i r) (c.move (c.group.settle r).1 i (.settled (c.group.settle r).2))

/-- The values for all indices, if there is one for each. -/
def values? (c : Crew τ) : Option ((i : Fin length) → τ i) :=
  gather fun i => (c.stage i).value?

/-- What the group comes to when no worker goes on. -/
def result (c : Crew τ) : Except EvalError ((i : Fin length) → τ i) :=
  c.group.finish c.values?

variable {c c' : Crew τ} {event : Event τ}

@[simp]
theorem stage_move_self (group : Group) (i : Fin length) (s : Stage (τ i)) :
    (c.move group i s).stage i = s :=
  Function.update_self ..

theorem stage_move_of_ne (group : Group) {i j : Fin length} (s : Stage (τ i)) (ne : j ≠ i) :
    (c.move group i s).stage j = c.stage j :=
  Function.update_of_ne ne ..

/-- A worker with a single index stands at it from the start. -/
theorem standsAt_alone (alone : c.size = 1) (i : Fin length) : c.StandsAt i := by
  intro j before same
  rw [SameWorker, alone, Nat.div_one, Nat.div_one] at same
  exact absurd (Fin.ext same) before.ne

/-- Of two turns for one index the last one counts. -/
theorem move_move (group group' : Group) (i : Fin length) (s s' : Stage (τ i)) :
    (c.move group i s).move group' i s' = c.move group' i s' := by
  simp only [move, Function.update_idem]

theorem values?_eq_some_iff {values : (i : Fin length) → τ i} :
    c.values? = some values ↔ ∀ i, c.stage i = .settled (some (values i)) := by
  simp only [values?, gather_eq_some_iff, Stage.value?_eq_some_iff]

/-- A crew that has finished without all values has an index that gave none. -/
theorem exists_settled_none (finished : c.Finished) (missing : c.values? = none) :
    ∃ i, c.stage i = .settled none := by
  obtain ⟨i, none⟩ := gather_eq_none_iff.1 missing
  rcases finished i with ⟨x, settled⟩ | ⟨j, -, -, settled⟩
  · rw [settled] at none
    exact ⟨i, settled.trans (congrArg Stage.settled none)⟩
  · exact ⟨j, settled⟩

/-- As long as a worker has to go on, there is one that can. -/
theorem exists_step {task : (i : Fin length) → Bool → Outcome (τ i) → Prop}
    (unfinished : ¬ c.Finished)
    (answers : ∀ i, c.stage i = .working → ∃ o, task i c.group.isCanceled o) :
    ∃ event c', Step task c event c' := by
  -- The first index at which a worker has to go on is one at which it stands.
  let Open (i : Fin length) : Prop :=
    (∀ x, c.stage i ≠ .settled x) ∧ ∀ j < i, c.SameWorker j i → c.stage j ≠ .settled none
  have some_open : ∃ i, Open i := by
    simpa only [Finished, not_forall, not_or, not_exists, not_and, Open] using unfinished
  obtain ⟨i, ⟨unsettled, unblocked⟩, first⟩ :=
    WellFounded.has_min (wellFounded_lt (α := Fin length)) {i | Open i} some_open
  have stands : c.StandsAt i := by
    intro j before same
    by_contra missing
    refine first j ⟨fun x settled => ?_, fun k hk worker => ?_⟩ before
    · cases x with
      | none => exact unblocked j before same settled
      | some x => exact missing ⟨x, settled⟩
    · exact unblocked k (hk.trans before) (worker.trans same)
  cases at_i : c.stage i with
  | waiting => exact ⟨_, _, .look i at_i stands⟩
  | working =>
    obtain ⟨o, may⟩ := answers i at_i
    exact ⟨_, _, .outcome i o at_i may⟩
  | returned r => exact ⟨_, _, .settle i r at_i⟩
  | settled x => exact absurd at_i (unsettled x)

/-- How many turns all workers together take at most. -/
def rest (c : Crew τ) : ℕ :=
  ∑ i, (c.stage i).rest

theorem rest_move_lt {group : Group} {i : Fin length} {s : Stage (τ i)}
    (less : s.rest < (c.stage i).rest) : (c.move group i s).rest < c.rest := by
  refine Finset.sum_lt_sum (fun j _ => ?_) ⟨i, Finset.mem_univ i, by rwa [stage_move_self]⟩
  by_cases same : j = i
  · subst same
    rw [stage_move_self]
    exact less.le
  · rw [stage_move_of_ne _ _ same]

/-- Every turn brings the crew nearer to its end. -/
theorem Step.rest_lt {task : (i : Fin length) → Bool → Outcome (τ i) → Prop}
    (h : Step task c event c') : c'.rest < c.rest := by
  cases h with
  | look i waits =>
    refine rest_move_lt ?_
    rw [waits]
    split <;> simp [Stage.rest]
  | outcome i o works =>
    refine rest_move_lt ?_
    rw [works]
    exact Nat.one_lt_two
  | settle i r returned =>
    refine rest_move_lt ?_
    rw [returned]
    exact Nat.one_pos

end Work

/-! ### The two kinds of crews -/

/-- A task for each index, spread over workers. -/
def spread {α : Type} (canceled : Bool) (length workers : ℕ) : Crew fun _ : Fin length => α where
  group := { callerCanceled := canceled }
  size := chunkSize length workers
  size_pos := chunkSize_pos length workers
  stage _ := .waiting

/-- What the worker of a chunk hands over. -/
def chunk {α : Type} {length : ℕ} (c : Crew fun _ : Fin length => α) (k : ℕ) : Option (List α) :=
  ((List.finRange length).filter fun i : Fin length => (i : ℕ) / c.size = k).mapM fun i =>
    (c.stage i).value?

/-- What all workers hand over, one chunk behind the other. -/
def results {α : Type} {length : ℕ} (c : Crew fun _ : Fin length => α) : Option (List α) :=
  ((List.range (ceilDiv length c.size)).mapM c.chunk).map List.flatten

/-- Two tasks that start at once, each with a worker of its own. -/
def pair {τ : Fin 2 → Type} (canceled : Bool) : Crew τ where
  group := { callerCanceled := canceled }
  size := 1
  size_pos := Nat.one_pos
  stage _ := .working

/-- What the two workers hand over, the left one first. -/
def both {τ : Fin 2 → Type} (c : Crew τ) : Option (τ 0 × τ 1) :=
  (c.stage 0).value?.bind fun x => (c.stage 1).value?.map fun y => (x, y)

theorem both_eq {τ : Fin 2 → Type} (c : Crew τ) :
    c.both = c.values?.map leftRight :=
  (map_gather_two fun i => (c.stage i).value?).symm

/-! ### Collecting chunks -/

/-- Values that are collected in parts are those that are collected at once. -/
theorem mapM_flatten {α β : Type} (f : α → Option β) (l : List (List α)) :
    (l.mapM (List.mapM f)).map List.flatten = l.flatten.mapM f := by
  induction l with
  | nil => rfl
  | cons x l ih =>
    rw [List.flatten_cons, List.mapM_append, ← ih, List.mapM_cons]
    cases List.mapM f x <;> cases List.mapM (List.mapM f) l <;> rfl

/-- Values are collected if there is one for each item. -/
theorem mapM_eq_some_iff {α β : Type} {f : α → Option β} {l : List α} {ys : List β} :
    l.mapM f = some ys ↔ l.map f = ys.map some := by
  induction l generalizing ys with
  | nil => cases ys <;> simp
  | cons x l ih =>
    rw [List.mapM_cons]
    constructor
    · intro h
      obtain ⟨y, hy, ys, hys, rfl⟩ :
          ∃ y, f x = some y ∧ ∃ ys', l.mapM f = some ys' ∧ y :: ys' = ys := by
        simpa [Option.bind_eq_some_iff] using h
      rw [List.map_cons, List.map_cons, hy, ih.1 hys]
    · intro h
      cases ys with
      | nil => cases h
      | cons y ys =>
        obtain ⟨hy, hys⟩ := List.cons.inj h
        rw [hy, ih.2 hys]
        rfl

/-- The chunks, one behind the other, are all indices in order. -/
theorem flatten_chunks {length size count : ℕ} (size_pos : 0 < size)
    (enough : length ≤ count * size) :
    ((List.range count).map fun k =>
      (List.finRange length).filter fun i : Fin length => (i : ℕ) / size = k).flatten =
      List.finRange length := by
  refine List.Pairwise.eq_of_mem_iff (r := (· < ·)) ?_ (List.pairwise_lt_finRange length) ?_
  · rw [List.pairwise_flatten, List.pairwise_map]
    refine ⟨?_, List.pairwise_lt_range.imp fun before i hi j hj => ?_⟩
    · simp only [List.forall_mem_map]
      exact fun k _ => (List.pairwise_lt_finRange length).filter _
    · have hi := of_decide_eq_true (List.mem_filter.1 hi).2
      have hj := of_decide_eq_true (List.mem_filter.1 hj).2
      by_contra behind
      have := Nat.div_le_div_right (c := size) (Fin.not_lt.1 behind)
      omega
  · intro i
    have inside : (i : ℕ) / size < count :=
      (Nat.div_lt_iff_lt_mul size_pos).2 (i.isLt.trans_le enough)
    simp [inside]

/-- **The chunks of all workers hold the values in the order of the indices**, if there is one for
each index. -/
theorem results_eq {α : Type} {length : ℕ} (c : Crew fun _ : Fin length => α) :
    c.results = c.values?.map List.ofFn := by
  have once : c.results = (List.finRange length).mapM fun i => (c.stage i).value? := by
    rw [← flatten_chunks c.size_pos (le_ceilDiv_mul length c.size_pos), ← mapM_flatten,
      List.mapM_map]
    rfl
  refine Option.ext fun ys => ?_
  rw [once, mapM_eq_some_iff, Option.map_eq_some_iff]
  simp only [values?_eq_some_iff]
  constructor
  · intro all
    have filled : ys.length = length := by simpa using (congrArg List.length all).symm
    subst filled
    refine ⟨fun i => ys[i], fun i => Stage.value?_eq_some_iff.1 ?_, List.ofFn_getElem ..⟩
    simpa using congrArg (fun l => l[(i : ℕ)]?) all
  · rintro ⟨values, all, rfl⟩
    rw [List.ofFn_eq_map, List.map_map]
    exact List.map_congr_left fun i _ => Stage.value?_eq_some_iff.2 (all i)

end Crew

end RatCalc
