import Mathlib
import RatCalc.Proofs.Concurrency.Protocol

/-!
# The order in which tasks are run

A worker runs the tasks of its chunk in the order of the indices. It goes on to the next one only
behind a task that has given a value, and no task is started once the token is canceled, be it by a
failure, by a task or by the caller. So a worker that has all indices to itself runs the tasks from
the first one on, and none behind one that has failed, or during which the token was canceled.

This is shown of the sweep, where only tasks cancel a token, and of the runs of a crew, where the
caller may do so between any two turns. A run is split at the event by which a task is started:
what the crew was like then tells which tasks had returned.

## Main definitions

* `Outcome.Stops`: a worker does not go on behind this outcome.
* `Sweep.Visits`: how far a worker comes in its chunk.
* `Crew.starts`: the indices whose tasks have been started.
* `Crew.InTurn`: the tasks of a run have been run one after another.

## Main results

* `Sweep.exists_visits`: the indices that a sweep visits in a chunk.
* `Crew.Run.exists_at_start`: the crew when a task is started.
* `Crew.Run.starts_eq_nil`: no task is started behind a cancellation.
* `Crew.Run.exists_passed`: a worker goes on behind values only.
* `Crew.Run.inTurn`: the runs of a worker that has all indices to itself.
-/

namespace RatCalc

/-- A worker does not go on behind this outcome: the task has failed, or it has canceled the token
of its group. -/
def Outcome.Stops {α : Type} (o : Outcome α) : Prop :=
  o.cancels = true ∨ ∃ e, o.result = .error e

/-! ### Sweeps -/

namespace Sweep

variable {α : Type} {length : ℕ} {task : IndexedTask length α}

/-- In a chunk from `i` up to `stop` the tasks of the indices below `n` are run; `canceled` tells
whether the token was canceled beforehand. -/
structure Visits (task : IndexedTask length α) (canceled : Bool) (i stop n : ℕ) : Prop where
  low : i ≤ n
  high : n ≤ stop
  /-- Under a canceled token no task is run. -/
  none_of_canceled : canceled = true → n = i
  /-- A task that stops the worker is the last one. -/
  goes : ∀ k : Fin length, i ≤ k → (k : ℕ) + 1 < n → ¬ (task k k.isLt false).Stops
  /-- Nothing else keeps the worker from coming to the end of the chunk. -/
  ends : n < stop → canceled = true ∨
    ∃ k : Fin length, i ≤ k ∧ (k : ℕ) + 1 = n ∧ (task k k.isLt false).Stops

namespace Visits

/-- A worker that has come to the end of its chunk runs no task. -/
theorem nil (canceled : Bool) (i : ℕ) : Visits task canceled i i i where
  low := le_rfl
  high := le_rfl
  none_of_canceled _ := rfl
  goes _ low high := absurd high (by omega)
  ends short := absurd short (lt_irrefl i)

/-- Nor does one whose token is canceled. -/
theorem of_canceled {i stop : ℕ} (begins : i ≤ stop) : Visits task true i stop i where
  low := le_rfl
  high := begins
  none_of_canceled _ := rfl
  goes _ low high := absurd high (by omega)
  ends _ := .inl rfl

/-- A task that fails is the last one. -/
theorem of_error {i stop : ℕ} (within : i < stop) (inside : i < length) {e : EvalError}
    (failed : (task i inside false).result = .error e) : Visits task false i stop (i + 1) where
  low := Nat.le_succ i
  high := within
  none_of_canceled h := by cases h
  goes _ low high := absurd high (by omega)
  ends _ := .inr ⟨⟨i, inside⟩, le_rfl, rfl, .inr ⟨e, failed⟩⟩

/-- Behind a task that gives a value the worker goes on under the token that the task leaves. -/
theorem of_ok {i stop n : ℕ} (inside : i < length) {value : α}
    (answer : (task i inside false).result = .ok value)
    (rest : Visits task (task i inside false).cancels (i + 1) stop n) :
    Visits task false i stop n where
  low := Nat.le_of_succ_le rest.low
  high := rest.high
  none_of_canceled h := by cases h
  goes k low high := by
    rcases Nat.lt_or_eq_of_le low with later | rfl
    · exact rest.goes k later high
    · rintro (cancels | ⟨e, failed⟩)
      · exact absurd (rest.none_of_canceled cancels) high.ne'
      · cases answer.symm.trans failed
  ends short := by
    refine .inr ?_
    rcases rest.ends short with cancels | ⟨k, low, last, stops⟩
    · exact ⟨⟨i, inside⟩, le_rfl, (rest.none_of_canceled cancels).symm, .inl cancels⟩
    · exact ⟨k, Nat.le_of_succ_le low, last, stops⟩

end Visits

/-- **A worker visits the indices of its chunk in order**, up to the first one whose task stops
it. -/
theorem exists_visits (task : IndexedTask length α) {stop : ℕ} (inside : stop ≤ length) {i : ℕ}
    (begins : i ≤ stop) (group : Group) (visited : Array ℕ) (results : Array α) :
    ∃ n, (runChunk task stop inside i group visited results).visited.toList =
        visited.toList ++ List.Ico i n ∧ Visits task group.isCanceled i stop n := by
  fun_induction runChunk task stop inside i group visited results with
  | case1 i group visited results hi saw =>
    rw [saw]
    exact ⟨i, by simp, .of_canceled begins⟩
  | case2 i group visited results hi saw outcome group' group'' value settled ih =>
    have alive : group.isCanceled = false := by simpa using saw
    have first : outcome = task i (hi.trans_le inside) false := by rw [← alive]
    obtain ⟨answer, kept⟩ := Group.settle_of_some (congrArg Prod.snd settled)
    rw [settled] at kept
    obtain rfl : group'' = group' := kept
    -- The task may have canceled the token, and then the next look ends the chunk.
    have left : group'.isCanceled = outcome.cancels := by
      cases cancels : outcome.cancels with
      | false => simpa [group', cancels] using alive
      | true => simp [group', cancels, Group.cancel, Group.isCanceled]
    obtain ⟨n, all, rest⟩ := ih hi
    rw [left, first] at rest
    rw [first] at answer
    rw [alive]
    refine ⟨n, ?_, .of_ok (hi.trans_le inside) answer rest⟩
    rw [all, List.Ico.eq_cons rest.low]
    simp
  | case3 i group visited results hi saw outcome group' group'' settled =>
    have alive : group.isCanceled = false := by simpa using saw
    have first : outcome = task i (hi.trans_le inside) false := by rw [← alive]
    have missing : outcome.result.toOption = none := by
      rw [← Group.settle_value group', settled]
    rw [first] at missing
    rw [alive]
    cases answer : (task i (hi.trans_le inside) false).result with
    | ok value =>
      rw [answer] at missing
      cases missing
    | error e =>
      exact ⟨i + 1, by simp [List.Ico.succ_singleton], .of_error hi (hi.trans_le inside) answer⟩
  | case4 i group visited results hi =>
    obtain rfl : i = stop := by omega
    exact ⟨i, by simp, .nil _ i⟩

end Sweep

/-! ### Events -/

variable {length : ℕ} {τ : Fin length → Type}

namespace Event

/-- The index whose task is started with an event: its worker has found the token in order. -/
def start? : Event τ → Option (Fin length)
  | look i false => some i
  | _ => none

theorem start?_eq_some_iff {event : Event τ} {i : Fin length} :
    event.start? = some i ↔ event = .look i false := by
  unfold start?
  split
  · simp
  · next other =>
    exact iff_of_false (by simp) fun same => other i same

/-- The events by which a token is canceled that the workers look at. -/
inductive Cancels : Event τ → Prop
  /-- The caller is canceled. -/
  | interrupt : Cancels .interrupt
  /-- A task cancels the token of its group. -/
  | outcome (i : Fin length) (o : Outcome (τ i)) (cancels : o.cancels = true) :
      Cancels (.outcome i o)
  /-- The group takes in a failure. -/
  | failure (i : Fin length) (e : EvalError) (real : e ≠ .canceled) :
      Cancels (.settle i (.error e))

end Event

namespace Crew

/-- The indices whose tasks have been started, in this order. -/
def starts (trace : List (Event τ)) : List (Fin length) :=
  trace.filterMap Event.start?

variable {task : (i : Fin length) → Bool → Outcome (τ i) → Prop}
variable {trace before after : List (Event τ)} {event : Event τ} {start c c' : Crew τ}
variable {i j : Fin length}

theorem starts_append : starts (before ++ after) = starts before ++ starts after :=
  List.filterMap_append

theorem mem_starts : i ∈ starts trace ↔ .look i false ∈ trace := by
  simp [starts, List.mem_filterMap, Event.start?_eq_some_iff]

theorem starts_concat : starts (trace ++ [event]) = starts trace ++ event.start?.toList := by
  rw [starts_append]
  cases h : event.start? <;> simp [starts, h]

@[simp]
theorem starts_concat_interrupt : starts (trace ++ [.interrupt]) = starts trace :=
  starts_concat.trans (List.append_nil _)

/-! ### Turns -/

/-- A worker that looks at the token stands at an index that waits. -/
theorem Step.look_inv (step : Step task c event c') {saw : Bool} (look : event = .look i saw) :
    c.stage i = .waiting ∧ c.StandsAt i ∧ c.group.isCanceled = saw := by
  cases step with
  | look j waits stands =>
    cases look
    exact ⟨waits, stands, rfl⟩
  | outcome => cases look
  | settle => cases look

/-- A task that returns has been working. -/
theorem Step.outcome_inv (step : Step task c event c') {o : Outcome (τ i)}
    (outcome : event = .outcome i o) : c.stage i = .working := by
  cases step with
  | look => cases outcome
  | outcome j o works may =>
    cases outcome
    exact works
  | settle => cases outcome

/-- A group whose token is canceled stays so, and a failure cancels it. -/
theorem isCanceled_settle {α : Type} {g : Group} {r : Except EvalError α}
    (canceled : g.isCanceled = true ∨ ∃ e, r = .error e ∧ e ≠ .canceled) :
    (g.settle r).1.isCanceled = true := by
  rcases canceled with before | ⟨e, rfl, real⟩
  · cases r with
    | ok x => exact before
    | error e =>
      by_cases real : e = .canceled
      · subst real
        exact before
      · simp [Group.settle_failure g real, Group.isCanceled]
  · simp [Group.settle_failure g real, Group.isCanceled]

/-- A turn takes no cancellation back. -/
theorem Step.isCanceled (step : Step task c event c')
    (canceled : c.group.isCanceled = true ∨ event.Cancels) : c'.group.isCanceled = true := by
  cases step with
  | look i waits stands =>
    refine canceled.resolve_right ?_
    rintro ⟨⟩
  | outcome i o works may =>
    show Group.isCanceled (if o.cancels then c.group.cancel else c.group) = true
    split
    · exact Bool.or_true _
    · next keeps =>
      refine canceled.resolve_right ?_
      rintro ⟨⟩
      contradiction
  | settle i r returned =>
    refine isCanceled_settle (canceled.imp_right ?_)
    rintro (_ | _ | ⟨-, e, real⟩)
    exact ⟨e, rfl, real⟩

/-- Behind an event that cancels a token it is canceled for good. -/
theorem Run.isCanceled (run : Run task start trace c) (mem : event ∈ trace)
    (cancels : event.Cancels) : c.group.isCanceled = true := by
  induction run with
  | start => cases mem
  | interrupt before ih => exact Bool.true_or _
  | turn before step ih =>
    refine step.isCanceled ?_
    rcases List.mem_append.1 mem with earlier | last
    · exact .inl (ih earlier)
    · exact .inr (List.mem_singleton.1 last ▸ cancels)

theorem Run.size_eq (run : Run task start trace c) : c.size = start.size := by
  induction run with
  | start => rfl
  | interrupt before ih => exact ih
  | turn before step ih =>
    rw [← ih]
    cases step <;> rfl

/-! ### A run split at an event -/

/-- The last item of a list is the one it is split at, or is behind it. -/
theorem eq_or_exists_of_concat_eq {α : Type} {l before after : List α} {x y : α}
    (h : l ++ [x] = before ++ y :: after) :
    (l = before ∧ x = y) ∨ ∃ rest, l = before ++ y :: rest := by
  rcases List.eq_nil_or_concat after with rfl | ⟨rest, z, rfl⟩
  · obtain ⟨same, last⟩ := List.append_inj' h rfl
    exact .inl ⟨same, (List.cons.inj last).1⟩
  · rw [List.concat_eq_append, ← List.cons_append, ← List.append_assoc] at h
    exact .inr ⟨rest, (List.append_inj' h rfl).1⟩

/-- A run goes through each of its events. -/
theorem Run.exists_turn (run : Run task start trace c) (split : trace = before ++ event :: after) :
    ∃ c₀, Run task start before c₀ ∧ (event = .interrupt ∨ ∃ c₁, Step task c₀ event c₁) := by
  induction run generalizing after with
  | start => simp at split
  | @interrupt trace c run ih =>
    rcases eq_or_exists_of_concat_eq split with ⟨rfl, same⟩ | ⟨rest, earlier⟩
    · exact ⟨c, run, .inl same.symm⟩
    · exact ih earlier
  | @turn trace c c' last run step ih =>
    rcases eq_or_exists_of_concat_eq split with ⟨rfl, rfl⟩ | ⟨rest, earlier⟩
    · exact ⟨c, run, .inr ⟨c', step⟩⟩
    · exact ih earlier

/-- **The crew when a task is started**: its index waits, its worker stands there, and the token is
in order. -/
theorem Run.exists_at_start (run : Run task start trace c)
    (split : trace = before ++ .look j false :: after) :
    ∃ c₀, Run task start before c₀ ∧ c₀.stage j = .waiting ∧ c₀.StandsAt j ∧
      c₀.group.isCanceled = false := by
  obtain ⟨c₀, run₀, interrupt | ⟨c₁, step⟩⟩ := run.exists_turn split
  · cases interrupt
  · exact ⟨c₀, run₀, step.look_inv rfl⟩

/-- **No task is started behind a cancellation.** -/
theorem Run.starts_eq_nil (run : Run task start trace c)
    (split : trace = before ++ event :: after) (cancels : event.Cancels) : starts after = [] := by
  refine List.eq_nil_iff_forall_not_mem.2 fun j mem => ?_
  obtain ⟨between, behind, rfl⟩ := List.append_of_mem (mem_starts.1 mem)
  have later : trace = (before ++ event :: between) ++ .look j false :: behind := by simp [split]
  obtain ⟨c₀, run₀, -, -, alive⟩ := run.exists_at_start later
  have canceled := run₀.isCanceled (List.mem_append_right _ List.mem_cons_self) cancels
  rw [canceled] at alive
  cases alive

/-! ### What a worker has passed -/

/-- A crew that nobody has worked for yet. -/
structure Fresh (start : Crew τ) : Prop where
  failure : start.group.failure = none
  waiting : ∀ i, start.stage i = .waiting

theorem Run.recorded_of_fresh (run : Run task start trace c) (fresh : start.Fresh) :
    Recorded start trace c :=
  run.recorded fresh.failure fun i => .inl (fresh.waiting i)

/-- When a task returns, it has not returned before. -/
theorem Run.not_answered (run : Run task start trace c) (fresh : start.Fresh) {o : Outcome (τ i)}
    (split : trace = before ++ .outcome i o :: after) (r : Except EvalError (τ i)) :
    ¬ Answered before i r := by
  obtain ⟨c₀, run₀, interrupt | ⟨c₁, step⟩⟩ := run.exists_turn split
  · cases interrupt
  · exact (run₀.recorded_of_fresh fresh).tells (step.outcome_inv rfl) r

/-- A task returns once. -/
theorem Run.outcome_unique (run : Run task start trace c) (fresh : start.Fresh)
    {o o' : Outcome (τ i)} (ho : .outcome i o ∈ trace) (ho' : .outcome i o' ∈ trace) : o = o' := by
  obtain ⟨before, after, split⟩ := List.append_of_mem ho
  rw [split, List.mem_append, List.mem_cons] at ho'
  rcases ho' with earlier | same | later
  · exact absurd ⟨_, earlier, .outcome i o'⟩ (run.not_answered fresh split o'.result)
  · cases same
    rfl
  · obtain ⟨between, behind, rfl⟩ := List.append_of_mem later
    have again : trace = (before ++ .outcome i o :: between) ++ .outcome i o' :: behind := by
      simp [split]
    exact absurd ⟨_, List.mem_append_right _ List.mem_cons_self, .outcome i o⟩
      (run.not_answered fresh again o.result)

/-- **A worker goes on behind values only.** When it starts a task, all indices before it in its
chunk have returned one, and none of their tasks has stopped it. -/
theorem Run.exists_passed (run : Run task start trace c) (fresh : start.Fresh)
    (split : trace = before ++ .look j false :: after) (earlier : i < j)
    (worker : start.SameWorker i j) : ∃ o, .outcome i o ∈ before ∧ ¬ o.Stops := by
  obtain ⟨c₀, run₀, -, stands, alive⟩ := run.exists_at_start split
  rw [SameWorker, ← run₀.size_eq] at worker
  obtain ⟨x, settled⟩ := stands i earlier worker
  obtain ⟨o, returned, value⟩ := (run₀.recorded_of_fresh fresh).returned_of_settled settled
  refine ⟨o, returned, ?_⟩
  rintro (cancels | ⟨e, failed⟩)
  · rw [run₀.isCanceled returned (.outcome i o cancels)] at alive
    cases alive
  · cases value.symm.trans failed

/-! ### Which tasks have been started -/

/-- The stages tell which tasks have been started. -/
structure Started (trace : List (Event τ)) (c : Crew τ) : Prop where
  waiting : ∀ i, c.stage i = .waiting → i ∉ starts trace
  working : ∀ i, c.stage i = .working → i ∈ starts trace

/-- A turn starts no other task than that of its own index. -/
theorem Started.move (h : Started trace c) {group : Group} {s : Stage (τ i)}
    (turn : event.index? = some i) (begun : s ≠ .waiting)
    (works : s = .working → event = .look i false) :
    Started (trace ++ [event]) (c.move group i s) where
  waiting j waits := by
    have other : j ≠ i := by
      rintro rfl
      rw [stage_move_self] at waits
      exact begun waits
    rw [stage_move_of_ne _ _ other] at waits
    rw [mem_starts, List.mem_append, ← mem_starts, List.mem_singleton]
    rintro (earlier | rfl)
    · exact h.waiting j waits earlier
    · exact other (Option.some.inj turn)
  working j working := by
    rw [mem_starts, List.mem_append, ← mem_starts, List.mem_singleton]
    by_cases same : j = i
    · subst same
      rw [stage_move_self] at working
      exact .inr (works working).symm
    · rw [stage_move_of_ne _ _ same] at working
      exact .inl (h.working j working)

/-- **A turn is told by the stages.** -/
theorem Started.step (h : Started trace c) (step : Step task c event c') :
    Started (trace ++ [event]) c' := by
  cases step with
  | look i waits stands =>
    refine h.move rfl ?_ ?_ <;> cases c.group.isCanceled <;> simp
  | outcome i o works may => exact h.move rfl (by simp) (by simp)
  | settle i r returned => exact h.move rfl (by simp) (by simp)

theorem Run.started (run : Run task start trace c) (fresh : start.Fresh) : Started trace c := by
  induction run with
  | start =>
    refine ⟨fun i _ => by simp [starts], fun i works => ?_⟩
    rw [fresh.waiting i] at works
    cases works
  | interrupt before ih =>
    constructor <;> rw [starts_concat_interrupt]
    · exact ih.waiting
    · exact ih.working
  | turn before step ih => exact ih.step step

/-- A task that returns has been started. -/
theorem Run.mem_starts_of_outcome (run : Run task start trace c) (fresh : start.Fresh)
    {o : Outcome (τ i)} (returned : .outcome i o ∈ trace) : i ∈ starts trace := by
  obtain ⟨before, after, rfl⟩ := List.append_of_mem returned
  obtain ⟨c₀, run₀, interrupt | ⟨c₁, step⟩⟩ := run.exists_turn rfl
  · cases interrupt
  · have begun := (run₀.started fresh).working i (step.outcome_inv rfl)
    rw [starts_append]
    exact List.mem_append_left _ begun

/-- **No task is started twice**, since an index that waits has not been started. -/
theorem Run.nodup_starts (run : Run task start trace c) (fresh : start.Fresh) :
    (starts trace).Nodup := by
  induction run with
  | start => exact List.nodup_nil
  | interrupt before ih => rwa [starts_concat_interrupt]
  | turn run step ih =>
    rw [starts_concat]
    cases begun : Event.start? _ with
    | none => simpa using ih
    | some j =>
      have waits := (step.look_inv (Event.start?_eq_some_iff.1 begun)).1
      exact List.nodup_append_comm.1 (ih.cons ((run.started fresh).waiting j waits))

/-! ### A worker with all indices to itself -/

/-- The tasks of a run have been run one after another, from the first index on. -/
structure InTurn (trace : List (Event τ)) : Prop where
  /-- The tasks are started on the indices 0, 1 and so on, in this order. -/
  order : ∃ n, (starts trace).map Fin.val = List.range n
  /-- A task that returns has been started. -/
  started : ∀ i o, .outcome i o ∈ trace → i ∈ starts trace
  /-- When a task is started, those of all indices before it have returned, and none has stopped
  the worker. -/
  passed : ∀ before j after, trace = before ++ .look j false :: after →
    ∀ i < j, ∃ o, .outcome i o ∈ before ∧ ¬ o.Stops
  /-- No task is started for an index behind one whose task stops the worker. -/
  stops : ∀ i o, .outcome i o ∈ trace → o.Stops → ∀ j ∈ starts trace, j ≤ i
  /-- No task is started once the caller is canceled, so that one that runs then is the last. -/
  interrupted : ∀ before after, trace = before ++ .interrupt :: after →
    starts after = [] ∧
      ∀ i ∈ starts before, (∀ o, .outcome i o ∉ before) → ∀ j ∈ starts trace, j ≤ i

/-- The tasks are started in the order of the indices, none being left out. -/
theorem Run.exists_map_starts (run : Run task start trace c) (fresh : start.Fresh)
    (alone : ∀ i j, start.SameWorker i j) : ∃ n, (starts trace).map Fin.val = List.range n := by
  induction run with
  | start => exact ⟨0, rfl⟩
  | interrupt before ih =>
    obtain ⟨n, front⟩ := ih
    exact ⟨n, by rwa [starts_concat_interrupt]⟩
  | @turn trace c c' event run step ih =>
    obtain ⟨n, front⟩ := ih
    cases begun : event.start? with
    | none => exact ⟨n, by rw [starts_concat, begun]; simpa using front⟩
    | some j =>
      obtain rfl := Event.start?_eq_some_iff.1 begun
      have mem (i : Fin length) : i ∈ starts trace ↔ (i : ℕ) < n := by
        rw [← List.mem_range, ← front, List.mem_map_of_injective Fin.val_injective]
      have waits : ¬ (j : ℕ) < n := fun before =>
        (run.started fresh).waiting j (step.look_inv rfl).1 ((mem j).2 before)
      -- An index in front of `j` that has not been started would have returned.
      have next : (j : ℕ) = n := by
        by_contra skipped
        have before : n < j := by omega
        let i : Fin length := ⟨n, before.trans j.isLt⟩
        obtain ⟨o, returned, -⟩ := (run.turn step).exists_passed fresh rfl before (alone i j)
        exact lt_irrefl n ((mem i).1 (run.mem_starts_of_outcome fresh returned))
      refine ⟨n + 1, ?_⟩
      rw [starts_concat, begun, List.map_append, front, List.range_succ]
      simp [next]

/-- **A worker that has all indices to itself runs their tasks one after another**, and goes on
neither behind a task that stops it nor once the token is canceled. -/
theorem Run.inTurn (run : Run task start trace c) (fresh : start.Fresh)
    (alone : ∀ i j, start.SameWorker i j) : InTurn trace where
  order := run.exists_map_starts fresh alone
  started _ _ returned := run.mem_starts_of_outcome fresh returned
  passed _ j _ split i earlier := run.exists_passed fresh split earlier (alone i j)
  stops i o returned stops j mem := by
    by_contra later
    obtain ⟨before, after, split⟩ := List.append_of_mem (mem_starts.1 mem)
    obtain ⟨o', passed, goes⟩ := run.exists_passed fresh split (not_le.1 later) (alone i j)
    have same : o = o' :=
      run.outcome_unique fresh returned (split ▸ List.mem_append_left _ passed)
    exact goes (same ▸ stops)
  interrupted before after split := by
    have silent := run.starts_eq_nil split .interrupt
    refine ⟨silent, fun i begun running j mem => ?_⟩
    have all : starts trace = starts before ++ starts after := by
      rw [split, starts_append]
      rfl
    rw [all, silent, List.append_nil] at mem
    by_contra later
    obtain ⟨front, rest, rfl⟩ := List.append_of_mem (mem_starts.1 mem)
    have inside : trace = front ++ .look j false :: (rest ++ .interrupt :: after) := by
      simpa using split
    obtain ⟨o, passed, -⟩ := run.exists_passed fresh inside (not_le.1 later) (alone i j)
    exact running o (List.mem_append_left _ passed)

end Crew

end RatCalc
