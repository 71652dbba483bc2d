import Mathlib
import RatCalc.Proofs.Concurrency.Crew

/-!
# What the group of a crew keeps

A run of a crew is a row of turns, between which anybody may cancel the token of the caller. The
group remembers of a run the first failure that it took in, and nothing of a task that was only
canceled. So the values that a group comes to are those that all of its tasks have returned, and
the failure that it comes to is the first one that it took in.

The invariant compares the crew with the events so far: the failure that the group keeps is the
first one settled, and the stage of each index tells what there has been to settle for it.

## Main definitions

* `Crew.Run`: what has happened, and the crew then.
* `Event.failure?`: the failure that the group takes in with an event.
* `Crew.Returned`: a task has been run and has returned something.
* `Crew.Safe`: what a group may come to at the end of a run.

## Main results

* `Crew.Recorded.step`, `Crew.Run.recorded`: the invariant is kept by a turn and holds of a run.
* `Crew.run_safe`: both kinds of groups come to what their runs allow, in every order of turns.
-/

namespace RatCalc

variable {length : ℕ} {τ : Fin length → Type}

namespace Event

/-- The failure that the group takes in with an event, and the index it is from. -/
def failure? : Event τ → Option (Fin length × EvalError)
  | settle i (.error e) => if e = .canceled then none else some (i, e)
  | _ => none

theorem eq_settle_of_failure? {event : Event τ} {i : Fin length} {e : EvalError}
    (h : event.failure? = some (i, e)) : event = .settle i (.error e) ∧ e ≠ .canceled := by
  unfold failure? at h
  split at h
  · split at h
    · cases h
    · next real =>
      cases h
      exact ⟨rfl, real⟩
  · cases h

/-- What there is to settle for an index after an event. -/
inductive Answers : Event τ → (i : Fin length) → Except EvalError (τ i) → Prop
  | look (i : Fin length) : Answers (.look i true) i (.error .canceled)
  | outcome (i : Fin length) (o : Outcome (τ i)) : Answers (.outcome i o) i o.result

theorem not_answers_interrupt {i : Fin length} {r : Except EvalError (τ i)} :
    ¬ Answers .interrupt i r := by
  rintro ⟨⟩

theorem not_answers_look {i j : Fin length} {r : Except EvalError (τ j)} :
    ¬ Answers (.look i false) j r := by
  rintro ⟨⟩

theorem not_answers_settle {i j : Fin length} {r' : Except EvalError (τ i)}
    {r : Except EvalError (τ j)} : ¬ Answers (.settle i r') j r := by
  rintro ⟨⟩

/-- The index whose turn an event is. -/
def index? : Event τ → Option (Fin length)
  | interrupt => none
  | look i _ | outcome i _ | settle i _ => some i

theorem Answers.index?_eq {event : Event τ} {i : Fin length} {r : Except EvalError (τ i)}
    (h : event.Answers i r) : event.index? = some i := by
  cases h <;> rfl

theorem answers_look_iff {i : Fin length} {r : Except EvalError (τ i)} :
    Answers (.look i true) i r ↔ r = .error .canceled :=
  ⟨fun | .look _ => rfl, fun h => h ▸ .look i⟩

theorem answers_outcome_iff {i : Fin length} {o : Outcome (τ i)} {r : Except EvalError (τ i)} :
    Answers (.outcome i o) i r ↔ r = o.result :=
  ⟨fun | .outcome _ _ => rfl, fun h => h ▸ .outcome i o⟩

end Event

namespace Crew

/-- A run: turns of the workers in any order, and cancellations of the caller's token between
them. -/
inductive Run (task : (i : Fin length) → Bool → Outcome (τ i) → Prop) (start : Crew τ) :
    List (Event τ) → Crew τ → Prop
  | start : Run task start [] start
  | interrupt {trace : List (Event τ)} {c : Crew τ} (before : Run task start trace c) :
      Run task start (trace ++ [.interrupt]) (c.under true)
  | turn {trace : List (Event τ)} {c c' : Crew τ} {event : Event τ}
      (before : Run task start trace c) (step : Step task c event c') :
      Run task start (trace ++ [event]) c'

/-- The task of an index has been run and has returned this. -/
def Returned (trace : List (Event τ)) (i : Fin length) (r : Except EvalError (τ i)) : Prop :=
  ∃ o, .outcome i o ∈ trace ∧ o.result = r

/-- There has been this to settle for an index. -/
def Answered (trace : List (Event τ)) (i : Fin length) (r : Except EvalError (τ i)) : Prop :=
  ∃ event ∈ trace, event.Answers i r

/-- What a group may come to at the end of a run. `assemble` puts the values for the indices
together. -/
structure Safe {β : Type} (start : Crew τ) (trace : List (Event τ)) (final : Crew τ)
    (assemble : ((i : Fin length) → τ i) → β) (result : Except EvalError β) : Prop where
  /-- It has a value exactly if every task has been run and has returned one. -/
  ok_iff : ∀ value, result = .ok value ↔
    ∃ values, value = assemble values ∧ ∀ i, Returned trace i (.ok (values i))
  /-- The first failure that the group took in is what it comes to. -/
  failure : ∀ i e, trace.findSome? Event.failure? = some (i, e) →
    result = .error e ∧ Returned trace i (.error e)
  /-- A group that comes to be canceled has taken in no failure. -/
  canceled : result = .error .canceled →
    trace.findSome? Event.failure? = none ∧
      ((∃ i, .look i true ∈ trace) ∨ ∃ i, Returned trace i (.error .canceled))
  /-- Nobody but the caller has canceled the token of the caller. -/
  caller : final.group.callerCanceled = true ↔
    start.group.callerCanceled = true ∨ .interrupt ∈ trace

/-! ### The invariant -/

/-- The stage of an index tells what there has been to settle for it. -/
def Tells (trace : List (Event τ)) (i : Fin length) : Stage (τ i) → Prop
  | .waiting | .working => ∀ r, ¬ Answered trace i r
  | .returned r => ∀ r', Answered trace i r' ↔ r' = r
  | .settled (some x) => ∀ r, Answered trace i r ↔ r = .ok x
  | .settled none => ∃ e, (∀ r, Answered trace i r ↔ r = .error e) ∧ .settle i (.error e) ∈ trace

/-- A crew shows what has happened. -/
structure Recorded (start : Crew τ) (trace : List (Event τ)) (c : Crew τ) : Prop where
  caller : c.group.callerCanceled = true ↔
    start.group.callerCanceled = true ∨ .interrupt ∈ trace
  failure : c.group.failure = (trace.findSome? Event.failure?).map Prod.snd
  stages : ∀ i, Tells trace i (c.stage i)
  settled : ∀ i r, .settle i r ∈ trace → Answered trace i r

variable {task : (i : Fin length) → Bool → Outcome (τ i) → Prop}
variable {trace : List (Event τ)} {event : Event τ} {start c c' : Crew τ}

theorem answered_append {i : Fin length} {r : Except EvalError (τ i)} :
    Answered (trace ++ [event]) i r ↔ Answered trace i r ∨ event.Answers i r := by
  simp [Answered, or_and_right, exists_or]

/-- An event that answers nothing for an index leaves what its stage tells. -/
theorem Tells.append {i : Fin length} {s : Stage (τ i)} (h : Tells trace i s)
    (silent : ∀ r, ¬ event.Answers i r) : Tells (trace ++ [event]) i s := by
  have same : ∀ r, Answered (trace ++ [event]) i r ↔ Answered trace i r := fun r => by
    simp only [answered_append, silent, or_false]
  match s with
  | .waiting | .working | .returned _ | .settled (some _) => simpa only [Tells, same] using h
  | .settled none =>
    obtain ⟨e, answers, settled⟩ := h
    exact ⟨e, by simpa only [same] using answers, List.mem_append_left _ settled⟩

/-- What an index answers first is all that it has answered. -/
theorem answered_append_of_silent {i : Fin length} {r : Except EvalError (τ i)}
    (silent : ∀ r', ¬ Answered trace i r') (answer : ∀ r', event.Answers i r' ↔ r' = r)
    (r' : Except EvalError (τ i)) : Answered (trace ++ [event]) i r' ↔ r' = r := by
  rw [answered_append, answer, or_iff_right (silent r')]

/-- A turn changes the stage of its own index, and answers for no other. -/
theorem tells_move {group : Group} {i : Fin length} {s : Stage (τ i)}
    (turn : event.index? = some i) (own : Tells (trace ++ [event]) i s)
    (before : ∀ j, Tells trace j (c.stage j)) (j : Fin length) :
    Tells (trace ++ [event]) j ((c.move group i s).stage j) := by
  by_cases same : j = i
  · subst same
    rwa [stage_move_self]
  · rw [stage_move_of_ne _ _ same]
    refine (before j).append fun r answers => same ?_
    exact Option.some.inj (answers.index?_eq.symm.trans turn)

/-- What has been settled had been answered before. -/
theorem settled_append (before : ∀ i r, .settle i r ∈ trace → Answered trace i r)
    (now : ∀ i r, event = .settle i r → Answered trace i r) (i : Fin length)
    (r : Except EvalError (τ i)) (h : .settle i r ∈ trace ++ [event]) :
    Answered (trace ++ [event]) i r := by
  refine answered_append.2 (.inl ?_)
  rcases List.mem_append.1 h with earlier | last
  · exact before i r earlier
  · exact now i r (List.mem_singleton.1 last).symm

/-- A settlement adds its failure to that of the group. -/
theorem failure_settle (g : Group) (i : Fin length) (r : Except EvalError (τ i)) :
    (g.settle r).1.failure = g.failure.or ((Event.settle i r).failure?.map Prod.snd) := by
  cases r with
  | ok x => simp [Event.failure?]
  | error e =>
    by_cases real : e = .canceled
    · subst real
      simp [Event.failure?]
    · simp [Group.settle_failure g real, Event.failure?, real]

/-- Nothing has happened before the first turn. -/
theorem recorded_start (fresh : start.group.failure = none)
    (unsettled : ∀ i, start.stage i = .waiting ∨ start.stage i = .working) :
    Recorded start [] start where
  caller := by simp
  failure := fresh
  stages i := by
    rcases unsettled i with stage | stage <;> rw [stage] <;> rintro r ⟨_, none, -⟩ <;> cases none
  settled _ _ none := nomatch none

/-- **A turn is recorded.** Only what is settled reaches the failure of the group, and only the
caller reaches its token. -/
theorem Recorded.step (h : Recorded start trace c) (step : Step task c event c') :
    Recorded start (trace ++ [event]) c' := by
  obtain ⟨caller, failure, stages, settled⟩ := h
  cases step with
  | look i waits stands =>
    have silent : ∀ r, ¬ Answered trace i r := by simpa only [waits, Tells] using stages i
    refine ⟨by simpa [move] using caller, by simpa [move, Event.failure?] using failure,
      tells_move rfl ?_ stages, settled_append settled (by simp)⟩
    cases c.group.isCanceled with
    | false =>
      exact (show Tells trace i .working from silent).append fun _ => Event.not_answers_look
    | true => exact answered_append_of_silent silent fun _ => Event.answers_look_iff
  | outcome i o works may =>
    have silent : ∀ r, ¬ Answered trace i r := by simpa only [works, Tells] using stages i
    refine ⟨?_, ?_, tells_move rfl ?_ stages, settled_append settled (by simp)⟩
    · cases o.cancels <;> simpa [move, Group.cancel] using caller
    · cases o.cancels <;> simpa [move, Group.cancel, Event.failure?] using failure
    · exact answered_append_of_silent silent fun _ => Event.answers_outcome_iff
  | settle i r returned =>
    have answered : ∀ r', Answered trace i r' ↔ r' = r := by
      simpa only [returned, Tells] using stages i
    have kept : ∀ r', Answered (trace ++ [.settle i r]) i r' ↔ r' = r :=
      Tells.append (s := .returned r) answered fun _ => Event.not_answers_settle
    refine ⟨by simpa [move] using caller, ?_, tells_move rfl ?_ stages,
      settled_append settled ?_⟩
    · rw [List.findSome?_append, Option.map_or, ← failure]
      simpa [move] using failure_settle c.group i r
    · cases r with
      | ok x => exact kept
      | error e =>
        rw [Group.settle_value]
        exact ⟨e, kept, List.mem_append_right _ (List.mem_singleton_self _)⟩
    · rintro j r' ⟨⟩
      exact (answered r).2 rfl

/-- Being canceled is not recorded. -/
theorem Recorded.under (h : Recorded start trace c) :
    Recorded start (trace ++ [.interrupt]) (c.under true) where
  caller := by simp [Crew.under]
  failure := by simpa [Crew.under, Event.failure?] using h.failure
  stages i := (h.stages i).append fun _ => Event.not_answers_interrupt
  settled := settled_append h.settled (by simp)

/-- **A run is recorded**, whatever the order of its turns. -/
theorem Run.recorded (run : Run task start trace c) (fresh : start.group.failure = none)
    (unsettled : ∀ i, start.stage i = .waiting ∨ start.stage i = .working) :
    Recorded start trace c := by
  induction run with
  | start => exact recorded_start fresh unsettled
  | interrupt _ ih => exact ih.under
  | turn _ step ih => exact ih.step step

/-! ### The end of a run -/

/-- What there has been to settle comes from the task, or from a look before it. -/
theorem answered_iff {i : Fin length} {r : Except EvalError (τ i)} :
    Answered trace i r ↔
      Returned trace i r ∨ .look i true ∈ trace ∧ r = .error .canceled := by
  constructor
  · rintro ⟨_, mem, _ | _⟩
    · exact .inr ⟨mem, rfl⟩
    · exact .inl ⟨_, mem, rfl⟩
  · rintro (⟨o, mem, rfl⟩ | ⟨mem, rfl⟩)
    · exact ⟨_, mem, .outcome i o⟩
    · exact ⟨_, mem, .look i⟩

namespace Recorded

theorem tells (h : Recorded start trace c) {i : Fin length} {s : Stage (τ i)}
    (stage : c.stage i = s) : Tells trace i s :=
  stage ▸ h.stages i

/-- An index answers once. -/
theorem answer_unique (h : Recorded start trace c) {i : Fin length}
    {r r' : Except EvalError (τ i)} (hr : Answered trace i r) (hr' : Answered trace i r') :
    r = r' := by
  have tells := h.stages i
  match c.stage i, tells with
  | .waiting, silent | .working, silent => exact absurd hr (silent r)
  | .returned _, answers | .settled (some _), answers =>
    exact ((answers r).1 hr).trans ((answers r').1 hr').symm
  | .settled none, ⟨_, answers, _⟩ => exact ((answers r).1 hr).trans ((answers r').1 hr').symm

/-- A value that the group got has been returned by its task. -/
theorem returned_of_settled (h : Recorded start trace c) {i : Fin length} {x : τ i}
    (stage : c.stage i = .settled (some x)) : Returned trace i (.ok x) := by
  rcases answered_iff.1 ((h.tells stage _).2 rfl) with returned | ⟨-, canceled⟩
  · exact returned
  · cases canceled

/-- The first failure was settled, so its task has returned it. -/
theorem returned_of_failure (h : Recorded start trace c) {i : Fin length} {e : EvalError}
    (first : trace.findSome? Event.failure? = some (i, e)) :
    e ≠ .canceled ∧ Returned trace i (.error e) := by
  obtain ⟨event, mem, failed⟩ := List.exists_of_findSome?_eq_some first
  obtain ⟨rfl, real⟩ := Event.eq_settle_of_failure? failed
  refine ⟨real, ?_⟩
  rcases answered_iff.1 (h.settled i _ mem) with returned | ⟨-, canceled⟩
  · exact returned
  · exact absurd (Except.error.inj canceled) real

/-- A group never keeps a cancellation as its failure. -/
theorem failure_ne_canceled (h : Recorded start trace c) :
    c.group.failure ≠ some .canceled := by
  rw [h.failure]
  intro kept
  obtain ⟨⟨i, e⟩, first, rfl⟩ := Option.map_eq_some_iff.1 kept
  exact (h.returned_of_failure first).1 rfl

theorem failure_eq_none_iff (h : Recorded start trace c) :
    c.group.failure = none ↔ trace.findSome? Event.failure? = none := by
  rw [h.failure, Option.map_eq_none_iff]

/-- An index that gave no value to a group without a failure was canceled. -/
theorem canceled_of_settled_none (h : Recorded start trace c)
    (quiet : trace.findSome? Event.failure? = none) {i : Fin length}
    (stage : c.stage i = .settled none) : Answered trace i (.error .canceled) := by
  obtain ⟨e, answers, settled⟩ := h.tells stage
  have unreal := List.findSome?_eq_none_iff.1 quiet _ settled
  by_cases real : e = .canceled
  · rw [answers, real]
  · simp [Event.failure?, real] at unreal

/-- A crew that has finished has all values and no failure exactly if every task has been run and
has returned its value. -/
theorem values?_iff (h : Recorded start trace c) (finished : c.Finished)
    {values : (i : Fin length) → τ i} :
    c.group.failure = none ∧ c.values? = some values ↔
      ∀ i, Returned trace i (.ok (values i)) := by
  constructor
  · rintro ⟨-, all⟩ i
    exact h.returned_of_settled (values?_eq_some_iff.1 all i)
  · intro all
    have answered (i : Fin length) : Answered trace i (.ok (values i)) :=
      answered_iff.2 (.inl (all i))
    have valued (i : Fin length) : c.stage i ≠ .settled none := fun stage => by
      obtain ⟨e, answers, -⟩ := h.tells stage
      cases (answers _).1 (answered i)
    constructor
    · rw [h.failure_eq_none_iff, Option.eq_none_iff_forall_ne_some]
      rintro ⟨i, e⟩ first
      have failed := answered_iff.2 (.inl (h.returned_of_failure first).2)
      cases h.answer_unique failed (answered i)
    · refine values?_eq_some_iff.2 fun i => ?_
      -- No worker has been stopped by an index before `i`, since that has given a value.
      rcases finished i with ⟨x, stage⟩ | ⟨j, -, -, stage⟩
      · cases x with
        | none => exact absurd stage (valued i)
        | some x =>
          obtain rfl : values i = x := Except.ok.inj ((h.tells stage _).1 (answered i))
          exact stage
      · exact absurd stage (valued j)

/-- **A group that keeps what has happened comes to what it may**, if no worker goes on. -/
theorem safe {β : Type} (h : Recorded start trace c) (finished : c.Finished)
    {assemble : ((i : Fin length) → τ i) → β} {gathered : Option β}
    (gathers : gathered = c.values?.map assemble) :
    Safe start trace c assemble (c.group.finish gathered) where
  ok_iff value := by
    rw [Group.finish_eq_ok_iff, gathers, Option.map_eq_some_iff]
    constructor
    · rintro ⟨quiet, values, all, rfl⟩
      exact ⟨values, rfl, (h.values?_iff finished).1 ⟨quiet, all⟩⟩
    · rintro ⟨values, rfl, returned⟩
      obtain ⟨quiet, all⟩ := (h.values?_iff finished).2 returned
      exact ⟨quiet, values, all, rfl⟩
  failure i e first := by
    have kept : c.group.failure = some e := by rw [h.failure, first]; rfl
    exact ⟨Group.finish_of_failure kept gathered, (h.returned_of_failure first).2⟩
  canceled result := by
    obtain ⟨quiet, missing⟩ := (Group.finish_eq_canceled_iff h.failure_ne_canceled).1 result
    rw [gathers, Option.map_eq_none_iff] at missing
    have none_settled := h.failure_eq_none_iff.1 quiet
    obtain ⟨i, stage⟩ := exists_settled_none finished missing
    refine ⟨none_settled, ?_⟩
    rcases answered_iff.1 (h.canceled_of_settled_none none_settled stage) with
      returned | ⟨looked, -⟩
    · exact .inr ⟨i, returned⟩
    · exact .inl ⟨i, looked⟩
  caller := h.caller

end Recorded

/-- **A group comes to what its run allows.** Whatever the tasks return, in whatever order their
workers take their turns and whenever the caller is canceled: tasks that are spread over workers
give their values in the order of the indices, and two tasks give the left value and the right
one, exactly if all of them have been run and have returned a value. Otherwise the group comes to
the first failure that it took in, or to being canceled if it took in none. It never cancels the
token of its caller. -/
theorem run_safe :
    (∀ {α : Type} (canceled : Bool) (length workers : ℕ)
      (task : Fin length → Bool → Outcome α → Prop) (trace : List (Event fun _ => α))
      (final : Crew fun _ => α),
      Run task (spread canceled length workers) trace final → final.Finished →
        Safe (spread canceled length workers) trace final List.ofFn
          (final.group.finish final.results)) ∧
    ∀ {τ : Fin 2 → Type} (canceled : Bool) (task : (i : Fin 2) → Bool → Outcome (τ i) → Prop)
      (trace : List (Event τ)) (final : Crew τ),
      Run task (pair canceled) trace final → final.Finished →
        Safe (pair canceled) trace final leftRight (final.group.finish final.both) := by
  refine ⟨fun canceled length workers task trace final run finished => ?_,
    fun canceled task trace final run finished => ?_⟩
  · have recorded := run.recorded rfl fun _ => .inl rfl
    exact recorded.safe finished final.results_eq
  · have recorded := run.recorded rfl fun _ => .inr rfl
    exact recorded.safe finished final.both_eq

/-- Of two tasks under a worker each, the second fails while the first one runs; then the caller
is canceled and the first task stops. What counts is the failure. Of two tasks that start at once,
the right one returns first, and the left value still comes first. -/
theorem run_safe_failure_before_cancellation :
    (∃ final : Crew fun _ : Fin 2 => ℕ,
      Run (fun _ _ _ => True) (spread false 2 2)
        [.look 0 false, .look 1 false, .outcome 1 { result := .error .divisionByZero },
          .settle 1 (.error .divisionByZero), .interrupt,
          .outcome 0 { result := .error .canceled }, .settle 0 (.error .canceled)] final ∧
        final.Finished ∧ final.group.finish final.results = .error .divisionByZero ∧
          final.group.callerCanceled = true) ∧
    ∃ final : Crew fun _ : Fin 2 => ℕ,
      Run (fun _ _ _ => True) (pair false)
        [.outcome 1 { result := .ok 8 }, .settle 1 (.ok 8), .outcome 0 { result := .ok 5 },
          .settle 0 (.ok 5)] final ∧
        final.Finished ∧ final.group.finish final.both = .ok (5, 8) := by
  constructor
  · obtain ⟨final, run, finished⟩ : ∃ final : Crew fun _ : Fin 2 => ℕ,
        Run (fun _ _ _ => True) (spread false 2 2)
          [.look 0 false, .look 1 false, .outcome 1 { result := .error .divisionByZero },
            .settle 1 (.error .divisionByZero), .interrupt,
            .outcome 0 { result := .error .canceled }, .settle 0 (.error .canceled)] final ∧
          final.Finished :=
      ⟨_, (((((((Run.start.turn (.look 0 rfl (standsAt_alone rfl _))).turn
        (.look 1 rfl (standsAt_alone rfl _))).turn (.outcome 1 _ rfl trivial)).turn
        (.settle 1 _ rfl)).interrupt).turn (.outcome 0 _ rfl trivial)).turn (.settle 0 _ rfl)),
        Fin.forall_fin_two.2 ⟨.inl ⟨_, rfl⟩, .inl ⟨_, rfl⟩⟩⟩
    have safe := run_safe.1 false 2 2 _ _ _ run finished
    exact ⟨final, run, finished, (safe.failure 1 .divisionByZero rfl).1,
      safe.caller.2 (.inr (by simp))⟩
  · obtain ⟨final, run, finished⟩ : ∃ final : Crew fun _ : Fin 2 => ℕ,
        Run (fun _ _ _ => True) (pair false)
          [.outcome 1 { result := .ok 8 }, .settle 1 (.ok 8), .outcome 0 { result := .ok 5 },
            .settle 0 (.ok 5)] final ∧
          final.Finished :=
      ⟨_, (((Run.start.turn (.outcome 1 _ rfl trivial)).turn (.settle 1 _ rfl)).turn
        (.outcome 0 _ rfl trivial)).turn (.settle 0 _ rfl),
        Fin.forall_fin_two.2 ⟨.inl ⟨_, rfl⟩, .inl ⟨_, rfl⟩⟩⟩
    have safe := run_safe.2 false _ _ _ run finished
    refine ⟨final, run, finished, (safe.ok_iff (5, 8)).2 ⟨![5, 8], rfl, ?_⟩⟩
    exact Fin.forall_fin_two.2
      ⟨⟨{ result := .ok 5 }, by simp, rfl⟩, ⟨{ result := .ok 8 }, by simp, rfl⟩⟩

end Crew

end RatCalc
