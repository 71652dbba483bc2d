import Mathlib
import RatCalc.Proofs.Concurrency.Crew

/-!
# Jobs that take turns

A job is a computation that looks at its token now and then and may put a crew to work, whose
tasks are jobs themselves. So the groups of an evaluation stand inside one another, and the token
of each group derives from that of the job around it. One turn is taken anywhere in it: a job
looks at its token, a worker takes a turn for its crew, or the job around a crew that has finished
goes on with what the group comes to.

A job that takes turns in any order does so as long as it has not come to a result, and cannot go
on forever.

## Main definitions

* `Job`, `Job.bind`: jobs, and one job after another.
* `Job.check`, `Job.join`, `Job.mapIndexed`: a look that ends a canceled job, and the two kinds of
  crews.
* `Job.Step`: one turn somewhere in a job.
* `Job.Ends`: the turns by which a job comes to a result.

## Main results

* `Job.exists_step`: a job that has no result can take a turn.
* `Job.acc`: no job takes turns forever.
* `Job.finishes`: so every order of turns brings a job to a result.
-/

namespace RatCalc

/-- A computation that takes turns. -/
inductive Job : Type → Type 1
  /-- There is a result. -/
  | done {α : Type} (result : Except EvalError α) : Job α
  /-- The job looks whether its token is canceled. -/
  | look {α : Type} (next : Bool → Job α) : Job α
  /-- A crew is at work, and the job goes on with what its group comes to. -/
  | crew {α β : Type} {length : ℕ} (c : Crew fun _ : Fin length => β) (jobs : Fin length → Job β)
      (next : Except EvalError (Fin length → β) → Job α) : Job α

namespace Job

variable {α β : Type} {length : ℕ}

/-- A job and, if it succeeds, another one after it. -/
def bind : Job α → (α → Job β) → Job β
  | done (.ok x), f => f x
  | done (.error e), _ => done (.error e)
  | look next, f => look fun canceled => (next canceled).bind f
  | crew c jobs next, f => crew c jobs fun r => (next r).bind f

instance : Monad Job where
  pure x := done (.ok x)
  bind := bind

/-- A look that ends the job if its token is canceled. -/
def check : Job Unit :=
  look fun canceled => done (if canceled then .error .canceled else .ok ())

/-- Two jobs of one group. -/
def join (left right : Job α) : Job (α × α) :=
  crew (Crew.pair false) ![left, right] fun r => done (r.map leftRight)

/-- A job for each index, spread over workers. -/
def mapIndexed (workers : ℕ) (jobs : Fin length → Job α) : Job (Array α) :=
  crew (Crew.spread false length workers) jobs fun r => done (r.map Array.ofFn)

/-- A task returns what its job has come to. -/
def Returns (jobs : Fin length → Job α) (i : Fin length) (_ : Bool) (o : Outcome α) : Prop :=
  jobs i = .done o.result ∧ o.cancels = false

/-- One turn somewhere in a job; the flag tells whether its token is canceled at that time. -/
inductive Step : {α : Type} → Bool → Job α → Job α → Prop
  /-- The job looks at its token. -/
  | look {α : Type} {canceled : Bool} {next : Bool → Job α} :
      Step canceled (.look next) (next canceled)
  /-- A task that has been started takes a turn under the token of its group. -/
  | work {α β : Type} {canceled : Bool} {length : ℕ} {c : Crew fun _ : Fin length => β}
      {jobs : Fin length → Job β} {next : Except EvalError (Fin length → β) → Job α}
      (i : Fin length) {t : Job β} (works : c.stage i = .working)
      (step : Step (c.under canceled).group.isCanceled (jobs i) t) :
      Step canceled (.crew c jobs next) (.crew c (Function.update jobs i t) next)
  /-- A worker looks at the token, takes the result of its task, or hands it to the group. -/
  | turn {α β : Type} {canceled : Bool} {length : ℕ} {c c' : Crew fun _ : Fin length => β}
      {jobs : Fin length → Job β} {next : Except EvalError (Fin length → β) → Job α}
      {event : Event fun _ : Fin length => β}
      (step : Crew.Step (Returns jobs) (c.under canceled) event c') :
      Step canceled (.crew c jobs next) (.crew c' jobs next)
  /-- The job goes on when no worker does. -/
  | finish {α β : Type} {canceled : Bool} {length : ℕ} {c : Crew fun _ : Fin length => β}
      {jobs : Fin length → Job β} {next : Except EvalError (Fin length → β) → Job α}
      (finished : c.Finished) : Step canceled (.crew c jobs next) (next c.result)

/-- A job comes to a result while its token stays as it is. -/
def Ends (canceled : Bool) (t : Job α) (r : Except EvalError α) : Prop :=
  Relation.ReflTransGen (Step canceled) t (.done r)

/-! ### Every job comes to a result -/

/-- A job that has no result can take a turn. -/
theorem exists_step (canceled : Bool) (t : Job α) :
    (∃ r, t = .done r) ∨ ∃ t', Step canceled t t' := by
  induction t generalizing canceled with
  | done r => exact .inl ⟨r, rfl⟩
  | look next => exact .inr ⟨_, .look⟩
  | @crew α β length c jobs next ihj =>
    right
    by_cases finished : (c.under canceled).Finished
    · exact ⟨_, .finish finished⟩
    -- A task that has been started either takes a turn itself or has a result to be taken.
    by_cases busy : ∃ i t, c.stage i = .working ∧
        Step (c.under canceled).group.isCanceled (jobs i) t
    · obtain ⟨i, t, works, step⟩ := busy
      exact ⟨_, .work i works step⟩
    · have answers (i : Fin length) (works : (c.under canceled).stage i = .working) :
          ∃ o, Returns jobs i (c.under canceled).group.isCanceled o := by
        rcases ihj i (c.under canceled).group.isCanceled with ⟨r, done⟩ | ⟨t, step⟩
        · exact ⟨{ result := r }, done, rfl⟩
        · exact absurd ⟨i, t, works, step⟩ busy
      obtain ⟨event, c', step⟩ := Crew.exists_step finished answers
      exact ⟨_, .turn step⟩

/-- One job comes from another by one turn, whatever its token is. -/
def Next (t' t : Job α) : Prop :=
  ∃ canceled, Step canceled t t'

/-- One of several jobs takes a turn. -/
def NextOf (jobs' jobs : Fin length → Job α) : Prop :=
  ∃ i t, Next t (jobs i) ∧ jobs' = Function.update jobs i t

/-- Several jobs of which none takes turns forever do not take turns forever together. -/
theorem acc_nextOf {jobs : Fin length → Job α} (each : ∀ i, Acc Next (jobs i)) :
    Acc NextOf jobs := by
  -- The lexicographic order needs a well-founded relation on all jobs, so that `Next` is
  -- restricted to those that do not take turns forever.
  let Within (t' t : Job α) : Prop := Next t' t ∧ Acc Next t
  have within : WellFounded Within := ⟨fun t => ⟨t, fun t' h =>
    Subrelation.accessible (fun below => below.1) (h.2.inv h.1)⟩⟩
  induction jobs using (Pi.Lex.wellFounded (· < ·) fun _ : Fin length => within).induction with
  | _ jobs ih =>
    refine ⟨_, ?_⟩
    rintro _ ⟨i, t, step, rfl⟩
    refine ih _ ⟨i, fun j before => Function.update_of_ne before.ne .., ?_⟩ fun j => ?_
    · rw [Function.update_self]
      exact ⟨step, each i⟩
    · by_cases same : j = i
      · subst same
        rw [Function.update_self]
        exact (each j).inv step
      · rw [Function.update_of_ne same]
        exact each j

/-- A crew whose jobs do not take turns forever comes to its end. -/
theorem acc_crew {c : Crew fun _ : Fin length => β} {jobs : Fin length → Job β}
    {next : Except EvalError (Fin length → β) → Job α} (inside : Acc NextOf jobs)
    (behind : ∀ r, Acc Next (next r)) : Acc Next (.crew c jobs next) := by
  -- The workers' own turns bring the crew nearer to its end; between two of them only the jobs
  -- take turns.
  induction rest : c.rest using Nat.strong_induction_on generalizing c jobs with
  | _ n ih =>
    induction inside with
    | intro jobs inside ihj =>
      refine ⟨_, ?_⟩
      rintro t' ⟨canceled, step⟩
      cases step with
      | work i works step => exact ihj _ ⟨i, _, ⟨_, step⟩, rfl⟩
      | turn step => exact ih _ (rest ▸ step.rest_lt) ⟨_, inside⟩ rfl
      | finish => exact behind _

/-- **No job takes turns forever**, whenever its token is canceled. -/
theorem acc (t : Job α) : Acc Next t := by
  induction t with
  | done r =>
    refine ⟨_, ?_⟩
    rintro t' ⟨_, step⟩
    cases step
  | look next ih =>
    refine ⟨_, ?_⟩
    rintro t' ⟨_, ⟨⟩⟩
    exact ih _
  | crew c jobs next ihj ihn => exact acc_crew (acc_nextOf ihj) ihn

/-- In whatever order its turns are taken, a job does so until it has a result, and it has one
after finitely many turns. -/
structure Finishes (canceled : Bool) (t : Job α) : Prop where
  going : ∀ t', Relation.ReflTransGen (Step canceled) t t' →
    (∃ r, t' = .done r) ∨ ∃ t'', Step canceled t' t''
  finite : ¬ ∃ turns : ℕ → Job α, turns 0 = t ∧ ∀ n, Step canceled (turns n) (turns (n + 1))

/-- **Every job finishes.** -/
theorem finishes (canceled : Bool) (t : Job α) : Finishes canceled t where
  going t' _ := exists_step canceled t'
  finite := by
    induction acc t with
    | intro t _ ih =>
      rintro ⟨turns, rfl, step⟩
      exact ih (turns 1) ⟨canceled, step 0⟩ ⟨fun n => turns (n + 1), rfl, fun n => step (n + 1)⟩

end Job

end RatCalc
