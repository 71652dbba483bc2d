import Mathlib
import RatCalc.Proofs.Concurrency.Job

/-!
# What every order of turns keeps

A job has a value of its own or none, which does not depend on the order of its turns. Whatever
the order, the job comes to that value, or to a failure if there is none; it comes to be canceled
only if it has been told to stop. A group tells its tasks to stop only behind a failure, and then
comes to this failure, so that a group whose caller has not been told to stop never comes to be
canceled.

The invariant gives a value to every task that is at work and to what comes behind it, and keeps
apart who may have been told to stop.

## Main definitions

* `Allows`: the results that a job with a certain value may come to.
* `Job.Keeps`: all results that a job may come to from here are allowed.
* `Crew.Sound`: the invariant of a crew whose tasks have certain values.

## Main results

* `Job.Keeps.step`: a turn keeps it.
* `Job.Keeps.allows`: a job comes to an allowed result in every order of turns.
* `Job.Keeps.bind`, `Job.keeps_join`, `Job.keeps_mapIndexed`: jobs that are put together.
-/

namespace RatCalc

/-- The results that a job may come to if its value is `value`; `told` says whether it may have
been told to stop. -/
def Allows {α : Type} (value : Option α) (told : Prop) : Except EvalError α → Prop
  | .ok x => value = some x
  | .error .canceled => told
  | .error _ => value = none

namespace Allows

variable {α β : Type} {value : Option α} {told told' : Prop}

theorem error_iff {e : EvalError} (real : e ≠ .canceled) :
    Allows value told (.error e) ↔ value = none := by
  cases e <;> first | rfl | exact absurd rfl real

theorem mono {r : Except EvalError α} (h : Allows value told r) (more : told → told') :
    Allows value told' r := by
  cases r with
  | ok x => exact h
  | error e =>
    by_cases real : e = .canceled
    · subst real
      exact more h
    · exact (error_iff real).2 ((error_iff real).1 h)

/-- A result that is converted is allowed for the converted value. -/
theorem map {r : Except EvalError α} (h : Allows value told r) (f : α → β) :
    Allows (value.map f) told (r.map f) := by
  cases r with
  | ok x => exact congrArg (Option.map f) h
  | error e =>
    by_cases real : e = .canceled
    · subst real
      exact h
    · refine (error_iff real).2 ?_
      rw [(error_iff real).1 h]
      rfl

/-- Without having been told to stop, a job comes to its value or fails. -/
theorem toOption_eq {r : Except EvalError α} (h : Allows value False r) :
    r.toOption = value ∧ r ≠ .error .canceled := by
  cases r with
  | ok x => exact ⟨h.symm, nofun⟩
  | error e =>
    by_cases real : e = .canceled
    · subst real
      exact h.elim
    · exact ⟨((error_iff real).1 h).symm, fun same => real (Except.error.inj same)⟩

end Allows

/-- The stage of a task whose value is `value`. -/
def Stage.Fits {α : Type} (value : Option α) (told : Prop) : Stage α → Prop
  | waiting | working => True
  | returned r => Allows value told r
  | settled (some x) => value = some x
  | settled none => told

theorem Stage.Fits.mono {α : Type} {value : Option α} {told told' : Prop} {s : Stage α}
    (h : s.Fits value told) (more : told → told') : s.Fits value told' := by
  match s with
  | waiting | working => trivial
  | returned _ => exact Allows.mono h more
  | settled (some _) => exact h
  | settled none => exact more h

variable {α β : Type} {length : ℕ} {told told' : Prop} {canceled : Bool}

/-! ### The crew -/

/-- A crew whose tasks have these values. It keeps only failures of tasks without a value, and
cancels its token only behind a failure; `told` says whether its caller may have been told to
stop. -/
structure Crew.Sound (c : Crew fun _ : Fin length => β) (values : Fin length → Option β)
    (told : Prop) : Prop where
  canceled : c.group.canceled = true → c.group.failure ≠ none
  failure : ∀ e, c.group.failure = some e → e ≠ .canceled ∧ ∃ i, values i = none
  stages : ∀ i, (c.stage i).Fits (values i) (told ∨ c.group.failure ≠ none)

namespace Crew.Sound

variable {c c' : Crew fun _ : Fin length => β} {values : Fin length → Option β}

theorem mono (h : c.Sound values told) (more : told → told') : c.Sound values told' where
  canceled := h.canceled
  failure := h.failure
  stages i := (h.stages i).mono (Or.imp_left more)

/-- A crew that nobody has worked for yet. -/
theorem start (uncanceled : c.group.canceled = false) (fresh : c.group.failure = none)
    (unsettled : ∀ i, c.stage i = .waiting ∨ c.stage i = .working) : c.Sound values told where
  canceled h := by
    rw [uncanceled] at h
    cases h
  failure e h := by
    rw [fresh] at h
    cases h
  stages i := by
    rcases unsettled i with stage | stage <;> rw [stage] <;> trivial

/-- A task that sees its token canceled is told so by the caller or by a failure. -/
theorem told_of_isCanceled (h : c.Sound values told)
    (saw : (c.under canceled).group.isCanceled = true) :
    (told ∨ canceled = true) ∨ c.group.failure ≠ none := by
  rcases Bool.or_eq_true_iff.1 saw with caller | own
  · exact .inl (.inr caller)
  · exact .inr (h.canceled own)

/-- A turn of one worker under a group that goes on as it did. -/
theorem move (h : c.Sound values told) {group : Group} {i : Fin length} {s : Stage β}
    (uncanceled : group.canceled = true → group.failure ≠ none)
    (failure : ∀ e, group.failure = some e → e ≠ .canceled ∧ ∃ i, values i = none)
    (kept : c.group.failure ≠ none → group.failure ≠ none)
    (own : s.Fits (values i) (told ∨ group.failure ≠ none)) :
    (c.move group i s).Sound values told where
  canceled := uncanceled
  failure := failure
  stages j := by
    by_cases same : j = i
    · subst same
      rwa [stage_move_self]
    · rw [stage_move_of_ne _ _ same]
      exact (h.stages j).mono (Or.imp_right kept)

/-- **A turn of one worker keeps the crew sound.** Whatever the group takes in is allowed for its
task: a failure belongs to a task without a value, and a task that was canceled has been told to
stop. -/
theorem step {task : Fin length → Bool → Outcome β → Prop} {event : Event fun _ => β}
    (h : c.Sound values told)
    (quiet : ∀ i o, task i (c.under canceled).group.isCanceled o → o.cancels = false)
    (results : ∀ i o, task i (c.under canceled).group.isCanceled o →
      Allows (values i) (told ∨ c.group.failure ≠ none) o.result)
    (step : Step task (c.under canceled) event c') :
    c'.Sound values (told ∨ canceled = true) ∧
      (c.group.failure ≠ none → c'.group.failure ≠ none) := by
  have under : (c.under canceled).Sound values (told ∨ canceled = true) :=
    ⟨h.canceled, h.failure, fun i => (h.stages i).mono (Or.imp_left .inl)⟩
  cases step with
  | look i waits stands =>
    refine ⟨under.move h.canceled h.failure id ?_, id⟩
    split
    · next saw => exact h.told_of_isCanceled saw
    · trivial
  | outcome i o works may =>
    rw [quiet i o may]
    refine ⟨under.move h.canceled h.failure id ?_, id⟩
    exact (results i o may).mono (Or.imp_left .inl)
  | settle i r returned =>
    have fits : Allows (values i) ((told ∨ canceled = true) ∨ c.group.failure ≠ none) r := by
      have fits := under.stages i
      rwa [returned] at fits
    cases r with
    | ok x => exact ⟨under.move h.canceled h.failure id fits, id⟩
    | error e =>
      by_cases real : e = .canceled
      · subst real
        exact ⟨under.move h.canceled h.failure id fits, id⟩
      · have worthless : values i = none := (Allows.error_iff real).1 fits
        rw [Group.settle_value, Group.settle_failure _ real]
        have kept : ((c.under canceled).group.failure.or (some e)) ≠ none := by simp
        refine ⟨under.move (fun _ => kept) (fun e' first => ?_) (fun _ => kept) (.inr kept),
          fun _ => kept⟩
        rcases Option.or_eq_some_iff.1 first with earlier | ⟨-, now⟩
        · exact h.failure e' earlier
        · exact ⟨Option.some.inj now ▸ real, i, worthless⟩

/-- What a crew that has finished comes to is allowed for the values of its tasks. -/
theorem result (h : c.Sound values told) (finished : c.Finished) :
    Allows (gather values) told c.result := by
  cases kept : c.group.failure with
  | some e =>
    obtain ⟨real, missing⟩ := h.failure e kept
    rw [Crew.result, Group.finish_of_failure kept]
    exact (Allows.error_iff real).2 (gather_eq_none_iff.2 missing)
  | none =>
    cases all : c.values? with
    | some xs =>
      have whole : c.result = .ok xs := Group.finish_eq_ok_iff.2 ⟨kept, all⟩
      rw [whole]
      refine gather_eq_some_iff.2 fun i => ?_
      have fits := h.stages i
      rwa [values?_eq_some_iff.1 all i] at fits
    | none =>
      have stopped : c.result = .error .canceled :=
        (Group.finish_eq_canceled_iff (by simp [kept])).2 ⟨kept, all⟩
      obtain ⟨i, settled⟩ := exists_settled_none finished all
      have fits := h.stages i
      rw [settled] at fits
      rw [stopped]
      exact fits.resolve_right fun failed => failed kept

end Crew.Sound

/-! ### Jobs -/

namespace Job

/-- All results that a job may come to from here are allowed for its value. What comes behind a
crew may be reached after the job has been told to stop. -/
def Keeps : {α : Type} → Job α → Option α → Prop → Prop
  | _, .done r, value, told => Allows value told r
  | _, .look next, value, told => (next false).Keeps value told ∧ (next true).Keeps value True
  | _, .crew c jobs next, value, told =>
    ∃ values : Fin _ → Option _, c.Sound values told ∧
      (∀ i, (jobs i).Keeps (values i) (told ∨ c.group.failure ≠ none)) ∧
      ∀ told', (told → told') → ∀ r, Allows (gather values) told' r → (next r).Keeps value told'

theorem Keeps.mono {t : Job α} {value : Option α} (h : t.Keeps value told)
    (more : told → told') : t.Keeps value told' := by
  induction t generalizing told told' with
  | done r => exact Allows.mono h more
  | look next ih => exact ⟨ih false h.1 more, h.2⟩
  | crew c jobs next ihj _ =>
    obtain ⟨values, sound, jobs, behind⟩ := h
    exact ⟨values, sound.mono more, fun i => ihj i (jobs i) (Or.imp_left more),
      fun told'' more' => behind told'' (more' ∘ more)⟩

/-- **A turn keeps what was promised.** The induction is on the turn, which goes down to the job
that takes it; what that job is told on the way comes from a failure or from above. -/
theorem Keeps.step {t t' : Job α} {value : Option α} (step : Step canceled t t')
    (h : t.Keeps value told) : t'.Keeps value (told ∨ canceled = true) := by
  induction step generalizing told with
  | @look _ canceled next =>
    cases canceled with
    | false => exact h.1.mono .inl
    | true => exact h.2.mono fun _ => .inr rfl
  | work i works step ih =>
    obtain ⟨values, sound, jobs, behind⟩ := h
    refine ⟨values, sound.mono .inl, fun j => ?_, fun told' more => behind told' (more ∘ .inl)⟩
    by_cases same : j = i
    · subst same
      rw [Function.update_self]
      refine (ih (jobs j)).mono ?_
      rintro (before | saw)
      · exact before.imp_left .inl
      · exact sound.told_of_isCanceled saw
    · rw [Function.update_of_ne same]
      exact (jobs j).mono (Or.imp_left .inl)
  | turn step =>
    obtain ⟨values, sound, jobs, behind⟩ := h
    obtain ⟨sound', kept⟩ := sound.step (fun _ _ returns => returns.2)
      (fun i o returns => by simpa only [returns.1, Keeps] using jobs i) step
    exact ⟨values, sound', fun i => (jobs i).mono (Or.imp .inl kept),
      fun told' more => behind told' (more ∘ .inl)⟩
  | finish finished =>
    obtain ⟨values, sound, -, behind⟩ := h
    exact behind _ .inl _ ((sound.result finished).mono .inl)

/-- **A job comes to an allowed result in every order of turns.** -/
theorem Keeps.allows {t : Job α} {value : Option α} (h : t.Keeps value told)
    {r : Except EvalError α} (ends : Ends canceled t r) :
    Allows value (told ∨ canceled = true) r := by
  suffices all : ∀ t', Relation.ReflTransGen (Step canceled) t t' →
      t'.Keeps value (told ∨ canceled = true) from all _ ends
  intro t' steps
  induction steps with
  | refl => exact h.mono .inl
  | tail _ step ih => exact (ih.step step).mono fun either => either.elim id .inr

/-! ### Jobs that are put together -/

/-- A job whose value decides about the job after it. -/
theorem Keeps.bind {t : Job α} {value : Option α} (h : t.Keeps value told) {f : α → Job β}
    {g : α → Option β} (after : ∀ x, value = some x → (f x).Keeps (g x) told) :
    (t.bind f).Keeps (value.bind g) told := by
  induction t generalizing told with
  | done r =>
    cases r with
    | ok x =>
      obtain rfl : value = some x := h
      exact after x rfl
    | error e =>
      by_cases real : e = .canceled
      · subst real
        exact h
      · refine (Allows.error_iff real).2 ?_
        rw [(Allows.error_iff real).1 h]
        rfl
  | look next ih =>
    exact ⟨ih false h.1 after,
      ih true h.2 fun x hx => (after x hx).mono fun _ => trivial⟩
  | crew c jobs next _ ihn =>
    obtain ⟨values, sound, jobs, behind⟩ := h
    exact ⟨values, sound, jobs, fun told' more r allowed =>
      ihn r (behind told' more r allowed) fun x hx => (after x hx).mono more⟩

/-- The same for a job that imitates a computation. -/
theorem Keeps.andThen {t : Job α} {r : Except EvalError α} (h : t.Keeps r.toOption told)
    {f : α → Job β} {g : α → Except EvalError β}
    (after : ∀ x, r = .ok x → (f x).Keeps (g x).toOption told) :
    (t >>= f).Keeps (r >>= g).toOption told := by
  have chained : (r >>= g).toOption = r.toOption.bind fun x => (g x).toOption := by
    cases r <;> rfl
  rw [chained]
  refine h.bind fun x hx => after x ?_
  cases r with
  | ok y => exact congrArg Except.ok (Option.some.inj hx)
  | error e => cases hx

theorem keeps_ok (x : α) : (done (.ok x)).Keeps (some x) told :=
  rfl

theorem keeps_error {e : EvalError} (real : e ≠ .canceled) :
    (done (.error e : Except EvalError α)).Keeps none told :=
  (Allows.error_iff real).2 rfl

/-- A result that is no cancellation is that of a job which is done with it. -/
theorem keeps_done {r : Except EvalError α} (real : r ≠ .error .canceled) :
    (done r).Keeps r.toOption told := by
  cases r with
  | ok x => exact keeps_ok x
  | error e => exact keeps_error fun unreal => real (congrArg _ unreal)

/-- A look at the token has no part in the value of a job. -/
theorem keeps_after_check {t : Job α} {value : Option α} (h : t.Keeps value told) :
    (check >>= fun _ => t).Keeps value told :=
  ⟨h, trivial⟩

/-- Two jobs of one group have a value if both have one. -/
theorem keeps_join {left right : Job α} {x y : Option α} (hx : left.Keeps x told)
    (hy : right.Keeps y told) :
    (join left right).Keeps (x.bind fun a => y.map fun b => (a, b)) told := by
  refine ⟨![x, y], .start rfl rfl fun _ => .inr rfl,
    Fin.forall_fin_two.2 ⟨hx.mono .inl, hy.mono .inl⟩, fun told' _ r allowed => ?_⟩
  have pairs := allowed.map leftRight
  rwa [map_gather_two] at pairs

/-- Jobs for all indices have their values together, however they are spread. -/
theorem keeps_mapIndexed {workers : ℕ} {jobs : Fin length → Job α}
    {values : Fin length → Option α} (each : ∀ i, (jobs i).Keeps (values i) told) :
    (mapIndexed workers jobs).Keeps ((gather values).map Array.ofFn) told :=
  ⟨values, .start rfl rfl fun _ => .inl rfl, fun i => (each i).mono .inl,
    fun _ _ _ allowed => allowed.map _⟩

end Job

end RatCalc
