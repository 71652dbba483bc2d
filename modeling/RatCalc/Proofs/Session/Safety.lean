import Mathlib
import RatCalc.Proofs.Concurrency.Guards
import RatCalc.Proofs.Concurrency.Independence
import RatCalc.Proofs.Evaluation.WellFormed
import RatCalc.Session

/-!
# What holds at every moment

An evaluation in any order of turns, whose token may be canceled between any two of them, comes to
no value but that of its expression. So it keeps values well formed, and with it the bindings of a
session, whatever programs are submitted to it, pulled, canceled and left half way.

## Main definitions

* `Job.Reaches`: a job comes from another one by turns, whatever its token says at each of them.
* `Submission.Reachable`: what a session and its submissions may come to.

## Main results

* `Expression.evaluate_of_reaches`: a value that is reached is the value of the expression.
* `Submission.Reachable.wellFormed`: the bindings of a session are well formed at every moment.
* `Expression.evaluation_safe`: values stay well formed, and no check of an evaluation fails.
-/

namespace RatCalc

/-! ### Any order of turns, under any token -/

namespace Job

variable {α : Type}

/-- The second job comes from the first one by turns. At each of them the token may be canceled or
not. -/
def Reaches : Job α → Job α → Prop :=
  Relation.ReflTransGen fun t t' => Next t' t

/-- Turns keep what was promised, whatever the job is told on the way. -/
theorem Keeps.reaches {t t' : Job α} {value : Option α} (h : t.Keeps value True)
    (turns : t.Reaches t') : t'.Keeps value True := by
  induction turns with
  | refl => exact h
  | tail _ turn ih =>
    obtain ⟨canceled, step⟩ := turn
    exact (ih.step step).mono fun _ => trivial

theorem Ends.reaches {t : Job α} {canceled : Bool} {r : Except EvalError α}
    (h : t.Ends canceled r) : t.Reaches (.done r) :=
  Relation.ReflTransGen.mono (fun _ _ step => ⟨canceled, step⟩) _ _ h

end Job

namespace Expression

variable {config : Config} {env : Environment}

/-- **A value that is reached is the value of the expression.** -/
theorem evaluate_of_reaches {e : Expression} {v : Value}
    (turns : (e.job config env).Reaches (.done (.ok v))) :
    e.evaluate config false env = .ok v := by
  have kept : (Job.done (.ok v)).Keeps (e.evaluate config false env).toOption True :=
    (e.keeps_job env).reaches turns
  exact toOption_eq_some_iff.1 kept

end Expression

/-! ### Sessions -/

/-- A statement that is run leaves the bindings well formed. -/
theorem Statement.wellFormed_of_run {config : Config} {canceled : Bool} {env env' : Environment}
    {s : Statement} {effect : Effect} (well : env.WellFormed)
    (h : s.run config canceled env = .ok (effect, env')) : env'.WellFormed := by
  unfold run at h
  split at h
  · cases h
  · split at h
    · cases h
      exact well
    · obtain ⟨v, -, hv⟩ := bind_eq_ok_iff.1 h
      cases hv
      exact well
    · obtain ⟨v, value, hv⟩ := bind_eq_ok_iff.1 h
      cases hv
      exact well.bind _ (Expression.wellFormed_of_evaluate well value)
    · obtain ⟨v, -, hv⟩ := bind_eq_ok_iff.1 h
      cases hv
      exact well

namespace Submission

/-- What a session and its submissions may come to. A program is submitted to a new session or to
that of any submission, finished or not, and may be canceled or asked for an event at any moment.
The value that a binding takes may be calculated in any order of turns. -/
inductive Reachable : Submission → Prop
  | start (config : Config) (width : List Char → ℕ) (source : List Char) :
      Reachable (Session.submit { config, width } source)
  | submit {s : Submission} (source : List Char) (h : Reachable s) :
      Reachable (s.session.submit source)
  | cancel {s : Submission} (h : Reachable s) : Reachable s.cancel
  | pull {s : Submission} (h : Reachable s) : Reachable s.pull.2
  | assign {s : Submission} {name : Name} {value : Expression} {rest : List Statement} {v : Value}
      (h : Reachable s) (first : s.statements = .var name value :: rest)
      (turns : (value.job s.session.config s.session.environment).Reaches (.done (.ok v))) :
      Reachable { s with
        session := { s.session with environment := s.session.environment.bind name v }
        statements := rest
        provisional := none }

/-- A submission starts with the bindings of its session. -/
theorem environment_submit (session : Session) (source : List Char) :
    (session.submit source).session = session := by
  unfold Session.submit
  split <;> rfl

/-- Statements that are run leave the bindings well formed. -/
theorem wellFormed_advance {s : Submission} (well : s.session.environment.WellFormed)
    (statements : List Statement) : (s.advance statements).2.session.environment.WellFormed := by
  induction statements generalizing s with
  | nil => exact well
  | cons statement rest ih =>
    unfold advance
    split
    · exact well
    · next effect environment run =>
      have kept := Statement.wellFormed_of_run well run
      split
      · exact ih kept
      · exact ih kept
      · exact kept

theorem wellFormed_pull {s : Submission} (well : s.session.environment.WellFormed) :
    s.pull.2.session.environment.WellFormed := by
  unfold pull
  split
  · exact well
  · split
    · exact well
    · exact wellFormed_advance well s.statements

/-- **The bindings of a session are well formed at every moment.** -/
theorem Reachable.wellFormed {s : Submission} (h : s.Reachable) :
    s.session.environment.WellFormed := by
  induction h with
  | start config width source =>
    rw [environment_submit]
    exact Environment.wellFormed_empty
  | submit source _ ih =>
    rw [environment_submit]
    exact ih
  | cancel _ ih => exact ih
  | pull _ ih => exact wellFormed_pull ih
  | assign _ _ turns ih =>
    exact ih.bind _ (Expression.wellFormed_of_evaluate ih (Expression.evaluate_of_reaches turns))

end Submission

/-! ### Everything together -/

namespace Expression

/-- **Evaluation is safe.** Where all bindings are well formed, an expression has well-formed
values only, whatever the settings and the token are, and so has its evaluation in any order of
turns, whenever it is canceled. All bindings that a session ever has are well formed. And no check
that the steps of an evaluation might make ever fails: with a check that every index is below the
length of its sequence, that no fraction is put in lowest terms over zero, and that every stretch
of items to be folded has some and is split into two shorter ones that have some too, it is the same
job, which ends in every order of turns. -/
theorem evaluation_safe (config : Config) (e : Expression) :
    (∀ env : Environment, env.WellFormed →
      (∀ canceled v, e.evaluate config canceled env = .ok v → v.WellFormed) ∧
      ∀ v, (e.job config env).Reaches (.done (.ok v)) → v.WellFormed) ∧
    (∀ s : Submission, s.Reachable → s.session.environment.WellFormed) ∧
    ∀ (env : Environment) (fault : EvalError),
      e.guardedJob fault config env = e.job config env ∧
      (∀ canceled, (e.guardedJob fault config env).Ends canceled (e.evaluate config canceled env)) ∧
      Acc Job.Next (e.guardedJob fault config env) := by
  refine ⟨fun env well => ⟨fun canceled v value => wellFormed_of_evaluate well value,
    fun v turns => wellFormed_of_evaluate well (evaluate_of_reaches turns)⟩,
    fun s reachable => reachable.wellFormed, fun env fault => ?_⟩
  rw [guardedJob_eq]
  exact ⟨rfl, fun canceled => e.ends_job env canceled, Job.acc _⟩

/-- The squares from 1 to 3 in an environment that has the range, and a session that has bound a
range and canceled its next program before this was done. -/
theorem evaluation_safe_squares :
    let squares : Expression := map (identifier "x") "y"
      (operation (identifier "y") .multiply (identifier "y"))
    let env := Environment.empty.bind "x" (.sequence (.range 1 3))
    let session : Session := { config := {}, width := List.length }
    let bound := (session.submit "var x = \x7b1, 3\x7d".toList).pull.2
    let left := (bound.session.submit "var y = x\nout y\nvar x = 1".toList).pull.2.cancel
    (Value.sequence (.list #[1, .ofInt 4, .ofInt 9])).WellFormed ∧
      left.session.lookup? "y" = some (.sequence (.range 1 3)) ∧
      left.session.environment.WellFormed ∧
      squares.guardedJob .divisionByZero {} env = squares.job {} env := by
  intro squares env session bound left
  have safe := evaluation_safe {} squares
  have value : squares.evaluate {} false env =
      .ok (.sequence (.list #[1, .ofInt 4, .ofInt 9])) := by decide +kernel
  have well : env.WellFormed := Environment.wellFormed_empty.bind "x" (by decide : (1 : ℤ) ≤ 3)
  have reachable : left.Reachable := .cancel (.pull (.submit _ (.pull (.start _ _ _))))
  exact ⟨(safe.1 env well).1 false _ value, by decide +kernel, safe.2.1 left reachable,
    (safe.2.2 env .divisionByZero).1⟩

end Expression

end RatCalc
