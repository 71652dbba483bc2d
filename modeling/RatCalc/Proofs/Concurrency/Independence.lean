import Mathlib
import RatCalc.Proofs.Concurrency.Evaluation
import RatCalc.Proofs.Concurrency.Sequential
import RatCalc.Proofs.Evaluation.Unrolling

/-!
# Results do not depend on the order of turns

The evaluation of an expression runs the tasks of each group one after another, which is one of
the orders in which its job may take its turns. All other orders, under all settings, come to an
equal value, or to a failure where this one does. Which failure it is does depend on the order.

## Main definitions

* `Agree`: two results that are both equal values, or both failures but no cancellations.

## Main results

* `Expression.ends_job`: the evaluation is one of the orders.
* `Job.ends_mapIndexed_second`: an order that comes to the failure of the second task.
* `Expression.job_agree`: all orders agree, under all settings.
-/

namespace RatCalc

variable {canceled : Bool}

/-- The fold that runs its tasks one after another. -/
theorem Job.ends_fold {α : Type} (r : Reduction α) {apply : α → α → Job α}
    (each : ∀ b x y, Ends b (apply x y) (r.apply b x y)) {start count : ℕ}
    (nonempty : 0 < count) (inside : start + count ≤ r.size) (depth : ℕ) (canceled : Bool) :
    Ends canceled (Job.fold r.item apply r.parallelDepth start count nonempty inside depth)
      (r.fold start count nonempty inside depth canceled) := by
  induction count using Nat.strong_induction_on generalizing start depth canceled with
  | _ count ih =>
    rw [Job.fold, Reduction.fold]
    cases canceled with
    | true => exact ends_check_canceled _
    | false =>
      simp only [Bool.false_eq_true, if_false]
      refine ends_after_check ?_
      split
      · exact ends_done _
      split
      · exact each _ _ _
      have left := @ih (count / 2) (by omega) start (by omega) (by omega) (depth + 1)
      have right := @ih (count - count / 2) (by omega) (start + count / 2) (by omega) (by omega)
        (depth + 1)
      split
      · exact (ends_join left right).andThen fun v _ => each false v.1 v.2
      · exact (left false).andThen fun x _ => (right false).andThen fun y _ => each false x y

namespace Expression

variable {config : Config}

theorem ends_reduceJob {items : Sequence} {initial : Fraction} {sum : Bool}
    {apply : Value → Value → Job Value} {f : Bool → Value → Value → Except EvalError Value}
    (each : ∀ b x y, Job.Ends b (apply x y) (f b x y)) :
    Job.Ends canceled (reduceJob config items initial sum apply)
      (reduceSequence config canceled items initial sum f) := by
  rw [reduceJob, reduceSequence_eq]
  split
  · exact Job.ends_done _
  · refine Sequence.itemwise_related (R := Job.Ends canceled) (Job.ends_done _) fun n fits => ?_
    split
    · exact Job.ends_fold ⟨_, _, f, _⟩ each _ _ 0 _
    · exact Job.ends_done _

theorem ends_mapJob {items : Sequence} {apply : Fraction → Job Fraction}
    {f : Bool → Fraction → Except EvalError Fraction}
    (each : ∀ b x, Job.Ends b (apply x) (f b x)) :
    Job.Ends canceled (mapJob config items apply) (mapSequence config canceled items f) := by
  rw [mapJob, mapSequence_eq]
  refine Sequence.itemwise_related (R := Job.Ends canceled) (Job.ends_done _) fun n fits => ?_
  refine Job.Ends.andThen ?_ fun results _ => Job.ends_done _
  exact Job.ends_mapIndexed _ (fun _ _ _ => rfl) fun i b => each b _

/-- An evaluation that finds its token canceled is over at once. -/
theorem ends_job_of_uncanceled {e : Expression} {env : Environment}
    (uncanceled : Job.Ends false (e.job config env) (e.evaluate config false env))
    (canceled : Bool) : Job.Ends canceled (e.job config env) (e.evaluate config canceled env) := by
  cases canceled with
  | false => exact uncanceled
  | true => cases e <;> exact Job.ends_check_canceled _

/-- **The evaluation is one of the orders of turns.** -/
theorem ends_job (e : Expression) (env : Environment) (canceled : Bool) :
    Job.Ends canceled (e.job config env) (e.evaluate config canceled env) := by
  refine ends_job_of_uncanceled ?_ canceled
  induction e generalizing env with
  | number value =>
    simp only [job, evaluate, Bool.false_eq_true, if_false]
    exact Job.ends_after_check (Job.ends_done _)
  | identifier name =>
    simp only [job, evaluate, Bool.false_eq_true, if_false]
    refine Job.ends_after_check ?_
    cases env.lookup? name <;> exact Job.ends_done _
  | sequence first last ihf ihl =>
    simp only [job, evaluate, Bool.false_eq_true, if_false]
    refine Job.ends_after_check <| (ihf env).andThen fun v _ =>
      (Job.ends_done _).andThen fun start _ => (ihl env).andThen fun w _ =>
      (Job.ends_done _).andThen fun stop _ => ?_
    split <;> exact Job.ends_done _
  | operation left op right ihl ihr =>
    simp only [job, evaluate, Bool.false_eq_true, if_false]
    exact Job.ends_after_check <| (ihl env).andThen fun v _ =>
      (Job.ends_done _).andThen fun x _ => (ihr env).andThen fun w _ =>
      (Job.ends_done _).andThen fun y _ => (Job.ends_done _).andThen fun z _ =>
      Job.ends_done _
  | map input parameter body ihi ihb =>
    simp only [job, evaluate, Bool.false_eq_true, if_false]
    refine Job.ends_after_check <| (ihi env).andThen fun v _ =>
      (Job.ends_done _).andThen fun items _ => ?_
    split
    · exact Job.ends_done _
    · exact ends_mapJob fun b x =>
        (ends_job_of_uncanceled (ihb _) b).andThen fun v _ => Job.ends_done _
  | reduce input initial left right body ihi ihn ihb =>
    simp only [job, evaluate, Bool.false_eq_true, if_false]
    refine Job.ends_after_check <| (ihi env).andThen fun v _ =>
      (Job.ends_done _).andThen fun items _ => (ihn env).andThen fun w _ =>
      (Job.ends_done _).andThen fun start _ => ?_
    split
    · exact ends_reduceJob fun b x y => ends_job_of_uncanceled (ihb _) b
    · exact Job.ends_done _

end Expression

/-! ### Another order -/

/-- The second of two workers may fail before the first one has begun. -/
theorem Job.ends_mapIndexed_second {α : Type} {jobs : Fin 2 → Job α} {e : EvalError}
    (real : e ≠ .canceled) (h : Ends false (jobs 1) (.error e)) :
    Ends false (mapIndexed 2 jobs) (.error e) := by
  let c : Crew fun _ : Fin 2 => α := Crew.spread false 2 2
  let c' := c.move (c.group.settle (.error e : Except EvalError α)).1 1 (.settled none)
  let c'' := c'.move c'.group 0 (.settled none)
  have failed : c'.group = { c.group with canceled := true, failure := some e } :=
    Group.settle_failure _ real
  have caller : c'.group.callerCanceled = false := by rw [failed]; rfl
  have saw : c'.group.isCanceled = true := by rw [failed]; rfl
  have kept : c''.group.failure = some e := congrArg Group.failure failed
  have finished : c''.Finished := Fin.forall_fin_two.2 ⟨.inl ⟨_, rfl⟩, .inl ⟨_, rfl⟩⟩
  have result : c''.result.map Array.ofFn = .error e := by
    rw [Crew.result, Group.finish_of_failure kept]
    rfl
  rw [← result]
  refine Relation.ReflTransGen.trans
    (steps_task (c := c) (i := 1) _ rfl rfl (Crew.standsAt_alone rfl 1) rfl h) ?_
  refine Relation.ReflTransGen.trans
    (steps_look_canceled (c := c') (i := 0) _ caller rfl (Crew.standsAt_alone rfl 0) saw) ?_
  exact .single (.finish finished)

/-- The expression `1 / x + 2 ^ (x / 2)`, which fails at 0 and at 1 for different reasons. -/
def Expression.fickle : Expression :=
  .operation (.operation (.number 1) .divide (.identifier "x")) .add
    (.operation (.number (.ofInt 2)) .exponent
      (.operation (.identifier "x") .divide (.number (.ofInt 2))))

/-! ### All orders -/

/-- Two results agree: both are values, and equal ones, or both are failures and no
cancellations. -/
def Agree : Except EvalError Value → Except EvalError Value → Prop
  | .ok v, .ok w => v.equal w = true
  | .error e, .error e' => e ≠ .canceled ∧ e' ≠ .canceled
  | _, _ => False

/-- Results with the same value, if any, agree. -/
theorem agree_of_toOption {r r' : Except EvalError Value} (same : r.toOption = r'.toOption)
    (real : r ≠ .error .canceled) (real' : r' ≠ .error .canceled) : Agree r r' := by
  cases r with
  | ok v =>
    cases r' with
    | ok w =>
      obtain rfl : v = w := Option.some.inj same
      exact (Value.Unrolls.refl v).equal
    | error e' => cases same
  | error e =>
    cases r' with
    | ok w => cases same
    | error e' =>
      exact ⟨fun unreal => real (congrArg _ unreal), fun unreal => real' (congrArg _ unreal)⟩

/-- **Results do not depend on the settings or on the order of turns.** Under settings of any
kind, every order in which the tasks of an evaluation look at their tokens, run and are taken in
comes to a result after finitely many turns, if nobody cancels the evaluation; the evaluation
that runs one task after another is such an order; and any two results agree. -/
theorem Expression.job_agree (e : Expression) (env : Environment) :
    (∀ config, (e.job config env).Finishes false) ∧
      (∀ config, (e.job config env).Ends false (e.evaluate config false env)) ∧
      ∀ c₁ c₂ r₁ r₂, (e.job c₁ env).Ends false r₁ → (e.job c₂ env).Ends false r₂ →
        Agree r₁ r₂ := by
  refine ⟨fun config => (e.job config env).finishes false,
    fun config => e.ends_job env false, fun c₁ c₂ r₁ r₂ ends₁ ends₂ => ?_⟩
  have sound (config : Config) (r : Except EvalError Value)
      (ends : (e.job config env).Ends false r) :
      r.toOption = (e.evaluate config false env).toOption ∧ r ≠ .error .canceled := by
    have kept : (e.job config env).Keeps (e.evaluate config false env).toOption False :=
      e.keeps_job env
    exact ((kept.allows ends).mono fun told => told.elim id Bool.false_ne_true).toOption_eq
  obtain ⟨value₁, real₁⟩ := sound c₁ r₁ ends₁
  obtain ⟨value₂, real₂⟩ := sound c₂ r₂ ends₂
  refine agree_of_toOption ?_ real₁ real₂
  rw [value₁, value₂]
  exact Option.ext fun v => by simp only [toOption_eq_some_iff, e.evaluate_config c₁ c₂]

/-- The second of two workers may fail before the first one has begun. Its failure is another one
than that of the evaluation that takes one item after the other, and the two agree. -/
theorem Expression.job_agree_failures :
    ((map (sequence (.number 0) (.number 1)) "x" fickle).job { workers := 2 } .empty).Ends false
        (.error .unsupportedExponent) ∧
      (map (sequence (.number 0) (.number 1)) "x" fickle).evaluate {} false .empty =
        .error .divisionByZero ∧
      Agree (.error .unsupportedExponent) (.error .divisionByZero) := by
  have first : (map (sequence (.number 0) (.number 1)) "x" fickle).evaluate {} false .empty =
      .error .divisionByZero := by
    decide +kernel
  have second : fickle.evaluate { workers := 2 } false (Environment.empty.bind "x" (.number 1)) =
      .error .unsupportedExponent := by
    decide +kernel
  have input : (sequence (.number 0) (.number 1)).evaluate { workers := 2 } false .empty =
      .ok (.sequence (.range 0 1)) := by
    decide +kernel
  have other : ((map (sequence (.number 0) (.number 1)) "x" fickle).job { workers := 2 }
      .empty).Ends false (.error .unsupportedExponent) := by
    simp only [job]
    refine Job.ends_after_check ?_
    refine Job.Ends.andThen_ok (input ▸ ends_job _ _ false) ?_
    refine Job.Ends.andThen_ok (Job.ends_done (.ok (Sequence.range 0 1))) ?_
    rw [if_neg (by decide), mapJob,
      Sequence.itemwise_of_some (rfl : (Sequence.range 0 1).length? = some 2)]
    refine Job.Ends.andThen_error (Job.ends_mapIndexed_second (by decide) ?_) _
    exact Job.Ends.andThen_error (second ▸ ends_job _ _ false) _
  refine ⟨other, first, ?_⟩
  have agree := (job_agree (map (sequence (.number 0) (.number 1)) "x" fickle) .empty).2
  exact agree.2 { workers := 2 } {} _ _ other (first ▸ agree.1 {})

end RatCalc
