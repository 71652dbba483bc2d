import Mathlib
import RatCalc.Proofs.Concurrency.Promise
import RatCalc.Proofs.Evaluation.Success

/-!
# Evaluation in any order of turns

The evaluation of an expression is a job: it looks at its token before every node, puts a crew to
work for the items of a `map` and one for the two halves of each upper level of a `reduce`, and
does everything else by itself. Its value is that of the expression in its environment, so that it
comes to this value in every order of turns, or to a failure if there is none.

## Main definitions

* `Job.fold`: the fold by halving.
* `Expression.job`: the evaluation of an expression.

## Main results

* `Job.keeps_fold`, `Expression.keeps_job`: the values of these jobs.
* `Expression.evaluate_config`: the settings have no part in the value of an expression.
-/

namespace RatCalc

/-- Operations with the same results have the same results on every tree. -/
theorem Bracketing.run_congr {α : Type} {f g : α → α → Except EvalError α}
    (same : ∀ x y v, f x y = .ok v ↔ g x y = .ok v) {t : Bracketing α} {v : α} :
    t.run f = .ok v ↔ t.run g = .ok v := by
  induction t generalizing v with
  | item x => rfl
  | join left right ihl ihr => simp only [run_join_eq_ok_iff, ihl, ihr, same]

/-! ### Failures that are no cancellations -/

theorem mapError_ne_canceled {α ε : Type} {r : Except ε α} {f : ε → EvalError}
    (real : ∀ e, f e ≠ .canceled) : r.mapError f ≠ .error .canceled := by
  cases r with
  | ok x => simp [Except.mapError]
  | error e => simpa [Except.mapError] using real e

namespace Value

variable {precision : ℕ} {context : Context} {side : Side}

theorem expectNumber_ne_canceled (v : Value) :
    v.expectNumber precision context ≠ .error .canceled := by
  cases v <;> simp [expectNumber]

theorem expectSequence_ne_canceled (v : Value) :
    v.expectSequence precision context ≠ .error .canceled := by
  cases v <;> simp [expectSequence]

theorem expectBound_ne_canceled (v : Value) :
    v.expectBound precision side ≠ .error .canceled := by
  cases v with
  | number value => exact mapError_ne_canceled (by simp)
  | sequence items => simp [expectBound]

end Value

theorem Operator.apply_ne_canceled (op : Operator) (x y : Fraction) :
    op.apply x y ≠ .error .canceled := by
  cases op with
  | add | subtract | multiply => simp [apply]
  | divide => exact mapError_ne_canceled (by simp)
  | exponent =>
    rw [apply, raise]
    split
    · simp
    · split
      · exact mapError_ne_canceled (by simp)
      · simp

/-! ### Items one by one -/

namespace Sequence

variable {β γ : Type*}

/-- What is done with the items of a sequence, if they are not too many. -/
def itemwise (s : Sequence) (tooLong : β) (items : (n : ℕ) → s.length? = some n → β) : β :=
  match fits : s.length? with
  | none => tooLong
  | some n => items n fits

theorem itemwise_of_some {s : Sequence} {n : ℕ} (fits : s.length? = some n) (tooLong : β)
    (items : (n : ℕ) → s.length? = some n → β) : s.itemwise tooLong items = items n fits := by
  unfold itemwise
  split
  · next none => cases none.symm.trans fits
  · next m fits' =>
    cases fits.symm.trans fits'
    rfl

/-- What is done with the same items in two ways is related if it is for every length. -/
theorem itemwise_related {R : β → γ → Prop} {s : Sequence} {tooLong : β} {tooLong' : γ}
    {items : (n : ℕ) → s.length? = some n → β} {items' : (n : ℕ) → s.length? = some n → γ}
    (long : R tooLong tooLong') (short : ∀ n fits, R (items n fits) (items' n fits)) :
    R (s.itemwise tooLong items) (s.itemwise tooLong' items') := by
  unfold itemwise
  split
  · exact long
  · exact short _ _

/-- The ends of a range whose sum is asked for. -/
def summed? (s : Sequence) (sum : Bool) : Option (ℤ × ℤ) :=
  match s, sum with
  | range first last, true => some (first, last)
  | _, _ => none

end Sequence

/-! ### The jobs -/

section Jobs

variable {α : Type}

/-! A stretch of `count` items from `start` on, and its two halves. -/

namespace Stretch

variable {start count size : ℕ}

theorem first_lt (nonempty : 0 < count) (inside : start + count ≤ size) : start < size := by
  omega

theorem second_lt (two : count = 2) (inside : start + count ≤ size) : start + 1 < size := by
  omega

theorem half_pos (nonempty : 0 < count) (many : ¬ count = 1) : 0 < count / 2 := by
  omega

theorem half_le (inside : start + count ≤ size) : start + count / 2 ≤ size := by
  omega

theorem rest_pos (nonempty : 0 < count) : 0 < count - count / 2 := by
  omega

theorem rest_le (inside : start + count ≤ size) :
    start + count / 2 + (count - count / 2) ≤ size := by
  omega

end Stretch

open Stretch in
/-- The fold by halving of the `count` items from `start` on. -/
def Job.fold {size : ℕ} (item : (i : ℕ) → i < size → α) (apply : α → α → Job α)
    (parallelDepth start count : ℕ) (nonempty : 0 < count) (inside : start + count ≤ size)
    (depth : ℕ) : Job α := do
  Job.check
  if one : count = 1 then
    return item start (first_lt nonempty inside)
  else if two : count = 2 then
    apply (item start (first_lt nonempty inside)) (item (start + 1) (second_lt two inside))
  else if depth < parallelDepth then do
    let (left, right) ← Job.join
      (fold item apply parallelDepth start (count / 2) (half_pos nonempty one) (half_le inside)
        (depth + 1))
      (fold item apply parallelDepth (start + count / 2) (count - count / 2) (rest_pos nonempty)
        (rest_le inside) (depth + 1))
    apply left right
  else do
    let left ← fold item apply parallelDepth start (count / 2) (half_pos nonempty one)
      (half_le inside) (depth + 1)
    let right ← fold item apply parallelDepth (start + count / 2) (count - count / 2)
      (rest_pos nonempty) (rest_le inside) (depth + 1)
    apply left right
termination_by count

namespace Expression

/-- The job of a `reduce`, given the values of its input and its initial value. -/
def reduceJob (config : Config) (items : Sequence) (initial : Fraction) (sum : Bool)
    (apply : Value → Value → Job Value) : Job Value :=
  match items.summed? sum with
  | some (first, last) => return .number (.ofInt (Sequence.sumOfRange first last) + initial)
  | none => items.itemwise (.done (.error .sequenceTooLong)) fun n fits =>
    if n + 1 < wordBound then
      Job.fold (fun i (h : i < n + 1) => .number <|
          if first : i = 0 then initial else items.get fits (i - 1) (pred_lt_of_ne_zero h first))
        apply config.parallelDepth 0 (n + 1) (Nat.succ_pos n)
        (Nat.le_of_eq (Nat.zero_add (n + 1))) 0
    else
      .done (.error .sequenceTooLong)

/-- The job of a `map`, given the value of its input. -/
def mapJob (config : Config) (items : Sequence) (apply : Fraction → Job Fraction) : Job Value :=
  items.itemwise (.done (.error .sequenceTooLong)) fun n fits => do
    let results ← Job.mapIndexed config.workers fun i : Fin n => apply (items.get fits i i.isLt)
    return .sequence (.list results)

/-- The evaluation of an expression in an environment. -/
def job (config : Config) (env : Environment) (e : Expression) : Job Value := do
  Job.check
  match e with
  | number value => return .number value
  | identifier name =>
    match env.lookup? name with
    | some value => return value
    | none => .done (.error (.undefinedVariable name))
  | sequence first last => do
    let start ← .done ((← first.job config env).expectBound config.precision .start)
    let stop ← .done ((← last.job config env).expectBound config.precision .stop)
    if stop < start then .done (.error (.boundsReversed start stop))
    else return .sequence (.range start stop)
  | operation left op right => do
    let x ← .done ((← left.job config env).expectNumber config.precision .leftOperand)
    let y ← .done ((← right.job config env).expectNumber config.precision .rightOperand)
    return .number (← .done (op.apply x y))
  | map input parameter body => do
    let items ← .done ((← input.job config env).expectSequence config.precision .mapInput)
    if body.isIdentifier parameter then
      return .sequence items
    else
      mapJob config items fun x => do
        let value ← body.job config (Environment.empty.bind parameter (.number x))
        .done (value.expectNumber config.precision .mapResult)
  | reduce input initial left right body => do
    let items ← .done ((← input.job config env).expectSequence config.precision .reduceInput)
    let start ← .done ((← initial.job config env).expectNumber config.precision .reduceInitial)
    if body.isAssociative left right then
      reduceJob config items start (body.isSum left right) fun x y =>
        body.job config ((Environment.empty.bind left x).bind right y)
    else
      .done (.error .nonAssociativeLambda)

end Expression

end Jobs

/-! ### Their values -/

section Values

variable {α β : Type} {told : Prop}

theorem toOption_eq_some_iff {r : Except EvalError α} {x : α} :
    r.toOption = some x ↔ r = .ok x := by
  cases r <;> simp [Except.toOption]

/-- Two sibling tasks have a value together if each has one. -/
theorem toOption_join (left : Bool → Except EvalError α) (right : Bool → Except EvalError β) :
    (join false left right).toOption =
      (left false).toOption.bind fun x => (right false).toOption.map fun y => (x, y) := by
  refine Option.ext fun v => ?_
  simp only [toOption_eq_some_iff, Option.bind_eq_some_iff, Option.map_eq_some_iff]
  constructor
  · intro h
    obtain ⟨x, y⟩ := v
    obtain ⟨hx, hy⟩ := join_eq_ok_iff.1 h
    exact ⟨x, hx, y, hy, rfl⟩
  · rintro ⟨x, hx, y, hy, rfl⟩
    exact join_eq_ok_iff.2 ⟨hx, hy⟩

/-- Tasks for all indices have a value together if each has one. -/
theorem toOption_mapIndexed {length workers : ℕ} {task : IndexedTask length α}
    (quiet : ∀ i h, (task i h false).cancels = false) :
    (mapIndexed false length workers task).toOption =
      (gather fun i : Fin length => (task i i.isLt false).result.toOption).map Array.ofFn := by
  refine Option.ext fun results => ?_
  simp only [toOption_eq_some_iff, mapIndexed_eq_ok_iff quiet, answers_iff,
    Option.map_eq_some_iff, gather_eq_some_iff]
  constructor
  · rintro ⟨filled, answers⟩
    subst filled
    refine ⟨fun i => results[i], fun i => ?_, Array.ofFn_getElem⟩
    obtain ⟨h, result⟩ := answers i (by simp)
    simpa using result
  · rintro ⟨values, each, rfl⟩
    refine ⟨Array.size_ofFn, fun k hk => ?_⟩
    have inside : k < length := by simpa using hk
    simpa using ⟨inside, each ⟨k, inside⟩⟩

/-- The fold by halving has the value of the fold that runs its halves one after the other. -/
theorem Job.keeps_fold (r : Reduction α) {apply : α → α → Job α}
    (each : ∀ x y, (apply x y).Keeps (r.apply false x y).toOption told) {start count : ℕ}
    (nonempty : 0 < count) (inside : start + count ≤ r.size) (depth : ℕ) :
    (Job.fold r.item apply r.parallelDepth start count nonempty inside depth).Keeps
      (r.fold start count nonempty inside depth false).toOption told := by
  induction count using Nat.strong_induction_on generalizing start depth with
  | _ count ih =>
    rw [Job.fold, Reduction.fold]
    simp only [Bool.false_eq_true, if_false]
    refine keeps_after_check ?_
    split
    · exact keeps_ok _
    split
    · exact each _ _
    have left := @ih (count / 2) (by omega) start (by omega) (by omega) (depth + 1)
    have right := @ih (count - count / 2) (by omega) (start + count / 2) (by omega) (by omega)
      (depth + 1)
    split
    · refine Keeps.andThen ?_ fun v _ => each v.1 v.2
      rw [toOption_join]
      exact keeps_join left right
    · exact left.andThen fun x _ => right.andThen fun y _ => each x y

namespace Expression

variable {config : Config}

/-- A `reduce` is computed in closed form, or folds its items if they are not too many. -/
theorem reduceSequence_eq (config : Config) (canceled : Bool) (items : Sequence)
    (initial : Fraction) (sum : Bool) (apply : Bool → Value → Value → Except EvalError Value) :
    reduceSequence config canceled items initial sum apply =
      match items.summed? sum with
      | some (first, last) => .ok (.number (.ofInt (Sequence.sumOfRange first last) + initial))
      | none => items.itemwise (.error .sequenceTooLong) fun n fits =>
        if n + 1 < wordBound then
          Reduction.fold
            { size := n + 1
              item := fun i h => .number <|
                if first : i = 0 then initial
                else items.get fits (i - 1) (pred_lt_of_ne_zero h first)
              apply := apply
              parallelDepth := config.parallelDepth }
            0 (n + 1) (Nat.succ_pos n) (Nat.le_of_eq (Nat.zero_add (n + 1))) 0 canceled
        else
          .error .sequenceTooLong := by
  cases items <;> cases sum <;> rfl

/-- A `map` computes its items if they are not too many. -/
theorem mapSequence_eq (config : Config) (canceled : Bool) (items : Sequence)
    (apply : Bool → Fraction → Except EvalError Fraction) :
    mapSequence config canceled items apply =
      items.itemwise (.error .sequenceTooLong) fun n fits => do
        let results ← RatCalc.mapIndexed canceled n config.workers fun i h canceled =>
          { result := apply canceled (items.get fits i h) }
        return .sequence (.list results) :=
  rfl

theorem keeps_reduceJob {items : Sequence} {initial : Fraction} {sum : Bool}
    {apply : Value → Value → Job Value} {f : Bool → Value → Value → Except EvalError Value}
    (each : ∀ x y, (apply x y).Keeps (f false x y).toOption told) :
    (reduceJob config items initial sum apply).Keeps
      (reduceSequence config false items initial sum f).toOption told := by
  rw [reduceJob, reduceSequence_eq]
  split
  · exact Job.keeps_ok _
  · refine Sequence.itemwise_related (R := fun t r => Job.Keeps t (Except.toOption r) told)
      (Job.keeps_error (by simp)) fun n fits => ?_
    split
    · exact Job.keeps_fold ⟨_, _, f, _⟩ each _ _ 0
    · exact Job.keeps_error (by simp)

theorem keeps_mapJob {items : Sequence} {apply : Fraction → Job Fraction}
    {f : Bool → Fraction → Except EvalError Fraction}
    (each : ∀ x, (apply x).Keeps (f false x).toOption told) :
    (mapJob config items apply).Keeps (mapSequence config false items f).toOption told := by
  rw [mapJob, mapSequence_eq]
  refine Sequence.itemwise_related (R := fun t r => Job.Keeps t (Except.toOption r) told)
    (Job.keeps_error (by simp)) fun n fits => ?_
  refine Job.Keeps.andThen ?_ fun results _ => Job.keeps_ok _
  rw [toOption_mapIndexed fun _ _ => rfl]
  exact Job.keeps_mapIndexed fun i => each _

/-- **An evaluation has the value of its expression**, in whatever order its turns are taken. -/
theorem keeps_job (e : Expression) (env : Environment) :
    (e.job config env).Keeps (e.evaluate config false env).toOption told := by
  induction e generalizing env with
  | number value =>
    simp only [job, evaluate, Bool.false_eq_true, if_false]
    exact Job.keeps_after_check (Job.keeps_ok _)
  | identifier name =>
    simp only [job, evaluate, Bool.false_eq_true, if_false]
    refine Job.keeps_after_check ?_
    cases env.lookup? name with
    | none => exact Job.keeps_error (by simp)
    | some value => exact Job.keeps_ok value
  | sequence first last ihf ihl =>
    simp only [job, evaluate, Bool.false_eq_true, if_false]
    refine Job.keeps_after_check <| (ihf env).andThen fun v _ =>
      (Job.keeps_done v.expectBound_ne_canceled).andThen fun start _ =>
      (ihl env).andThen fun w _ =>
      (Job.keeps_done w.expectBound_ne_canceled).andThen fun stop _ => ?_
    split
    · exact Job.keeps_error (by simp)
    · exact Job.keeps_ok _
  | operation left op right ihl ihr =>
    simp only [job, evaluate, Bool.false_eq_true, if_false]
    exact Job.keeps_after_check <| (ihl env).andThen fun v _ =>
      (Job.keeps_done v.expectNumber_ne_canceled).andThen fun x _ =>
      (ihr env).andThen fun w _ =>
      (Job.keeps_done w.expectNumber_ne_canceled).andThen fun y _ =>
      (Job.keeps_done (op.apply_ne_canceled x y)).andThen fun z _ => Job.keeps_ok _
  | map input parameter body ihi ihb =>
    simp only [job, evaluate, Bool.false_eq_true, if_false]
    refine Job.keeps_after_check <| (ihi env).andThen fun v _ =>
      (Job.keeps_done v.expectSequence_ne_canceled).andThen fun items _ => ?_
    split
    · exact Job.keeps_ok _
    · exact keeps_mapJob fun x => (ihb _).andThen fun v _ =>
        Job.keeps_done v.expectNumber_ne_canceled
  | reduce input initial left right body ihi ihn ihb =>
    simp only [job, evaluate, Bool.false_eq_true, if_false]
    refine Job.keeps_after_check <| (ihi env).andThen fun v _ =>
      (Job.keeps_done v.expectSequence_ne_canceled).andThen fun items _ =>
      (ihn env).andThen fun w _ =>
      (Job.keeps_done w.expectNumber_ne_canceled).andThen fun start _ => ?_
    split
    · exact keeps_reduceJob fun x y => ihb _
    · exact Job.keeps_error (by simp)

/-- A `reduce` whose body has the same values has the same value under other settings. -/
theorem reduceSequence_config {c₁ c₂ : Config} {items : Sequence} {initial : Fraction}
    {sum : Bool} {f g : Bool → Value → Value → Except EvalError Value}
    (same : ∀ x y v, f false x y = .ok v ↔ g false x y = .ok v) (v : Value) :
    reduceSequence c₁ false items initial sum f = .ok v ↔
      reduceSequence c₂ false items initial sum g = .ok v := by
  cases closed : items.summed? sum with
  | some ends => simp only [reduceSequence_eq, closed]
  | none =>
    have unsummed : sum = true → ∀ first last, items ≠ .range first last := by
      rintro rfl first last rfl
      cases closed
    simp only [reduceSequence_eq_ok_iff unsummed, Bracketing.run_congr same]

/-- **The settings have no part in the value of an expression.** -/
theorem evaluate_config (c₁ c₂ : Config) (e : Expression) (env : Environment) (v : Value) :
    e.evaluate c₁ false env = .ok v ↔ e.evaluate c₂ false env = .ok v := by
  induction e generalizing env v with
  | number value => simp only [evaluate_number_eq_ok_iff]
  | identifier name => simp only [evaluate_identifier_eq_ok_iff]
  | sequence first last ihf ihl => simp only [evaluate_sequence_eq_ok_iff, ihf, ihl]
  | operation left op right ihl ihr => simp only [evaluate_operation_eq_ok_iff, ihl, ihr]
  | map input parameter body ihi ihb => simp only [evaluate_map_eq_ok_iff, ihi, ihb]
  | reduce input initial left right body ihi ihn ihb =>
    have same (items : Sequence) (start : Fraction) :=
      @reduceSequence_config c₁ c₂ items start (body.isSum left right)
        (fun canceled x y => body.evaluate c₁ canceled
          ((Environment.empty.bind left x).bind right y))
        (fun canceled x y => body.evaluate c₂ canceled
          ((Environment.empty.bind left x).bind right y)) (fun x y => ihb _) v
    simp only [evaluate_reduce_eq_ok_iff, ihi, ihn, same]

end Expression

end Values

end RatCalc
