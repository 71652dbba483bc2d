import Mathlib
import RatCalc.Proofs.Concurrency.Evaluation

/-!
# No check of an evaluation ever fails

Three steps of an evaluation rely on conditions that they do not check: the item of a sequence is
looked up at an index below its length, fractions are put in lowest terms over a denominator that
is not zero, and a stretch of items is folded if there is an item in it, its two halves being
shorter and not empty either. Here every one of these steps is done by a function that takes any
numbers, checks the condition and, where it does not hold, ends with a fault. The guarded
evaluation is the same job as the evaluation without any check, whatever the fault is: so no check
fails, in whatever order the turns are taken and whenever the token is canceled.

## Main definitions

* `Fraction.guarded`, `Operator.guarded`: lowest terms and arithmetic, with a check of the
  denominator.
* `Sequence.guardedGet`: the item at an index, with a check of the index.
* `Job.guardedFold`: the fold by halving of the indices between two ends, with checks of both.
* `Expression.guardedJob`: the evaluation of an expression with all these checks.

## Main results

* `Operator.guarded_eq`, `Sequence.guardedGet_eq`, `Job.guardedFold_eq`: where the checks hold.
* `Expression.guardedJob_eq`: the guarded evaluation is the evaluation.
-/

namespace RatCalc

/-! ### Lowest terms -/

namespace Fraction

/-- The fraction `n / d` in lowest terms, with a check of the denominator. -/
def guarded (fault : EvalError) (n d : ℤ) : Except EvalError Fraction :=
  if h : d = 0 then .error fault else .ok (ofNonzero n d h)

variable {fault : EvalError}

theorem guarded_of_ne_zero (n : ℤ) {d : ℤ} (h : d ≠ 0) :
    guarded fault n d = .ok (ofNonzero n d h) :=
  dif_neg h

/-- A product of denominators passes the check. -/
theorem guarded_mul_denominator (n : ℤ) (x y : Fraction) :
    guarded fault n ((x.denominator : ℤ) * y.denominator) =
      .ok (normalize n (x.denominator * y.denominator)
        (Nat.mul_pos x.denominator_pos y.denominator_pos)) := by
  have product : (x.denominator : ℤ) * y.denominator ≠ 0 :=
    mul_ne_zero x.denominator_ne_zero y.denominator_ne_zero
  rw [guarded_of_ne_zero n product]
  refine congrArg Except.ok (toRat_injective ?_)
  rw [toRat_ofNonzero, toRat_normalize]
  push_cast
  rfl

/-- A power, with a check of the denominator where the base is inverted. -/
def guardedPower (fault : EvalError) (x : Fraction) (e : ℤ) : Except EvalError Fraction :=
  if e < 0 then
    if x.numerator = 0 then .error .divisionByZero
    else guarded fault (Nat.pow x.denominator e.natAbs : ℕ) (intPow x.numerator e.natAbs)
  else
    .ok (x.natPow e.natAbs)

theorem guardedPower_eq (x : Fraction) (e : ℤ) :
    guardedPower fault x e = (x.pow? e).mapError fun _ => .divisionByZero := by
  unfold guardedPower pow?
  split_ifs with negative zero
  · rfl
  · exact guarded_of_ne_zero _ (intPow_ne_zero _ zero)
  · rfl

end Fraction

/-- The result of an operator on two numbers, with checks of the denominators. -/
def Operator.guarded (fault : EvalError) (op : Operator) (x y : Fraction) :
    Except EvalError Fraction :=
  match op with
  | add => Fraction.guarded fault (x.numerator * y.denominator + y.numerator * x.denominator)
      (x.denominator * y.denominator)
  | subtract => Fraction.guarded fault (x.numerator * y.denominator - y.numerator * x.denominator)
      (x.denominator * y.denominator)
  | multiply => Fraction.guarded fault (x.numerator * y.numerator) (x.denominator * y.denominator)
  | divide =>
    if y.numerator = 0 then .error .divisionByZero
    else Fraction.guarded fault (x.numerator * y.denominator) (x.denominator * y.numerator)
  | exponent =>
    match y.toInt? with
    | .error _ => .error .unsupportedExponent
    | .ok e =>
      if fitsExponent e then x.guardedPower fault e else .error (.exponentOutOfRange e)

/-- No denominator of the arithmetic is zero. -/
theorem Operator.guarded_eq (fault : EvalError) (op : Operator) (x y : Fraction) :
    op.guarded fault x y = op.apply x y := by
  cases op with
  | add => exact Fraction.guarded_mul_denominator _ x y
  | subtract => exact Fraction.guarded_mul_denominator _ x y
  | multiply => exact Fraction.guarded_mul_denominator _ x y
  | divide =>
    rw [guarded, apply, Fraction.divide?]
    split_ifs with zero
    · rfl
    · exact Fraction.guarded_of_ne_zero _ (mul_ne_zero x.denominator_ne_zero zero)
  | exponent =>
    rw [guarded, apply, raise]
    cases y.toInt? with
    | error _ => rfl
    | ok e => simp only [Fraction.guardedPower_eq]

/-! ### Items -/

/-- The item at an index, with a check that the index is below the length. Nothing else keeps a
range from going on behind its end. -/
def Sequence.guardedGet (fault : EvalError) (s : Sequence) (i : ℕ) : Except EvalError Fraction :=
  match s.length?, s.item? i with
  | some n, some x => if i < n then .ok x else .error fault
  | _, _ => .error fault

/-- An index below the length passes the check. -/
theorem Sequence.guardedGet_eq (fault : EvalError) {s : Sequence} {n : ℕ}
    (fits : s.length? = some n) {i : ℕ} (h : i < n) :
    s.guardedGet fault i = .ok (s.get fits i h) := by
  have item : s.item? i = some (s.get fits i h) := by
    cases s with
    | range first last => rfl
    | list items => exact Array.getElem?_eq_getElem _
  rw [guardedGet, fits, item]
  exact if_pos h

/-! ### Stretches of items -/

section Fold

variable {α : Type}

/-- The fold by halving of the items at the indices from `start` up to `stop`. There is a check
that there are any, and that there are some on both sides of the middle. -/
def Job.guardedFold (fault : EvalError) (item : ℕ → Except EvalError α) (apply : α → α → Job α)
    (parallelDepth start stop depth : ℕ) : Job α :=
  if start < stop then do
    Job.check
    if stop - start = 1 then
      .done (item start)
    else if stop - start = 2 then do
      apply (← .done (item start)) (← .done (item (start + 1)))
    else
      let middle := start + (stop - start) / 2
      if split : start < middle ∧ middle < stop then
        if depth < parallelDepth then do
          let (left, right) ← Job.join
            (guardedFold fault item apply parallelDepth start middle (depth + 1))
            (guardedFold fault item apply parallelDepth middle stop (depth + 1))
          apply left right
        else do
          let left ← guardedFold fault item apply parallelDepth start middle (depth + 1)
          let right ← guardedFold fault item apply parallelDepth middle stop (depth + 1)
          apply left right
      else
        .done (.error fault)
  else
    .done (.error fault)
termination_by stop - start

/-- **A stretch of items passes all checks**, and so do its halves. The induction is on the number
of items. -/
theorem Job.guardedFold_eq (fault : EvalError) {size : ℕ} {item : (i : ℕ) → i < size → α}
    {raw : ℕ → Except EvalError α} (items : ∀ i h, raw i = .ok (item i h))
    (apply : α → α → Job α) (parallelDepth : ℕ) {start count stop : ℕ} (nonempty : 0 < count)
    (inside : start + count ≤ size) (ends : stop = start + count) (depth : ℕ) :
    guardedFold fault raw apply parallelDepth start stop depth =
      Job.fold item apply parallelDepth start count nonempty inside depth := by
  induction count using Nat.strong_induction_on generalizing start stop depth with
  | _ count ih =>
    have distance : stop - start = count := by omega
    rw [guardedFold, Job.fold, if_pos (by omega), distance]
    refine congrArg (Job.check >>= ·) (funext fun _ => ?_)
    by_cases one : count = 1
    · rw [if_pos one, dif_pos one, items start (by omega)]
      rfl
    by_cases two : count = 2
    · rw [if_neg one, dif_neg one, if_pos two, dif_pos two, items start (by omega),
        items (start + 1) (by omega)]
      rfl
    have left := ih (count / 2) (by omega) (by omega) (by omega) (Eq.refl (start + count / 2))
      (depth + 1)
    have right := @ih (count - count / 2) (by omega) (start + count / 2) stop (by omega) (by omega)
      (by omega) (depth + 1)
    rw [if_neg one, dif_neg one, if_neg two, dif_neg two, dif_pos (by omega), left, right]

end Fold

/-! ### Whole expressions -/

namespace Expression

/-- The item at an index of the row that a `reduce` folds, with a check of the index. -/
def guardedItem (fault : EvalError) (items : Sequence) (initial : Fraction) :
    ℕ → Except EvalError Value
  | 0 => .ok (.number initial)
  | i + 1 => (items.guardedGet fault i).map .number

/-- The job of a `reduce`, with checks. -/
def guardedReduceJob (fault : EvalError) (config : Config) (items : Sequence) (initial : Fraction)
    (sum : Bool) (apply : Value → Value → Job Value) : Job Value :=
  match items.summed? sum with
  | some (first, last) => do
    let total ← .done (Operator.add.guarded fault (.ofInt (Sequence.sumOfRange first last)) initial)
    return .number total
  | none => items.itemwise (.done (.error .sequenceTooLong)) fun n _ =>
    if n + 1 < wordBound then
      Job.guardedFold fault (guardedItem fault items initial) apply config.parallelDepth 0 (n + 1) 0
    else
      .done (.error .sequenceTooLong)

/-- The job of a `map`, with checks. -/
def guardedMapJob (fault : EvalError) (config : Config) (items : Sequence)
    (apply : Fraction → Job Fraction) : Job Value :=
  items.itemwise (.done (.error .sequenceTooLong)) fun n _ => do
    let results ← Job.mapIndexed config.workers fun i : Fin n => do
      apply (← .done (items.guardedGet fault i))
    return .sequence (.list results)

/-- The evaluation of an expression in an environment, with checks. -/
def guardedJob (fault : EvalError) (config : Config) (env : Environment) (e : Expression) :
    Job Value := do
  Job.check
  match e with
  | number value => return .number value
  | identifier name =>
    match env.lookup? name with
    | some value => return value
    | none => .done (.error (.undefinedVariable name))
  | sequence first last => do
    let start ← .done ((← first.guardedJob fault config env).expectBound config.precision .start)
    let stop ← .done ((← last.guardedJob fault config env).expectBound config.precision .stop)
    if stop < start then .done (.error (.boundsReversed start stop))
    else return .sequence (.range start stop)
  | operation left op right => do
    let x ← .done
      ((← left.guardedJob fault config env).expectNumber config.precision .leftOperand)
    let y ← .done
      ((← right.guardedJob fault config env).expectNumber config.precision .rightOperand)
    return .number (← .done (op.guarded fault x y))
  | map input parameter body => do
    let items ← .done
      ((← input.guardedJob fault config env).expectSequence config.precision .mapInput)
    if body.isIdentifier parameter then
      return .sequence items
    else
      guardedMapJob fault config items fun x => do
        let value ← body.guardedJob fault config (Environment.empty.bind parameter (.number x))
        .done (value.expectNumber config.precision .mapResult)
  | reduce input initial left right body => do
    let items ← .done
      ((← input.guardedJob fault config env).expectSequence config.precision .reduceInput)
    let start ← .done
      ((← initial.guardedJob fault config env).expectNumber config.precision .reduceInitial)
    if body.isAssociative left right then
      guardedReduceJob fault config items start (body.isSum left right) fun x y =>
        body.guardedJob fault config ((Environment.empty.bind left x).bind right y)
    else
      .done (.error .nonAssociativeLambda)

variable (fault : EvalError) (config : Config)

theorem guardedReduceJob_eq (items : Sequence) (initial : Fraction) (sum : Bool)
    (apply : Value → Value → Job Value) :
    guardedReduceJob fault config items initial sum apply =
      reduceJob config items initial sum apply := by
  unfold guardedReduceJob reduceJob
  cases items.summed? sum with
  | some ends =>
    simp only [Operator.guarded_eq]
    rfl
  | none =>
    refine Sequence.itemwise_related (R := Eq) rfl fun n fits => ?_
    have row (i : ℕ) (h : i < n + 1) : guardedItem fault items initial i =
        .ok (.number <| if first : i = 0 then initial
          else items.get fits (i - 1) (pred_lt_of_ne_zero h first)) := by
      cases i with
      | zero => rfl
      | succ i => rw [guardedItem, items.guardedGet_eq fault fits (Nat.lt_of_succ_lt_succ h)]; rfl
    have folded := Job.guardedFold_eq fault row apply config.parallelDepth (Nat.succ_pos n)
      (Nat.le_of_eq (Nat.zero_add (n + 1))) (Nat.zero_add (n + 1)).symm 0
    rw [folded]

theorem guardedMapJob_eq (items : Sequence) (apply : Fraction → Job Fraction) :
    guardedMapJob fault config items apply = mapJob config items apply := by
  refine Sequence.itemwise_related (R := Eq) rfl fun n fits => ?_
  have each (i : Fin n) : items.guardedGet fault i = .ok (items.get fits i i.isLt) :=
    items.guardedGet_eq fault fits i.isLt
  simp only [each]
  rfl

/-- **No check of an evaluation ever fails**: with checks it is the same job as without, whatever
the fault is in which a check would end. -/
theorem guardedJob_eq (e : Expression) (env : Environment) :
    e.guardedJob fault config env = e.job config env := by
  induction e generalizing env with
  | number value => rfl
  | identifier name => rfl
  | sequence first last hf hl => simp only [guardedJob, job, hf, hl]
  | operation left op right hl hr => simp only [guardedJob, job, hl, hr, Operator.guarded_eq]
  | map input parameter body hi hb => simp only [guardedJob, job, hi, hb, guardedMapJob_eq]
  | reduce input initial left right body hi hs hb =>
    simp only [guardedJob, job, hi, hs, hb, guardedReduceJob_eq]

end Expression

end RatCalc
