import RatCalc.Associativity.Gate
import RatCalc.Environment
import RatCalc.Evaluation.Reduction

/-!
# Evaluation

The value of an expression in an environment. Operands are evaluated from left to right, and each
has its kind checked before the next one is evaluated. The body of a `map` or of a `reduce` sees
its own parameters only. A `reduce` is refused unless its body is recognised as associative, and
the sum of a range is computed in closed form.

## Main definitions

* `Config`: the precision of rendered values and how far work is spread.
* `Operator.apply`: the arithmetic of an operator, with its failures.
* `Expression.evaluate`: the value of an expression.
-/

namespace RatCalc

/-- The settings of an evaluation. -/
structure Config where
  /-- Significant digits of a fraction whose decimal expansion does not end. -/
  precision : Nat := 30
  /-- How many workers a `map` spreads its items over. -/
  workers : Nat := 1
  /-- How many levels of a `reduce` run their halves as a group. -/
  parallelDepth : Nat := 6
  deriving DecidableEq, Repr

/-- Whether an exponent fits a signed word of 32 bits. -/
def fitsExponent (e : Int) : Bool :=
  -2147483648 ≤ e && e < 2147483648

/-- A number raised to another one, which has to be an integer that fits. -/
def raise (x y : Fraction) : Except EvalError Fraction :=
  match y.toInt? with
  | .error _ => .error .unsupportedExponent
  | .ok e =>
    if fitsExponent e then (x.pow? e).mapError fun _ => .divisionByZero
    else .error (.exponentOutOfRange e)

/-- The result of an operator on two numbers. -/
def Operator.apply (op : Operator) (x y : Fraction) : Except EvalError Fraction :=
  match op with
  | add => .ok (x + y)
  | subtract => .ok (x - y)
  | multiply => .ok (x * y)
  | divide => (x.divide? y).mapError fun _ => .divisionByZero
  | exponent => raise x y

namespace Value

/-- The number that a value has to be. -/
def expectNumber (precision : Nat) (context : Context) : Value → Except EvalError Fraction
  | number value => .ok value
  | other => .error (.typeMismatch context .number (other.render precision))

/-- The sequence that a value has to be. -/
def expectSequence (precision : Nat) (context : Context) : Value → Except EvalError Sequence
  | sequence items => .ok items
  | other => .error (.typeMismatch context .sequence (other.render precision))

/-- The integer that a bound of a sequence has to be. -/
def expectBound (precision : Nat) (side : Side) : Value → Except EvalError Int
  | number value =>
    (value.toInt?).mapError fun _ => .boundNotInteger side (value.toDecimalString precision)
  | other => .error (.boundNotNumber side (other.render precision))

end Value

namespace Sequence

/-- The item at an index below the length. -/
def get (s : Sequence) {n : Nat} (fits : s.length? = some n) (i : Nat) (h : i < n) : Fraction :=
  match s, fits with
  | range first _, _ => .ofInt (first + i)
  | list items, fits =>
    have : i < items.size := by simpa [length?] using Option.some.inj fits ▸ h
    items[i]

/-- The sum of the integers from `first` to `last`. -/
def sumOfRange (first last : Int) : Int :=
  last * (last + 1) / 2 - (first - 1) * first / 2

end Sequence

namespace Expression

/-- Whether a body is literally the sum of its two parameters, in either order. -/
def isSum (e : Expression) (left right : Name) : Bool :=
  match e with
  | operation x .add y =>
    left != right &&
      ((x.isIdentifier left && y.isIdentifier right) ||
        (x.isIdentifier right && y.isIdentifier left))
  | _ => false

/-- The value of a `reduce`, given those of its input and its initial value and what its body
makes of two values. -/
def reduceSequence (config : Config) (canceled : Bool) (items : Sequence) (initial : Fraction)
    (sum : Bool) (apply : Bool → Value → Value → Except EvalError Value) :
    Except EvalError Value :=
  match items, sum with
  | .range first last, true => .ok (.number (.ofInt (Sequence.sumOfRange first last) + initial))
  | items, _ =>
    match fits : items.length? with
    | none => .error .sequenceTooLong
    | some n =>
      if n + 1 < wordBound then
        let r : Reduction Value := {
          size := n + 1
          item := fun i h => .number <|
            if first : i = 0 then initial else items.get fits (i - 1) (by omega)
          apply := apply
          parallelDepth := config.parallelDepth }
        r.fold 0 (n + 1) (Nat.succ_pos n) (Nat.le_of_eq (Nat.zero_add (n + 1))) 0 canceled
      else
        .error .sequenceTooLong

/-- The value of a `map`, given that of its input and what its body makes of a number. -/
def mapSequence (config : Config) (canceled : Bool) (items : Sequence)
    (apply : Bool → Fraction → Except EvalError Fraction) : Except EvalError Value :=
  match fits : items.length? with
  | none => .error .sequenceTooLong
  | some n => do
    let results ← mapIndexed canceled n config.workers fun i h canceled =>
      { result := apply canceled (items.get fits i h) }
    return .sequence (.list results)

/-- The value of an expression in an environment. The token is looked at before every node;
`canceled` tells whether it is canceled. -/
def evaluate (config : Config) (canceled : Bool) (env : Environment) (e : Expression) :
    Except EvalError Value :=
  if canceled then
    .error .canceled
  else
    match e with
    | number value => .ok (.number value)
    | identifier name =>
      match env.lookup? name with
      | some value => .ok value
      | none => .error (.undefinedVariable name)
    | sequence first last => do
      let start ← (← first.evaluate config canceled env).expectBound config.precision .start
      let stop ← (← last.evaluate config canceled env).expectBound config.precision .stop
      if stop < start then .error (.boundsReversed start stop)
      else return .sequence (.range start stop)
    | operation left op right => do
      let x ← (← left.evaluate config canceled env).expectNumber config.precision .leftOperand
      let y ← (← right.evaluate config canceled env).expectNumber config.precision .rightOperand
      return .number (← op.apply x y)
    | map input parameter body => do
      let items ← (← input.evaluate config canceled env).expectSequence config.precision .mapInput
      if body.isIdentifier parameter then
        return .sequence items
      else
        mapSequence config canceled items fun canceled x => do
          let value ← body.evaluate config canceled (Environment.empty.bind parameter (.number x))
          value.expectNumber config.precision .mapResult
    | reduce input initial left right body => do
      let items ←
        (← input.evaluate config canceled env).expectSequence config.precision .reduceInput
      let start ←
        (← initial.evaluate config canceled env).expectNumber config.precision .reduceInitial
      if body.isAssociative left right then
        reduceSequence config canceled items start (body.isSum left right) fun canceled x y =>
          body.evaluate config canceled ((Environment.empty.bind left x).bind right y)
      else
        .error .nonAssociativeLambda

end Expression

end RatCalc
