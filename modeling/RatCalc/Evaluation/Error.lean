import RatCalc.Expression.Basic
import RatCalc.Value.Basic

/-!
# Evaluation errors

Why an evaluation has no value, and the messages for it. Values and bounds that a message shows
are kept as the text that was rendered when the error arose.

## Main definitions

* `EvalError`: the causes.
* `EvalError.message`: the message of a cause, in one line.
-/

namespace RatCalc

/-- Where a value of the wrong kind turned up. -/
inductive Context where
  | leftOperand
  | rightOperand
  | reduceInput
  | reduceInitial
  | mapInput
  | mapResult
  deriving DecidableEq, Repr

/-- How a message names a context. -/
def Context.label : Context → String
  | leftOperand => "for left operand"
  | rightOperand => "for right operand"
  | reduceInput => "Input value"
  | reduceInitial => "Initial value"
  | mapInput => "Input for `map`"
  | mapResult => "Result of `map` lambda"

/-- One of the two bounds of a sequence. -/
inductive Side where
  | start
  | stop
  deriving DecidableEq, Repr

/-- How a message names a bound. -/
def Side.label : Side → String
  | start => "start"
  | stop => "end"

/-- Why an evaluation has no value. -/
inductive EvalError where
  | undefinedVariable (name : Name)
  | typeMismatch (context : Context) (expected : Kind) (got : String)
  | boundNotNumber (side : Side) (got : String)
  | boundNotInteger (side : Side) (got : String)
  | boundsReversed (start stop : Int)
  | sequenceTooLong
  | divisionByZero
  /-- The exponent is no integer. -/
  | unsupportedExponent
  | exponentOutOfRange (exponent : Int)
  | nonAssociativeLambda
  | canceled
  deriving DecidableEq, Repr

/-- The message of an error, in one line. -/
def EvalError.message : EvalError → String
  | undefinedVariable name => "Variable \"" ++ name ++ "\" not defined"
  | typeMismatch context expected got =>
    context.label ++ " expected " ++ expected.label ++ ", got " ++ got
  | boundNotNumber side got => "Sequence " ++ side.label ++ " value is not a number: " ++ got
  | boundNotInteger side got => "Sequence " ++ side.label ++ " value is not an integer: " ++ got
  | boundsReversed start stop =>
    "Sequence start value is greater than end value: \x7b" ++ toString start ++ ", " ++
      toString stop ++ "\x7d"
  | sequenceTooLong => "Sequence is too long to evaluate element by element"
  | divisionByZero => "Division by zero"
  | unsupportedExponent => "Raising to a decimal is not supported"
  | exponentOutOfRange exponent => "Exponent " ++ toString exponent ++ " is out of range"
  | nonAssociativeLambda =>
    "The lambda expression of `reduce` must be an associative operation"
  | canceled => "Canceled"

end RatCalc
