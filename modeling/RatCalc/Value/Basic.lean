import RatCalc.Value.Sequence

/-!
# Values

What an expression evaluates to: a number or a sequence of numbers.

## Main definitions

* `Value`: a number or a sequence.
* `Value.render`: the text of a value.
* `Value.equal`: whether two values are the same.
-/

namespace RatCalc

/-- The two kinds of values. -/
inductive Kind where
  | number
  | sequence
  deriving DecidableEq, Repr

/-- The name of a kind, as messages spell it. -/
def Kind.label : Kind → String
  | number => "Number"
  | sequence => "Sequence"

/-- A number or a sequence of numbers. -/
inductive Value where
  | number (value : Fraction)
  | sequence (items : Sequence)
  deriving DecidableEq

namespace Value

/-- The kind of a value. -/
def kind : Value → Kind
  | number _ => .number
  | sequence _ => .sequence

/-- The text of a value; `precision` is the number of significant digits of a fraction whose
decimal expansion does not end. -/
def render (precision : Nat) : Value → String
  | number value => value.toDecimalString precision
  | sequence items => items.render precision

/-- Whether two values are equal. A number differs from every sequence. -/
def equal : Value → Value → Bool
  | number x, number y => x == y
  | sequence s, sequence t => s.equal t
  | _, _ => false

end Value

end RatCalc
