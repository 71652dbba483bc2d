import RatCalc.Expression.Basic

/-!
# Simplification

An expression is simplified from its leaves upward, so that a name is written as few times as the
rules allow: sums, differences and products of literals are computed where that drops a name or a
literal, a term that is added to or taken from a multiple of itself becomes one multiple, and
operations with zero or one that change nothing disappear.

## Main definitions

* `Expression.plus`, `Expression.minus`, `Expression.times`, `Expression.ratio`,
  `Expression.power`: an operation on two simplified operands, simplified.
* `Expression.simplify`: the simplified expression.
-/

namespace RatCalc

namespace Expression

/-- The literal zero. -/
def zero : Expression := number 0

/-- The literal one. -/
def one : Expression := number 1

/-- The literal `c` if `product` is `subject * c` or `c * subject`. -/
def multipleOf? (subject product : Expression) : Option Fraction :=
  match product with
  | operation left .multiply right =>
    if left = subject then right.asNumber?
    else if right = subject then left.asNumber?
    else none
  | _ => none

/-- The product of two simplified expressions. -/
def times (left right : Expression) : Expression :=
  match left.asNumber?, right.asNumber? with
  | some x, some y => number (x * y)
  | _, _ =>
    if left = zero ∨ right = zero then zero
    else if right = one then left
    else if left = one then right
    else operation left .multiply right

/-- The sum of two simplified expressions. -/
def plus (left right : Expression) : Expression :=
  match left.asNumber?, right.asNumber? with
  | some x, some y => number (x + y)
  | _, _ =>
    if left = right then operation left .multiply (number (.ofInt 2))
    else
      match multipleOf? left right with
      | some count => times left (number (count + 1))
      | none =>
        match multipleOf? right left with
        | some count => times right (number (count + 1))
        | none => operation left .add right

/-- The difference of two simplified expressions. -/
def minus (left right : Expression) : Expression :=
  if right = zero then left
  else if left = right then zero
  else
    match multipleOf? right left with
    | some count => times right (number (count - 1))
    | none => operation left .subtract right

/-- The ratio of two simplified expressions. -/
def ratio (left right : Expression) : Expression :=
  if right = one then left else operation left .divide right

/-- A simplified expression raised to a simplified one. -/
def power (left right : Expression) : Expression :=
  if right = zero then one
  else if right = one then left
  else operation left .exponent right

/-- An operation on two simplified expressions. -/
def combine (left : Expression) (op : Operator) (right : Expression) : Expression :=
  match op with
  | .add => plus left right
  | .subtract => minus left right
  | .multiply => times left right
  | .divide => ratio left right
  | .exponent => power left right

/-- The simplified expression, bodies of `map` and `reduce` included. -/
def simplify (e : Expression) : Expression :=
  e.replace { operation := combine }

end Expression

end RatCalc
