import RatCalc.Expression.Basic
import RatCalc.Fraction.Decimal

/-!
# The text of an expression

An expression is written with every operation in parentheses, one blank on either side of an
operator and of an arrow, and one after a comma. A literal is written as a plain decimal.

## Main definitions

* `Expression.text`: the text, as characters.
* `Expression.print`: the text, as a string.
-/

namespace RatCalc

namespace Expression

/-- The significant digits of a literal that no finite decimal denotes. -/
def literalDigits : Nat := 30

/-- The text of an expression. -/
def text : Expression → List Char
  | number value => value.decimal literalDigits
  | identifier name => name.toList
  | sequence first last => '{' :: (first.text ++ ", ".toList ++ last.text ++ ['}'])
  | operation left op right =>
    '(' :: (left.text ++ ' ' :: op.toChar :: ' ' :: (right.text ++ [')']))
  | map input parameter body =>
    "map(".toList ++ input.text ++ ", ".toList ++ parameter.toList ++ " -> ".toList ++
      body.text ++ [')']
  | reduce input initial left right body =>
    "reduce(".toList ++ input.text ++ ", ".toList ++ initial.text ++ ", ".toList ++
      left.toList ++ ' ' :: right.toList ++ " -> ".toList ++ body.text ++ [')']

/-- The text of an expression, as a string. -/
def print (e : Expression) : String :=
  String.ofList e.text

end Expression

end RatCalc
