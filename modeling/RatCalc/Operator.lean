/-!
# Operators

The five arithmetic operators, their symbols and how tightly they bind.

## Main definitions

* `Operator`: addition, subtraction, multiplication, division and exponentiation.
* `Operator.ofChar?`: the operator that a symbol stands for.
* `Operator.precedence`: the binding strength.
-/

namespace RatCalc

/-- An arithmetic operator between two numbers. -/
inductive Operator where
  | add
  | subtract
  | multiply
  | divide
  | exponent
  deriving DecidableEq, Repr

namespace Operator

/-- Every operator, the loosest first. -/
def all : List Operator :=
  [add, subtract, multiply, divide, exponent]

/-- The character that an operator is written with. -/
def toChar : Operator → Char
  | add => '+'
  | subtract => '-'
  | multiply => '*'
  | divide => '/'
  | exponent => '^'

/-- The symbol that an operator is written with. -/
def symbol (op : Operator) : String :=
  op.toChar.toString

instance : ToString Operator := ⟨symbol⟩

/-- The binding strength; a higher one binds tighter. -/
def precedence : Operator → Nat
  | add | subtract => 10
  | multiply | divide => 20
  | exponent => 30

/-- The operator written with this character. -/
def ofChar? (c : Char) : Option Operator :=
  all.find? fun op => op.toChar == c

/-- The operator written with this symbol. -/
def ofSymbol? (text : String) : Option Operator :=
  all.find? fun op => op.symbol == text

/-- Reading back the character of an operator gives the operator. -/
theorem ofChar?_toChar (op : Operator) : ofChar? op.toChar = some op := by
  cases op <;> decide

/-- An operator is read only from its own character. -/
theorem toChar_of_ofChar? {c : Char} {op : Operator} (h : ofChar? c = some op) :
    op.toChar = c := by
  simpa using List.find?_some h

end Operator

end RatCalc
