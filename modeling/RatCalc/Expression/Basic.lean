import RatCalc.Fraction.Basic
import RatCalc.Operator

/-!
# Expressions

The tree of an expression, and the replacement of its parts from the leaves upward.

## Main definitions

* `Expression`: number literals, identifiers, sequences given by their bounds, operations, and
  the two forms that bind names, `map` and `reduce`.
* `Replacement`: what becomes of the literals, the identifiers and the operations of a tree.
* `Expression.replace`: makes a replacement everywhere, children first.
-/

namespace RatCalc

/-- The name of a variable or of a parameter. -/
abbrev Name := String

/-- An expression. The body of a `map` has one parameter, that of a `reduce` has two. -/
inductive Expression where
  | number (value : Fraction)
  | identifier (name : Name)
  | sequence (first last : Expression)
  | operation (left : Expression) (operator : Operator) (right : Expression)
  | map (input : Expression) (parameter : Name) (body : Expression)
  | reduce (input initial : Expression) (left right : Name) (body : Expression)
  deriving DecidableEq, Inhabited

namespace Expression

/-- The value of a number literal. -/
def asNumber? : Expression → Option Fraction
  | number value => some value
  | _ => none

/-- Whether the expression is this very identifier. -/
def isIdentifier (name : Name) : Expression → Bool
  | identifier other => other == name
  | _ => false

end Expression

/-- What is put in the place of a literal, of an identifier and of an operation whose operands have
been replaced already. All three are kept unless told otherwise; bound names stay. -/
structure Replacement where
  number : Fraction → Expression := .number
  identifier : Name → Expression := .identifier
  operation : Expression → Operator → Expression → Expression := .operation

/-- The tree with its parts replaced, children first. -/
def Expression.replace (rules : Replacement) : Expression → Expression
  | number value => rules.number value
  | identifier name => rules.identifier name
  | sequence first last => sequence (first.replace rules) (last.replace rules)
  | operation left op right => rules.operation (left.replace rules) op (right.replace rules)
  | map input parameter body => map (input.replace rules) parameter (body.replace rules)
  | reduce input initial left right body =>
    reduce (input.replace rules) (initial.replace rules) left right (body.replace rules)

/-- A replacement that keeps every literal, identifier and operation changes nothing. -/
theorem Expression.replace_keep (e : Expression) : e.replace {} = e := by
  induction e with
  | number | identifier => rfl
  | sequence _ _ hf hl => simp [replace, hf, hl]
  | operation _ _ _ hl hr => simp [replace, hl, hr]
  | map _ _ _ hi hb => simp [replace, hi, hb]
  | reduce _ _ _ _ _ hi hs hb => simp [replace, hi, hs, hb]

end RatCalc
