import RatCalc.Associativity.Simplify

/-!
# Recognising associative bodies

The body of a `reduce` is accepted only if it is associative as a function of its two parameters.
The test looks at the simplified body. It accepts a body in which neither parameter occurs, and
one in which each occurs once and every operation is the same, a sum or a product. It may refuse
a body that is associative, but accepts none that is not.

## Main definitions

* `Scan`: what has been seen of a body so far, from left to right.
* `Expression.scan?`: looks at a whole expression, or refuses it on the way.
* `Expression.isAssociative`: the verdict.
-/

namespace RatCalc

/-- Which parameters have been seen, and the one operator that has. -/
structure Scan where
  leftSeen : Bool := false
  rightSeen : Bool := false
  operator : Option Operator := none
  deriving DecidableEq

namespace Scan

/-- Notes an identifier; a parameter that comes a second time is refused. -/
def meetName? (left right name : Name) (s : Scan) : Option Scan :=
  if name = left then
    if s.leftSeen then none else some { s with leftSeen := true }
  else if name = right then
    if s.rightSeen then none else some { s with rightSeen := true }
  else
    some s

/-- Notes an operator; one that differs from those before is refused. -/
def meetOperator? (op : Operator) (s : Scan) : Option Scan :=
  match s.operator with
  | some found => if found = op then some s else none
  | none => some { s with operator := some op }

/-- Whether what was seen of a whole body makes it associative: neither parameter, or both and
only sums or only products. -/
def holds (s : Scan) : Bool :=
  (s.leftSeen && s.rightSeen && (s.operator == some .add || s.operator == some .multiply)) ||
    !(s.leftSeen || s.rightSeen)

end Scan

namespace Expression

/-- What is seen of an expression on top of what was seen before. A `reduce` is refused wherever
it stands. -/
def scan? (left right : Name) : Expression → Scan → Option Scan
  | number _, s => some s
  | identifier name, s => s.meetName? left right name
  | sequence first last, s => (first.scan? left right s).bind (last.scan? left right)
  | operation x op y, s =>
    (s.meetOperator? op).bind fun s => (x.scan? left right s).bind (y.scan? left right)
  | map input _ body, s => (input.scan? left right s).bind (body.scan? left right)
  | reduce .., _ => none

/-- Whether an expression passes the test as it stands, without being simplified. -/
def isUniform (e : Expression) (left right : Name) : Bool :=
  (e.scan? left right {}).any Scan.holds

/-- Whether an expression is recognised as associative in its parameters `left` and `right`,
which have to differ. -/
def isAssociative (e : Expression) (left right : Name) : Bool :=
  left != right && e.simplify.isUniform left right

end Expression

end RatCalc
