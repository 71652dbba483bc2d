import RatCalc.Expression.Basic

/-!
# Questions about the leaves of an expression

A question puts a yes-or-no predicate to the literals and identifiers of an expression, from
left to right, and stops as soon as the answer is settled: at the first "no" when every leaf has
to agree, at the first "yes" when one is enough. Names bound by `map` and `reduce` are not
leaves.

## Main definitions

* `Leaf`, `Expression.leaves`: the literals and identifiers of an expression, in order.
* `Question`: a predicate on leaves and the way in which the answers combine.
* `Question.ask`: the answer, with the leaves that were asked.
-/

namespace RatCalc

/-- A literal or an identifier of an expression. -/
inductive Leaf where
  | number (value : Fraction)
  | identifier (name : Name)
  deriving DecidableEq

/-- The literals and identifiers of an expression from left to right. -/
def Expression.leaves : Expression → List Leaf
  | number value => [.number value]
  | identifier name => [.identifier name]
  | sequence first last => first.leaves ++ last.leaves
  | operation left _ right => left.leaves ++ right.leaves
  | map input _ body => input.leaves ++ body.leaves
  | reduce input initial _ _ body => input.leaves ++ initial.leaves ++ body.leaves

/-- How the answers of the children of a node combine. -/
inductive Strategy where
  /-- Every child must hold. -/
  | all
  /-- One child must hold. -/
  | any
  deriving DecidableEq, Repr

/-- The answer for a node that has nothing to ask. -/
def Strategy.identity : Strategy → Bool
  | all => true
  | any => false

/-- Whether an answer of one child settles that of its parent. -/
def Strategy.settles (strategy : Strategy) (answer : Bool) : Bool :=
  answer != strategy.identity

/-- A predicate on leaves and the way in which the answers combine. -/
structure Question where
  strategy : Strategy
  holds : Leaf → Bool

/-- An answer, with the leaves that were asked for it, in order. -/
structure Verdict where
  answer : Bool
  asked : List Leaf
  deriving DecidableEq

namespace Question

/-- Goes on to the next child unless the answer so far settles the matter. -/
def followedBy (q : Question) (first second : Verdict) : Verdict :=
  if q.strategy.settles first.answer then first
  else ⟨second.answer, first.asked ++ second.asked⟩

/-- The answer to a question about an expression. -/
def ask (q : Question) : Expression → Verdict
  | .number value => ⟨q.holds (.number value), [.number value]⟩
  | .identifier name => ⟨q.holds (.identifier name), [.identifier name]⟩
  | .sequence first last => q.followedBy (q.ask first) (q.ask last)
  | .operation left _ right => q.followedBy (q.ask left) (q.ask right)
  | .map input _ body => q.followedBy (q.ask input) (q.ask body)
  | .reduce input initial _ _ body =>
    q.followedBy (q.followedBy (q.ask input) (q.ask initial)) (q.ask body)

end Question

end RatCalc
