import Mathlib
import RatCalc.Expression.Query
import RatCalc.Proofs.Rational
import RatCalc.Proofs.Evaluation.Success

/-!
# Bodies with a single operator

The scan of a body notes three things that have nothing to do with one another: how often the
left parameter came, how often the right one did, and which operator did. A body that passes and
mentions its parameters mentions each of them once, and all of its operations are sums or all are
products. Where such a body is an operation with a value, that value is the sum or the product of
the two parameters and of the literals.

## Main definitions

* `Expression.operators`: the operators of an expression.
* `Scan.Noted`: what one scan has noted more than another one.
* `Expression.literals`: the product of the literals in a commutative monoid.

## Main results

* `Expression.scan?_noted`: a scan notes the leaves and the operators of an expression.
* `Expression.isUniform_cases`: a body that passes mentions neither parameter, or both once.
* `Expression.weight_evaluate`: the value of a body with a single operator.
-/

namespace RatCalc

/-- The operators of an expression, those of bodies included. -/
def Expression.operators : Expression → List Operator
  | number _ => []
  | identifier _ => []
  | sequence first last => first.operators ++ last.operators
  | operation left op right => op :: (left.operators ++ right.operators)
  | map input _ body => input.operators ++ body.operators
  | reduce input initial _ _ body => input.operators ++ initial.operators ++ body.operators

/-- Whether an expression contains a `reduce`, be it in a body. -/
def Expression.hasReduce : Expression → Bool
  | number _ => false
  | identifier _ => false
  | sequence first last => first.hasReduce || last.hasReduce
  | operation left _ right => left.hasReduce || right.hasReduce
  | map input _ body => input.hasReduce || body.hasReduce
  | reduce .. => true

/-! ### What a scan notes -/

/-- The second state has noted these leaves and operators on top of the first one. -/
structure Scan.Noted (left right : Name) (leaves : List Leaf) (operators : List Operator)
    (s s' : Scan) : Prop where
  leftSeen : s'.leftSeen.toNat = s.leftSeen.toNat + leaves.count (.identifier left)
  rightSeen : s'.rightSeen.toNat = s.rightSeen.toNat + leaves.count (.identifier right)
  operator : ∀ op ∈ operators, s'.operator = some op
  keeps : ∀ op, s.operator = some op → s'.operator = some op

namespace Scan.Noted

variable {left right : Name} {s t u : Scan}

/-- What is noted in two steps. -/
theorem append {leaves leaves' : List Leaf} {operators operators' : List Operator}
    (first : Noted left right leaves operators s t)
    (second : Noted left right leaves' operators' t u) :
    Noted left right (leaves ++ leaves') (operators ++ operators') s u where
  leftSeen := by rw [second.leftSeen, first.leftSeen, List.count_append, add_assoc]
  rightSeen := by rw [second.rightSeen, first.rightSeen, List.count_append, add_assoc]
  operator op h := by
    rcases List.mem_append.1 h with h | h
    · exact second.keeps op (first.operator op h)
    · exact second.operator op h
  keeps op h := second.keeps op (first.keeps op h)

/-- A literal is noted nowhere. -/
theorem number (value : Fraction) : Noted left right [.number value] [] s s :=
  ⟨by simp, by simp, fun _ h => absurd h List.not_mem_nil, fun _ h => h⟩

theorem meetName {name : Name} (distinct : left ≠ right)
    (h : s.meetName? left right name = some t) :
    Noted left right [.identifier name] [] s t := by
  unfold meetName? at h
  split_ifs at h with isLeft seen isRight seen
  · cases h
    subst isLeft
    exact ⟨by simp [seen], by simp [distinct], fun _ h => absurd h List.not_mem_nil, fun _ h => h⟩
  · cases h
    subst isRight
    exact ⟨by simp [isLeft], by simp [seen], fun _ h => absurd h List.not_mem_nil, fun _ h => h⟩
  · cases h
    exact ⟨by simp [isLeft], by simp [isRight], fun _ h => absurd h List.not_mem_nil, fun _ h => h⟩

theorem meetOperator {op : Operator} (h : s.meetOperator? op = some t) :
    Noted left right [] [op] s t := by
  unfold meetOperator? at h
  split at h
  · next found known =>
    split_ifs at h with same
    cases h
    subst same
    exact ⟨rfl, rfl, fun _ h => by rw [List.mem_singleton.1 h, known], fun _ h => h⟩
  · next unknown =>
    cases h
    exact ⟨rfl, rfl, fun _ h => by rw [List.mem_singleton.1 h], fun _ h => by simp [unknown] at h⟩

end Scan.Noted

namespace Expression

variable {left right : Name}

/-- **A scan notes the leaves and the operators of an expression.** -/
theorem scan?_noted (distinct : left ≠ right) {e : Expression} {s t : Scan}
    (h : e.scan? left right s = some t) : Scan.Noted left right e.leaves e.operators s t := by
  induction e generalizing s t with
  | number value =>
    cases h
    exact .number value
  | identifier name => exact .meetName distinct h
  | sequence first last hf hl =>
    obtain ⟨u, hu, ht⟩ := Option.bind_eq_some_iff.1 h
    exact (hf hu).append (hl ht)
  | operation x op y hx hy =>
    obtain ⟨u, hu, h⟩ := Option.bind_eq_some_iff.1 h
    obtain ⟨w, hw, ht⟩ := Option.bind_eq_some_iff.1 h
    exact (Scan.Noted.meetOperator hu).append ((hx hw).append (hy ht))
  | map input parameter body hi hb =>
    obtain ⟨u, hu, ht⟩ := Option.bind_eq_some_iff.1 h
    exact (hi hu).append (hb ht)
  | reduce => cases h

/-- **A body that passes mentions neither parameter, or it mentions each of them once** and all
its operations are sums or all are products. -/
theorem isUniform_cases (distinct : left ≠ right) {e : Expression}
    (h : e.isUniform left right = true) :
    (Leaf.identifier left ∉ e.leaves ∧ Leaf.identifier right ∉ e.leaves) ∨
      (e.leaves.count (.identifier left) = 1 ∧ e.leaves.count (.identifier right) = 1 ∧
        ((∀ op ∈ e.operators, op = .add) ∨ ∀ op ∈ e.operators, op = .multiply)) := by
  obtain ⟨s, scanned, holds⟩ := (Option.any_eq_true _ _).1 h
  have noted := scan?_noted distinct scanned
  have lefts : s.leftSeen.toNat = e.leaves.count (.identifier left) := by
    rw [noted.leftSeen]
    exact zero_add _
  have rights : s.rightSeen.toNat = e.leaves.count (.identifier right) := by
    rw [noted.rightSeen]
    exact zero_add _
  have single : ∀ found, s.operator = some found → ∀ op ∈ e.operators, op = found :=
    fun found known op h => Option.some.inj ((noted.operator op h).symm.trans known)
  simp only [Scan.holds, Bool.or_eq_true, Bool.and_eq_true, Bool.not_eq_true', Bool.or_eq_false_iff,
    beq_iff_eq] at holds
  rcases holds with ⟨⟨seenLeft, seenRight⟩, known⟩ | ⟨unseenLeft, unseenRight⟩
  · rw [seenLeft] at lefts
    rw [seenRight] at rights
    exact .inr ⟨lefts.symm, rights.symm, known.imp (single .add) (single .multiply)⟩
  · rw [unseenLeft] at lefts
    rw [unseenRight] at rights
    exact .inl ⟨List.count_eq_zero.1 lefts.symm, List.count_eq_zero.1 rights.symm⟩

/-- A scan that comes to the end of an expression has met no `reduce`. -/
theorem hasReduce_of_scan? {e : Expression} {s t : Scan} (h : e.scan? left right s = some t) :
    e.hasReduce = false := by
  induction e generalizing s t with
  | number => rfl
  | identifier => rfl
  | sequence first last hf hl =>
    obtain ⟨u, hu, ht⟩ := Option.bind_eq_some_iff.1 h
    rw [hasReduce, hf hu, hl ht, Bool.or_false]
  | operation x op y hx hy =>
    obtain ⟨u, -, h⟩ := Option.bind_eq_some_iff.1 h
    obtain ⟨w, hw, ht⟩ := Option.bind_eq_some_iff.1 h
    rw [hasReduce, hx hw, hy ht, Bool.or_false]
  | map input parameter body hi hb =>
    obtain ⟨u, hu, ht⟩ := Option.bind_eq_some_iff.1 h
    rw [hasReduce, hi hu, hb ht, Bool.or_false]
  | reduce => cases h

/-! ### The value of a body with a single operator -/

section Weight

variable {M : Type*} [CommMonoid M]

/-- What the literals of an expression come to, each of them weighed in a monoid. -/
def literals (weight : Fraction → M) (e : Expression) : M :=
  (e.leaves.map fun
    | .number value => weight value
    | .identifier _ => 1).prod

/-- **The value of an expression with a single operator weighs what its leaves weigh together.**
The weight turns the operator into the product of a commutative monoid. -/
theorem weight_evaluate {config : Config} {weight : Fraction → M} {op : Operator}
    (multiplies : ∀ {x y z : Fraction}, op.apply x y = .ok z → weight z = weight x * weight y)
    (distinct : left ≠ right) {e : Expression} (plain : e.hasReduce = false)
    (single : ∀ o ∈ e.operators, o = op) {x y z : Fraction}
    (h : e.evaluate config false
      ((Environment.empty.bind left (.number x)).bind right (.number y)) = .ok (.number z)) :
    weight z = weight x ^ e.leaves.count (.identifier left) *
      weight y ^ e.leaves.count (.identifier right) * e.literals weight := by
  induction e generalizing z with
  | number value =>
    rw [Value.number.inj (evaluate_number_eq_ok_iff.1 h)]
    simp [literals, leaves]
  | identifier name =>
    rw [evaluate_identifier_eq_ok_iff] at h
    by_cases isRight : name = right
    · subst isRight
      rw [Environment.lookup?_bind_self, Option.some.injEq, Value.number.injEq] at h
      simp [literals, leaves, h, Ne.symm distinct]
    by_cases isLeft : name = left
    · subst isLeft
      rw [Environment.lookup?_bind_bind _ distinct, Option.some.injEq, Value.number.injEq] at h
      simp [literals, leaves, h, distinct]
    · rw [Environment.lookup?_bind_of_ne _ _ isRight, Environment.lookup?_bind_of_ne _ _ isLeft,
        Environment.lookup?_empty] at h
      cases h
  | sequence first last =>
    obtain ⟨start, stop, -, -, -, hz⟩ := evaluate_sequence_eq_ok_iff.1 h
    cases hz
  | operation l o r hl hr =>
    obtain ⟨u, w, z', hu, hw, applied, hz⟩ := evaluate_operation_eq_ok_iff.1 h
    cases hz
    rw [hasReduce, Bool.or_eq_false_iff] at plain
    have first := hl plain.1 (fun o h =>
      single o (List.mem_cons_of_mem _ (List.mem_append_left _ h))) hu
    have second := hr plain.2 (fun o h =>
      single o (List.mem_cons_of_mem _ (List.mem_append_right _ h))) hw
    rw [single o List.mem_cons_self] at applied
    rw [multiplies applied, first, second, leaves, List.count_append, List.count_append, pow_add,
      pow_add, literals, literals, literals, leaves, List.map_append, List.prod_append]
    ac_rfl
  | map input parameter body =>
    obtain ⟨items, -, hz⟩ := evaluate_map_eq_ok_iff.1 h
    split at hz
    · cases hz
    · obtain ⟨n, fits, results, hz, -⟩ := hz
      cases hz
  | reduce => cases plain

end Weight

end Expression

end RatCalc
