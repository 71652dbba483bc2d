import Mathlib
import RatCalc.Proofs.Evaluation.RangeSum

/-!
# Simplified expressions are simple

An operation on two simple expressions is a literal, a simple part of them, or an operation that
the rules leave as it is, so one pass from the leaves upward leaves nothing to simplify: no rule
applies anywhere in its result. Hence a body and its simplified form pass or fail the test for
associativity together, and a body that is literally a sum stays one.

## Main definitions

* `Expression.IsMultiple`: a literal times an expression, in either order.
* `Expression.Redex`: the operations that some rule rewrites.
* `Expression.Irreducible`: no operation in the expression is rewritten.

## Main results

* `Expression.combine_eq_operation_iff`: an operation is left as it is if no rule rewrites it.
* `Expression.combine_keeps`: what an operation on simplified operands has from its operands.
* `Expression.irreducible_iff_simplify_eq`: the fixed points of simplification.
* `Expression.simplify_fixed_point`: one pass reaches a fixed point.
* `Expression.isSum_simplify`: a literal sum of two names is simple.
-/

namespace RatCalc

namespace Expression

theorem asNumber?_eq_some_iff {e : Expression} {x : Fraction} :
    e.asNumber? = some x ↔ e = number x := by
  cases e <;> simp [asNumber?]

theorem simplify_operation (left right : Expression) (op : Operator) :
    (operation left op right).simplify = combine left.simplify op right.simplify :=
  rfl

/-- A product is a literal, one of its operands, or left as it is. -/
theorem times_cases (left right : Expression) :
    (∃ x, times left right = number x) ∨ times left right = left ∨ times left right = right ∨
      times left right = operation left .multiply right := by
  unfold times
  split
  · exact .inl ⟨_, rfl⟩
  · split_ifs
    · exact .inl ⟨0, rfl⟩
    · exact .inr (.inl rfl)
    · exact .inr (.inr (.inl rfl))
    · exact .inr (.inr (.inr rfl))

/-- A multiple of an expression is that expression and a literal, multiplied in either order. -/
theorem multipleOf?_eq_some {subject product : Expression} {count : Fraction}
    (h : multipleOf? subject product = some count) :
    product = operation subject .multiply (number count) ∨
      product = operation (number count) .multiply subject := by
  unfold multipleOf? at h
  split at h
  · split_ifs at h with same same'
    · exact .inl (by rw [same, asNumber?_eq_some_iff.1 h])
    · exact .inr (by rw [same', asNumber?_eq_some_iff.1 h])
  · cases h

/-- The double of an expression that is no literal is left as it is. -/
theorem times_two {left : Expression} (h : left.asNumber? = none) :
    times left (number (.ofInt 2)) = operation left .multiply (number (.ofInt 2)) := by
  have not_number (x : Fraction) : left ≠ number x := by
    rintro rfl
    cases h
  unfold times
  rw [h]
  simp only [zero, one, not_number, number.injEq, false_or, if_false]
  rfl

/-- A sum is a literal, a multiple of one of its operands, or left as it is. -/
theorem plus_cases (left right : Expression) :
    (∃ x, plus left right = number x) ∨
      (left.asNumber? = none ∧
        plus left right = operation left .multiply (number (.ofInt 2))) ∨
      (∃ count, plus left right = times left (number count)) ∨
      (∃ count, plus left right = times right (number count)) ∨
      plus left right = operation left .add right := by
  unfold plus
  split
  · exact .inl ⟨_, rfl⟩
  · next no_literals =>
    split_ifs with same
    · subst same
      refine .inr (.inl ⟨?_, rfl⟩)
      cases h : left.asNumber? with
      | none => rfl
      | some x => exact absurd h (no_literals x x h)
    · split
      · exact .inr (.inr (.inl ⟨_, rfl⟩))
      · split
        · exact .inr (.inr (.inr (.inl ⟨_, rfl⟩)))
        · exact .inr (.inr (.inr (.inr rfl)))

/-- A difference is its first operand, zero, a multiple of the second one, or left as it is. -/
theorem minus_cases (left right : Expression) :
    minus left right = left ∨ minus left right = zero ∨
      (∃ count, minus left right = times right (number count)) ∨
      minus left right = operation left .subtract right := by
  unfold minus
  split_ifs
  · exact .inl rfl
  · exact .inr (.inl rfl)
  · split
    · exact .inr (.inr (.inl ⟨_, rfl⟩))
    · exact .inr (.inr (.inr rfl))

/-! ### What the rules rewrite -/

/-- The literal `count` times the subject, in either order. -/
inductive IsMultiple (subject : Expression) (count : Fraction) : Expression → Prop
  | right : IsMultiple subject count (operation subject .multiply (number count))
  | left : IsMultiple subject count (operation (number count) .multiply subject)

/-- An operation that some rule rewrites. -/
inductive Redex : Expression → Operator → Expression → Prop
  | literalSum (x y : Fraction) : Redex (number x) .add (number y)
  | twice (e : Expression) : Redex e .add e
  | oneMore {e multiple : Expression} {count : Fraction} (h : IsMultiple e count multiple) :
      Redex e .add multiple
  | andOneMore {e multiple : Expression} {count : Fraction} (h : IsMultiple e count multiple) :
      Redex multiple .add e
  | minusZero (e : Expression) : Redex e .subtract zero
  | minusSelf (e : Expression) : Redex e .subtract e
  | oneLess {e multiple : Expression} {count : Fraction} (h : IsMultiple e count multiple) :
      Redex multiple .subtract e
  | literalProduct (x y : Fraction) : Redex (number x) .multiply (number y)
  | zeroTimes (e : Expression) : Redex zero .multiply e
  | timesZero (e : Expression) : Redex e .multiply zero
  | oneTimes (e : Expression) : Redex one .multiply e
  | timesOne (e : Expression) : Redex e .multiply one
  | overOne (e : Expression) : Redex e .divide one
  | toZero (e : Expression) : Redex e .exponent zero
  | toOne (e : Expression) : Redex e .exponent one

theorem isMultiple_iff {subject product : Expression} {count : Fraction} :
    IsMultiple subject count product ↔ multipleOf? subject product = some count := by
  constructor
  · rintro (_ | _)
    · simp [multipleOf?, asNumber?]
    · by_cases same : number count = subject
      · subst same
        simp [multipleOf?, asNumber?]
      · simp [multipleOf?, asNumber?, same]
  · intro h
    rcases multipleOf?_eq_some h with rfl | rfl
    · exact .right
    · exact .left

theorem not_isMultiple {subject product : Expression} (h : multipleOf? subject product = none)
    (count : Fraction) : ¬ IsMultiple subject count product := by
  rw [isMultiple_iff, h]
  exact Option.some_ne_none count |>.symm

/-- An operation is larger than its operands. -/
theorem operation_ne_operand {e left right : Expression} {op : Operator}
    (h : e = left ∨ e = right) : e ≠ operation left op right := by
  intro same
  have size := congrArg sizeOf same
  rw [operation.sizeOf_spec] at size
  rcases h with rfl | rfl <;> omega

/-- A multiple of an operand is no sum and no difference of the operands. -/
theorem times_number_ne {e left right : Expression} {op : Operator} {count : Fraction}
    (h : e = left ∨ e = right) (other : op ≠ .multiply) :
    times e (number count) ≠ operation left op right := by
  rcases times_cases e (number count) with ⟨x, same⟩ | same | same | same <;> rw [same]
  · simp
  · exact operation_ne_operand h
  · simp
  · simp [other.symm]

section Redexes

variable {left right : Expression}

theorem times_eq_operation_iff :
    times left right = operation left .multiply right ↔ ¬ Redex left .multiply right := by
  unfold times
  split
  · next x y hx hy =>
    rw [asNumber?_eq_some_iff] at hx hy
    subst hx hy
    exact iff_of_false (by simp) (not_not_intro (.literalProduct x y))
  · next no_literals =>
    split_ifs with h h' h''
    · refine iff_of_false (by simp [zero]) (not_not_intro ?_)
      rcases h with rfl | rfl
      · exact .zeroTimes right
      · exact .timesZero left
    · subst h'
      exact iff_of_false (operation_ne_operand (.inl rfl)) (not_not_intro (.timesOne left))
    · subst h''
      exact iff_of_false (operation_ne_operand (.inr rfl)) (not_not_intro (.oneTimes right))
    · refine iff_of_true rfl fun redex => ?_
      cases redex with
      | literalProduct x y => exact no_literals x y rfl rfl
      | zeroTimes => exact h (.inl rfl)
      | timesZero => exact h (.inr rfl)
      | oneTimes => exact h'' rfl
      | timesOne => exact h' rfl

theorem plus_eq_operation_iff :
    plus left right = operation left .add right ↔ ¬ Redex left .add right := by
  unfold plus
  split
  · next x y hx hy =>
    rw [asNumber?_eq_some_iff] at hx hy
    subst hx hy
    exact iff_of_false (by simp) (not_not_intro (.literalSum x y))
  · next no_literals =>
    split_ifs with same
    · subst same
      exact iff_of_false (by simp) (not_not_intro (.twice left))
    · split
      · next count h =>
        exact iff_of_false (times_number_ne (.inl rfl) (by decide))
          (not_not_intro (.oneMore (isMultiple_iff.2 h)))
      · next none =>
        split
        · next count h =>
          exact iff_of_false (times_number_ne (.inr rfl) (by decide))
            (not_not_intro (.andOneMore (isMultiple_iff.2 h)))
        · next none' =>
          refine iff_of_true rfl fun redex => ?_
          cases redex with
          | literalSum x y => exact no_literals x y rfl rfl
          | twice => exact same rfl
          | oneMore h => exact not_isMultiple none _ h
          | andOneMore h => exact not_isMultiple none' _ h

theorem minus_eq_operation_iff :
    minus left right = operation left .subtract right ↔ ¬ Redex left .subtract right := by
  unfold minus
  split_ifs with h same
  · subst h
    exact iff_of_false (operation_ne_operand (.inl rfl)) (not_not_intro (.minusZero left))
  · subst same
    exact iff_of_false (by simp [zero]) (not_not_intro (.minusSelf left))
  · split
    · next count h =>
      exact iff_of_false (times_number_ne (.inr rfl) (by decide))
        (not_not_intro (.oneLess (isMultiple_iff.2 h)))
    · next none =>
      refine iff_of_true rfl fun redex => ?_
      cases redex with
      | minusZero => exact h rfl
      | minusSelf => exact same rfl
      | oneLess h => exact not_isMultiple none _ h

theorem ratio_eq_operation_iff :
    ratio left right = operation left .divide right ↔ ¬ Redex left .divide right := by
  unfold ratio
  split_ifs with h
  · subst h
    exact iff_of_false (operation_ne_operand (.inl rfl)) (not_not_intro (.overOne left))
  · refine iff_of_true rfl fun redex => ?_
    cases redex with
    | overOne => exact h rfl

theorem power_eq_operation_iff :
    power left right = operation left .exponent right ↔ ¬ Redex left .exponent right := by
  unfold power
  split_ifs with h h'
  · subst h
    exact iff_of_false (by simp [one]) (not_not_intro (.toZero left))
  · subst h'
    exact iff_of_false (operation_ne_operand (.inl rfl)) (not_not_intro (.toOne left))
  · refine iff_of_true rfl fun redex => ?_
    cases redex with
    | toZero => exact h rfl
    | toOne => exact h' rfl

/-- **An operation is left as it is exactly if no rule rewrites it.** -/
theorem combine_eq_operation_iff {op : Operator} :
    combine left op right = operation left op right ↔ ¬ Redex left op right := by
  cases op with
  | add => exact plus_eq_operation_iff
  | subtract => exact minus_eq_operation_iff
  | multiply => exact times_eq_operation_iff
  | divide => exact ratio_eq_operation_iff
  | exponent => exact power_eq_operation_iff

end Redexes

/-! ### What an operation has from its operands -/

section Keep

variable {p : Expression → Prop} {left right : Expression}

/-- What holds of all literals and of products that are left as they are, on operands that have it,
a product has from its operands. -/
theorem times_keeps (literal : ∀ x, p (number x))
    (settled : ∀ {x y}, times x y = operation x .multiply y → p x → p y →
      p (operation x .multiply y))
    (hl : p left) (hr : p right) : p (times left right) := by
  rcases times_cases left right with ⟨x, h⟩ | h | h | h <;> rw [h]
  · exact literal x
  · exact hl
  · exact hr
  · exact settled h hl hr

/-- What holds of all literals and of operations that are left as they are, on operands that have
it, a simplified operation has from its operands. -/
theorem combine_keeps_of_eq (literal : ∀ x, p (number x))
    (settled : ∀ {x y} op, combine x op y = operation x op y → p x → p y → p (operation x op y))
    (hl : p left) (hr : p right) (op : Operator) : p (combine left op right) := by
  have product {x y : Expression} : p x → p y → p (times x y) :=
    times_keeps literal (settled .multiply)
  cases op with
  | add =>
    change p (plus left right)
    rcases plus_cases left right with ⟨x, h⟩ | ⟨no_literal, h⟩ | ⟨c, h⟩ | ⟨c, h⟩ | h <;> rw [h]
    · exact literal x
    · -- Doubling builds its product without the rules of products, but none of them would apply.
      exact settled .multiply (times_two no_literal) hl (literal _)
    · exact product hl (literal _)
    · exact product hr (literal _)
    · exact settled .add h hl hr
  | subtract =>
    change p (minus left right)
    rcases minus_cases left right with h | h | ⟨c, h⟩ | h <;> rw [h]
    · exact hl
    · exact literal 0
    · exact product hr (literal _)
    · exact settled .subtract h hl hr
  | multiply => exact product hl hr
  | divide =>
    change p (ratio left right)
    by_cases h : right = one
    · rw [ratio, if_pos h]
      exact hl
    · rw [ratio, if_neg h]
      exact settled .divide (if_neg h) hl hr
  | exponent =>
    change p (power left right)
    by_cases h : right = zero
    · rw [power, if_pos h]
      exact literal 1
    by_cases h' : right = one
    · rw [power, if_neg h, if_pos h']
      exact hl
    · rw [power, if_neg h, if_neg h']
      exact settled .exponent ((if_neg h).trans (if_neg h')) hl hr

/-- What holds of all literals and of operations on operands that have it, a simplified operation
has from its operands. -/
theorem combine_keeps (literal : ∀ x, p (number x))
    (operation : ∀ {x y} op, p x → p y → p (operation x op y)) (hl : p left) (hr : p right)
    (op : Operator) : p (combine left op right) :=
  combine_keeps_of_eq literal (fun op _ => operation op) hl hr op

end Keep

/-! ### Fixed points -/

/-- No rule rewrites any operation in the expression, bodies of `map` and `reduce` included. -/
inductive Irreducible : Expression → Prop
  | number (value : Fraction) : Irreducible (number value)
  | identifier (name : Name) : Irreducible (identifier name)
  | sequence {first last : Expression} (hf : Irreducible first) (hl : Irreducible last) :
      Irreducible (sequence first last)
  | operation {left right : Expression} {op : Operator} (hl : Irreducible left)
      (hr : Irreducible right) (settled : ¬ Redex left op right) :
      Irreducible (operation left op right)
  | map {input body : Expression} (parameter : Name) (hi : Irreducible input)
      (hb : Irreducible body) : Irreducible (map input parameter body)
  | reduce {input initial body : Expression} (left right : Name) (hi : Irreducible input)
      (hs : Irreducible initial) (hb : Irreducible body) :
      Irreducible (reduce input initial left right body)

/-- An operation on irreducible operands, simplified, is irreducible: where a rule builds a new
operation, no rule applies to that one. -/
theorem irreducible_combine {left right : Expression} (hl : left.Irreducible)
    (hr : right.Irreducible) (op : Operator) : (combine left op right).Irreducible :=
  combine_keeps_of_eq .number
    (fun _ settled hx hy => .operation hx hy (combine_eq_operation_iff.1 settled)) hl hr op

/-- **A simplified expression is irreducible.** -/
theorem irreducible_simplify (e : Expression) : e.simplify.Irreducible := by
  induction e with
  | number value => exact .number value
  | identifier name => exact .identifier name
  | sequence first last hf hl => exact .sequence hf hl
  | operation left op right hl hr => exact irreducible_combine hl hr op
  | map input parameter body hi hb => exact .map parameter hi hb
  | reduce input initial left right body hi hs hb => exact .reduce left right hi hs hb

/-- An irreducible expression is left as it is. -/
theorem Irreducible.simplify_eq {e : Expression} (h : e.Irreducible) : e.simplify = e := by
  induction h with
  | number | identifier => rfl
  | sequence _ _ hf hl => exact congrArg₂ Expression.sequence hf hl
  | operation _ _ settled hl hr =>
    -- The rules meet the operands unchanged, and `settled` is about these.
    rw [simplify_operation, hl, hr]
    exact combine_eq_operation_iff.2 settled
  | @map _ _ parameter _ _ hi hb => exact congrArg₂ (Expression.map · parameter) hi hb
  | @reduce input initial body left right _ _ _ hi hs hb =>
    change Expression.reduce input.simplify initial.simplify left right body.simplify = _
    rw [hi, hs, hb]

/-- The irreducible expressions are those that simplification leaves as they are. -/
theorem irreducible_iff_simplify_eq {e : Expression} : e.Irreducible ↔ e.simplify = e :=
  ⟨Irreducible.simplify_eq, fun h => h ▸ irreducible_simplify e⟩

/-- Simplifying a second time changes nothing. -/
theorem simplify_simplify (e : Expression) : e.simplify.simplify = e.simplify :=
  irreducible_iff_simplify_eq.1 (irreducible_simplify e)

/-- Simplifying a body does not change the verdict on it. -/
theorem isAssociative_simplify (e : Expression) (left right : Name) :
    e.simplify.isAssociative left right = e.isAssociative left right := by
  rw [isAssociative, isAssociative, simplify_simplify]

/-- **One pass of simplification reaches a fixed point.** No rule applies anywhere in its result, so
a second pass changes nothing, and the verdict on the result is the one on the expression. -/
theorem simplify_fixed_point (e : Expression) :
    e.simplify.Irreducible ∧ e.simplify.simplify = e.simplify ∧
      ∀ left right, e.simplify.isAssociative left right = e.isAssociative left right :=
  ⟨irreducible_simplify e, simplify_simplify e, isAssociative_simplify e⟩

/-- A literal sum of two names is simple. -/
theorem isSum_simplify {e : Expression} {left right : Name} (h : e.isSum left right = true) :
    e.simplify = e := by
  obtain ⟨distinct, rfl | rfl⟩ := eq_of_isSum h
  · simp [simplify, replace, combine, plus, asNumber?, multipleOf?, distinct]
  · simp [simplify, replace, combine, plus, asNumber?, multipleOf?, distinct.symm]

end Expression

end RatCalc
