import Mathlib
import RatCalc.Proofs.Associativity.NormalForm
import RatCalc.Proofs.Evaluation.Unrolling

/-!
# Simplification keeps the meaning

A rule is sound because it is an identity of the rational numbers. Below a `map` or a `reduce` it
has a second effect: the body that is left may be a mere name or a literal sum, so that the
evaluation takes another way. A `map` with a mere name hands its range on where the list of its
items was made before, and the closed form of a sum takes the place of the fold. So the simplified
expression has a value that the value of the expression unrolls.

## Main results

* `Expression.evaluate_combine`: a rule keeps the number that an operation gives.
* `Expression.evaluate_simplify_unrolls`: the simplified expression has a value, in an environment
  that differs in the same way only.
* `Expression.evaluate_simplify_equal`: in one and the same environment the values are equal.
-/

namespace RatCalc

namespace Expression

variable {config : Config} {env : Environment}

/-! ### The rules -/

section Rules

variable {left right : Expression} {x y : Fraction}

theorem eq_of_evaluate_number {c : Fraction}
    (h : (number c).evaluate config false env = .ok (.number x)) : x = c :=
  Value.number.inj (evaluate_number_eq_ok_iff.1 h)

/-- A multiple of an expression has the multiple of its number. -/
theorem evaluate_multipleOf {subject product : Expression} {count : Fraction}
    (h : multipleOf? subject product = some count)
    (hs : subject.evaluate config false env = .ok (.number x))
    (hp : product.evaluate config false env = .ok (.number y)) : y = x * count := by
  rcases multipleOf?_eq_some h with rfl | rfl
  · obtain ⟨a, b, c, ha, hb, hc, hy⟩ := evaluate_operation_eq_ok_iff.1 hp
    cases hc
    cases hy
    cases ha.symm.trans hs
    rw [eq_of_evaluate_number hb]
  · obtain ⟨a, b, c, ha, hb, hc, hy⟩ := evaluate_operation_eq_ok_iff.1 hp
    cases hc
    cases hy
    cases hb.symm.trans hs
    rw [eq_of_evaluate_number ha, ← Fraction.toRat_inj, Fraction.toRat_mul, Fraction.toRat_mul,
      mul_comm]

theorem evaluate_times (hl : left.evaluate config false env = .ok (.number x))
    (hr : right.evaluate config false env = .ok (.number y)) :
    (times left right).evaluate config false env = .ok (.number (x * y)) := by
  unfold times
  split
  · next a b ha hb =>
    rw [asNumber?_eq_some_iff] at ha hb
    subst ha hb
    rw [eq_of_evaluate_number hl, eq_of_evaluate_number hr, evaluate_number_eq_ok_iff]
  · split_ifs with absorbed right_one left_one
    · rw [zero, evaluate_number_eq_ok_iff, Value.number.injEq, ← Fraction.toRat_inj,
        Fraction.toRat_mul]
      rcases absorbed with rfl | rfl
      · rw [eq_of_evaluate_number hl, Fraction.toRat_zero, zero_mul]
      · rw [eq_of_evaluate_number hr, Fraction.toRat_zero, mul_zero]
    · subst right_one
      have unit : x * 1 = x := by rw [← Fraction.toRat_inj]; simp
      rw [eq_of_evaluate_number hr, unit, hl]
    · subst left_one
      have unit : 1 * y = y := by rw [← Fraction.toRat_inj]; simp
      rw [eq_of_evaluate_number hl, unit, hr]
    · exact evaluate_operation_eq_ok_iff.2 ⟨x, y, x * y, hl, hr, rfl, rfl⟩

/-- The product with a literal. -/
theorem evaluate_times_number (hl : left.evaluate config false env = .ok (.number x))
    (count : Fraction) :
    (times left (number count)).evaluate config false env = .ok (.number (x * count)) :=
  evaluate_times hl (evaluate_number_eq_ok_iff.2 rfl)

theorem evaluate_plus (hl : left.evaluate config false env = .ok (.number x))
    (hr : right.evaluate config false env = .ok (.number y)) :
    (plus left right).evaluate config false env = .ok (.number (x + y)) := by
  unfold plus
  split
  · next a b ha hb =>
    rw [asNumber?_eq_some_iff] at ha hb
    subst ha hb
    rw [eq_of_evaluate_number hl, eq_of_evaluate_number hr, evaluate_number_eq_ok_iff]
  · split_ifs with same
    · subst same
      cases hl.symm.trans hr
      have double : x * .ofInt 2 = x + x := by rw [← Fraction.toRat_inj]; simp [mul_two]
      exact evaluate_operation_eq_ok_iff.2
        ⟨x, .ofInt 2, x + x, hl, evaluate_number_eq_ok_iff.2 rfl, congrArg Except.ok double, rfl⟩
    · split
      · next count h =>
        have scaled : x + y = x * (count + 1) := by
          rw [evaluate_multipleOf h hl hr, ← Fraction.toRat_inj]
          simp [mul_add, add_comm]
        rw [scaled]
        exact evaluate_times_number hl _
      · split
        · next count h =>
          have scaled : x + y = y * (count + 1) := by
            rw [evaluate_multipleOf h hr hl, ← Fraction.toRat_inj]
            simp [mul_add]
          rw [scaled]
          exact evaluate_times_number hr _
        · exact evaluate_operation_eq_ok_iff.2 ⟨x, y, x + y, hl, hr, rfl, rfl⟩

theorem evaluate_minus (hl : left.evaluate config false env = .ok (.number x))
    (hr : right.evaluate config false env = .ok (.number y)) :
    (minus left right).evaluate config false env = .ok (.number (x - y)) := by
  unfold minus
  split_ifs with nothing same
  · subst nothing
    have unit : x - 0 = x := by rw [← Fraction.toRat_inj]; simp
    rw [eq_of_evaluate_number hr, unit, hl]
  · subst same
    cases hl.symm.trans hr
    have nothing_left : x - x = 0 := by rw [← Fraction.toRat_inj]; simp
    rw [nothing_left]
    exact evaluate_number_eq_ok_iff.2 rfl
  · split
    · next count h =>
      have scaled : x - y = y * (count - 1) := by
        rw [evaluate_multipleOf h hr hl, ← Fraction.toRat_inj]
        simp [mul_sub]
      rw [scaled]
      exact evaluate_times_number hr _
    · exact evaluate_operation_eq_ok_iff.2 ⟨x, y, x - y, hl, hr, rfl, rfl⟩

theorem mapError_eq_ok {ε ε' α : Type} {f : ε → ε'} {r : Except ε α} {a : α}
    (h : r.mapError f = .ok a) : r = .ok a := by
  cases r with
  | error e => cases h
  | ok b => cases h; rfl

/-- A power with an exponent that is a natural number is the natural power. -/
theorem eq_natPow_of_raise {n : ℕ} {z : Fraction} (h : raise x (.ofInt n) = .ok z) :
    z = x.natPow n := by
  have exponent : (Fraction.ofInt n).toInt? = .ok n := rfl
  rw [raise, exponent] at h
  dsimp only at h
  split_ifs at h
  have power := mapError_eq_ok h
  rw [Fraction.pow?, if_neg (Int.natCast_nonneg n).not_gt] at power
  cases power
  rfl

theorem evaluate_ratio {z : Fraction} (hl : left.evaluate config false env = .ok (.number x))
    (hr : right.evaluate config false env = .ok (.number y))
    (hz : Operator.divide.apply x y = .ok z) :
    (ratio left right).evaluate config false env = .ok (.number z) := by
  unfold ratio
  split_ifs with unit
  · subst unit
    have ratio := Fraction.toRat_divide (mapError_eq_ok hz)
    rw [eq_of_evaluate_number hr, Fraction.toRat_one, div_one, Fraction.toRat_inj] at ratio
    rw [ratio, hl]
  · exact evaluate_operation_eq_ok_iff.2 ⟨x, y, z, hl, hr, hz, rfl⟩

theorem evaluate_power {z : Fraction} (hl : left.evaluate config false env = .ok (.number x))
    (hr : right.evaluate config false env = .ok (.number y))
    (hz : Operator.exponent.apply x y = .ok z) :
    (power left right).evaluate config false env = .ok (.number z) := by
  unfold power
  split_ifs with nothing unit
  · subst nothing
    rw [eq_of_evaluate_number hr] at hz
    have value : z = x.natPow 0 := eq_natPow_of_raise hz
    rw [one, evaluate_number_eq_ok_iff, Value.number.injEq, value, ← Fraction.toRat_inj,
      Fraction.toRat_natPow, pow_zero, Fraction.toRat_one]
  · subst unit
    rw [eq_of_evaluate_number hr] at hz
    have value : z = x.natPow 1 := eq_natPow_of_raise hz
    rw [← Fraction.toRat_inj, Fraction.toRat_natPow, pow_one, Fraction.toRat_inj] at value
    rw [value, hl]
  · exact evaluate_operation_eq_ok_iff.2 ⟨x, y, z, hl, hr, hz, rfl⟩

/-- **A rule keeps the number that an operation gives.** -/
theorem evaluate_combine {op : Operator} {z : Fraction}
    (hl : left.evaluate config false env = .ok (.number x))
    (hr : right.evaluate config false env = .ok (.number y)) (hz : op.apply x y = .ok z) :
    (combine left op right).evaluate config false env = .ok (.number z) := by
  cases op with
  | add => cases hz; exact evaluate_plus hl hr
  | subtract => cases hz; exact evaluate_minus hl hr
  | multiply => cases hz; exact evaluate_times hl hr
  | divide => exact evaluate_ratio hl hr hz
  | exponent => exact evaluate_power hl hr hz

end Rules

/-! ### Whole expressions -/

/-- A `map` with a body that gives the same numbers. Where the new body is a mere name, the
items are handed on that were put in a list before. -/
theorem evaluate_map_unrolls {input body body' : Expression} {parameter : Name} {v : Value}
    {items items' : Sequence} (unrolls : items.Unrolls items')
    (input_value : input.evaluate config false env = .ok (.sequence items'))
    (stays_name : body.isIdentifier parameter = true → body'.isIdentifier parameter = true)
    (numbers : ∀ x y : Fraction,
      body.evaluate config false (Environment.empty.bind parameter (.number x)) =
        .ok (.number y) →
      body'.evaluate config false (Environment.empty.bind parameter (.number x)) =
        .ok (.number y))
    (value : if body.isIdentifier parameter then v = .sequence items
      else ∃ n, ∃ fits : items.length? = some n, ∃ results : Array Fraction,
        v = .sequence (.list results) ∧
          List.Forall₂ (fun x y => body.evaluate config false
            (Environment.empty.bind parameter (.number x)) = .ok (.number y))
            (items.elements fits) results.toList) :
    ∃ w, (map input parameter body').evaluate config false env = .ok w ∧ v.Unrolls w := by
  split at value
  · next name =>
    subst value
    refine ⟨.sequence items', evaluate_map_eq_ok_iff.2 ⟨items', input_value, ?_⟩,
      .sequence unrolls⟩
    rw [if_pos (stays_name name)]
  · obtain ⟨n, fits, results, rfl, answers⟩ := value
    obtain ⟨fits', same⟩ := unrolls.elements_eq fits
    rw [← same] at answers
    have answers' := answers.imp numbers
    by_cases name : body'.isIdentifier parameter = true
    · refine ⟨.sequence items', evaluate_map_eq_ok_iff.2 ⟨items', input_value, ?_⟩,
        .sequence (.of_elements fits' ?_)⟩
      · rw [if_pos name]
      · rw [isIdentifier_iff.1 name] at answers'
        refine (List.forall₂_eq_eq_eq ▸ answers'.imp fun x y h => ?_ : _ = _).symm
        rw [evaluate_identifier_eq_ok_iff, Environment.lookup?_bind_self] at h
        exact Value.number.inj (Option.some.inj h)
    · refine ⟨_, evaluate_map_eq_ok_iff.2 ⟨items', input_value, ?_⟩, .refl _⟩
      rw [if_neg name]
      exact ⟨n, fits', results, rfl, answers'⟩

/-- A `reduce` whose body is simplified. Where the new body is literally a sum, the closed form
takes the place of the fold. -/
theorem reduceSequence_unrolls {body : Expression} {left right : Name} {v : Value}
    {items items' : Sequence} (unrolls : items.Unrolls items') {start : Fraction}
    (imitates : ∀ {env env' : Environment} {v : Value}, env.Unrolls env' →
      body.evaluate config false env = .ok v →
      ∃ w, body.simplify.evaluate config false env' = .ok w ∧ v.Unrolls w)
    (value : reduceSequence config false items start (body.isSum left right)
      (fun canceled x y => body.evaluate config canceled
        ((Environment.empty.bind left x).bind right y)) = .ok v) :
    ∃ w, reduceSequence config false items' start (body.simplify.isSum left right)
      (fun canceled x y => body.simplify.evaluate config canceled
        ((Environment.empty.bind left x).bind right y)) = .ok w ∧ v.Unrolls w := by
  by_cases closed : body.isSum left right = true ∧ ∃ first last, items = .range first last
  · obtain ⟨sum, first, last, rfl⟩ := closed
    cases unrolls
    rw [isSum_simplify sum]
    exact ⟨v, value, .refl v⟩
  obtain ⟨n, fits, small, run⟩ := (reduceSequence_eq_ok_iff fun sum first last range =>
    closed ⟨sum, first, last, range⟩).1 value
  obtain ⟨fits', same⟩ := unrolls.elements_eq fits
  simp only [← same] at run
  obtain ⟨w, run', unrolled⟩ := Bracketing.run_related (R := Value.Unrolls)
    (fun x y x' y' u hx hy hu =>
      imitates (((Environment.Unrolls.refl _).bind left hx).bind right hy) hu)
    (fun x _ => .refl x) run
  refine ⟨w, ?_, unrolled⟩
  by_cases closed' : body.simplify.isSum left right = true ∧
      ∃ first last, items' = .range first last
  · obtain ⟨sum, first, last, rfl⟩ := closed'
    rw [sum, ← run', run_halving_isSum sum fits']
    rfl
  · exact (reduceSequence_eq_ok_iff fun sum first last range =>
      closed' ⟨sum, first, last, range⟩).2 ⟨n, fits', small, run'⟩

/-- **The simplified expression has a value that the value of the expression unrolls**, also in
an environment whose values are unrolled by those of the first one. -/
theorem evaluate_simplify_unrolls {e : Expression} {env env' : Environment} {v : Value}
    (same : env.Unrolls env') (h : e.evaluate config false env = .ok v) :
    ∃ w, e.simplify.evaluate config false env' = .ok w ∧ v.Unrolls w := by
  induction e generalizing env env' v with
  | number value => exact ⟨v, evaluate_number_eq_ok_iff.2 (evaluate_number_eq_ok_iff.1 h), .refl v⟩
  | identifier name =>
    obtain ⟨w, hw, unrolls⟩ := same name v (evaluate_identifier_eq_ok_iff.1 h)
    exact ⟨w, evaluate_identifier_eq_ok_iff.2 hw, unrolls⟩
  | sequence first last hf hl =>
    obtain ⟨start, stop, h₁, h₂, order, rfl⟩ := evaluate_sequence_eq_ok_iff.1 h
    obtain ⟨_, h₁', ⟨⟩⟩ := hf same h₁
    obtain ⟨_, h₂', ⟨⟩⟩ := hl same h₂
    exact ⟨_, evaluate_sequence_eq_ok_iff.2 ⟨start, stop, h₁', h₂', order, rfl⟩, .refl _⟩
  | operation left op right hl hr =>
    obtain ⟨x, y, z, h₁, h₂, hz, rfl⟩ := evaluate_operation_eq_ok_iff.1 h
    obtain ⟨_, h₁', ⟨⟩⟩ := hl same h₁
    obtain ⟨_, h₂', ⟨⟩⟩ := hr same h₂
    exact ⟨_, evaluate_combine h₁' h₂' hz, .number z⟩
  | map input parameter body hi hb =>
    obtain ⟨items, h₁, hv⟩ := evaluate_map_eq_ok_iff.1 h
    obtain ⟨_, h₁', _ | unrolls⟩ := hi same h₁
    refine evaluate_map_unrolls unrolls h₁' ?_ ?_ hv
    · intro name
      rw [isIdentifier_iff.1 name, isIdentifier_iff]
      rfl
    · intro x y hy
      obtain ⟨_, hy', ⟨⟩⟩ := hb (.refl _) hy
      exact hy'
  | reduce input initial left right body hi hs hb =>
    obtain ⟨items, start, h₁, h₂, associative, hv⟩ := evaluate_reduce_eq_ok_iff.1 h
    obtain ⟨_, h₁', _ | unrolls⟩ := hi same h₁
    obtain ⟨_, h₂', ⟨⟩⟩ := hs same h₂
    obtain ⟨w, hw, unrolled⟩ := reduceSequence_unrolls unrolls hb hv
    exact ⟨w, evaluate_reduce_eq_ok_iff.2 ⟨_, start, h₁', h₂',
      (isAssociative_simplify body left right).trans associative, hw⟩, unrolled⟩

/-- **Simplification preserves meaning.** Where an expression has a value, its simplified form
has an equal value in the same environment. -/
theorem evaluate_simplify_equal {e : Expression} {v : Value}
    (h : e.evaluate config false env = .ok v) :
    ∃ w, e.simplify.evaluate config false env = .ok w ∧ v.equal w = true := by
  obtain ⟨w, hw, unrolls⟩ := evaluate_simplify_unrolls (.refl env) h
  exact ⟨w, hw, unrolls.equal⟩

/-- A `map` whose body becomes a mere name: the list of its items is equal to the range that the
simplified form hands on. -/
theorem evaluate_simplify_equal_map_times_one :
    (map (sequence (number (.ofInt 1)) (number (.ofInt 3))) "x"
      (operation (identifier "x") .multiply (number 1))).evaluate {} false .empty =
        .ok (.sequence (.list #[.ofInt 1, .ofInt 2, .ofInt 3])) ∧
      ∃ w, (map (sequence (number (.ofInt 1)) (number (.ofInt 3))) "x"
        (operation (identifier "x") .multiply (number 1))).simplify.evaluate {} false .empty =
          .ok w ∧ (Value.sequence (.list #[.ofInt 1, .ofInt 2, .ofInt 3])).equal w = true := by
  have value : (map (sequence (number (.ofInt 1)) (number (.ofInt 3))) "x"
      (operation (identifier "x") .multiply (number 1))).evaluate {} false .empty =
        .ok (.sequence (.list #[.ofInt 1, .ofInt 2, .ofInt 3])) := by
    cbv
  exact ⟨value, evaluate_simplify_equal value⟩

end Expression

end RatCalc
