import Mathlib
import RatCalc.Proofs.Rational
import RatCalc.Proofs.Evaluation.Success

/-!
# The sum of a range in closed form

A `reduce` whose body is literally the sum of its parameters adds up its row, however the row is
bracketed. Over a range the sum is the difference of two triangular numbers, both of which are
whole, so the closed form and the fold agree.

## Main results

* `Bracketing.run_sum`: adding along any tree gives the sum of the items.
* `Sequence.cast_sumOfRange`: the closed form is the sum of the integers of the range.
* `Expression.run_halving_isSum`: the fold over a range gives what the closed form gives.
* `Expression.evaluate_reduce_range_sum`: a `reduce` that adds up a range has the value of the
  fold.
-/

namespace RatCalc

/-- Adding along any tree of numbers gives the sum of the numbers. -/
theorem Bracketing.run_sum {apply : Value → Value → Except EvalError Value}
    (adds : ∀ x y : Fraction, apply (.number x) (.number y) = .ok (.number (x + y)))
    {t : Bracketing Value} {xs : List Fraction} (items : t.items = xs.map .number) :
    ∃ total : Fraction, t.run apply = .ok (.number total) ∧
      total.toRat = (xs.map Fraction.toRat).sum := by
  induction t generalizing xs with
  | item x =>
    obtain ⟨y, rfl, rfl⟩ := List.map_eq_singleton_iff.1 items.symm
    exact ⟨y, rfl, by simp⟩
  | join left right ihl ihr =>
    obtain ⟨ys, zs, rfl, hl, hr⟩ := List.map_eq_append_iff.1 items.symm
    obtain ⟨y, runl, suml⟩ := ihl hl.symm
    obtain ⟨z, runr, sumr⟩ := ihr hr.symm
    refine ⟨y + z, run_join_eq_ok_iff.2 ⟨_, _, runl, runr, adds y z⟩, ?_⟩
    rw [Fraction.toRat_add, suml, sumr, List.map_append, List.sum_append]

namespace Sequence

/-- One more integer stands at the end. -/
theorem consecutive_succ (first : ℤ) (n : ℕ) :
    consecutive first (n + 1) = consecutive first n ++ [.ofInt (first + n)] := by
  simp [consecutive, List.range_succ]

/-- Twice the sum of integers that follow one another. -/
theorem two_mul_sum_consecutive (first : ℤ) (n : ℕ) :
    2 * ((consecutive first n).map Fraction.toRat).sum = n * (2 * first + n - 1) := by
  induction n with
  | zero => simp [consecutive]
  | succ n ih =>
    rw [consecutive_succ, List.map_append, List.sum_append, mul_add, ih]
    simp only [List.map_singleton, List.sum_singleton, Fraction.toRat_ofInt]
    push_cast
    ring

/-- Half of a product of two integers that follow one another is whole. -/
theorem two_mul_half_mul_succ (n : ℤ) : 2 * (n * (n + 1) / 2) = n * (n + 1) :=
  Int.mul_ediv_cancel' (Int.even_mul_succ_self n).two_dvd

/-- The closed form is the sum of the integers of the range. -/
theorem cast_sumOfRange {first last : ℤ} {n : ℕ} (count : last - first + 1 = n) :
    (sumOfRange first last : ℚ) = ((consecutive first n).map Fraction.toRat).sum := by
  have upper := two_mul_half_mul_succ last
  have lower := two_mul_half_mul_succ (first - 1)
  rw [sub_add_cancel] at lower
  obtain rfl : last = first + n - 1 := by omega
  have twice : 2 * sumOfRange first (first + n - 1) = n * (2 * first + n - 1) := by
    unfold sumOfRange
    linear_combination upper - lower
  have total := two_mul_sum_consecutive first n
  have cast : (2 : ℚ) * sumOfRange first (first + n - 1) = n * (2 * first + n - 1) := by
    exact_mod_cast twice
  linarith

/-- Integers that follow one another are those of an interval. -/
theorem sum_consecutive (first : ℤ) (n : ℕ) :
    ((consecutive first n).map Fraction.toRat).sum =
      ((∑ k ∈ Finset.Icc first (first + n - 1), k : ℤ) : ℚ) := by
  induction n with
  | zero => simp [consecutive]
  | succ n ih =>
    have longer : Finset.Icc first (first + (n + 1 : ℕ) - 1) =
        insert (first + n) (Finset.Icc first (first + n - 1)) := by
      ext k
      simp only [Finset.mem_Icc, Finset.mem_insert]
      omega
    have fresh : first + n ∉ Finset.Icc first (first + n - 1) := by simp
    rw [consecutive_succ, List.map_append, List.sum_append, ih, longer, Finset.sum_insert fresh]
    simp [add_comm]

/-- Both halves of the closed form are whole, so it does not matter how they are rounded. -/
theorem sumOfRange_eq_tdiv (first last : ℤ) :
    2 ∣ last * (last + 1) ∧ 2 ∣ (first - 1) * first ∧
      sumOfRange first last = (last * (last + 1)).tdiv 2 - ((first - 1) * first).tdiv 2 := by
  have upper : (2 : ℤ) ∣ last * (last + 1) := (Int.even_mul_succ_self last).two_dvd
  have lower : (2 : ℤ) ∣ (first - 1) * first := (Int.even_mul_pred_self first).two_dvd.trans
    (by rw [mul_comm])
  exact ⟨upper, lower, by
    rw [sumOfRange, Int.tdiv_eq_ediv_of_dvd upper, Int.tdiv_eq_ediv_of_dvd lower]⟩

end Sequence

namespace Expression

variable {config : Config}

theorem isIdentifier_iff {e : Expression} {name : Name} :
    e.isIdentifier name = true ↔ e = identifier name := by
  cases e <;> simp [isIdentifier]

/-- A body that is literally a sum is one of two expressions. -/
theorem eq_of_isSum {body : Expression} {left right : Name} (sum : body.isSum left right = true) :
    left ≠ right ∧
      (body = operation (identifier left) .add (identifier right) ∨
        body = operation (identifier right) .add (identifier left)) := by
  unfold isSum at sum
  split at sum
  · simp only [Bool.and_eq_true, Bool.or_eq_true, bne_iff_ne, isIdentifier_iff] at sum
    obtain ⟨distinct, ⟨rfl, rfl⟩ | ⟨rfl, rfl⟩⟩ := sum
    · exact ⟨distinct, .inl rfl⟩
    · exact ⟨distinct, .inr rfl⟩
  · cases sum

/-- A body that is literally a sum adds two numbers. -/
theorem evaluate_isSum {body : Expression} {left right : Name}
    (sum : body.isSum left right = true) (x y : Fraction) :
    body.evaluate config false ((Environment.empty.bind left (.number x)).bind right (.number y)) =
      .ok (.number (x + y)) := by
  obtain ⟨distinct, form⟩ := eq_of_isSum sum
  have first := Environment.lookup?_bind_bind .empty distinct (.number x) (.number y)
  have second := Environment.lookup?_bind_self (Environment.empty.bind left (.number x)) right
    (.number y)
  rcases form with rfl | rfl
  · exact evaluate_operation_eq_ok_iff.2 ⟨x, y, x + y, evaluate_identifier_eq_ok_iff.2 first,
      evaluate_identifier_eq_ok_iff.2 second, rfl, rfl⟩
  · refine evaluate_operation_eq_ok_iff.2 ⟨y, x, x + y, evaluate_identifier_eq_ok_iff.2 second,
      evaluate_identifier_eq_ok_iff.2 first, ?_, rfl⟩
    rw [Operator.apply, Except.ok.injEq, ← Fraction.toRat_inj, Fraction.toRat_add,
      Fraction.toRat_add, add_comm]

/-- The fold of a body that is literally a sum over a range gives what the closed form gives. -/
theorem run_halving_isSum {body : Expression} {left right : Name}
    (sum : body.isSum left right = true) {first last : ℤ} {n : ℕ}
    (fits : (Sequence.range first last).length? = some n) (initial : Fraction) :
    (Bracketing.halving
        ((initial :: (Sequence.range first last).elements fits).map .number)
        (List.cons_ne_nil _ _)).run (fun x y => body.evaluate config false
          ((Environment.empty.bind left x).bind right y)) =
      .ok (.number (.ofInt (Sequence.sumOfRange first last) + initial)) := by
  set apply : Value → Value → Except EvalError Value := fun x y =>
    body.evaluate config false ((Environment.empty.bind left x).bind right y)
  have adds : ∀ x y : Fraction, apply (.number x) (.number y) = .ok (.number (x + y)) :=
    evaluate_isSum sum
  obtain ⟨total, run, value⟩ := Bracketing.run_sum adds
    (Bracketing.items_halving
      ((initial :: (Sequence.range first last).elements fits).map Value.number)
      (List.cons_ne_nil _ _))
  rw [run, Except.ok.injEq, Value.number.injEq, ← Fraction.toRat_inj, value,
    Sequence.elements_range, List.map_cons, List.sum_cons,
    ← Sequence.cast_sumOfRange (Sequence.length?_range_eq_some_iff.1 fits).1, Fraction.toRat_add,
    Fraction.toRat_ofInt, add_comm]

/-- The body of a literal sum passes the test. -/
theorem isAssociative_isSum {body : Expression} {left right : Name}
    (sum : body.isSum left right = true) : body.isAssociative left right = true := by
  obtain ⟨distinct, rfl | rfl⟩ := eq_of_isSum sum
  · simp [isAssociative, isUniform, simplify, replace, combine, plus, asNumber?, multipleOf?, scan?,
      Scan.meetOperator?, Scan.meetName?, Scan.holds, distinct, distinct.symm]
  · simp [isAssociative, isUniform, simplify, replace, combine, plus, asNumber?, multipleOf?, scan?,
      Scan.meetOperator?, Scan.meetName?, Scan.holds, distinct, distinct.symm]

/-- The sum of a range from its first integer to its last, and of an initial value. -/
theorem toRat_closed_form {first last : ℤ} (order : first ≤ last) (initial : Fraction) :
    (.ofInt (Sequence.sumOfRange first last) + initial : Fraction).toRat =
      initial.toRat + ((∑ k ∈ Finset.Icc first last, k : ℤ) : ℚ) := by
  obtain ⟨n, count⟩ := Int.eq_ofNat_of_zero_le (show 0 ≤ last - first + 1 by omega)
  have ends : first + n - 1 = last := by omega
  rw [Fraction.toRat_add, Fraction.toRat_ofInt, Sequence.cast_sumOfRange count,
    Sequence.sum_consecutive, ends, add_comm]

/-- **The closed form of the sum of a range agrees with the fold.** Where the body of a `reduce`
is literally the sum of its two parameters and its input is a range, the value is the initial value
plus every integer of the range. Both halves of the closed form are whole. The fold by halving over
the initial value and the items gives the same number at every depth of groups, if the row has a
length that fits a word. -/
theorem evaluate_reduce_range_sum {env : Environment} {input start body : Expression}
    {left right : Name} (distinct : left ≠ right)
    (literally : body = operation (identifier left) .add (identifier right) ∨
      body = operation (identifier right) .add (identifier left))
    {first last : ℤ} (order : first ≤ last) {initial : Fraction}
    (items : input.evaluate config false env = .ok (.sequence (.range first last)))
    (start_value : start.evaluate config false env = .ok (.number initial)) :
    ∃ total : Fraction,
      total.toRat = initial.toRat + ((∑ k ∈ Finset.Icc first last, k : ℤ) : ℚ) ∧
      (reduce input start left right body).evaluate config false env = .ok (.number total) ∧
      (2 ∣ last * (last + 1) ∧ 2 ∣ (first - 1) * first ∧
        Sequence.sumOfRange first last =
          (last * (last + 1)).tdiv 2 - ((first - 1) * first).tdiv 2) ∧
      ((last - first + 1) + 1 < wordBound → ∀ config' : Config,
        reduceSequence config' false (.range first last) initial false
          (fun canceled x y => body.evaluate config' canceled
            ((Environment.empty.bind left x).bind right y)) = .ok (.number total)) := by
  have sum : body.isSum left right = true := by
    rcases literally with rfl | rfl
    · simp [isSum, isIdentifier, distinct]
    · simp [isSum, isIdentifier, distinct]
  refine ⟨.ofInt (Sequence.sumOfRange first last) + initial, toRat_closed_form order initial, ?_,
    Sequence.sumOfRange_eq_tdiv first last, fun small config' => ?_⟩
  · refine evaluate_reduce_eq_ok_iff.2 ⟨_, initial, items, start_value, isAssociative_isSum sum, ?_⟩
    rw [sum]
    rfl
  · obtain ⟨n, count⟩ := Int.eq_ofNat_of_zero_le (show 0 ≤ last - first + 1 by omega)
    have fits : (Sequence.range first last).length? = some n :=
      Sequence.length?_range_eq_some_iff.2 ⟨count, by omega⟩
    refine (reduceSequence_eq_ok_iff (fun absurd => by cases absurd)).2
      ⟨n, fits, by omega, run_halving_isSum sum fits initial⟩

/-- The range from -2 to 3 and one half, by a body that names its parameters the other way
round. -/
theorem evaluate_reduce_range_sum_mixed_signs :
    let half : Fraction := ⟨1, 2, by decide, by decide⟩
    let input := sequence (number (-.ofInt 2)) (number (.ofInt 3))
    let body := operation (identifier "b") .add (identifier "a")
    "a" ≠ "b" ∧ (-2 : ℤ) ≤ 3 ∧
      input.evaluate {} false .empty = .ok (.sequence (.range (-2) 3)) ∧
      (number half).evaluate {} false .empty = .ok (.number half) ∧
      ∃ total : Fraction, total.toRat = 7 / 2 ∧
        (reduce input (number half) "a" "b" body).evaluate {} false .empty = .ok (.number total) ∧
        ∀ config' : Config,
          reduceSequence config' false (.range (-2) 3) half false
            (fun canceled x y => body.evaluate config' canceled
              ((Environment.empty.bind "a" x).bind "b" y)) = .ok (.number total) := by
  intro half input body
  have items : input.evaluate {} false .empty = .ok (.sequence (.range (-2) 3)) := by
    decide +kernel
  have start_value : (number half).evaluate {} false .empty = .ok (.number half) :=
    evaluate_number_eq_ok_iff.2 rfl
  have distinct : "a" ≠ "b" := by decide
  obtain ⟨total, value, closed, -, fold⟩ :=
    @evaluate_reduce_range_sum {} .empty input (number half) body "a" "b" distinct (.inr rfl)
      (-2) 3 (by decide) half items start_value
  refine ⟨distinct, by decide, items, start_value, total, ?_, closed, fold (by decide)⟩
  have half_value : half.toRat = 1 / 2 := by
    rw [Fraction.toRat_eq_div]
    norm_num [half]
  have integers : (∑ k ∈ Finset.Icc (-2 : ℤ) 3, k) = 3 := by decide
  rw [value, half_value, integers]
  norm_num

end Expression

end RatCalc
