import Mathlib
import RatCalc.Proofs.Rational

/-!
# Arithmetic and order of fractions

Every operation on fractions is the operation on the rational numbers that they denote, and it
fails exactly where that one is not defined. So a fraction may be calculated with as if it were
its rational number, and the order by cross multiplication is the order of the rational numbers.

## Main results

* `Fraction.map_divide?`, `Fraction.map_pow?`: the two operations that may fail, in `ℚ`.
* `Fraction.compare_eq_compare`: the order is that of `ℚ`.
* `Fraction.toRat_operations`: all operations together.
-/

namespace RatCalc

namespace Fraction

/-! ### Zero and negation -/

/-- Only a zero numerator makes zero. -/
theorem numerator_eq_zero_iff {x : Fraction} : x.numerator = 0 ↔ x.toRat = 0 :=
  Rat.num_eq_zero (q := x.toRat)

@[simp]
theorem toRat_neg (x : Fraction) : (-x).toRat = -x.toRat := by
  have above : (-x).numerator = -x.numerator := rfl
  have below : (-x).denominator = x.denominator := rfl
  rw [toRat_eq_div, toRat_eq_div x, above, below, Int.cast_neg, neg_div]

/-! ### Ratios and powers -/

/-- A ratio is that of the rational numbers, refused for a zero divisor. -/
theorem map_divide? (x y : Fraction) :
    (x.divide? y).map toRat =
      if y.toRat = 0 then .error .divisionByZero else .ok (x.toRat / y.toRat) := by
  by_cases zero : y.numerator = 0
  · rw [divide?, dif_pos zero, if_pos (numerator_eq_zero_iff.1 zero)]
    rfl
  · obtain ⟨q, hq⟩ : ∃ q, x.divide? y = .ok q := ⟨_, dif_neg zero⟩
    rw [if_neg (mt numerator_eq_zero_iff.2 zero), ← toRat_divide hq, hq]
    rfl

/-- An inverted power is the power of the rational number to the negative exponent. -/
theorem toRat_ofNonzero_pow (x : Fraction) (e : ℕ) (h : intPow x.numerator e ≠ 0) :
    (ofNonzero (Nat.pow x.denominator e : ℕ) (intPow x.numerator e) h).toRat =
      x.toRat ^ (-(e : ℤ)) := by
  rw [toRat_ofNonzero, intPow_eq_pow, Nat.pow_eq, toRat_eq_div x, zpow_neg, zpow_natCast,
    div_pow, inv_div]
  push_cast
  rfl

/-- A power is that of the rational number, refused for zero to a negative exponent. -/
theorem map_pow? (x : Fraction) (e : ℤ) :
    (x.pow? e).map toRat =
      if x.toRat = 0 ∧ e < 0 then .error .divisionByZero else .ok (x.toRat ^ e) := by
  unfold pow?
  by_cases negative : e < 0
  · have size : e = -(e.natAbs : ℤ) := by omega
    by_cases zero : x.numerator = 0
    · rw [if_pos negative, dif_pos zero, if_pos ⟨numerator_eq_zero_iff.1 zero, negative⟩]
      rfl
    · rw [if_pos negative, dif_neg zero, if_neg fun h => zero (numerator_eq_zero_iff.2 h.1)]
      refine congrArg Except.ok ?_
      rw [toRat_ofNonzero_pow, ← size]
  · have size : e = (e.natAbs : ℤ) := by omega
    rw [if_neg negative, if_neg fun h => negative h.2]
    refine congrArg Except.ok ?_
    rw [toRat_natPow, ← zpow_natCast, ← size]

/-! ### Integers -/

/-- A fraction is taken for an integer if its rational number is that integer. -/
theorem toInt?_eq_ok_iff_toRat {x : Fraction} {n : ℤ} : x.toInt? = .ok n ↔ x.toRat = n := by
  rw [toInt?_eq_ok_iff, ← toRat_inj, toRat_ofInt]

/-! ### Order -/

/-- Cross multiplication by positive denominators keeps the order. -/
theorem compare_eq_compare (x y : Fraction) : x.compare y = Ord.compare x.toRat y.toRat := by
  have px : (0 : ℚ) < x.denominator := Nat.cast_pos.2 x.denominator_pos
  have py : (0 : ℚ) < y.denominator := Nat.cast_pos.2 y.denominator_pos
  have less : x.numerator * y.denominator < y.numerator * x.denominator ↔ x.toRat < y.toRat := by
    rw [toRat_eq_div x, toRat_eq_div y, div_lt_div_iff₀ px py]
    exact_mod_cast Iff.rfl
  have same : x.numerator * y.denominator = y.numerator * x.denominator ↔ x.toRat = y.toRat := by
    rw [toRat_eq_div x, toRat_eq_div y, div_eq_div_iff px.ne' py.ne']
    exact_mod_cast Iff.rfl
  rw [compare, LinearOrder.compare_eq_compareOfLessAndEq,
    LinearOrder.compare_eq_compareOfLessAndEq]
  simp only [compareOfLessAndEq, less, same]

/-- Comparing is consistent, and only equal fractions compare as equal. -/
theorem compare_eq_iff {x y : Fraction} : x.compare y = .eq ↔ x = y := by
  rw [compare_eq_compare, compare_eq_iff_eq, toRat_inj]

/-- Two fractions compare the other way round when they are exchanged, and what comes before a
fraction comes before all that comes after it. -/
theorem transCmp_compare : Std.TransCmp compare where
  eq_swap {x y} := by
    rw [compare_eq_compare, compare_eq_compare y]
    exact Std.OrientedCmp.eq_swap
  isLE_trans {x y z} hxy hyz := by
    rw [compare_eq_compare] at hxy hyz ⊢
    exact Std.TransCmp.isLE_trans hxy hyz

/-! ### All operations -/

/-- **Fractions calculate in the rational numbers.** Sums, differences, products and negations
are those of `ℚ`. A ratio is refused for a zero divisor only and is the ratio otherwise. A power
is refused for zero to a negative exponent only and is the power otherwise, one for every base
to the exponent zero. Comparing gives the order of `ℚ`, which is total, and finds fractions equal
if they are the same. A fraction is taken for an integer exactly if its rational number is one,
and for that one. -/
theorem toRat_operations (x y : Fraction) :
    (x + y).toRat = x.toRat + y.toRat ∧ (x - y).toRat = x.toRat - y.toRat ∧
      (x * y).toRat = x.toRat * y.toRat ∧ (-x).toRat = -x.toRat ∧
      (x.divide? y).map toRat =
        (if y.toRat = 0 then .error .divisionByZero else .ok (x.toRat / y.toRat)) ∧
      (∀ e : ℤ, (x.pow? e).map toRat =
        if x.toRat = 0 ∧ e < 0 then .error .divisionByZero else .ok (x.toRat ^ e)) ∧
      x.compare y = Ord.compare x.toRat y.toRat ∧ Std.TransCmp compare ∧
      (x.compare y = .eq ↔ x = y) ∧ ∀ n : ℤ, x.toInt? = .ok n ↔ x.toRat = n :=
  ⟨toRat_add x y, toRat_sub x y, toRat_mul x y, toRat_neg x, map_divide? x y, map_pow? x,
    compare_eq_compare x y, transCmp_compare, compare_eq_iff, fun _ => toInt?_eq_ok_iff_toRat⟩

end Fraction

end RatCalc
