import Mathlib
import RatCalc.Fraction.Basic

/-!
# Fractions as rational numbers

A fraction in lowest terms is a rational number, and no rational number has two of them. Sums,
differences, products and ratios of fractions are those of the rational numbers, so an identity
between fractions is proved by taking it to `ℚ` and calculating there.

## Main definitions

* `Fraction.toRat`: the rational number that a fraction denotes.

## Main results

* `Fraction.toRat_injective`: equal numbers have equal fractions.
* `Fraction.toRat_normalize`: dividing out a common divisor keeps the ratio.
* `Fraction.toRat_add`, `Fraction.toRat_sub`, `Fraction.toRat_mul`: the ring operations.
-/

namespace RatCalc

namespace Fraction

/-- The rational number that a fraction denotes. -/
def toRat (x : Fraction) : ℚ :=
  ⟨x.numerator, x.denominator, x.denominator_pos.ne', x.coprime⟩

/-- A rational number has one fraction only. -/
theorem toRat_injective : Function.Injective toRat := by
  rintro ⟨n, d, _, _⟩ ⟨n', d', _, _⟩ h
  obtain ⟨rfl, rfl⟩ := Rat.mk'.inj h
  rfl

@[simp]
theorem toRat_inj {x y : Fraction} : x.toRat = y.toRat ↔ x = y :=
  toRat_injective.eq_iff

/-- The lowest terms of `n / d` denote `n / d`. -/
theorem toRat_normalize (n : ℤ) (d : ℕ) (d_pos : 0 < d) :
    (normalize n d d_pos).toRat = n / d := by
  rw [← Rat.mkRat_eq_div, ← Rat.normalize_eq_mkRat d_pos.ne', Rat.normalize_eq]
  rfl

/-- A fraction denotes its numerator over its denominator. -/
theorem toRat_eq_div (x : Fraction) : x.toRat = x.numerator / x.denominator :=
  (Rat.num_div_den x.toRat).symm

@[simp]
theorem toRat_ofInt (n : ℤ) : (ofInt n).toRat = n :=
  rfl

@[simp]
theorem toRat_zero : (0 : Fraction).toRat = 0 :=
  rfl

@[simp]
theorem toRat_one : (1 : Fraction).toRat = 1 :=
  rfl

@[simp]
theorem toRat_add (x y : Fraction) : (x + y).toRat = x.toRat + y.toRat := by
  change (x.add y).toRat = _
  rw [add, toRat_normalize, Rat.add_def', Rat.mkRat_eq_div]
  rfl

@[simp]
theorem toRat_sub (x y : Fraction) : (x - y).toRat = x.toRat - y.toRat := by
  change (x.sub y).toRat = _
  rw [sub, toRat_normalize, Rat.sub_def', Rat.mkRat_eq_div]
  rfl

@[simp]
theorem toRat_mul (x y : Fraction) : (x * y).toRat = x.toRat * y.toRat := by
  change (x.mul y).toRat = _
  rw [mul, toRat_normalize, Rat.mul_def', Rat.mkRat_eq_div]
  rfl

/-- The fraction of two integers denotes their ratio, whatever the sign of the second. -/
theorem toRat_ofNonzero (n d : ℤ) (d_ne : d ≠ 0) : (ofNonzero n d d_ne).toRat = n / d := by
  rw [ofNonzero, toRat_normalize]
  rcases lt_or_gt_of_ne d_ne with h | h
  · rw [if_pos h, Nat.cast_natAbs, abs_of_neg h, Int.cast_neg, Int.cast_neg,
      neg_div_neg_eq]
  · rw [if_neg h.not_gt, Nat.cast_natAbs, abs_of_pos h]

/-- A ratio that exists is the ratio of the rational numbers. -/
theorem toRat_divide {x y z : Fraction} (h : x.divide? y = .ok z) :
    z.toRat = x.toRat / y.toRat := by
  unfold divide? at h
  split at h
  · cases h
  · cases h
    rw [toRat_ofNonzero, toRat_eq_div x, toRat_eq_div y]
    push_cast
    rw [div_div_div_eq]

/-- The power of an integer, by the power of its size, is the power. -/
theorem intPow_eq_pow (n : ℤ) (e : ℕ) : intPow n e = n ^ e := by
  unfold intPow
  rw [Nat.pow_eq, Nat.cast_pow, Int.natCast_natAbs]
  split_ifs with h
  · rw [abs_of_neg h.1, (Nat.odd_iff.2 h.2).neg_pow, neg_neg]
  · rcases Nat.even_or_odd e with even | odd
    · exact even.pow_abs n
    · rw [abs_of_nonneg (not_lt.1 fun negative => h ⟨negative, Nat.odd_iff.1 odd⟩)]

/-- A natural power is the power of the rational number. -/
@[simp]
theorem toRat_natPow (x : Fraction) (e : ℕ) : (x.natPow e).toRat = x.toRat ^ e := by
  have above : (x.natPow e).numerator = x.numerator ^ e := intPow_eq_pow x.numerator e
  have below : (x.natPow e).denominator = x.denominator ^ e := Nat.pow_eq
  rw [toRat_eq_div, toRat_eq_div x, above, below, div_pow, Int.cast_pow, Nat.cast_pow]

/-- A fraction that is an integer is the fraction of its numerator. -/
theorem toInt?_eq_ok_iff {x : Fraction} {n : ℤ} : x.toInt? = .ok n ↔ x = ofInt n := by
  constructor
  · obtain ⟨numerator, denominator, _, _⟩ := x
    intro h
    unfold toInt? isInt at h
    split at h
    · next one =>
      obtain rfl : denominator = 1 := by simpa using one
      cases h
      rfl
    · cases h
  · rintro rfl
    rfl

end Fraction

end RatCalc
