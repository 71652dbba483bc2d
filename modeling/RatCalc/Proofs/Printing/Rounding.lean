import Mathlib
import RatCalc.Proofs.Printing.Decimal

/-!
# The text of a recurring fraction

A fraction whose denominator has a prime factor other than two and five is rounded. Its leading
digit is found from the digit counts of both parts, and the number of places is chosen from there,
so that enough digits are significant. As the expansion does not end, the number that is rounded
never lies half way between its neighbours.

The digit counts tell the place of the leading digit up to one, and a comparison with a power of ten
settles it. The exponent of this power wraps. So if the numerator has `2 ^ 32` digits more than the
denominator, the comparison is one with a much smaller power, and the last significant place may be
missing in the text.

## Main definitions

* `Fraction.RoundedTo`: a text that is the fraction, rounded to a number of places.

## Main results

* `Fraction.leadingExponent_eq`: the place of the leading digit.
* `Fraction.roundHalfUp_spec`: rounding misses by less than a half where there is no tie.
* `Fraction.roundedTo_roundedScale`, `Fraction.decimal_rounded`: the text of a recurring fraction is
  correctly rounded.
* `Fraction.decimal_place_missing`: a fraction in whose text a place is missing.
-/

namespace RatCalc

namespace Fraction

/-! ### The leading digit -/

/-- A number is written with one digit at least. -/
theorem digitCount_pos (n : ℕ) : 0 < digitCount n :=
  Nat.length_toDigits_pos

/-- A number lies below the power of ten with as many zeros as it has digits. -/
theorem lt_ten_pow_digitCount (n : ℕ) : n < 10 ^ digitCount n :=
  (Nat.length_toDigits_le_iff (by decide) (digitCount_pos n)).1 le_rfl

/-- A positive number does not lie below the power of ten with one zero less. -/
theorem ten_pow_le_of_pos {n : ℕ} (h : 0 < n) : 10 ^ (digitCount n - 1) ≤ n := by
  rcases Nat.eq_zero_or_pos (digitCount n - 1) with single | more
  · rw [single, pow_zero]
    exact h
  · by_contra less
    have count : digitCount n ≤ digitCount n - 1 :=
      (Nat.length_toDigits_le_iff (by decide) more).2 (by omega)
    omega

theorem zpow_digitCount_le {n : ℕ} (h : 0 < n) : (10 : ℚ) ^ ((digitCount n : ℤ) - 1) ≤ n := by
  have low : ((10 ^ (digitCount n - 1) : ℕ) : ℚ) ≤ n := Nat.cast_le.2 (ten_pow_le_of_pos h)
  rwa [Nat.cast_pow, ← zpow_natCast, Nat.cast_sub (digitCount_pos n)] at low

theorem lt_zpow_digitCount (n : ℕ) : (n : ℚ) < 10 ^ (digitCount n : ℤ) := by
  rw [zpow_natCast]
  exact_mod_cast lt_ten_pow_digitCount n

/-- A number between two powers of ten tells their order. -/
theorem lt_of_zpow_le {q : ℚ} {a b : ℤ} (low : 10 ^ a ≤ q) (high : q < 10 ^ b) : a < b :=
  (zpow_lt_zpow_iff_right₀ (by norm_num)).1 (low.trans_lt high)

/-- A comparison with a power of ten, cleared of negative exponents. -/
theorem lt_zpow_iff {n d : ℕ} (d_pos : 0 < d) (e : ℤ) :
    n * powerOfTen (-e).toNat < d * powerOfTen e.toNat ↔ (n : ℚ) / d < 10 ^ e := by
  have below : (0 : ℚ) < d := Nat.cast_pos.2 d_pos
  have power : (10 : ℚ) ^ e = 10 ^ e.toNat / 10 ^ (-e).toNat := by
    rw [← zpow_natCast, ← zpow_natCast, ← zpow_sub₀ (by norm_num), Int.toNat_sub_toNat_neg]
  rw [power, div_lt_div_iff₀ below (by positivity), mul_comm _ (d : ℚ), powerOfTen, powerOfTen,
    Nat.pow_eq, Nat.pow_eq]
  norm_cast

/-- The digit counts tell the power of ten up to one. -/
theorem exponentEstimate_spec {n d : ℕ} (n_pos : 0 < n) (d_pos : 0 < d) :
    (10 : ℚ) ^ (exponentEstimate n d - 1) ≤ n / d ∧
      (n : ℚ) / d < 10 ^ (exponentEstimate n d + 1) := by
  have below : (0 : ℚ) < d := Nat.cast_pos.2 d_pos
  have d_low := zpow_digitCount_le d_pos
  have d_high := lt_zpow_digitCount d
  constructor
  · rw [le_div_iff₀ below]
    calc (10 : ℚ) ^ (exponentEstimate n d - 1) * d
        ≤ 10 ^ (exponentEstimate n d - 1) * 10 ^ (digitCount d : ℤ) := by gcongr
      _ = 10 ^ ((digitCount n : ℤ) - 1) := by
        rw [← zpow_add₀ (by norm_num), exponentEstimate]
        congr 1
        omega
      _ ≤ n := zpow_digitCount_le n_pos
  · rw [div_lt_iff₀ below]
    calc (n : ℚ) < 10 ^ (digitCount n : ℤ) := lt_zpow_digitCount n
      _ = 10 ^ (exponentEstimate n d + 1) * 10 ^ ((digitCount d : ℤ) - 1) := by
        rw [← zpow_add₀ (by norm_num), exponentEstimate]
        congr 1
        omega
      _ ≤ 10 ^ (exponentEstimate n d + 1) * d := by gcongr

/-- The leading digit stands where the estimate has it, or one place behind. -/
theorem exponent_near {n d : ℕ} (n_pos : 0 < n) (d_pos : 0 < d) {e : ℤ}
    (low : (10 : ℚ) ^ e ≤ n / d) (high : (n : ℚ) / d < 10 ^ (e + 1)) :
    exponentEstimate n d - 1 ≤ e ∧ e ≤ exponentEstimate n d := by
  obtain ⟨least, greatest⟩ := exponentEstimate_spec n_pos d_pos
  have front := lt_of_zpow_le least high
  have behind := lt_of_zpow_le low greatest
  omega

theorem scaleBound_pos : 0 < scaleBound := by
  decide

/-- The comparison is that with the estimate, unless an exponent wraps. -/
theorem leadingExponent_of_fits {n d : ℕ} (d_pos : 0 < d)
    (low : -(scaleBound : ℤ) < exponentEstimate n d) (high : exponentEstimate n d < scaleBound) :
    leadingExponent n d =
      if (n : ℚ) / d < 10 ^ exponentEstimate n d then exponentEstimate n d - 1
      else exponentEstimate n d := by
  have front : (-exponentEstimate n d).toNat < scaleBound := by omega
  have behind : (exponentEstimate n d).toNat < scaleBound := by omega
  rw [leadingExponent, Nat.mod_eq_of_lt front, Nat.mod_eq_of_lt behind]
  exact if_congr (lt_zpow_iff d_pos _) rfl rfl

/-- If it wraps upward, the number does not lie below the power of ten that is left. -/
theorem leadingExponent_of_wraps {n d : ℕ} (n_pos : 0 < n) (d_pos : 0 < d)
    (wraps : (scaleBound : ℤ) ≤ exponentEstimate n d) :
    leadingExponent n d = exponentEstimate n d := by
  set k := (exponentEstimate n d).toNat % scaleBound with k_eq
  have bound := scaleBound_pos
  have small : k < scaleBound := Nat.mod_lt _ bound
  have none : (-exponentEstimate n d).toNat = 0 := by omega
  rw [leadingExponent, none, Nat.zero_mod, ← k_eq, if_neg]
  intro less
  have below : (n : ℚ) / d < 10 ^ (k : ℤ) := (lt_zpow_iff d_pos k).1 (by simpa using less)
  have above := (exponentEstimate_spec n_pos d_pos).1
  have := lt_of_zpow_le above below
  omega

/-- **The leading exponent is that of the leading digit**, except where the estimate is too large
and wraps: then it is too large as well. -/
theorem leadingExponent_eq {n d : ℕ} (n_pos : 0 < n) (d_pos : 0 < d) {e : ℤ}
    (low : (10 : ℚ) ^ e ≤ n / d) (high : (n : ℚ) / d < 10 ^ (e + 1))
    (fits : -(scaleBound : ℤ) < exponentEstimate n d) :
    leadingExponent n d =
      if exponentEstimate n d < scaleBound ∨ e = exponentEstimate n d then e else e + 1 := by
  have near := exponent_near n_pos d_pos low high
  by_cases short : exponentEstimate n d < scaleBound
  · have found : exponentEstimate n d < scaleBound ∨ e = exponentEstimate n d := .inl short
    rw [leadingExponent_of_fits d_pos fits short, if_pos found]
    split_ifs with less
    · have := lt_of_zpow_le low less
      omega
    · have := lt_of_zpow_le (not_lt.1 less) high
      omega
  · rw [leadingExponent_of_wraps n_pos d_pos (not_lt.1 short)]
    split_ifs <;> omega

/-- The leading exponent is less than the number of digits of the numerator. -/
theorem leadingExponent_lt (n d : ℕ) : leadingExponent n d < digitCount n := by
  have count := digitCount_pos d
  unfold leadingExponent exponentEstimate
  dsimp only
  split_ifs <;> omega

/-! ### Rounding -/

/-- **Rounding misses by less than a half** where there is no tie. -/
theorem roundHalfUp_spec {n d : ℕ} (d_pos : 0 < d) (no_tie : n % d * 2 ≠ d) :
    |(roundHalfUp n d : ℚ) - n / d| < 1 / 2 := by
  have below : (0 : ℚ) < d := Nat.cast_pos.2 d_pos
  have split : (d : ℚ) * (n / d : ℕ) + (n % d : ℕ) = n := by exact_mod_cast Nat.div_add_mod n d
  have quotient : (n : ℚ) / d = (n / d : ℕ) + (n % d : ℕ) / d := by
    field_simp
    linarith
  have remainder : ((n % d : ℕ) : ℚ) < d := Nat.cast_lt.2 (Nat.mod_lt n d_pos)
  unfold roundHalfUp
  split_ifs with half
  · have more : (d : ℚ) < (n % d : ℕ) * 2 := by
      exact_mod_cast lt_of_le_of_ne half no_tie.symm
    rw [quotient, Nat.cast_add, Nat.cast_one, abs_lt]
    constructor
    · have : ((n % d : ℕ) : ℚ) / d < 1 := (div_lt_one below).2 remainder
      linarith
    · have : (1 : ℚ) / 2 < (n % d : ℕ) / d := by
        rw [div_lt_div_iff₀ two_pos below]
        linarith
      linarith
  · have less : ((n % d : ℕ) : ℚ) * 2 < d := by exact_mod_cast Nat.lt_of_not_le half
    rw [quotient, abs_lt]
    constructor
    · have : ((n % d : ℕ) : ℚ) / d < 1 / 2 := by
        rw [div_lt_div_iff₀ below two_pos]
        linarith
      linarith
    · have : (0 : ℚ) ≤ (n % d : ℕ) / d := by positivity
      linarith

/-- A number is not rounded below its integer part. -/
theorem div_le_roundHalfUp (n d : ℕ) : n / d ≤ roundHalfUp n d := by
  unfold roundHalfUp
  split_ifs <;> omega

/-! ### The text -/

section Recurring

variable {x : Fraction} {p : ℕ}

/-- A denominator with a prime factor other than two and five has no expansion that ends. -/
theorem terminatingScale?_eq_none {d : ℕ} (d_pos : 0 < d) (prime : p.Prime) (divides : p ∣ d)
    (ne_two : p ≠ 2) (ne_five : p ≠ 5) : terminatingScale? d = none := by
  obtain ⟨i, odd, no_two, rfl⟩ := Nat.exists_eq_pow_mul_and_not_dvd d_pos.ne' 2 (by decide)
  have odd_pos : 0 < odd := Nat.pos_of_mul_pos_left d_pos
  obtain ⟨j, rest, no_five, rfl⟩ := Nat.exists_eq_pow_mul_and_not_dvd odd_pos.ne' 5 (by decide)
  have no_two' : ¬ 2 ∣ rest := fun h => no_two (dvd_mul_of_dvd_right h _)
  rw [terminatingScale?_eq no_two' no_five, if_neg]
  rintro ⟨rfl, -⟩
  rw [mul_one] at divides
  rcases (Nat.Prime.dvd_mul prime).1 divides with two | five
  · exact ne_two ((Nat.prime_dvd_prime_iff_eq prime Nat.prime_two).1 (prime.dvd_of_dvd_pow two))
  · exact ne_five ((Nat.prime_dvd_prime_iff_eq prime Nat.prime_five).1 (prime.dvd_of_dvd_pow five))

/-- No multiple of a fraction by a power of ten lies half way between two integers. -/
theorem no_tie (prime : p.Prime) (divides : p ∣ x.denominator) (ne_two : p ≠ 2) (ne_five : p ≠ 5)
    (scale : ℕ) :
    x.numerator.natAbs * powerOfTen scale % x.denominator * 2 ≠ x.denominator := by
  intro tie
  have even : x.denominator ∣ x.numerator.natAbs * (powerOfTen scale * 2) := by
    rw [← Nat.mul_assoc]
    set scaled := x.numerator.natAbs * powerOfTen scale
    refine ⟨scaled / x.denominator * 2 + 1, ?_⟩
    calc scaled * 2 = (x.denominator * (scaled / x.denominator) + scaled % x.denominator) * 2 := by
          rw [Nat.div_add_mod]
      _ = x.denominator * (scaled / x.denominator) * 2 + x.denominator := by rw [Nat.add_mul, tie]
      _ = x.denominator * (scaled / x.denominator * 2 + 1) := by ring
  refine not_dvd_numerator_mul prime divides (fun h => ?_) (divides.trans even)
  rcases (Nat.Prime.dvd_mul prime).1 h with ten | two
  · have factor : p ∣ 2 * 5 := prime.dvd_of_dvd_pow (by rwa [powerOfTen, Nat.pow_eq] at ten)
    rcases (Nat.Prime.dvd_mul prime).1 factor with two | five
    · exact ne_two ((Nat.prime_dvd_prime_iff_eq prime Nat.prime_two).1 two)
    · exact ne_five ((Nat.prime_dvd_prime_iff_eq prime Nat.prime_five).1 five)
  · exact ne_two ((Nat.prime_dvd_prime_iff_eq prime Nat.prime_two).1 two)

/-- The size of a fraction. -/
theorem abs_toRat (x : Fraction) : |x.toRat| = x.numerator.natAbs / x.denominator := by
  rw [toRat_eq_div, abs_div, Nat.abs_cast, Nat.cast_natAbs, Int.cast_abs]

/-- The number of places is never negative, and it is the one that is used unless it wraps. -/
theorem roundedScale_eq (n d maxDigits : ℕ) :
    let scale : ℤ :=
      (max (max (digitCount n) (digitCount d)) maxDigits : ℕ) - 1 - leadingExponent n d
    0 ≤ scale ∧ (scale < scaleBound → (roundedScale n d maxDigits : ℤ) = scale) := by
  intro scale
  have nonneg : 0 ≤ scale := by
    have exponent := leadingExponent_lt n d
    omega
  refine ⟨nonneg, fun fits => ?_⟩
  rw [roundedScale, Int.emod_eq_of_lt nonneg fits, Int.toNat_of_nonneg nonneg]

theorem roundedScale_lt (n d maxDigits : ℕ) : roundedScale n d maxDigits < scaleBound := by
  have bound := scaleBound_pos
  have wrapped := Int.emod_lt_of_pos
    ((max (max (digitCount n) (digitCount d)) maxDigits : ℕ) - 1 - leadingExponent n d)
    (Int.natCast_pos.2 bound)
  rw [roundedScale]
  omega

/-- The digits that are left after rounding are not all zero. -/
theorem roundHalfUp_pos {n d k : ℕ} (d_pos : 0 < d) {e : ℤ} (low : (10 : ℚ) ^ e ≤ n / d)
    (digits : 0 ≤ e + k) : 0 < roundHalfUp (n * powerOfTen k) d := by
  have below : (0 : ℚ) < d := Nat.cast_pos.2 d_pos
  have large : (d : ℚ) ≤ n * 10 ^ k := by
    rw [le_div_iff₀ below] at low
    calc (d : ℚ) = 1 * d := (one_mul _).symm
      _ ≤ 10 ^ (e + k) * d := by gcongr; exact one_le_zpow₀ (by norm_num) digits
      _ = 10 ^ e * d * 10 ^ k := by
        rw [zpow_add₀ (by norm_num), zpow_natCast]
        ring
      _ ≤ n * 10 ^ k := by gcongr
  have whole : 0 < n * powerOfTen k / d := by
    refine Nat.div_pos ?_ d_pos
    rw [powerOfTen, Nat.pow_eq]
    exact_mod_cast large
  exact Nat.lt_of_lt_of_le whole (div_le_roundHalfUp _ d)

/-- The sign of a fraction, as its text has it. -/
theorem sign_toRat (x : Fraction) (h : 0 < x.numerator.natAbs) {size : ℚ} (size_pos : 0 < size) :
    SignType.sign ((if decide (x.numerator < 0) then -1 else 1) * size) =
      SignType.sign x.toRat := by
  have exact_pos : (0 : ℚ) < x.numerator.natAbs / x.denominator :=
    div_pos (Nat.cast_pos.2 h) (Nat.cast_pos.2 x.denominator_pos)
  rw [toRat_eq_sign_mul x, sign_mul, sign_mul, sign_pos size_pos, sign_pos exact_pos]

/-- Where the size of a fraction is rounded to `k` places, so is the fraction with its sign. -/
theorem abs_sub_toRat_lt {rounded k : ℕ}
    (near : |(rounded : ℚ) - x.numerator.natAbs * 10 ^ k / x.denominator| < 1 / 2) :
    |(if decide (x.numerator < 0) then -1 else 1) * (rounded / 10 ^ k : ℚ) - x.toRat| <
      (10 ^ k)⁻¹ / 2 := by
  have scaled : (x.numerator.natAbs : ℚ) / x.denominator =
      x.numerator.natAbs * 10 ^ k / x.denominator / 10 ^ k := by field_simp
  have signed : |(if decide (x.numerator < 0) then -1 else 1 : ℚ)| = 1 := by
    split_ifs <;> norm_num
  rw [toRat_eq_sign_mul x, ← mul_sub, abs_mul, signed, one_mul, scaled, ← sub_div, abs_div,
    abs_of_pos (by positivity : (0 : ℚ) < 10 ^ k), inv_eq_one_div, div_right_comm]
  gcongr

/-- The text is the fraction, rounded to as many places: a literal that has no more places, and no
zero at the end of them, and is read as a fraction of the same sign that is a multiple of the last
place and misses by less than half of it. -/
structure RoundedTo (x : Fraction) (places : ℤ) (text : List Char) : Prop where
  spelled : ∃ l : Literal, text = l.text ∧ l.places.length ≤ places ∧ l.places.getLast? ≠ some '0'
  read : ∃ r : Fraction, ofLiteral? text = .ok r ∧ r ≠ 0 ∧
    SignType.sign r.toRat = SignType.sign x.toRat ∧ (∃ m : ℤ, r.toRat = m * 10 ^ (-places)) ∧
    |r.toRat - x.toRat| < 10 ^ (-places) / 2

/-- A recurring fraction is not zero. -/
theorem numerator_pos_of_dvd (prime : p.Prime) (divides : p ∣ x.denominator) :
    0 < x.numerator.natAbs := by
  refine Nat.pos_of_ne_zero fun zero => ?_
  have whole := x.coprime
  rw [zero, Nat.coprime_zero_left] at whole
  exact prime.one_lt.ne' (Nat.dvd_one.1 (whole ▸ divides))

/-- **The text of a recurring fraction is rounded** to its number of places, if these reach its
leading digit. -/
theorem roundedTo_roundedScale (prime : p.Prime) (divides : p ∣ x.denominator) (ne_two : p ≠ 2)
    (ne_five : p ≠ 5) (maxDigits : ℕ) {e : ℤ} (low : (10 : ℚ) ^ e ≤ |x.toRat|)
    (digits : 0 ≤ e + roundedScale x.numerator.natAbs x.denominator maxDigits) :
    x.RoundedTo (roundedScale x.numerator.natAbs x.denominator maxDigits)
      (x.toDecimalString maxDigits).toList := by
  set k := roundedScale x.numerator.natAbs x.denominator maxDigits with k_eq
  set rounded := roundHalfUp (x.numerator.natAbs * powerOfTen k) x.denominator with rounded_eq
  have rounded_pos : 0 < rounded := by
    rw [abs_toRat] at low
    exact roundHalfUp_pos x.denominator_pos low digits
  have fits : k < scaleBound := roundedScale_lt ..
  obtain ⟨l, sign, spelled, tidy, short, -, value⟩ :=
    exists_literal_placePoint (decide (x.numerator < 0)) rounded k
  have text : x.decimal maxDigits = l.text := by
    simp only [Literal.text, decimal, unsignedDecimal, spelled, sign, decide_eq_true_eq, ← k_eq,
      terminatingScale?_eq_none x.denominator_pos prime divides ne_two ne_five, ← rounded_eq]
  have denoted : l.fraction.toRat = l.value := Literal.toRat_fraction (by omega)
  have near : |(rounded : ℚ) - x.numerator.natAbs * 10 ^ k / x.denominator| < 1 / 2 := by
    have spec := roundHalfUp_spec x.denominator_pos (no_tie prime divides ne_two ne_five k)
    rwa [Nat.cast_mul, powerOfTen, Nat.pow_eq, Nat.cast_pow, Nat.cast_ofNat] at spec
  have size_pos : (0 : ℚ) < rounded / 10 ^ k := by positivity
  have sign_eq : SignType.sign l.fraction.toRat = SignType.sign x.toRat := by
    rw [denoted, value, sign_toRat x (numerator_pos_of_dvd prime divides) size_pos]
  rw [toDecimalString, String.toList_ofList, text]
  refine ⟨⟨l, rfl, Nat.cast_le.2 short, tidy.places⟩,
    ⟨l.fraction, ofLiteral?_eq_ok_iff.2 ⟨l, rfl, rfl⟩, ?_, sign_eq, ?_, ?_⟩⟩
  · rw [ne_eq, ← toRat_inj, denoted, value, toRat_zero]
    refine mul_ne_zero ?_ size_pos.ne'
    split_ifs <;> norm_num
  · refine ⟨if decide (x.numerator < 0) then -rounded else rounded, ?_⟩
    rw [denoted, value, zpow_neg, zpow_natCast]
    split_ifs
    · push_cast
      ring
    · push_cast
      ring
  · rw [denoted, value, zpow_neg, zpow_natCast]
    exact abs_sub_toRat_lt near

/-- **The text of a recurring fraction is correctly rounded.** With the leading digit at the power
`e` of ten, the last significant one stands at a place behind the point, or is the digit in front
of it. If its number of places does not wrap, the text is rounded to this place, except where the
digit counts tell an exponent that is too large by one and wraps. Then it is rounded to one place
less. -/
theorem decimal_rounded (prime : p.Prime) (divides : p ∣ x.denominator) (ne_two : p ≠ 2)
    (ne_five : p ≠ 5) (maxDigits : ℕ) :
    ∃ e : ℤ, (10 : ℚ) ^ e ≤ |x.toRat| ∧ |x.toRat| < 10 ^ (e + 1) ∧
      let estimate := exponentEstimate x.numerator.natAbs x.denominator
      let precision : ℕ :=
        max (max (digitCount x.numerator.natAbs) (digitCount x.denominator)) maxDigits
      let scale : ℤ := precision - 1 - e
      0 ≤ scale ∧ (scale < scaleBound →
        (estimate < scaleBound ∨ e = estimate →
          x.RoundedTo scale (x.toDecimalString maxDigits).toList) ∧
        (scaleBound ≤ estimate → e ≠ estimate →
          x.RoundedTo (scale - 1) (x.toDecimalString maxDigits).toList)) := by
  have n_pos := numerator_pos_of_dvd prime divides
  have size_pos : (0 : ℚ) < |x.toRat| := by
    rw [abs_toRat]
    exact div_pos (Nat.cast_pos.2 n_pos) (Nat.cast_pos.2 x.denominator_pos)
  obtain ⟨e, low, high⟩ := exists_mem_Ico_zpow size_pos (by norm_num : (1 : ℚ) < 10)
  refine ⟨e, low, high, ?_⟩
  intro estimate precision scale
  have near : estimate - 1 ≤ e ∧ e ≤ estimate := by
    rw [abs_toRat] at low high
    exact exponent_near n_pos x.denominator_pos low high
  have estimate_lt : estimate < digitCount x.numerator.natAbs :=
    sub_lt_self _ (Nat.cast_pos.2 (digitCount_pos x.denominator))
  have enough : digitCount x.numerator.natAbs ≤ precision :=
    (Nat.le_max_left ..).trans (Nat.le_max_left ..)
  have count := digitCount_pos x.numerator.natAbs
  refine ⟨by omega, fun fits => ?_⟩
  have exponent : leadingExponent x.numerator.natAbs x.denominator =
      if estimate < scaleBound ∨ e = estimate then e else e + 1 := by
    rw [abs_toRat] at low high
    refine leadingExponent_eq n_pos x.denominator_pos low high ?_
    show -(scaleBound : ℤ) < estimate
    omega
  obtain ⟨-, used⟩ := roundedScale_eq x.numerator.natAbs x.denominator maxDigits
  have rounded := roundedTo_roundedScale prime divides ne_two ne_five maxDigits low
  constructor
  · intro found
    rw [exponent, if_pos found] at used
    rw [used fits] at rounded
    exact rounded (by omega)
  · intro wraps missed
    rw [exponent, if_neg (by omega)] at used
    have one_less : precision - 1 - (e + 1) = scale - 1 := by omega
    rw [used (by omega), one_less] at rounded
    have bound := scaleBound_pos
    exact rounded (by omega)

end Recurring

/-- Two thirds below zero with three significant digits asked for: the last one is the third behind
the point, and is rounded away from zero. -/
theorem decimal_rounded_two_thirds :
    let x : Fraction := ⟨-2, 3, by decide, by decide⟩
    Nat.Prime 3 ∧ 3 ∣ x.denominator ∧ x.toDecimalString 3 = "-0.667" ∧
      x.RoundedTo 3 "-0.667".toList := by
  intro x
  have text : x.toDecimalString 3 = "-0.667" := by decide +kernel
  have size : |x.toRat| = 2 / 3 := by
    rw [abs_toRat]
    norm_num [x]
  obtain ⟨e, low, high, -, rounded⟩ := decimal_rounded (x := x) Nat.prime_three (dvd_refl 3)
    (by decide) (by decide) 3
  rw [size] at low high
  obtain rfl : e = -1 := by
    have below : e < 0 := by
      by_contra h
      have large : (1 : ℚ) ≤ 10 ^ e := one_le_zpow₀ (by norm_num) (not_lt.1 h)
      linarith
    have above : -1 < e + 1 := by
      by_contra h
      have small : (10 : ℚ) ^ (e + 1) ≤ 10 ^ (-1 : ℤ) :=
        zpow_le_zpow_right₀ (by norm_num) (not_lt.1 h)
      norm_num at small
      linarith
    omega
  have precision : max (max (digitCount x.numerator.natAbs) (digitCount x.denominator)) 3 = 3 := by
    decide
  have places := (rounded (by decide)).1 (.inl (by decide))
  rw [text, precision] at places
  exact ⟨Nat.prime_three, dvd_refl 3, text, places⟩

/-! ### A place too few -/

/-- A power of ten has one digit more than zeros. -/
theorem digitCount_ten_pow (k : ℕ) : digitCount (10 ^ k) = k + 1 := by
  refine le_antisymm ?_ ?_
  · exact (Nat.length_toDigits_le_iff (by decide) (Nat.succ_pos k)).2
      (Nat.pow_lt_pow_right (by decide) (Nat.lt_succ_self k))
  · by_contra less
    have few : 10 ^ digitCount (10 ^ k) ≤ 10 ^ k := Nat.pow_le_pow_right (by decide) (by omega)
    exact absurd (lt_ten_pow_digitCount (10 ^ k)) (not_lt.2 few)

/-- No power of ten is a multiple of three. -/
theorem not_three_dvd_ten_pow (k : ℕ) : ¬ 3 ∣ 10 ^ k := fun h =>
  absurd (Nat.prime_three.dvd_of_dvd_pow h) (by decide)

/-- The third of a power of ten. -/
def tenPowerThird (k : ℕ) : Fraction where
  numerator := (10 ^ k : ℕ)
  denominator := 3
  denominator_pos := by decide
  coprime := ((Nat.prime_three.coprime_iff_not_dvd).2 (not_three_dvd_ten_pow k)).symm

section Third

variable {k maxDigits : ℕ}

theorem toRat_tenPowerThird (k : ℕ) : (tenPowerThird k).toRat = 10 ^ k / 3 := by
  rw [toRat_eq_div]
  simp [tenPowerThird]

/-- Its leading digit is one place behind that of the power. -/
theorem abs_tenPowerThird (k : ℕ) :
    (10 : ℚ) ^ ((k : ℤ) - 1) ≤ |(tenPowerThird k).toRat| ∧
      |(tenPowerThird k).toRat| < 10 ^ ((k : ℤ) - 1 + 1) := by
  have power : (0 : ℚ) < 10 ^ k := by positivity
  rw [toRat_tenPowerThird, abs_of_pos (by positivity), Int.sub_add_cancel,
    zpow_sub_one₀ (by norm_num), zpow_natCast]
  constructor <;> linarith

theorem digitCount_tenPowerThird (k : ℕ) :
    digitCount (tenPowerThird k).numerator.natAbs = k + 1 ∧
      digitCount (tenPowerThird k).denominator = 1 :=
  ⟨digitCount_ten_pow k, (by decide : digitCount 3 = 1)⟩

/-- The digit counts tell the exponent of the power. -/
theorem exponentEstimate_tenPowerThird (k : ℕ) :
    exponentEstimate (tenPowerThird k).numerator.natAbs (tenPowerThird k).denominator = k := by
  obtain ⟨numerator, denominator⟩ := digitCount_tenPowerThird k
  rw [exponentEstimate, numerator, denominator]
  omega

theorem precision_tenPowerThird (few : maxDigits ≤ k + 1) :
    max (max (digitCount (tenPowerThird k).numerator.natAbs)
      (digitCount (tenPowerThird k).denominator)) maxDigits = k + 1 := by
  obtain ⟨numerator, denominator⟩ := digitCount_tenPowerThird k
  rw [numerator, denominator]
  omega

/-- An integer is not near the third of a power of ten. -/
theorem third_le_abs_sub (m : ℤ) (k : ℕ) : 1 / 3 ≤ |(m : ℚ) - (tenPowerThird k).toRat| := by
  have apart : m * 3 - 10 ^ k ≠ 0 := fun h => by
    have divides : (3 : ℤ) ∣ 10 ^ k := ⟨m, by linarith⟩
    exact not_three_dvd_ten_pow k (by exact_mod_cast divides)
  have whole : (1 : ℚ) ≤ |(m : ℚ) * 3 - 10 ^ k| := by exact_mod_cast Int.one_le_abs apart
  have third : (m : ℚ) - (tenPowerThird k).toRat = (m * 3 - 10 ^ k) / 3 := by
    rw [toRat_tenPowerThird]
    ring
  rw [third, abs_div, abs_of_pos (by norm_num : (0 : ℚ) < 3)]
  gcongr

/-- **A place is missing** in the text of the third of a power of ten whose exponent wraps: it is
an integer, where one place behind the point is significant. -/
theorem not_roundedTo_tenPowerThird (wraps : scaleBound ≤ k) (few : maxDigits ≤ k + 1) :
    ¬ (tenPowerThird k).RoundedTo 1 ((tenPowerThird k).toDecimalString maxDigits).toList := by
  have estimate := exponentEstimate_tenPowerThird k
  have bound := scaleBound_pos
  have n_pos : 0 < (tenPowerThird k).numerator.natAbs :=
    numerator_pos_of_dvd Nat.prime_three (dvd_refl 3)
  have exponent := leadingExponent_of_wraps n_pos (tenPowerThird k).denominator_pos
    (by rw [estimate]; exact_mod_cast wraps)
  obtain ⟨-, used⟩ := roundedScale_eq (tenPowerThird k).numerator.natAbs
    (tenPowerThird k).denominator maxDigits
  rw [precision_tenPowerThird few, exponent, estimate] at used
  have places := used (by omega)
  have rounded := roundedTo_roundedScale Nat.prime_three (dvd_refl 3) (by decide) (by decide)
    maxDigits (abs_tenPowerThird k).1 (by omega)
  obtain ⟨r, read, -, -, ⟨m, whole⟩, -⟩ := rounded.read
  rintro ⟨-, r', read', -, -, -, near⟩
  obtain rfl : r = r' := by
    rw [read] at read'
    exact Except.ok.inj read'
  have integer : r.toRat = m := by
    have none : -((roundedScale (tenPowerThird k).numerator.natAbs (tenPowerThird k).denominator
      maxDigits : ℕ) : ℤ) = 0 := by omega
    rw [whole, none, zpow_zero, mul_one]
  have far := third_le_abs_sub m k
  rw [integer] at near
  norm_num at near
  linarith

end Third

/-- **The last significant place can be missing.** A third of `10 ^ (2 ^ 32 + 9)` has `2 ^ 32 + 10`
significant digits, of which one stands behind the point. The digit counts tell the exponent
`2 ^ 32 + 9`, which is too large by one, and the comparison that should find this out is that with
`10 ^ 9`. -/
theorem decimal_place_missing :
    let x := tenPowerThird (scaleBound + 9)
    let e : ℤ := scaleBound + 8
    let precision : ℕ := max (max (digitCount x.numerator.natAbs) (digitCount x.denominator)) 30
    3 ∣ x.denominator ∧ (10 : ℚ) ^ e ≤ |x.toRat| ∧ |x.toRat| < 10 ^ (e + 1) ∧
      (precision : ℤ) - 1 - e = 1 ∧ precision < 2 ^ 63 ∧
      ¬ x.RoundedTo 1 (x.toDecimalString 30).toList := by
  intro x e precision
  have few : 30 ≤ scaleBound + 9 + 1 := by decide
  have exponent : ((scaleBound + 9 : ℕ) : ℤ) - 1 = e := by
    simp only [e]
    omega
  obtain ⟨low, high⟩ := abs_tenPowerThird (scaleBound + 9)
  rw [exponent] at low high
  have digits : precision = scaleBound + 9 + 1 := precision_tenPowerThird few
  refine ⟨dvd_refl 3, low, high, ?_, ?_, ?_⟩
  · omega
  · have bound : scaleBound < 2 ^ 33 := by decide
    omega
  · exact not_roundedTo_tenPowerThird (Nat.le_add_right _ _) few

end Fraction

end RatCalc
