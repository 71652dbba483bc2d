import Mathlib
import RatCalc.Fraction.Decimal
import RatCalc.Proofs.Grammar.Numeral

/-!
# The text of a terminating fraction

A fraction whose denominator divides a power of ten is written with as many places as its
denominator needs. The text is a literal without superfluous zeros and denotes the fraction, so
reading it gives the fraction back.

## Main definitions

* `Literal.Tidy`: a literal without superfluous zeros.
* `Fraction.padded`: the digits of a number with zeros in front, to make room for a point.

## Main results

* `Fraction.terminatingScale?_eq`: the number of places that a denominator needs.
* `Fraction.exists_literal_placePoint`: a number with a point put into it is a literal.
* `Fraction.ofLiteral?_decimal`: reading the text gives the fraction back.
* `Fraction.decimal_exact`: the text of a terminating fraction is exact.
-/

namespace RatCalc

/-- A literal without superfluous zeros: the digits in front of the point start with a zero only if
there are no others, and those behind it do not end with one. -/
structure Literal.Tidy (l : Literal) : Prop where
  whole : l.whole.head? = some '0' → l.whole = ['0']
  places : l.places.getLast? ≠ some '0'

namespace Fraction

/-! ### The number of places -/

/-- Dividing by `p` for as long as it goes splits off the power of `p`. -/
theorem removePower_pow_mul {p rest : ℕ} (hp : 1 < p) (last : ¬ p ∣ rest) (k count : ℕ) :
    removePower p (p ^ k * rest) count = (count + k, rest) := by
  induction k generalizing count with
  | zero =>
    rw [pow_zero, one_mul, removePower]
    exact dif_neg fun h => last (Nat.dvd_of_mod_eq_zero h.2.2)
  | succ k ih =>
    have rest_pos : 0 < rest := Nat.pos_of_ne_zero fun h => last (h ▸ dvd_zero p)
    have power : p ^ (k + 1) * rest = p * (p ^ k * rest) := by ring
    have positive : 0 < p * (p ^ k * rest) := by positivity
    rw [power, removePower, dif_pos ⟨hp, positive, Nat.mul_mod_right _ _⟩,
      Nat.mul_div_cancel_left _ (by omega), ih]
    rw [Nat.add_assoc, Nat.add_comm 1 k]

/-- What is left of a denominator without its twos and fives decides whether the expansion ends. -/
theorem terminatingScale?_eq {i j rest : ℕ} (no_two : ¬ 2 ∣ rest) (no_five : ¬ 5 ∣ rest) :
    terminatingScale? (2 ^ i * (5 ^ j * rest)) =
      if rest = 1 ∧ max i j < scaleBound then some (max i j) else none := by
  have odd : ¬ 2 ∣ 5 ^ j * rest := fun h =>
    ((Nat.Prime.dvd_mul Nat.prime_two).1 h).elim
      (fun h => absurd (Nat.prime_two.dvd_of_dvd_pow h) (by decide)) no_two
  simp only [terminatingScale?, removePower_pow_mul one_lt_two odd,
    removePower_pow_mul (by decide : 1 < 5) no_five, zero_add]

/-- A denominator of twos and fives needs as many places as there are of either. -/
theorem terminatingScale?_of_eq {d i j : ℕ} (h : d = 2 ^ i * 5 ^ j)
    (small : max i j < scaleBound) : terminatingScale? d = some (max i j) := by
  have split : d = 2 ^ i * (5 ^ j * 1) := by rw [h, mul_one]
  rw [split, terminatingScale?_eq (by decide) (by decide), if_pos ⟨rfl, small⟩]

/-- A number of twos and fives divides the power of ten with as many zeros as there are of
either. -/
theorem pow_mul_pow_dvd_ten_pow (i j : ℕ) : 2 ^ i * 5 ^ j ∣ 10 ^ max i j := by
  rw [show 10 = 2 * 5 from rfl, mul_pow]
  exact Nat.mul_dvd_mul (pow_dvd_pow 2 (le_max_left i j)) (pow_dvd_pow 5 (le_max_right i j))

/-- A prime factor of the denominator does not divide the numerator. -/
theorem not_dvd_numerator_mul {x : Fraction} {p m : ℕ} (prime : p.Prime)
    (divides : p ∣ x.denominator) (other : ¬ p ∣ m) : ¬ p ∣ x.numerator.natAbs * m := by
  intro h
  rcases (Nat.Prime.dvd_mul prime).1 h with above | h
  · exact prime.ne_one (Nat.eq_one_of_dvd_coprimes x.coprime above divides)
  · exact other h

/-- The numerator over the power of ten that its denominator needs does not end with a zero. -/
theorem not_ten_dvd_scaled {x : Fraction} {i j : ℕ} (h : x.denominator = 2 ^ i * 5 ^ j)
    (some : 0 < max i j) :
    ¬ 10 ∣ x.numerator.natAbs * (powerOfTen (max i j) / x.denominator) := by
  have power : powerOfTen (max i j) / x.denominator = 2 ^ (max i j - i) * 5 ^ (max i j - j) := by
    refine Nat.div_eq_of_eq_mul_right x.denominator_pos ?_
    have twos : 2 ^ max i j = 2 ^ i * 2 ^ (max i j - i) := by
      rw [← pow_add, Nat.add_sub_cancel' (le_max_left i j)]
    have fives : 5 ^ max i j = 5 ^ j * 5 ^ (max i j - j) := by
      rw [← pow_add, Nat.add_sub_cancel' (le_max_right i j)]
    rw [powerOfTen, Nat.pow_eq, show 10 = 2 * 5 from rfl, mul_pow, twos, fives, h]
    ring
  rw [power]
  intro ten
  rcases le_total i j with le | le
  · -- There are as many fives as places, so a five divides the denominator.
    rw [max_eq_right le, Nat.sub_self, pow_zero, mul_one] at ten
    rw [max_eq_right le] at some
    have five : 5 ∣ x.denominator := h ▸ dvd_mul_of_dvd_right (dvd_pow_self 5 some.ne') _
    exact not_dvd_numerator_mul Nat.prime_five five
      (fun h => absurd (Nat.prime_five.dvd_of_dvd_pow h) (by decide)) (dvd_trans (by decide) ten)
  · rw [max_eq_left le, Nat.sub_self, pow_zero, one_mul] at ten
    rw [max_eq_left le] at some
    have two : 2 ∣ x.denominator := h ▸ dvd_mul_of_dvd_left (dvd_pow_self 2 some.ne') _
    exact not_dvd_numerator_mul Nat.prime_two two
      (fun h => absurd (Nat.prime_two.dvd_of_dvd_pow h) (by decide)) (dvd_trans (by decide) ten)

/-- A denominator that divides a power of ten has twos and fives only, and no more of either than
the power has zeros. -/
theorem exists_eq_of_dvd_ten_pow {d k : ℕ} (h : d ∣ 10 ^ k) :
    ∃ i j, d = 2 ^ i * 5 ^ j ∧ max i j ≤ k := by
  rw [show 10 = 2 * 5 from rfl, mul_pow] at h
  obtain ⟨a, b, ha, hb, rfl⟩ := Nat.dvd_mul.1 h
  obtain ⟨i, hi, rfl⟩ := (Nat.dvd_prime_pow Nat.prime_two).1 ha
  obtain ⟨j, hj, rfl⟩ := (Nat.dvd_prime_pow Nat.prime_five).1 hb
  exact ⟨i, j, rfl, max_le hi hj⟩

/-! ### Zeros at either end -/

/-- Zeros at the end are all that is dropped. -/
theorem exists_replicate_of_dropTrailingZeros (text : List Char) :
    ∃ n, text = dropTrailingZeros text ++ List.replicate n '0' := by
  have parts : text.reverse.takeWhile (· == '0') ++ text.reverse.dropWhile (· == '0') =
      text.reverse := List.takeWhile_append_dropWhile
  have zeros : text.reverse.takeWhile (· == '0') =
      List.replicate (text.reverse.takeWhile (· == '0')).length '0' :=
    List.eq_replicate_of_mem fun c h => by simpa using List.mem_takeWhile_imp h
  refine ⟨(text.reverse.takeWhile (· == '0')).length, ?_⟩
  have back := congrArg List.reverse parts
  rw [List.reverse_append, List.reverse_reverse, zeros, List.reverse_replicate] at back
  exact back.symm

/-- No zero is left at the end. -/
theorem getLast?_dropTrailingZeros_ne (text : List Char) :
    (dropTrailingZeros text).getLast? ≠ some '0' := by
  rw [dropTrailingZeros, List.getLast?_reverse]
  intro h
  exact absurd (Stops.dropWhile (· == '0') text.reverse '0' h) (by decide)

/-- Nothing is dropped from a text that does not end with a zero. -/
theorem dropTrailingZeros_eq_self {text : List Char} (h : text.getLast? ≠ some '0') :
    dropTrailingZeros text = text := by
  obtain ⟨n, split⟩ := exists_replicate_of_dropTrailingZeros text
  cases n with
  | zero => simpa using split.symm
  | succ n =>
    rw [List.replicate_succ', ← List.append_assoc] at split
    rw [split, List.getLast?_concat] at h
    exact absurd rfl h

/-- The digits of a number. -/
theorem isDigit_of_mem_toDigits {n : ℕ} {c : Char} (h : c ∈ Nat.toDigits 10 n) :
    c.isDigit = true :=
  Nat.isDigit_of_mem_toDigits (by decide) (by decide) h

/-- A number other than zero is not written with a zero in front. -/
theorem head?_toDigits_ne {n : ℕ} (h : n ≠ 0) : (Nat.toDigits 10 n).head? ≠ some '0' := by
  induction n using Nat.strong_induction_on with
  | _ n ih =>
    rw [Nat.toDigits_eq_if (by decide)]
    split_ifs with small
    · rw [List.head?_cons, ne_eq, Option.some_inj, Nat.digitChar_eq_zero]
      exact h
    · rw [List.head?_append_of_ne_nil _ Nat.toDigits_ne_nil]
      exact ih (n / 10) (by omega) (by omega)

/-- The last digit of a number is its remainder by ten. -/
theorem getLast?_toDigits_eq_zero_iff (n : ℕ) :
    (Nat.toDigits 10 n).getLast? = some '0' ↔ 10 ∣ n := by
  rw [Nat.toDigits_eq_if (by decide)]
  split_ifs with small
  · rw [List.getLast?_singleton, Option.some_inj, Nat.digitChar_eq_zero]
    omega
  · rw [List.getLast?_concat, Option.some_inj, Nat.digitChar_eq_zero]
    omega

/-! ### The point -/

/-- The digits of a number, with as many zeros in front as it takes to have one digit in front of a
point with `scale` places behind it. -/
def padded (digits scale : ℕ) : List Char :=
  List.replicate (scale + 1 - (Nat.toDigits 10 digits).length) '0' ++ Nat.toDigits 10 digits

section Padded

variable (digits scale : ℕ)

theorem length_padded : (padded digits scale).length =
    max (scale + 1) (Nat.toDigits 10 digits).length := by
  rw [padded, List.length_append, List.length_replicate]
  omega

theorem isDigit_of_mem_padded {c : Char} (h : c ∈ padded digits scale) : c.isDigit = true := by
  rcases List.mem_append.1 h with h | h
  · rw [List.eq_of_mem_replicate h]
    rfl
  · exact isDigit_of_mem_toDigits h

/-- Zeros in front do not change a number. -/
theorem ofDigitChars_padded : Nat.ofDigitChars 10 (padded digits scale) 0 = digits := by
  rw [padded, Nat.ofDigitChars_append, Nat.ofDigitChars_replicate_zero, mul_zero,
    Nat.ofDigitChars_ten_toDigits]

/-- Zeros are put in front only to make up a single digit before the point. -/
theorem eq_zero_of_head?_padded {whole : List Char}
    (cut : whole = (padded digits scale).take ((padded digits scale).length - scale))
    (zero : whole.head? = some '0') : whole = ['0'] := by
  subst cut
  have length := length_padded digits scale
  rcases Nat.lt_or_ge scale (Nat.toDigits 10 digits).length with long | short
  · have unpadded : padded digits scale = Nat.toDigits 10 digits := by
      rw [padded, Nat.sub_eq_zero_of_le long, List.replicate_zero, List.nil_append]
    rw [unpadded] at zero length ⊢
    rw [List.head?_take, if_neg (by omega)] at zero
    by_cases nothing : digits = 0
    · rw [nothing, Nat.toDigits_zero, List.length_singleton] at long
      obtain rfl : scale = 0 := by omega
      rw [nothing]
      rfl
    · exact absurd zero (head?_toDigits_ne nothing)
  · have single : (padded digits scale).length - scale = 1 := by omega
    obtain ⟨n, count⟩ : ∃ n, scale + 1 - (Nat.toDigits 10 digits).length = n + 1 :=
      ⟨scale - (Nat.toDigits 10 digits).length, by omega⟩
    rw [single, padded, count, List.replicate_succ, List.cons_append, List.take_succ_cons,
      List.take_zero]

/-- The places end with a zero only if the number does. -/
theorem getLast?_padded_ne (some : 0 < scale) (odd : ¬ 10 ∣ digits) :
    ((padded digits scale).drop ((padded digits scale).length - scale)).getLast? ≠
      Option.some '0' := by
  have length := length_padded digits scale
  rw [List.getLast?_drop, if_neg (by omega), padded,
    List.getLast?_append_of_ne_nil _ Nat.toDigits_ne_nil, ne_eq, getLast?_toDigits_eq_zero_iff]
  exact odd

end Padded

/-- A run of digits with a point put into it, without the zeros at the end, is a literal. -/
theorem exists_literal_of_digits (negative : Bool) {run : List Char} {scale : ℕ}
    (run_digits : ∀ c ∈ run, c.isDigit = true) (long : scale < run.length) :
    ∃ l : Literal, l.negative = negative ∧ l.whole = run.take (run.length - scale) ∧
      l.places = dropTrailingZeros (run.drop (run.length - scale)) ∧ l.places.length ≤ scale ∧
      l.value = (if negative then -1 else 1) * ((Nat.ofDigitChars 10 run 0 : ℚ) / 10 ^ scale) := by
  set whole := run.take (run.length - scale)
  set behind := run.drop (run.length - scale)
  have parts : whole ++ behind = run := List.take_append_drop _ _
  have behind_length : behind.length = scale := by
    rw [List.length_drop]
    omega
  have whole_ne_nil : whole ≠ [] := List.ne_nil_of_length_pos (by
    rw [List.length_take]
    omega)
  obtain ⟨n, zeros⟩ := exists_replicate_of_dropTrailingZeros behind
  set places := dropTrailingZeros behind
  have count : scale = places.length + n := by
    have total := congrArg List.length zeros
    rw [List.length_append, List.length_replicate, behind_length] at total
    exact total
  have places_digits : ∀ c ∈ places, c.isDigit = true := by
    intro c h
    refine run_digits c ?_
    rw [← parts, zeros]
    exact List.mem_append_right _ (List.mem_append_left _ h)
  have total : Nat.ofDigitChars 10 run 0 = 10 ^ scale * Nat.ofDigitChars 10 whole 0 +
      10 ^ n * Nat.ofDigitChars 10 places 0 := by
    rw [← parts, Nat.ofDigitChars_append, Nat.ofDigitChars_eq_ofDigitChars_zero, behind_length,
      zeros, Nat.ofDigitChars_append, Nat.ofDigitChars_replicate_zero]
  have value : (Nat.ofDigitChars 10 run 0 : ℚ) / 10 ^ scale =
      Nat.ofDigitChars 10 whole 0 + Nat.ofDigitChars 10 places 0 / 10 ^ places.length := by
    have power : (10 : ℚ) ^ scale = 10 ^ places.length * 10 ^ n := by rw [← pow_add, ← count]
    rw [total]
    push_cast
    rw [power]
    field_simp
  refine ⟨⟨negative, whole, places, whole_ne_nil, fun c h => run_digits c (List.mem_of_mem_take h),
    places_digits⟩, rfl, rfl, rfl, le_of_le_of_eq (Nat.le_add_right _ n) count.symm, ?_⟩
  rw [value]
  rfl

/-- **A number with a point put into it is a literal** of either sign, which denotes the number
over a power of ten. It has no superfluous zeros, and as many places as the power has zeros unless
the number ends with a zero itself. -/
theorem exists_literal_placePoint (negative : Bool) (digits scale : ℕ) :
    ∃ l : Literal, l.negative = negative ∧ l.unsigned = placePoint digits scale ∧ l.Tidy ∧
      l.places.length ≤ scale ∧ (¬ 10 ∣ digits → l.places.length = scale) ∧
        l.value = (if negative then -1 else 1) * ((digits : ℚ) / 10 ^ scale) := by
  unfold placePoint
  dsimp only
  split
  · next none =>
    refine ⟨⟨negative, Nat.toDigits 10 digits, [], Nat.toDigits_ne_nil,
      fun _ h => isDigit_of_mem_toDigits h, fun _ h => absurd h List.not_mem_nil⟩, rfl,
      List.append_nil _, ⟨fun zero => ?_, by simp⟩, Nat.zero_le _, fun _ => none.symm, ?_⟩
    · by_cases h : digits = 0
      · subst h
        rfl
      · exact absurd zero (head?_toDigits_ne h)
    · simp [Literal.value, none]
  · next some =>
    have length := length_padded digits scale
    obtain ⟨l, sign, whole, places, short, denoted⟩ :=
      exists_literal_of_digits negative (fun _ => isDigit_of_mem_padded digits scale)
        (by omega : scale < (padded digits scale).length)
    refine ⟨l, sign, ?_, ⟨eq_zero_of_head?_padded digits scale whole, ?_⟩, short, fun odd => ?_,
      by rw [denoted, ofDigitChars_padded]⟩
    · rw [Literal.unsigned, whole, places, ← padded]
      split
      · next dropped => rw [dropped, Literal.pointed, List.append_nil]
      · next dropped =>
        cases behind : dropTrailingZeros
            ((padded digits scale).drop ((padded digits scale).length - scale)) with
        | nil => exact absurd behind dropped
        | cons c cs => rfl
    · rw [places]
      exact getLast?_dropTrailingZeros_ne _
    · have last := getLast?_padded_ne digits scale (Nat.pos_of_ne_zero some) odd
      rw [places, dropTrailingZeros_eq_self last, List.length_drop]
      omega

/-! ### Fractions -/

/-- A fraction is a sign and a size. -/
theorem toRat_eq_sign_mul (x : Fraction) :
    x.toRat = (if decide (x.numerator < 0) then -1 else 1) *
      (x.numerator.natAbs / x.denominator) := by
  rw [toRat_eq_div, Nat.cast_natAbs]
  split_ifs with negative
  · rw [abs_of_neg (of_decide_eq_true negative), Int.cast_neg]
    ring
  · rw [abs_of_nonneg (not_lt.1 fun h => negative (decide_eq_true h)), one_mul]

/-- The text of a terminating fraction is a literal of it without superfluous zeros, with as many
places as its denominator has twos or fives, and does not depend on the precision. -/
theorem exists_literal_decimal {x : Fraction} {i j : ℕ} (h : x.denominator = 2 ^ i * 5 ^ j)
    (small : max i j < scaleBound) :
    ∃ l : Literal, (∀ maxDigits, x.decimal maxDigits = l.text) ∧ l.fraction = x ∧ l.Tidy ∧
      l.places.length = max i j := by
  have terminating := terminatingScale?_of_eq h small
  have divides : x.denominator ∣ 10 ^ max i j := h ▸ pow_mul_pow_dvd_ten_pow i j
  obtain ⟨l, sign, spelled, tidy, short, long, value⟩ :=
    exists_literal_placePoint (decide (x.numerator < 0))
      (x.numerator.natAbs * (powerOfTen (max i j) / x.denominator)) (max i j)
  refine ⟨l, fun maxDigits => ?_, ?_, tidy, ?_⟩
  · simp only [Literal.text, decimal, unsignedDecimal, terminating, spelled, sign,
      decide_eq_true_eq]
  · have size : ((x.numerator.natAbs * (powerOfTen (max i j) / x.denominator) : ℕ) : ℚ) /
        10 ^ max i j = x.numerator.natAbs / x.denominator := by
      have power : (10 : ℚ) ^ max i j ≠ 0 := by positivity
      have below : (x.denominator : ℚ) ≠ 0 := Nat.cast_ne_zero.2 x.denominator_pos.ne'
      rw [powerOfTen, Nat.pow_eq, Nat.cast_mul, Nat.cast_div divides below]
      push_cast
      field_simp
    rw [← toRat_inj, Literal.toRat_fraction (by omega), value, size, toRat_eq_sign_mul]
  · rcases Nat.eq_zero_or_pos (max i j) with none | some
    · omega
    · exact long (not_ten_dvd_scaled h some)

/-- **Reading the text of a terminating fraction gives the fraction back**, whatever precision is
asked for. -/
theorem ofLiteral?_decimal {x : Fraction} {k : ℕ} (h : x.denominator ∣ 10 ^ k)
    (small : k < scaleBound) (maxDigits : ℕ) : ofLiteral? (x.decimal maxDigits) = .ok x := by
  obtain ⟨i, j, split, le⟩ := exists_eq_of_dvd_ten_pow h
  obtain ⟨l, text, same, -⟩ := exists_literal_decimal split (Nat.lt_of_le_of_lt le small)
  exact ofLiteral?_eq_ok_iff.2 ⟨l, (text maxDigits).symm, same⟩

/-- **The text of a terminating fraction is exact.** It is a literal without superfluous zeros and
has as many places as the denominator has twos or fives, whichever are more. Reading it gives the
fraction back, so it does not depend on the precision, and no two fractions have the same text. -/
theorem decimal_exact {x : Fraction} {i j : ℕ} (h : x.denominator = 2 ^ i * 5 ^ j)
    (small : max i j < scaleBound) (maxDigits : ℕ) :
    (∃ l : Literal, (x.toDecimalString maxDigits).toList = l.text ∧ l.Tidy ∧
      l.places.length = max i j) ∧
    ofLiteral? (x.toDecimalString maxDigits).toList = .ok x ∧
    (∀ digits, x.toDecimalString digits = x.toDecimalString maxDigits) ∧
    ∀ (y : Fraction) (k l digits : ℕ), y.denominator = 2 ^ k * 5 ^ l → max k l < scaleBound →
      y.toDecimalString digits = x.toDecimalString maxDigits → y = x := by
  obtain ⟨l, text, same, tidy, count⟩ := exists_literal_decimal h small
  simp only [toDecimalString, String.toList_ofList, text]
  refine ⟨⟨l, rfl, tidy, count⟩, ofLiteral?_eq_ok_iff.2 ⟨l, rfl, same⟩, fun _ => trivial, ?_⟩
  intro y k m digits h' small' equal
  obtain ⟨l', text', same', -⟩ := exists_literal_decimal h' small'
  rw [text', String.ofList_inj] at equal
  have read : ofLiteral? l'.text = .ok y := ofLiteral?_eq_ok_iff.2 ⟨l', rfl, same'⟩
  have read' : ofLiteral? l.text = .ok x := ofLiteral?_eq_ok_iff.2 ⟨l, rfl, same⟩
  rw [equal, read'] at read
  exact (Except.ok.inj read).symm

/-- The zeros in front of the point and behind it are needed, and the text is the same for every
precision. -/
theorem decimal_exact_small_negative :
    (40 : ℕ) = 2 ^ 3 * 5 ^ 1 ∧ max 3 1 < scaleBound ∧
      (⟨-3, 40, by decide, by decide⟩ : Fraction).toDecimalString 1 = "-0.075" ∧
      ofLiteral? "-0.075".toList = .ok ⟨-3, 40, by decide, by decide⟩ ∧
      ∀ digits, (⟨-3, 40, by decide, by decide⟩ : Fraction).toDecimalString digits = "-0.075" := by
  have split : (⟨-3, 40, by decide, by decide⟩ : Fraction).denominator = 2 ^ 3 * 5 ^ 1 := rfl
  have small : max 3 1 < scaleBound := by decide
  have text : (⟨-3, 40, by decide, by decide⟩ : Fraction).toDecimalString 1 = "-0.075" := by
    decide +kernel
  obtain ⟨-, read, stable, -⟩ := decimal_exact split small 1
  rw [text] at read stable
  exact ⟨rfl, small, text, read, stable⟩

end Fraction

end RatCalc
