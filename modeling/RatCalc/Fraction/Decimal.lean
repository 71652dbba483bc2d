import RatCalc.Fraction.Basic

/-!
# Decimal text

The text of a fraction as a plain decimal, without an exponent. An expansion that ends is
written exactly, whatever precision is asked for. One that recurs is rounded, a half upward in
size, to as many significant digits as the longest of its numerator, its denominator and the
precision asked for. Zeros at the end of the places after the point are dropped, and the point
with them when nothing is left.

## Main definitions

* `Fraction.terminatingScale?`: how many places the exact expansion takes, if it ends.
* `Fraction.decimal`: the text, as characters.
* `Fraction.toDecimalString`: the text, as a string.
-/

namespace RatCalc

namespace Fraction

/-- How many decimal digits a number is written with; zero takes one. -/
def digitCount (n : Nat) : Nat :=
  (Nat.toDigits 10 n).length

/-- Divides `n` by `p` for as long as that leaves no remainder. The first part of the answer
counts the divisions, on top of `count`; the second is what is left. -/
def removePower (p n count : Nat) : Nat × Nat :=
  if h : 1 < p ∧ 0 < n ∧ n % p = 0 then
    removePower p (n / p) (count + 1)
  else
    (count, n)
termination_by n
decreasing_by exact Nat.div_lt_self h.2.1 h.1

/-- The number of places that an exact expansion over this denominator takes: the larger of the
multiplicities of two and five, if the denominator has no other prime factor. -/
def terminatingScale? (denominator : Nat) : Option Nat :=
  let (twos, odd) := removePower 2 denominator 0
  let (fives, rest) := removePower 5 odd 0
  if rest = 1 ∧ max twos fives < scaleBound then some (max twos fives) else none

/-- The text without the zeros at its end. -/
def dropTrailingZeros (text : List Char) : List Char :=
  (text.reverse.dropWhile (· == '0')).reverse

/-- The number `digits / 10 ^ scale` as text, without zeros at the end of its places. -/
def placePoint (digits scale : Nat) : List Char :=
  let text := Nat.toDigits 10 digits
  if scale = 0 then
    text
  else
    let padded := List.replicate (scale + 1 - text.length) '0' ++ text
    let whole := padded.take (padded.length - scale)
    match dropTrailingZeros (padded.drop (padded.length - scale)) with
    | [] => whole
    | places => whole ++ '.' :: places

/-- The exponent of the leading digit of `n / d`, as the digit counts have it. It may be too large
by one. -/
def exponentEstimate (n d : Nat) : Int :=
  (digitCount n : Int) - (digitCount d : Int)

/-- The exponent `e` with `10 ^ e ≤ n / d < 10 ^ (e + 1)`: one comparison settles whether the
estimate is too large. The exponents of its powers wrap at `scaleBound`. -/
def leadingExponent (n d : Nat) : Int :=
  let estimate := exponentEstimate n d
  if n * powerOfTen ((-estimate).toNat % scaleBound) < d * powerOfTen (estimate.toNat % scaleBound)
  then estimate - 1
  else estimate

/-- The integer nearest to `n / d`, the upper one for a half. -/
def roundHalfUp (n d : Nat) : Nat :=
  if d ≤ n % d * 2 then n / d + 1 else n / d

/-- The number of places of a rounded expansion: enough for the significant digits asked for,
and for all those of either part of the fraction. Counts wrap at `scaleBound`. -/
def roundedScale (n d maxDigits : Nat) : Nat :=
  let precision := max (max (digitCount n) (digitCount d)) maxDigits
  (((precision : Int) - 1 - leadingExponent n d) % (scaleBound : Int)).toNat

/-- The text of the positive fraction `n / d`. -/
def unsignedDecimal (n d maxDigits : Nat) : List Char :=
  match terminatingScale? d with
  | some scale => placePoint (n * (powerOfTen scale / d)) scale
  | none =>
    let scale := roundedScale n d maxDigits
    placePoint (roundHalfUp (n * powerOfTen scale) d) scale

/-- The fraction as a plain decimal; a recurring one shows `maxDigits` significant digits, or
more when its own parts have more. -/
def decimal (x : Fraction) (maxDigits : Nat) : List Char :=
  let size := unsignedDecimal x.numerator.natAbs x.denominator maxDigits
  if x.numerator < 0 then '-' :: size else size

/-- The fraction as a plain decimal. -/
def toDecimalString (x : Fraction) (maxDigits : Nat) : String :=
  String.ofList (x.decimal maxDigits)

end Fraction

end RatCalc
