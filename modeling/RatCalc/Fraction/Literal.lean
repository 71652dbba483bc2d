import RatCalc.Fraction.Basic

/-!
# Decimal literals

A literal is an optional minus sign, a run of decimal digits and, optionally, a point with a
second run of digits. Neither run may be empty, and only the digits `0` to `9` count. A literal
denotes the integer that its digits spell, divided by one power of ten for each digit after the
point. The count of these digits wraps at `Fraction.scaleBound`.

## Main definitions

* `Fraction.ofLiteral?`: reads a literal, the whole text or nothing.
-/

namespace RatCalc

namespace Fraction

/-- Whether the text is a nonempty run of decimal digits. -/
def isDigitRun (text : List Char) : Bool :=
  !text.isEmpty && text.all Char.isDigit

/-- The fraction spelled by a sign, the digits before the point and those after it. -/
def ofDigits (negative : Bool) (whole places : List Char) : Fraction :=
  let size : Nat := Nat.ofDigitChars 10 (whole ++ places) 0
  let scale := places.length % scaleBound
  normalize (if negative then -(size : Int) else (size : Int)) (powerOfTen scale)
    (powerOfTen_pos scale)

/-- The fraction that an unsigned literal denotes, negated on demand. The text is cut at its
first point. -/
def ofUnsigned? (negative : Bool) (text : List Char) : Except FractionError Fraction :=
  let whole := text.takeWhile (· != '.')
  match text.dropWhile (· != '.') with
  | [] => if isDigitRun whole then .ok (ofDigits negative whole []) else .error .invalidLiteral
  | _ :: places =>
    if isDigitRun whole && isDigitRun places then
      .ok (ofDigits negative whole places)
    else
      .error .invalidLiteral

/-- The fraction that a literal denotes. -/
def ofLiteral? : List Char → Except FractionError Fraction
  | '-' :: text => ofUnsigned? true text
  | text => ofUnsigned? false text

end Fraction

end RatCalc
