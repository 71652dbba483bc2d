/-!
# Exact fractions

A fraction is kept in lowest terms over a positive denominator, so two fractions are equal as
data exactly when they denote the same rational number. Every operation cross-multiplies and
then divides out the greatest common divisor, except where lowest terms are kept for free
(negation and positive powers).

## Main definitions

* `Fraction`: a numerator and a positive denominator without a common divisor.
* `Fraction.ofRatio?`: the fraction of two integers, refused when the second is zero.
* `Fraction.divide?`, `Fraction.pow?`: the two operations that may fail.
* `Fraction.compare`: the order, by cross multiplication.
-/

namespace RatCalc

/-- The three ways in which an operation on fractions can fail. -/
inductive FractionError where
  | divisionByZero
  | notAnInteger
  | invalidLiteral
  deriving DecidableEq, Repr

/-- The text shown for a failed operation on fractions. -/
def FractionError.message : FractionError → String
  | .divisionByZero => "Division by zero"
  | .notAnInteger => "Not an integer"
  | .invalidLiteral => "Invalid decimal literal"

/-- The power of ten with the given exponent. -/
def powerOfTen (n : Nat) : Nat :=
  Nat.pow 10 n

/-- No power of ten is zero. -/
theorem powerOfTen_pos (n : Nat) : 0 < powerOfTen n :=
  Nat.pow_pos (by decide)

/-- An exact rational number in lowest terms, with a positive denominator. -/
structure Fraction where
  numerator : Int
  denominator : Nat
  denominator_pos : 0 < denominator
  coprime : Nat.Coprime numerator.natAbs denominator
  deriving DecidableEq

namespace Fraction

/-- Counts of places stay below this bound. -/
def scaleBound : Nat := Nat.pow 2 32

/-- An integer, over the denominator one. -/
def ofInt (n : Int) : Fraction :=
  ⟨n, 1, Nat.one_pos, Nat.coprime_one_right n.natAbs⟩

instance : OfNat Fraction 0 := ⟨ofInt 0⟩

instance : OfNat Fraction 1 := ⟨ofInt 1⟩

instance : Inhabited Fraction := ⟨0⟩

/-- Dividing out a common divisor of both parts leaves the size of the numerator divided. -/
theorem natAbs_ediv_gcd (n : Int) (d : Nat) :
    (n / (Nat.gcd n.natAbs d : Int)).natAbs = n.natAbs / Nat.gcd n.natAbs d :=
  Int.natAbs_ediv_of_dvd (Int.ofNat_dvd_left.2 (Nat.gcd_dvd_left n.natAbs d))

/-- The fraction `n / d` in lowest terms, for a positive `d`. -/
def normalize (n : Int) (d : Nat) (d_pos : 0 < d) : Fraction where
  numerator := n / (Nat.gcd n.natAbs d : Int)
  denominator := d / Nat.gcd n.natAbs d
  denominator_pos :=
    Nat.div_pos (Nat.le_of_dvd d_pos (Nat.gcd_dvd_right n.natAbs d))
      (Nat.gcd_pos_of_pos_right n.natAbs d_pos)
  coprime := by
    rw [natAbs_ediv_gcd]
    exact Nat.coprime_div_gcd_div_gcd (Nat.gcd_pos_of_pos_right n.natAbs d_pos)

/-- The fraction `n / d` for a divisor of either sign: a negative one hands its sign to the
numerator. -/
def ofNonzero (n d : Int) (d_ne : d ≠ 0) : Fraction :=
  normalize (if d < 0 then -n else n) d.natAbs (Int.natAbs_pos.2 d_ne)

/-- The fraction `n / d`, refused when `d` is zero. -/
def ofRatio? (n d : Int) : Except FractionError Fraction :=
  if h : d = 0 then .error .divisionByZero else .ok (ofNonzero n d h)

/-- Whether the denominator is one. -/
def isInt (x : Fraction) : Bool :=
  x.denominator == 1

/-- Whether the fraction is zero. -/
def isZero (x : Fraction) : Bool :=
  x.numerator == 0

/-- The integer that the fraction is, refused when it is none. -/
def toInt? (x : Fraction) : Except FractionError Int :=
  if x.isInt then .ok x.numerator else .error .notAnInteger

/-- The sum, by cross multiplication. -/
def add (x y : Fraction) : Fraction :=
  normalize (x.numerator * y.denominator + y.numerator * x.denominator)
    (x.denominator * y.denominator) (Nat.mul_pos x.denominator_pos y.denominator_pos)

/-- The difference, by cross multiplication. -/
def sub (x y : Fraction) : Fraction :=
  normalize (x.numerator * y.denominator - y.numerator * x.denominator)
    (x.denominator * y.denominator) (Nat.mul_pos x.denominator_pos y.denominator_pos)

/-- The product of the numerators over that of the denominators. -/
def mul (x y : Fraction) : Fraction :=
  normalize (x.numerator * y.numerator) (x.denominator * y.denominator)
    (Nat.mul_pos x.denominator_pos y.denominator_pos)

/-- The negation, which is in lowest terms already. -/
def neg (x : Fraction) : Fraction :=
  ⟨-x.numerator, x.denominator, x.denominator_pos, by rw [Int.natAbs_neg]; exact x.coprime⟩

instance : Add Fraction := ⟨add⟩

instance : Sub Fraction := ⟨sub⟩

instance : Mul Fraction := ⟨mul⟩

instance : Neg Fraction := ⟨neg⟩

/-- The denominator of a fraction is not zero as an integer. -/
theorem denominator_ne_zero (x : Fraction) : (x.denominator : Int) ≠ 0 :=
  Int.natCast_ne_zero.2 (Nat.ne_of_gt x.denominator_pos)

/-- The ratio of two fractions, refused when the second is zero. -/
def divide? (x y : Fraction) : Except FractionError Fraction :=
  if h : y.numerator = 0 then
    .error .divisionByZero
  else
    .ok (ofNonzero (x.numerator * y.denominator) (x.denominator * y.numerator)
      (Int.mul_ne_zero x.denominator_ne_zero h))

/-- An integer to a natural power: the power of its size, negative when the base is negative
and the exponent odd. -/
def intPow (n : Int) (e : Nat) : Int :=
  if n < 0 ∧ e % 2 = 1 then -(Nat.pow n.natAbs e : Int) else (Nat.pow n.natAbs e : Int)

/-- The size of a power is the power of the size. -/
theorem natAbs_intPow (n : Int) (e : Nat) : (intPow n e).natAbs = Nat.pow n.natAbs e := by
  unfold intPow
  split <;> simp only [Int.natAbs_neg, Int.natAbs_natCast]

/-- A natural power, in lowest terms because powers of coprime numbers stay coprime. -/
def natPow (x : Fraction) (e : Nat) : Fraction where
  numerator := intPow x.numerator e
  denominator := Nat.pow x.denominator e
  denominator_pos := Nat.pow_pos x.denominator_pos
  coprime := by
    rw [natAbs_intPow]
    exact Nat.Coprime.pow e e x.coprime

/-- A nonzero base has no zero power. -/
theorem intPow_ne_zero {n : Int} (e : Nat) (h : n ≠ 0) : intPow n e ≠ 0 := by
  rw [← Int.natAbs_pos, natAbs_intPow]
  exact Nat.pow_pos (Int.natAbs_pos.2 h)

/-- An integer power. A negative exponent inverts first, which zero does not allow; every base
to the power zero is one. -/
def pow? (x : Fraction) (e : Int) : Except FractionError Fraction :=
  if e < 0 then
    if h : x.numerator = 0 then
      .error .divisionByZero
    else
      .ok (ofNonzero (Nat.pow x.denominator e.natAbs : Int) (intPow x.numerator e.natAbs)
        (intPow_ne_zero e.natAbs h))
  else
    .ok (x.natPow e.natAbs)

/-- The order of the rationals, decided on the cross products. -/
def compare (x y : Fraction) : Ordering :=
  Ord.compare (x.numerator * y.denominator) (y.numerator * x.denominator)

instance : Ord Fraction := ⟨compare⟩

/-- Whether the first fraction is the smaller one. -/
def less (x y : Fraction) : Bool :=
  x.compare y == .lt

/-- Both parts with a slash between them; an integer shows its denominator one. -/
def toRatioString (x : Fraction) : String :=
  toString x.numerator ++ "/" ++ toString x.denominator

instance : ToString Fraction := ⟨toRatioString⟩

instance : Repr Fraction := ⟨fun x _ => x.toRatioString⟩

end Fraction

end RatCalc
