import Mathlib
import RatCalc.Proofs.Fraction.Arithmetic
import RatCalc.Proofs.Grammar.Numeral

/-!
# Fractions in the making

A fraction is made of two integers, and the operations on fractions calculate with nothing else:
most of them cross-multiply and divide out what both parts have in common, while a negation and a
positive power leave the parts as they come. Here the same calculations are done on pairs of
integers about which nothing is promised. Whatever is built from integers and literals by any
number of operations, both ways of calculating come to the same parts. So the pairs that can be
built are in lowest terms over a positive denominator, although not every operation sees to it.

## Main definitions

* `Parts`: a numerator and a denominator without any promise.
* `Arithmetic`: the ways to make fractions and to calculate with them, in some representation.
* `Construction`: how a fraction is built; `Construction.build` builds it in a representation.

## Main results

* `Parts.normalize_eq`: dividing out the greatest common divisor, whatever the signs.
* `Parts.hom`: the calculations with fractions are those with their parts.
* `Construction.build_canonical`: pairs that are built are in lowest terms, and each rational
  number has one of them only.
-/

namespace RatCalc

/-! ### Calculating with two integers -/

/-- A numerator and a denominator about which nothing is promised. -/
structure Parts where
  numerator : ℤ
  denominator : ℤ
  deriving DecidableEq

namespace Parts

/-- Both parts without their greatest common divisor. A denominator that is negative then hands
its sign to the numerator. -/
def normalize (n d : ℤ) : Parts :=
  let divisor : ℤ := Int.gcd n d
  if d.tdiv divisor < 0 then ⟨-n.tdiv divisor, -d.tdiv divisor⟩
  else ⟨n.tdiv divisor, d.tdiv divisor⟩

/-- An integer, over the denominator one. -/
def integer (n : ℤ) : Parts :=
  ⟨n, 1⟩

/-- The ratio of two integers, refused when the second is zero. -/
def ratio? (n d : ℤ) : Except FractionError Parts :=
  if d = 0 then .error .divisionByZero else .ok (normalize n d)

/-- The number that a text without a sign spells, over a power of ten, negated on demand. -/
def unsigned? (negative : Bool) (text : List Char) : Except FractionError Parts :=
  let whole := text.takeWhile (· != '.')
  let places := (text.dropWhile (· != '.')).tail
  if whole.isEmpty || (text.contains '.' && places.isEmpty) ||
      !(whole ++ places).all Char.isDigit then
    .error .invalidLiteral
  else
    let size : ℤ := Nat.ofDigitChars 10 (whole ++ places) 0
    ratio? (if negative then -size else size) (10 ^ (places.length % Fraction.scaleBound))

/-- The number that a literal spells. -/
def literal? : List Char → Except FractionError Parts
  | '-' :: text => unsigned? true text
  | text => unsigned? false text

/-- The sum, by cross multiplication. -/
def add (p q : Parts) : Parts :=
  normalize (p.numerator * q.denominator + q.numerator * p.denominator)
    (p.denominator * q.denominator)

/-- The difference, by cross multiplication. -/
def sub (p q : Parts) : Parts :=
  normalize (p.numerator * q.denominator - q.numerator * p.denominator)
    (p.denominator * q.denominator)

/-- The product of the numerators over that of the denominators. -/
def mul (p q : Parts) : Parts :=
  normalize (p.numerator * q.numerator) (p.denominator * q.denominator)

/-- The negation, which divides nothing out. -/
def neg (p : Parts) : Parts :=
  ⟨-p.numerator, p.denominator⟩

/-- The ratio, refused when the second numerator is zero. -/
def divide? (p q : Parts) : Except FractionError Parts :=
  if q.numerator = 0 then .error .divisionByZero
  else .ok (normalize (p.numerator * q.denominator) (p.denominator * q.numerator))

/-- The power. A positive one divides nothing out, a negative one inverts first. -/
def power? (p : Parts) (e : ℤ) : Except FractionError Parts :=
  if e = 0 then .ok (integer 1)
  else if 0 < e then .ok ⟨p.numerator ^ e.natAbs, p.denominator ^ e.natAbs⟩
  else if p.numerator = 0 then .error .divisionByZero
  else .ok (normalize (p.denominator ^ e.natAbs) (p.numerator ^ e.natAbs))

/-- The rational number that two integers denote. -/
def value (p : Parts) : ℚ :=
  p.numerator / p.denominator

end Parts

/-! ### Constructions -/

/-- How fractions are made and calculated with, where `α` represents them. -/
structure Arithmetic (α : Type) where
  ratio? : ℤ → ℤ → Except FractionError α
  integer : ℤ → α
  literal? : List Char → Except FractionError α
  add : α → α → α
  sub : α → α → α
  mul : α → α → α
  neg : α → α
  divide? : α → α → Except FractionError α
  power? : α → ℤ → Except FractionError α

/-- Fractions, which carry the proof that they are in lowest terms. -/
def Fraction.arithmetic : Arithmetic Fraction where
  ratio? := ofRatio?
  integer := ofInt
  literal? := ofLiteral?
  add := (· + ·)
  sub := (· - ·)
  mul := (· * ·)
  neg := (- ·)
  divide? := divide?
  power? := pow?

/-- Pairs of integers, which carry nothing. -/
def Parts.arithmetic : Arithmetic Parts where
  ratio? := ratio?
  integer := integer
  literal? := literal?
  add := add
  sub := sub
  mul := mul
  neg := neg
  divide? := divide?
  power? := power?

/-- How a fraction is built from integers and literals. -/
inductive Construction where
  | ratio (n d : ℤ)
  | integer (n : ℤ)
  | literal (text : List Char)
  | add (x y : Construction)
  | sub (x y : Construction)
  | mul (x y : Construction)
  | neg (x : Construction)
  | divide (x y : Construction)
  | power (x : Construction) (e : ℤ)

section Build

variable {α β : Type}

/-- What a construction comes to in some representation. -/
def Construction.build (A : Arithmetic α) : Construction → Except FractionError α
  | ratio n d => A.ratio? n d
  | integer n => .ok (A.integer n)
  | literal text => A.literal? text
  | add x y => do return A.add (← x.build A) (← y.build A)
  | sub x y => do return A.sub (← x.build A) (← y.build A)
  | mul x y => do return A.mul (← x.build A) (← y.build A)
  | neg x => do return A.neg (← x.build A)
  | divide x y => do A.divide? (← x.build A) (← y.build A)
  | power x e => do A.power? (← x.build A) e

/-- One representation calculates as another one does, up to a change of representation. -/
structure Arithmetic.Hom (A : Arithmetic α) (B : Arithmetic β) (f : α → β) : Prop where
  ratio n d : B.ratio? n d = (A.ratio? n d).map f
  integer n : B.integer n = f (A.integer n)
  literal text : B.literal? text = (A.literal? text).map f
  add x y : B.add (f x) (f y) = f (A.add x y)
  sub x y : B.sub (f x) (f y) = f (A.sub x y)
  mul x y : B.mul (f x) (f y) = f (A.mul x y)
  neg x : B.neg (f x) = f (A.neg x)
  divide x y : B.divide? (f x) (f y) = (A.divide? x y).map f
  power x e : B.power? (f x) e = (A.power? x e).map f

/-- A step after a change of representation is a change after the step, if the steps agree. -/
theorem map_bind {ε α β α' β' : Type} (f : α → β) (f' : α' → β') {g : α → Except ε α'}
    {g' : β → Except ε β'} (step : ∀ a, g' (f a) = (g a).map f') (r : Except ε α) :
    (r.map f >>= g') = (r >>= g).map f' := by
  cases r with
  | error e => rfl
  | ok a => exact step a

/-- What is built in one representation is built in every other one that calculates alike. -/
theorem Construction.build_eq_map {A : Arithmetic α} {B : Arithmetic β} {f : α → β}
    (hom : A.Hom B f) (c : Construction) : c.build B = (c.build A).map f := by
  induction c with
  | ratio n d => exact hom.ratio n d
  | integer n => exact congrArg Except.ok (hom.integer n)
  | literal text => exact hom.literal text
  | add x y hx hy =>
    rw [build, hx, hy]
    exact map_bind f f (fun a => map_bind f f (fun b => congrArg Except.ok (hom.add a b)) _) _
  | sub x y hx hy =>
    rw [build, hx, hy]
    exact map_bind f f (fun a => map_bind f f (fun b => congrArg Except.ok (hom.sub a b)) _) _
  | mul x y hx hy =>
    rw [build, hx, hy]
    exact map_bind f f (fun a => map_bind f f (fun b => congrArg Except.ok (hom.mul a b)) _) _
  | neg x hx =>
    rw [build, hx]
    exact map_bind f f (fun a => congrArg Except.ok (hom.neg a)) _
  | divide x y hx hy =>
    rw [build, hx, hy]
    exact map_bind f f (fun a => map_bind f f (hom.divide a) _) _
  | power x e hx =>
    rw [build, hx]
    exact map_bind f f (fun a => hom.power a e) _

end Build

/-! ### Fractions and their parts -/

/-- The two integers that a fraction is made of. -/
def Fraction.parts (x : Fraction) : Parts :=
  ⟨x.numerator, x.denominator⟩

namespace Parts

/-- Over a positive denominator, the parts without their greatest common divisor are those of
the fraction. -/
theorem normalize_natCast (n : ℤ) {d : ℕ} (d_pos : 0 < d) :
    normalize n d = (Fraction.normalize n d d_pos).parts := by
  have above : n.tdiv (Int.gcd n d) = n / Int.gcd n d :=
    Int.tdiv_eq_ediv_of_dvd (Int.gcd_dvd_left n d)
  have below : (d : ℤ).tdiv (Int.gcd n d) = (d / Int.gcd n d : ℕ) := Int.ofNat_tdiv _ _
  rw [normalize, below, above, if_neg (Int.natCast_nonneg _).not_gt]
  rfl

/-- A negative denominator may as well hand over its sign before the division. -/
theorem normalize_neg (n : ℤ) {d : ℕ} (d_pos : 0 < d) : normalize n (-d) = normalize (-n) d := by
  have below : (d : ℤ).tdiv (Int.gcd n d) = (d / Int.gcd n d : ℕ) := Int.ofNat_tdiv _ _
  have below_pos : 0 < d / Int.gcd n d :=
    Nat.div_pos (Nat.le_of_dvd d_pos (Int.natCast_dvd_natCast.1 (Int.gcd_dvd_right n d)))
      (Int.gcd_pos_of_ne_zero_right n (Int.natCast_ne_zero.2 d_pos.ne'))
  rw [normalize, normalize, Int.gcd_neg, Int.neg_gcd, Int.neg_tdiv, Int.neg_tdiv, below,
    if_pos (by omega), if_neg (by omega), neg_neg]

/-- **Dividing out the greatest common divisor leaves lowest terms**, whatever the signs. -/
theorem normalize_eq (n : ℤ) {d : ℤ} (h : d ≠ 0) :
    normalize n d = (Fraction.ofNonzero n d h).parts := by
  rcases lt_or_gt_of_ne h with negative | positive
  · have size : d = -(d.natAbs : ℤ) := by omega
    have hands_over : Fraction.ofNonzero n d h =
        Fraction.normalize (-n) d.natAbs (Int.natAbs_pos.2 h) := by
      rw [Fraction.ofNonzero]
      congr 1
      exact if_pos negative
    rw [hands_over, ← normalize_natCast, ← normalize_neg n (Int.natAbs_pos.2 h), ← size]
  · have size : d = (d.natAbs : ℤ) := by omega
    have keeps : Fraction.ofNonzero n d h =
        Fraction.normalize n d.natAbs (Int.natAbs_pos.2 h) := by
      rw [Fraction.ofNonzero]
      congr 1
      exact if_neg positive.not_gt
    rw [keeps, ← normalize_natCast, ← size]

/-! ### Every operation -/

/-- The ratio of two integers has the parts that are calculated. -/
theorem ratio?_eq (n d : ℤ) : ratio? n d = (Fraction.ofRatio? n d).map Fraction.parts := by
  unfold ratio? Fraction.ofRatio?
  split
  · rfl
  · next h => exact congrArg Except.ok (normalize_eq n h)

/-- What is read as the digits of a literal has the parts that are calculated. -/
theorem ofDigits_parts (negative : Bool) (whole places : List Char) :
    ratio? (if negative then -(Nat.ofDigitChars 10 (whole ++ places) 0 : ℤ)
        else (Nat.ofDigitChars 10 (whole ++ places) 0 : ℤ))
      (10 ^ (places.length % Fraction.scaleBound)) =
        .ok (Fraction.ofDigits negative whole places).parts := by
  have scale : (10 : ℤ) ^ (places.length % Fraction.scaleBound) =
      (powerOfTen (places.length % Fraction.scaleBound) : ℕ) := by
    rw [powerOfTen, Nat.pow_eq]
    exact (Nat.cast_pow 10 _).symm
  rw [ratio?, scale, if_neg (Int.natCast_ne_zero.2 (powerOfTen_pos _).ne'),
    normalize_natCast _ (powerOfTen_pos _)]
  rfl

/-- A text is cut somewhere if it has a point. -/
theorem contains_point (text : List Char) :
    text.contains '.' = !(text.dropWhile (· != '.')).isEmpty := by
  induction text with
  | nil => rfl
  | cons c text ih =>
    by_cases point : c = '.'
    · subst point
      rfl
    · have goes_on : (c != '.') = true := bne_iff_ne.2 point
      rw [List.contains_cons, List.dropWhile_cons, if_pos goes_on, ← ih,
        beq_eq_false_iff_ne.2 (Ne.symm point), Bool.false_or]

/-- A text without a sign is refused, or has the parts that are calculated. -/
theorem unsigned?_eq (negative : Bool) (text : List Char) :
    unsigned? negative text = (Fraction.ofUnsigned? negative text).map Fraction.parts := by
  have digits (places : List Char) := ofDigits_parts negative (text.takeWhile (· != '.')) places
  rw [unsigned?, Fraction.ofUnsigned?, contains_point]
  generalize text.takeWhile (· != '.') = whole at digits ⊢
  cases text.dropWhile (· != '.') with
  | nil =>
    have checked : (whole.isEmpty || !whole.all Char.isDigit) = !Fraction.isDigitRun whole := by
      rw [Fraction.isDigitRun, Bool.not_and, Bool.not_not]
    simp only [List.isEmpty_nil, Bool.not_true, Bool.false_and, Bool.or_false, List.tail_nil,
      List.append_nil, checked]
    cases Fraction.isDigitRun whole with
    | false => rfl
    | true =>
      have read := digits []
      rw [List.append_nil] at read
      exact read
  | cons c places =>
    have checked : (whole.isEmpty || places.isEmpty || !(whole ++ places).all Char.isDigit) =
        !(Fraction.isDigitRun whole && Fraction.isDigitRun places) := by
      rw [Fraction.isDigitRun, Fraction.isDigitRun, List.all_append]
      grind
    simp only [List.isEmpty_cons, Bool.not_false, Bool.true_and, List.tail_cons, checked]
    cases Fraction.isDigitRun whole && Fraction.isDigitRun places with
    | false => rfl
    | true => exact digits places

/-- A literal has the parts that are calculated. -/
theorem literal?_eq (text : List Char) :
    literal? text = (Fraction.ofLiteral? text).map Fraction.parts := by
  unfold literal?
  split
  · exact unsigned?_eq true _
  · next text no_sign =>
    rw [unsigned?_eq]
    unfold Fraction.ofLiteral?
    split
    · exact absurd rfl (no_sign _)
    · rfl

/-- A ratio of fractions has the parts that are calculated. -/
theorem divide?_eq (x y : Fraction) :
    divide? x.parts y.parts = (x.divide? y).map Fraction.parts := by
  by_cases zero : y.numerator = 0
  · rw [Fraction.divide?, dif_pos zero]
    exact if_pos zero
  · rw [Fraction.divide?, dif_neg zero]
    exact (if_neg zero).trans (congrArg Except.ok (normalize_eq _ _))

/-- A power of a fraction has the parts that are calculated. -/
theorem power?_eq (x : Fraction) (e : ℤ) : power? x.parts e = (x.pow? e).map Fraction.parts := by
  have above (k : ℕ) : Fraction.intPow x.numerator k = x.numerator ^ k :=
    Fraction.intPow_eq_pow x.numerator k
  have below (k : ℕ) : ((Nat.pow x.denominator k : ℕ) : ℤ) = (x.denominator : ℤ) ^ k :=
    Nat.cast_pow x.denominator k
  rcases lt_trichotomy e 0 with negative | rfl | positive
  · rw [power?, if_neg negative.ne, if_neg negative.not_gt, Fraction.pow?, if_pos negative]
    by_cases zero : x.numerator = 0
    · rw [dif_pos zero]
      exact if_pos zero
    · rw [dif_neg zero]
      refine (if_neg zero).trans (congrArg Except.ok ?_)
      rw [← normalize_eq, above, below]
      rfl
  · rw [Fraction.pow?, if_neg (lt_irrefl 0)]
    have one : x.numerator ^ 0 = 1 := pow_zero x.numerator
    exact congrArg Except.ok (congrArg₂ Parts.mk (one.symm.trans (above 0).symm) rfl)
  · rw [power?, if_neg positive.ne', if_pos positive, Fraction.pow?, if_neg positive.not_gt]
    exact congrArg Except.ok (congrArg₂ Parts.mk (above _).symm (below _).symm)

/-- **The calculations with fractions are those with their parts.** -/
theorem hom : Fraction.arithmetic.Hom Parts.arithmetic Fraction.parts where
  ratio := ratio?_eq
  integer _ := rfl
  literal := literal?_eq
  add x y := normalize_natCast _ (Nat.mul_pos x.denominator_pos y.denominator_pos)
  sub x y := normalize_natCast _ (Nat.mul_pos x.denominator_pos y.denominator_pos)
  mul x y := normalize_natCast _ (Nat.mul_pos x.denominator_pos y.denominator_pos)
  neg _ := rfl
  divide := divide?_eq
  power := power?_eq

end Parts

/-! ### What can be built -/

namespace Fraction

/-- The parts of a fraction denote its rational number. -/
theorem value_parts (x : Fraction) : x.parts.value = x.toRat :=
  (toRat_eq_div x).symm

/-- The parts of two fractions are the same if these denote the same rational number. -/
theorem parts_eq_iff {x y : Fraction} : x.parts = y.parts ↔ x.parts.value = y.parts.value := by
  constructor
  · exact congrArg Parts.value
  · intro h
    rw [value_parts, value_parts, toRat_inj] at h
    rw [h]

/-- The ratio of its parts is the fraction. -/
theorem ratio?_parts (x : Fraction) : Parts.ratio? x.numerator x.denominator = .ok x.parts := by
  have rebuilt : ofNonzero x.numerator x.denominator x.denominator_ne_zero = x := by
    rw [← toRat_inj, toRat_ofNonzero, toRat_eq_div x]
    rfl
  rw [Parts.ratio?, if_neg x.denominator_ne_zero, Parts.normalize_eq _ x.denominator_ne_zero,
    rebuilt]

/-- Zero has the denominator one. -/
theorem parts_of_numerator_eq_zero {x : Fraction} (h : x.numerator = 0) :
    x.parts = .integer 0 := by
  have zero : x = 0 := toRat_inj.1 ((numerator_eq_zero_iff.1 h).trans toRat_zero.symm)
  rw [zero]
  rfl

end Fraction

namespace Construction

/-- **Whatever is built is in lowest terms.** The parts of a fraction that is built in any way
from ratios, integers and literals by sums, differences, products, negations, ratios and powers
are those of the same calculation on two integers without any promise. They have a positive
denominator without a common divisor with the numerator, zero has the denominator one, and the
ratio of the two parts has just these parts. Two results have the same parts exactly if they
denote the same rational number. -/
theorem build_canonical (c : Construction) :
    c.build Parts.arithmetic = (c.build Fraction.arithmetic).map Fraction.parts ∧
      ∀ p, c.build Parts.arithmetic = .ok p →
        0 < p.denominator ∧ Int.gcd p.numerator p.denominator = 1 ∧
          (p.numerator = 0 → p = .integer 0) ∧
          Parts.ratio? p.numerator p.denominator = .ok p ∧
          ∀ (c' : Construction) (q : Parts), c'.build Parts.arithmetic = .ok q →
            (p = q ↔ p.value = q.value) := by
  have has_parts {c : Construction} {p : Parts} (h : c.build Parts.arithmetic = .ok p) :
      ∃ x : Fraction, p = x.parts := by
    rw [build_eq_map Parts.hom] at h
    cases built : c.build Fraction.arithmetic with
    | error e =>
      rw [built] at h
      cases h
    | ok x =>
      rw [built] at h
      cases h
      exact ⟨x, rfl⟩
  refine ⟨build_eq_map Parts.hom c, fun p hp => ?_⟩
  obtain ⟨x, rfl⟩ := has_parts hp
  refine ⟨Int.natCast_pos.2 x.denominator_pos, x.coprime, Fraction.parts_of_numerator_eq_zero,
    x.ratio?_parts, fun c' q hq => ?_⟩
  obtain ⟨y, rfl⟩ := has_parts hq
  exact Fraction.parts_eq_iff

/-- The cube of `-4 / 6` is inverted over a negative denominator, which does not stay there. It
is the same as `54 / -16`, digit by digit. -/
theorem build_inverted_cube :
    (power (ratio (-4) 6) (-3)).build Parts.arithmetic = .ok ⟨-27, 8⟩ ∧
      (ratio 54 (-16)).build Parts.arithmetic = .ok ⟨-27, 8⟩ ∧
      (0 : ℤ) < 8 ∧ Int.gcd (-27) 8 = 1 ∧ Parts.ratio? (-27) 8 = .ok ⟨-27, 8⟩ ∧
      (Parts.mk (-27) 8 = ⟨-27, 8⟩ ↔ (Parts.mk (-27) 8).value = (Parts.mk (-27) 8).value) := by
  have cube : (power (ratio (-4) 6) (-3)).build Parts.arithmetic = .ok ⟨-27, 8⟩ := by rfl
  have quotient : (ratio 54 (-16)).build Parts.arithmetic = .ok ⟨-27, 8⟩ := by rfl
  have built := (build_canonical (power (ratio (-4) 6) (-3))).2 _ cube
  exact ⟨cube, quotient, built.1, built.2.1, built.2.2.2.1, built.2.2.2.2 _ _ quotient⟩

end Construction

end RatCalc
