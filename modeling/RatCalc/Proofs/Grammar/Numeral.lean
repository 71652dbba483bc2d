import Mathlib
import RatCalc.Proofs.Grammar.Reading
import RatCalc.Proofs.Rational

/-!
# Number literals

A literal has three parts: a sign, a run of digits and the places behind the point, which is
written only if there are any. The reader of literals accepts these texts and no other, takes the
longest one at the front of a text, and gives the rational number that the digits spell, as long
as the count of places does not wrap.

## Main definitions

* `Literal`: the parts of a literal.
* `Literal.text`, `Literal.value`: its spelling and the rational number that it denotes.

## Main results

* `Fraction.ofLiteral?_eq_ok_iff`: the texts that are read as a fraction.
* `Literal.toRat_fraction`: the fraction that is read is the number denoted.
* `Grammar.numeral_literal`: a literal is cut off whole.
-/

namespace RatCalc

/-- A sign, a run of digits and the digits behind the point. -/
structure Literal where
  negative : Bool
  whole : List Char
  places : List Char
  whole_ne_nil : whole ≠ []
  whole_digits : ∀ c ∈ whole, c.isDigit = true
  places_digits : ∀ c ∈ places, c.isDigit = true

namespace Literal

/-- The point and the digits behind it, or nothing if there are none. -/
def pointed : List Char → List Char
  | [] => []
  | c :: places => '.' :: c :: places

/-- The spelling without the sign. -/
def unsigned (l : Literal) : List Char :=
  l.whole ++ pointed l.places

/-- The spelling of a literal. -/
def text (l : Literal) : List Char :=
  if l.negative then '-' :: l.unsigned else l.unsigned

/-- The number of digits of a literal. -/
def digitCount (l : Literal) : ℕ :=
  l.whole.length + l.places.length

/-- The rational number that the digits spell in the decimal system. -/
def value (l : Literal) : ℚ :=
  (if l.negative then -1 else 1) *
    (Nat.ofDigitChars 10 l.whole 0 + Nat.ofDigitChars 10 l.places 0 / 10 ^ l.places.length)

/-- The fraction that is made of a literal. -/
def fraction (l : Literal) : Fraction :=
  .ofDigits l.negative l.whole l.places

/-- **The fraction of a literal is the number that it denotes**, as long as the count of its places
does not wrap. -/
theorem toRat_fraction {l : Literal} (short : l.places.length < Fraction.scaleBound) :
    l.fraction.toRat = l.value := by
  have ten : (10 : ℚ) ^ l.places.length ≠ 0 := by positivity
  rw [fraction, Fraction.ofDigits, Fraction.toRat_normalize, Nat.mod_eq_of_lt short, value,
    Nat.ofDigitChars_append, Nat.ofDigitChars_eq_ofDigitChars_zero, powerOfTen, Nat.pow_eq]
  split_ifs
  · push_cast
    field_simp
  · push_cast
    field_simp

/-- A literal has no more digits than characters. -/
theorem digitCount_le_length_text (l : Literal) : l.digitCount ≤ l.text.length := by
  have pointed : l.places.length ≤ (pointed l.places).length := by
    cases l.places with
    | nil => exact le_refl _
    | cons c cs => exact Nat.le_succ _
  rw [text, digitCount]
  split
  · rw [List.length_cons, unsigned, List.length_append]
    omega
  · rw [unsigned, List.length_append]
    omega

/-- Digits are no points. -/
theorem ne_point {c : Char} (h : c.isDigit = true) : (c != '.') = true := by
  rw [bne_iff_ne]
  rintro rfl
  exact absurd h (by decide)

/-- Digits are no signs. -/
theorem ne_sign {c : Char} (h : c.isDigit = true) : c ≠ '-' := by
  rintro rfl
  exact absurd h (by decide)

/-- A literal is not empty. -/
theorem text_ne_nil (l : Literal) : l.text ≠ [] := by
  rw [text]
  split
  · exact List.cons_ne_nil _ _
  · exact List.append_ne_nil_of_left_ne_nil l.whole_ne_nil _

/-- A literal does not start like its negation. -/
theorem unsigned_ne_sign (l : Literal) (s : List Char) : l.unsigned ≠ '-' :: s := by
  obtain ⟨c, cs, whole⟩ := List.exists_cons_of_ne_nil l.whole_ne_nil
  intro h
  rw [unsigned, whole] at h
  have digit := l.whole_digits c (by rw [whole]; exact List.mem_cons_self)
  exact ne_sign digit (List.cons.inj h).1

end Literal

namespace Fraction

/-- The digits of a run, as a condition on its characters. -/
theorem isDigitRun_iff {text : List Char} :
    isDigitRun text = true ↔ text ≠ [] ∧ ∀ c ∈ text, c.isDigit = true := by
  simp [isDigitRun]

/-- An unsigned text is read if it spells a literal. -/
theorem ofUnsigned?_eq_ok_iff {negative : Bool} {text : List Char} {q : Fraction} :
    ofUnsigned? negative text = .ok q ↔
      ∃ l : Literal, l.negative = negative ∧ l.unsigned = text ∧ l.fraction = q := by
  constructor
  · intro h
    have parts : text.takeWhile (· != '.') ++ text.dropWhile (· != '.') = text :=
      List.takeWhile_append_dropWhile
    unfold ofUnsigned? at h
    dsimp only at h
    split at h
    · next none =>
      split_ifs at h with run
      rw [isDigitRun_iff] at run
      rw [none, List.append_nil] at parts
      cases h
      exact ⟨⟨negative, _, [], run.1, run.2, fun _ h => absurd h List.not_mem_nil⟩, rfl,
        (List.append_nil _).trans parts, rfl⟩
    · next c places some =>
      split_ifs at h with runs
      rw [Bool.and_eq_true, isDigitRun_iff, isDigitRun_iff] at runs
      have point : (c != '.') = false := Stops.dropWhile (· != '.') text c (by rw [some]; rfl)
      rw [some] at parts
      cases h
      refine ⟨⟨negative, _, places, runs.1.1, runs.1.2, runs.2.2⟩, rfl, ?_, rfl⟩
      obtain ⟨d, ds, rfl⟩ := List.exists_cons_of_ne_nil runs.2.1
      rw [bne_eq_false_iff_eq] at point
      subst point
      exact parts
  · rintro ⟨l, rfl, rfl, rfl⟩
    have inside : ∀ c ∈ l.whole, (c != '.') = true :=
      fun c h => Literal.ne_point (l.whole_digits c h)
    have stops : Stops (· != '.') (Literal.pointed l.places) := by
      cases l.places with
      | nil => exact .nil
      | cons c places => exact .cons rfl
    have whole : isDigitRun l.whole = true := isDigitRun_iff.2 ⟨l.whole_ne_nil, l.whole_digits⟩
    rw [ofUnsigned?, Literal.unsigned, stops.takeWhile_append inside, stops.dropWhile_append inside]
    cases none : l.places with
    | nil =>
      simp only [Literal.pointed, whole, if_true, Literal.fraction, none]
    | cons c places =>
      have run : isDigitRun (c :: places) = true :=
        isDigitRun_iff.2 ⟨List.cons_ne_nil _ _, by rw [← none]; exact l.places_digits⟩
      simp only [Literal.pointed, whole, run, Bool.and_self, if_true, Literal.fraction, none]

/-- **A text is read as a fraction if it is the spelling of a literal.** -/
theorem ofLiteral?_eq_ok_iff {text : List Char} {q : Fraction} :
    ofLiteral? text = .ok q ↔ ∃ l : Literal, l.text = text ∧ l.fraction = q := by
  constructor
  · intro h
    unfold ofLiteral? at h
    split at h
    · obtain ⟨l, negative, spelled, value⟩ := ofUnsigned?_eq_ok_iff.1 h
      exact ⟨l, by rw [Literal.text, if_pos negative, spelled], value⟩
    · obtain ⟨l, negative, spelled, value⟩ := ofUnsigned?_eq_ok_iff.1 h
      exact ⟨l, by rw [Literal.text, if_neg (by rw [negative]; exact Bool.false_ne_true), spelled],
        value⟩
  · rintro ⟨l, rfl, rfl⟩
    cases sign : l.negative with
    | true =>
      rw [Literal.text, if_pos sign, ofLiteral?]
      exact ofUnsigned?_eq_ok_iff.2 ⟨l, sign, rfl, rfl⟩
    | false =>
      rw [Literal.text, if_neg (by rw [sign]; exact Bool.false_ne_true)]
      unfold ofLiteral?
      split
      · next s h => exact absurd h (l.unsigned_ne_sign s)
      · exact ofUnsigned?_eq_ok_iff.2 ⟨l, sign, rfl, rfl⟩

end Fraction

namespace Grammar

/-- Whether a literal may go on with this character. -/
def isNumeralRest (c : Char) : Bool :=
  c.isDigit || c == '.'

variable {s r : List Char}

/-- An unsigned literal is cut off whole. -/
theorem unsignedNumeral_literal (l : Literal) (stops : Stops isNumeralRest r) :
    unsignedNumeral (l.unsigned ++ r) = (l.unsigned, r) := by
  have no_digit : Stops Char.isDigit r := fun c h => (Bool.or_eq_false_iff.1 (stops c h)).1
  obtain ⟨d, ds, whole⟩ := List.exists_cons_of_ne_nil l.whole_ne_nil
  cases places : l.places with
  | nil =>
    have cut : (l.whole ++ r).takeWhile Char.isDigit = l.whole :=
      no_digit.takeWhile_append l.whole_digits
    have rest : (l.whole ++ r).dropWhile Char.isDigit = r :=
      no_digit.dropWhile_append l.whole_digits
    rw [Literal.unsigned, places, Literal.pointed, List.append_nil, unsignedNumeral, cut, rest,
      whole]
    split
    · next h => cases h
    · exact absurd (stops '.' rfl) (by decide)
    · rfl
  | cons c cs =>
    have point : Stops Char.isDigit ('.' :: c :: (cs ++ r)) := .cons rfl
    have cut := point.takeWhile_append l.whole_digits
    have rest := point.dropWhile_append l.whole_digits
    have inside : ∀ x ∈ c :: cs, x.isDigit = true := by
      rw [← places]
      exact l.places_digits
    have cut' : (c :: (cs ++ r)).takeWhile Char.isDigit = c :: cs :=
      no_digit.takeWhile_append inside
    have rest' : (c :: (cs ++ r)).dropWhile Char.isDigit = r := no_digit.dropWhile_append inside
    rw [Literal.unsigned, places, Literal.pointed, List.append_assoc, List.cons_append,
      List.cons_append, unsignedNumeral, cut, rest]
    simp only [whole, cut', rest']

/-- **A literal is cut off whole** from a text in which no digit and no point follows it. -/
theorem numeral_literal (l : Literal) (stops : Stops isNumeralRest r) :
    numeral (l.text ++ r) = (l.text, r) := by
  have cut := unsignedNumeral_literal l stops
  have some : l.unsigned ≠ [] := List.append_ne_nil_of_left_ne_nil l.whole_ne_nil _
  rw [Literal.text]
  split
  · rw [List.cons_append, numeral, cut]
    split
    · next h =>
      exact absurd (congrArg Prod.fst h) some
    · next h =>
      cases h
      rfl
  · unfold numeral
    split
    · next s h =>
      obtain ⟨c, cs, spelled⟩ := List.exists_cons_of_ne_nil some
      rw [spelled, List.cons_append] at h
      rw [(List.cons.inj h).1] at spelled
      exact absurd spelled (l.unsigned_ne_sign cs)
    · exact cut

/-- A number is accepted where the longest literal is one. -/
theorem accepts_number {q : Fraction} :
    (number s).Accepts q r ↔
      ∃ text, text ≠ [] ∧ numeral s = (text, r) ∧ Fraction.ofLiteral? text = .ok q := by
  unfold number
  split
  · next rest none =>
    constructor
    · intro h
      exact absurd h Reply.not_accepts_refuse
    · rintro ⟨text, some, cut, -⟩
      exact absurd (congrArg Prod.fst (cut.symm.trans none)) some
  · next c literal rest some =>
    split
    · next value read =>
      rw [Reply.accepts_accept]
      constructor
      · rintro ⟨rfl, rfl⟩
        exact ⟨_, List.cons_ne_nil _ _, some, read⟩
      · rintro ⟨text, -, cut, read'⟩
        obtain ⟨rfl, rfl⟩ := Prod.mk.inj (cut.symm.trans some)
        exact ⟨Except.ok.inj (read.symm.trans read'), rfl⟩
    · next e failed =>
      constructor
      · intro h
        exact absurd h Reply.not_accepts_refuse
      · rintro ⟨text, -, cut, read⟩
        obtain ⟨rfl, rfl⟩ := Prod.mk.inj (cut.symm.trans some)
        cases failed.symm.trans read

/-- A literal is accepted whole. -/
theorem accepts_number_of_ofLiteral? {text : List Char} {q : Fraction}
    (h : Fraction.ofLiteral? text = .ok q) (stops : Stops isNumeralRest r) :
    (number (text ++ r)).Accepts q r := by
  obtain ⟨l, rfl, rfl⟩ := Fraction.ofLiteral?_eq_ok_iff.1 h
  exact accepts_number.2 ⟨l.text, l.text_ne_nil, numeral_literal l stops, h⟩

/-- What is accepted as a number is the fraction of a literal. -/
theorem exists_of_accepts_number {q : Fraction} (h : (number s).Accepts q r) :
    ∃ text, s = text ++ r ∧ Fraction.ofLiteral? text = .ok q := by
  obtain ⟨text, -, cut, read⟩ := accepts_number.1 h
  have parts := numeral_append s
  rw [cut] at parts
  exact ⟨text, parts.symm, read⟩

end Grammar

end RatCalc
