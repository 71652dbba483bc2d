import Mathlib
import RatCalc.Proofs.Grammar.Numeral

/-!
# The language of decimal literals

A text is read as a fraction exactly if it belongs to a regular language: an optional minus sign, a
run of digits and, optionally, a point with a second run. The reader of programs cuts a literal off
by rules of its own, which accept the same texts, so what it has cut off can always be read.

## Main definitions

* `Literal.pattern`: the regular expression.

## Main results

* `Literal.mem_pattern_iff`: the texts that match are the spellings of literals.
* `Grammar.exists_literal_of_numeral`: what is cut off a text is the spelling of a literal.
* `Fraction.ofLiteral?_exact`: which texts are read, as what, and what becomes of the others.
-/

namespace RatCalc

namespace Literal

open RegularExpression

/-! ### The pattern -/

/-- One of the given characters. -/
def oneOf (cs : List Char) : RegularExpression Char :=
  cs.foldr (fun c p => char c + p) 0

/-- One of the ten digits. -/
def digit : RegularExpression Char :=
  oneOf ['0', '1', '2', '3', '4', '5', '6', '7', '8', '9']

/-- One digit or more. -/
def digits : RegularExpression Char :=
  digit * digit.star

/-- Digits, and optionally a point with digits behind it. -/
def unsignedPattern : RegularExpression Char :=
  digits * (1 + char '.' * digits)

/-- The texts of literals: an optional minus sign in front of digits, and optionally a point with
digits behind them. -/
def pattern : RegularExpression Char :=
  (1 + char '-') * unsignedPattern

variable {s : List Char}

theorem mem_oneOf_iff {cs : List Char} : s ∈ (oneOf cs).matches' ↔ ∃ c ∈ cs, s = [c] := by
  induction cs with
  | nil => simp [oneOf]
  | cons c cs ih =>
    have step : s ∈ (oneOf (c :: cs)).matches' ↔ s = [c] ∨ s ∈ (oneOf cs).matches' := Iff.rfl
    rw [step, ih, List.exists_mem_cons_iff]

/-- The digits are the characters from `0` to `9`. -/
theorem isDigit_iff_mem {c : Char} :
    c.isDigit = true ↔ c ∈ ['0', '1', '2', '3', '4', '5', '6', '7', '8', '9'] := by
  constructor
  · intro h
    obtain ⟨low, high⟩ : 48 ≤ c.toNat ∧ c.toNat ≤ 57 := Char.isDigit_iff_toNat.1 h
    rw [← Char.ofNat_toNat c]
    interval_cases c.toNat <;> decide
  · intro h
    fin_cases h <;> rfl

theorem mem_digit_iff : s ∈ digit.matches' ↔ ∃ c : Char, c.isDigit = true ∧ s = [c] := by
  simp only [isDigit_iff_mem]
  exact mem_oneOf_iff

theorem mem_star_digit_iff : s ∈ digit.star.matches' ↔ ∀ c ∈ s, c.isDigit = true := by
  rw [matches'_star, Language.mem_kstar]
  constructor
  · rintro ⟨parts, rfl, single⟩ c hc
    obtain ⟨part, hp, inside⟩ := List.mem_flatten.1 hc
    obtain ⟨d, digit, rfl⟩ := mem_digit_iff.1 (single part hp)
    exact List.mem_singleton.1 inside ▸ digit
  · intro run
    refine ⟨s.map fun c => [c], (List.flatMap_singleton' s).symm, fun part hp => ?_⟩
    obtain ⟨c, hc, rfl⟩ := List.mem_map.1 hp
    exact mem_digit_iff.2 ⟨c, run c hc, rfl⟩

theorem mem_digits_iff : s ∈ digits.matches' ↔ s ≠ [] ∧ ∀ c ∈ s, c.isDigit = true := by
  rw [digits, matches'_mul, Language.mem_mul]
  constructor
  · rintro ⟨front, hf, rest, hr, rfl⟩
    obtain ⟨d, digit, rfl⟩ := mem_digit_iff.1 hf
    exact ⟨List.cons_ne_nil _ _, List.forall_mem_cons.2 ⟨digit, mem_star_digit_iff.1 hr⟩⟩
  · rintro ⟨some, run⟩
    obtain ⟨d, rest, rfl⟩ := List.exists_cons_of_ne_nil some
    obtain ⟨digit, run⟩ := List.forall_mem_cons.1 run
    exact ⟨[d], mem_digit_iff.2 ⟨d, digit, rfl⟩, rest, mem_star_digit_iff.2 run, rfl⟩

/-- Digits behind the point are written with it. -/
theorem pointed_of_ne_nil {places : List Char} (h : places ≠ []) :
    pointed places = '.' :: places := by
  obtain ⟨c, cs, rfl⟩ := List.exists_cons_of_ne_nil h
  rfl

/-- The point and the places of a literal are optional together. -/
theorem mem_pointed_iff :
    s ∈ (1 + char '.' * digits).matches' ↔
      ∃ places : List Char, (∀ c ∈ places, c.isDigit = true) ∧ pointed places = s := by
  rw [matches'_add, matches'_mul, Language.mem_add, Language.mem_mul]
  constructor
  · rintro (rfl | ⟨_, rfl, places, run, rfl⟩)
    · exact ⟨[], fun _ h => absurd h List.not_mem_nil, rfl⟩
    · obtain ⟨some, run⟩ := mem_digits_iff.1 run
      exact ⟨places, run, pointed_of_ne_nil some⟩
  · rintro ⟨_ | ⟨c, cs⟩, run, rfl⟩
    · exact .inl rfl
    · exact .inr ⟨['.'], rfl, c :: cs, mem_digits_iff.2 ⟨List.cons_ne_nil _ _, run⟩, rfl⟩

/-- Every unsigned spelling goes with either sign. -/
theorem mem_unsignedPattern_iff (negative : Bool) :
    s ∈ unsignedPattern.matches' ↔ ∃ l : Literal, l.negative = negative ∧ l.unsigned = s := by
  rw [unsignedPattern, matches'_mul, Language.mem_mul]
  constructor
  · rintro ⟨whole, hw, rest, hr, rfl⟩
    obtain ⟨some, run⟩ := mem_digits_iff.1 hw
    obtain ⟨places, run', rfl⟩ := mem_pointed_iff.1 hr
    exact ⟨⟨negative, whole, places, some, run, run'⟩, rfl, rfl⟩
  · rintro ⟨l, -, rfl⟩
    exact ⟨l.whole, mem_digits_iff.2 ⟨l.whole_ne_nil, l.whole_digits⟩, _,
      mem_pointed_iff.2 ⟨l.places, l.places_digits, rfl⟩, rfl⟩

/-- **The texts that match the pattern are the spellings of literals.** -/
theorem mem_pattern_iff : s ∈ pattern.matches' ↔ ∃ l : Literal, l.text = s := by
  rw [pattern, matches'_mul, matches'_add, Language.mem_mul]
  constructor
  · rintro ⟨_, rfl | rfl, rest, hr, rfl⟩
    · obtain ⟨l, sign, rfl⟩ := (mem_unsignedPattern_iff false).1 hr
      exact ⟨l, by rw [text, sign]; rfl⟩
    · obtain ⟨l, sign, rfl⟩ := (mem_unsignedPattern_iff true).1 hr
      exact ⟨l, by rw [text, sign]; rfl⟩
  · rintro ⟨l, rfl⟩
    have inside : l.unsigned ∈ unsignedPattern.matches' :=
      (mem_unsignedPattern_iff l.negative).2 ⟨l, rfl, rfl⟩
    unfold text
    split
    · exact ⟨['-'], .inr rfl, _, inside, rfl⟩
    · exact ⟨[], .inl rfl, _, inside, rfl⟩

end Literal

/-! ### The literal at the front of a text -/

namespace Grammar

variable {s r literal : List Char}

/-- What is cut off as an unsigned literal is the spelling of one. -/
theorem exists_literal_of_unsignedNumeral (negative : Bool) (some : literal ≠ [])
    (cut : unsignedNumeral s = (literal, r)) :
    ∃ l : Literal, l.negative = negative ∧ l.unsigned = literal := by
  have run : ∀ c ∈ s.takeWhile Char.isDigit, c.isDigit = true := fun c => List.mem_takeWhile_imp
  unfold unsignedNumeral at cut
  dsimp only at cut
  split at cut
  · exact absurd (congrArg Prod.fst cut).symm some
  · next more _ whole_ne_nil =>
    -- A point with no digits behind it is left in the text.
    have run' : ∀ c ∈ more.takeWhile Char.isDigit, c.isDigit = true :=
      fun c => List.mem_takeWhile_imp
    split at cut
    · cases cut
      exact ⟨⟨negative, _, [], some, run, fun _ h => absurd h List.not_mem_nil⟩, rfl,
        List.append_nil _⟩
    · next places_ne_nil =>
      cases cut
      exact ⟨⟨negative, _, _, whole_ne_nil, run, run'⟩, rfl,
        congrArg (_ ++ ·) (Literal.pointed_of_ne_nil places_ne_nil)⟩
  · cases cut
    exact ⟨⟨negative, _, [], some, run, fun _ h => absurd h List.not_mem_nil⟩, rfl,
      List.append_nil _⟩

/-- **What is cut off as a literal is the spelling of one.** -/
theorem exists_literal_of_numeral (some : literal ≠ []) (cut : numeral s = (literal, r)) :
    ∃ l : Literal, l.text = literal := by
  unfold numeral at cut
  split at cut
  · split at cut
    · exact absurd (congrArg Prod.fst cut).symm some
    · next unsigned rest unsigned_ne_nil inner =>
      cases cut
      obtain ⟨l, sign, rfl⟩ := exists_literal_of_unsignedNumeral true unsigned_ne_nil inner
      exact ⟨l, by rw [Literal.text, if_pos sign]⟩
  · obtain ⟨l, sign, rfl⟩ := exists_literal_of_unsignedNumeral false some cut
    exact ⟨l, by rw [Literal.text, sign]; rfl⟩

/-- The reader of numbers accepts whatever it has cut off as a literal. -/
theorem accepts_number_of_numeral (some : literal ≠ []) (cut : numeral s = (literal, r)) :
    ∃ q, Fraction.ofLiteral? literal = .ok q ∧ (number s).Accepts q r := by
  obtain ⟨l, rfl⟩ := exists_literal_of_numeral some cut
  have read : Fraction.ofLiteral? l.text = .ok l.fraction :=
    Fraction.ofLiteral?_eq_ok_iff.2 ⟨l, rfl, rfl⟩
  exact ⟨l.fraction, read, accepts_number.2 ⟨l.text, some, cut, read⟩⟩

/-- A text is cut off whole if it matches the pattern of literals. -/
theorem numeral_eq_self_iff (some : s ≠ []) :
    numeral s = (s, []) ↔ s ∈ Literal.pattern.matches' := by
  rw [Literal.mem_pattern_iff]
  refine ⟨exists_literal_of_numeral some, ?_⟩
  rintro ⟨l, rfl⟩
  have cut := numeral_literal l (Stops.nil (p := isNumeralRest))
  rwa [List.append_nil] at cut

end Grammar

namespace Fraction

variable {s : List Char}

/-- A text that is not read is no literal. -/
theorem eq_invalidLiteral_of_error {e : FractionError} (h : ofLiteral? s = .error e) :
    e = .invalidLiteral := by
  have unsigned {negative : Bool} {text : List Char} (h : ofUnsigned? negative text = .error e) :
      e = .invalidLiteral := by
    unfold ofUnsigned? at h
    dsimp only at h
    split at h <;> split_ifs at h <;> cases h <;> rfl
  unfold ofLiteral? at h
  split at h
  · exact unsigned h
  · exact unsigned h

/-- The texts that are read are those that match the pattern. -/
theorem exists_ofLiteral?_iff :
    (∃ q, ofLiteral? s = .ok q) ↔ s ∈ Literal.pattern.matches' := by
  rw [Literal.mem_pattern_iff]
  constructor
  · rintro ⟨q, read⟩
    obtain ⟨l, spelled, -⟩ := ofLiteral?_eq_ok_iff.1 read
    exact ⟨l, spelled⟩
  · rintro ⟨l, spelled⟩
    exact ⟨l.fraction, ofLiteral?_eq_ok_iff.2 ⟨l, spelled, rfl⟩⟩

/-- A short text is read as the number that it spells. -/
theorem ofLiteral?_eq_ok_iff_value (short : s.length < scaleBound) {q : Fraction} :
    ofLiteral? s = .ok q ↔ ∃ l : Literal, l.text = s ∧ q.toRat = l.value := by
  rw [ofLiteral?_eq_ok_iff]
  refine exists_congr fun l => and_congr_right ?_
  rintro rfl
  have places : l.places.length < scaleBound :=
    (Nat.le_add_left _ _).trans_lt (l.digitCount_le_length_text.trans_lt short)
  rw [← Literal.toRat_fraction places, toRat_inj, eq_comm]

/-- A text that does not match the pattern is refused. -/
theorem ofLiteral?_eq_error (h : s ∉ Literal.pattern.matches') :
    ofLiteral? s = .error .invalidLiteral := by
  cases read : ofLiteral? s with
  | error e => rw [eq_invalidLiteral_of_error read]
  | ok q => exact absurd (exists_ofLiteral?_iff.1 ⟨q, read⟩) h

/-- **Literals are read exactly.** A text that is shorter than the bound is read if it matches the
pattern `-?[0-9]+(\.[0-9]+)?`, as the fraction in lowest terms of the number that it spells, and
refused as no literal otherwise. The reader of programs cuts a text off whole if it matches the same
pattern, and whatever it cuts off, however long, matches it and is read. -/
theorem ofLiteral?_exact (short : s.length < scaleBound) :
    (∀ q, ofLiteral? s = .ok q ↔ ∃ l : Literal, l.text = s ∧ q.toRat = l.value) ∧
    ((∃ q, ofLiteral? s = .ok q) ↔ s ∈ Literal.pattern.matches') ∧
    (s ∉ Literal.pattern.matches' → ofLiteral? s = .error .invalidLiteral) ∧
    (s ≠ [] → (Grammar.numeral s = (s, []) ↔ s ∈ Literal.pattern.matches')) ∧
    ∀ t literal rest, literal ≠ [] → Grammar.numeral t = (literal, rest) →
      literal ∈ Literal.pattern.matches' ∧
        ∃ q, ofLiteral? literal = .ok q ∧ (Grammar.number t).Accepts q rest := by
  refine ⟨fun q => ofLiteral?_eq_ok_iff_value short, exists_ofLiteral?_iff, ofLiteral?_eq_error,
    Grammar.numeral_eq_self_iff, fun t literal rest some cut => ?_⟩
  exact ⟨Literal.mem_pattern_iff.2 (Grammar.exists_literal_of_numeral some cut),
    Grammar.accepts_number_of_numeral some cut⟩

/-- Zeros at either end do not count, and a second point is refused. -/
theorem ofLiteral?_exact_zeros :
    "-007.250".toList.length < scaleBound ∧ "-007.250".toList ∈ Literal.pattern.matches' ∧
      ofLiteral? "-007.250".toList = .ok ⟨-29, 4, by decide, by decide⟩ ∧
      "1.2.3".toList.length < scaleBound ∧ "1.2.3".toList ∉ Literal.pattern.matches' ∧
      ofLiteral? "1.2.3".toList = .error .invalidLiteral := by
  have short : "-007.250".toList.length < scaleBound := by decide
  have short' : "1.2.3".toList.length < scaleBound := by decide
  have outside : "1.2.3".toList ∉ Literal.pattern.matches' := by decide
  have whole := isDigitRun_iff.1 (by decide : isDigitRun ['0', '0', '7'] = true)
  have places := isDigitRun_iff.1 (by decide : isDigitRun ['2', '5', '0'] = true)
  let l : Literal := ⟨true, _, _, whole.1, whole.2, places.2⟩
  have value : (⟨-29, 4, by decide, by decide⟩ : Fraction).toRat = l.value := by
    have above : Nat.ofDigitChars 10 l.whole 0 = 7 := rfl
    have below : Nat.ofDigitChars 10 l.places 0 = 250 := rfl
    rw [toRat_eq_div, Literal.value, above, below]
    norm_num [l]
  have read := ((ofLiteral?_exact short).1 _).2 ⟨l, rfl, value⟩
  exact ⟨short, (ofLiteral?_exact short).2.1.1 ⟨_, read⟩, read, short', outside,
    (ofLiteral?_exact short').2.2.1 outside⟩

end Fraction

end RatCalc
