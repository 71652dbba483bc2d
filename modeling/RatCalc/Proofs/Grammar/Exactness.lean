import Mathlib
import RatCalc.Grammar.Program
import RatCalc.Proofs.Grammar.Completeness
import RatCalc.Proofs.Grammar.Soundness

/-!
# The parser of expressions is exact

A whole text is parsed as an expression if the grammar generates the text as this expression, and
only then. A literal has to have fewer digits than the bound of the count of its places for that:
beyond it, the number that is read is not the number that is spelled.

## Main results

* `Expression.parse?_eq_ok_iff`: the parser and the grammar agree, literals taken as they are
  read.
* `Expression.parse?_exact`: the parser and the grammar agree, and every text has one tree at
  most.
-/

namespace RatCalc

open Grammar

/-- A reader of a whole text succeeds if it leaves nothing. -/
theorem finishReading_eq_ok_iff {α : Type} {source : List Char} {value v : α} {rest : List Char}
    {trouble : Option Trouble} :
    finishReading source value rest trouble = .ok v ↔ rest = [] ∧ value = v := by
  cases rest with
  | nil => simp [finishReading]
  | cons c rest => simp [finishReading]

namespace Expression

variable {source : List Char} {e : Expression}

/-- The parser reads an expression behind blanks, with nothing but blanks behind it. -/
theorem parse?_eq_ok_iff_accepts :
    parse? source = .ok e ↔ Inside source e [] := by
  unfold parse? Inside
  split
  · next trouble none =>
    constructor
    · intro h
      cases h
    · rintro ⟨u, ⟨_, h⟩, -⟩
      rw [none] at h
      cases h
  · next found trouble some =>
    rw [finishReading_eq_ok_iff]
    constructor
    · rintro ⟨rest, rfl⟩
      exact ⟨found.rest, ⟨found.shorter, by rw [some]⟩, rest⟩
    · rintro ⟨u, ⟨_, h⟩, rest⟩
      rw [some] at h
      cases h
      exact ⟨rest, rfl⟩

/-- The parser and the grammar agree if literals are taken as they are read. -/
theorem parse?_eq_ok_iff : parse? source = .ok e ↔ Generates Spelled source e := by
  rw [parse?_eq_ok_iff_accepts]
  constructor
  · intro inside
    have sound : ∀ u : List Char, u.length < ('(' :: source).length → Sound u :=
      fun u _ => derives_of_accepts u
    obtain ⟨s, s', derived, around, rfl⟩ :=
      derives_of_inside sound (Nat.lt_succ_self _) inside
    rw [List.append_nil]
    exact ⟨s, around, derived⟩
  · rintro ⟨s, around, derived⟩
    have inside := Reaches.inside derived.reaches derived.solid around Ends.nil
    rwa [List.append_nil] at inside

end Expression

/-- A text that is shorter than the bound holds no literal that is not. -/
theorem NumeralsFit.of_length {source : List Char} (short : source.length < Fraction.scaleBound) :
    NumeralsFit source := by
  intro l inside
  have count := l.digitCount_le_length_text
  have within := inside.length_le
  omega

namespace Expression

/-- **The parser of expressions accepts exactly its grammar and builds the right tree.** What the
grammar generates is parsed as its tree. What is parsed is generated, if the literals in the text
have fewer digits than the bound. So a text has one tree at most. -/
theorem parse?_exact (source : List Char) :
    (∀ e, Generates Numeral source e → parse? source = .ok e) ∧
      (NumeralsFit source → ∀ e, parse? source = .ok e → Generates Numeral source e) ∧
      ∀ e e', Generates Numeral source e → Generates Numeral source e' → e = e' := by
  have complete : ∀ e, Generates Numeral source e → parse? source = .ok e := fun e h =>
    parse?_eq_ok_iff.2 (h.mono fun u q _ numeral => numeral.spelled)
  refine ⟨complete, fun fit e h => ?_, fun e e' h h' => ?_⟩
  · exact (parse?_eq_ok_iff.1 h).mono fun u q inside spelled => spelled.numeral fit inside
  · exact Except.ok.inj ((complete e h).symm.trans (complete e' h'))

/-- Differences associate to the left, and the second sign belongs to the literal. -/
theorem parse?_exact_differences :
    parse? "x - 1 --2.5".toList = .ok
        (operation (operation (identifier "x") .subtract (number 1)) .subtract
          (number ⟨-5, 2, by decide, by decide⟩)) ∧
      Generates Numeral "x - 1 --2.5".toList
        (operation (operation (identifier "x") .subtract (number 1)) .subtract
          (number ⟨-5, 2, by decide, by decide⟩)) := by
  have parsed : parse? "x - 1 --2.5".toList = .ok
      (operation (operation (identifier "x") .subtract (number 1)) .subtract
        (number ⟨-5, 2, by decide, by decide⟩)) := by
    decide +kernel
  exact ⟨parsed, (parse?_exact _).2.1 (.of_length (by decide)) _ parsed⟩

end Expression

end RatCalc
