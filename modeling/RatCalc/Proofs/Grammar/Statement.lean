import Mathlib
import RatCalc.Grammar.Program
import RatCalc.Proofs.Grammar.Reading

/-!
# The forms of statements

What a binding, an output and a printed text are read from, piece by piece.

## Main results

* `Grammar.accepts_varStatement`, `Grammar.accepts_outStatement`,
  `Grammar.accepts_printStatement`: the pieces of the forms.
* `Grammar.accepts_printedText_iff`: a printed text ends in front of a quote.
-/

namespace RatCalc

namespace Grammar

variable {s r : List Char} {st : Statement}

theorem accepts_varStatement :
    (varStatement s).Accepts st r ↔
      ∃ b t name u v value, b ≠ [] ∧ Blanks b ∧ Stops isBlank t ∧
        s = ['v', 'a', 'r'] ++ (b ++ t) ∧ (identifier (skipBlanks t)).Accepts name u ∧
          skipBlanks u = ['='] ++ v ∧ (expression 0 (skipBlanks v)).Accepts value r ∧
            .var name value = st := by
  simp only [varStatement, Reply.accepts_bind, Reply.accepts_andThen, Reply.accepts_map,
    accepts_token, accepts_whitespace, Token.chars, exists_prop]
  constructor
  · rintro ⟨-, t, rfl, -, t', ⟨b, some, blanks, solid, rfl⟩, name, u, named, -, v, equals, value,
      read, rfl⟩
    exact ⟨b, t', name, u, v, value, some, blanks, solid, rfl, named, equals, read, rfl⟩
  · rintro ⟨b, t, name, u, v, value, some, blanks, solid, rfl, named, equals, read, rfl⟩
    exact ⟨(), _, rfl, (), t, ⟨b, some, blanks, solid, rfl⟩, name, u, named, (), v, equals, value,
      read, rfl⟩

theorem accepts_outStatement :
    (outStatement s).Accepts st r ↔
      ∃ b t value, b ≠ [] ∧ Blanks b ∧ Stops isBlank t ∧ s = ['o', 'u', 't'] ++ (b ++ t) ∧
        (expression 0 (skipBlanks t)).Accepts value r ∧ .out value = st := by
  simp only [outStatement, Reply.accepts_bind, Reply.accepts_andThen, Reply.accepts_map,
    accepts_token, accepts_whitespace, Token.chars, exists_prop]
  constructor
  · rintro ⟨-, t, rfl, -, t', ⟨b, some, blanks, solid, rfl⟩, value, read, rfl⟩
    exact ⟨b, t', value, some, blanks, solid, rfl, read, rfl⟩
  · rintro ⟨b, t, value, some, blanks, solid, rfl, read, rfl⟩
    exact ⟨(), _, rfl, (), t, ⟨b, some, blanks, solid, rfl⟩, value, read, rfl⟩

theorem accepts_printStatement :
    (printStatement s).Accepts st r ↔
      ∃ t u text, s = ['p', 'r', 'i', 'n', 't'] ++ t ∧ skipBlanks t = ['"'] ++ u ∧
        (printedText u).Accepts text r ∧ .print text = st := by
  simp only [printStatement, Reply.accepts_bind, Reply.accepts_andThen, Reply.accepts_map,
    accepts_token, Token.chars, exists_prop]
  constructor
  · rintro ⟨-, t, rfl, -, u, quote, text, read, rfl⟩
    exact ⟨t, u, text, rfl, quote, read, rfl⟩
  · rintro ⟨t, u, text, rfl, quote, read, rfl⟩
    exact ⟨(), t, rfl, (), u, quote, text, read, rfl⟩

/-- A printed text ends in front of a quote. -/
theorem accepts_printedText_iff {text : String} {r : List Char} :
    (printedText s).Accepts text r ↔
      s.dropWhile isPrintable = '"' :: r ∧ String.ofList (s.takeWhile isPrintable) = text := by
  unfold printedText
  dsimp only
  split
  · next rest found =>
    constructor
    · rintro ⟨_, h⟩
      cases h
      exact ⟨found, rfl⟩
    · rintro ⟨found', rfl⟩
      obtain rfl : rest = r := (List.cons.inj (found.symm.trans found')).2
      exact ⟨_, rfl⟩
  · next other =>
    constructor
    · rintro ⟨_, h⟩
      cases h
    · rintro ⟨found, -⟩
      exact absurd found (other r)

end Grammar

end RatCalc
