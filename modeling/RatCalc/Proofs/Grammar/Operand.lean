import Mathlib
import RatCalc.Proofs.Grammar.Climbing
import RatCalc.Proofs.Grammar.Derivation

/-!
# Reading operands

The forms with brackets are described by the pieces between their tokens. A piece is an
expression, a parameter or a pair of parameters, with the blanks around it. Which form is read is
settled by the first characters of the text.

## Main definitions

* `Grammar.Inside`: an expression is read as a piece, up to the token behind it.
* `Grammar.Parameter`, `Grammar.Parameters`: one parameter or two are read as a piece.

## Main results

* `Grammar.accepts_group`, `Grammar.accepts_sequence`, `Grammar.accepts_mapForm`,
  `Grammar.accepts_reduceForm`: the pieces of the forms.
* `Grammar.parameter_iff`, `Grammar.parameters_iff`: the texts of parameters.
-/

namespace RatCalc

/-! ### Texts with blanks around them -/

/-- What is found behind blanks, up to what is found behind the next blanks. -/
theorem around_of_skipBlanks {s t u : List Char} (h : skipBlanks t = s ++ u) :
    ∃ s', Around s s' ∧ t = s' ++ skipBlanks u := by
  obtain ⟨front, blanks, ht⟩ := exists_blanks_append_skipBlanks t
  obtain ⟨back, blanks', hu⟩ := exists_blanks_append_skipBlanks u
  refine ⟨front ++ s ++ back, ⟨front, back, blanks, blanks', rfl⟩, ?_⟩
  rw [List.append_assoc, ← hu, List.append_assoc, ← h, ← ht]

/-- A text that starts with a character other than a blank. -/
def Solid (s : List Char) : Prop :=
  ∃ c cs, s = c :: cs ∧ isBlank c = false

namespace Solid

variable {s : List Char}

theorem stops (h : Solid s) : Stops isBlank s := by
  obtain ⟨c, cs, rfl, solid⟩ := h
  exact .cons solid

theorem append (h : Solid s) (t : List Char) : Solid (s ++ t) := by
  obtain ⟨c, cs, rfl, solid⟩ := h
  exact ⟨c, cs ++ t, rfl, solid⟩

end Solid

/-- The blanks around a text are skipped. -/
theorem Around.skipBlanks_append {s s' r : List Char} (h : Around s s') (solid : Solid s)
    (stops : Stops isBlank r) :
    ∃ b, Blanks b ∧ skipBlanks (s' ++ r) = s ++ (b ++ r) ∧ skipBlanks (b ++ r) = r := by
  obtain ⟨front, back, blanks, blanks', rfl⟩ := h
  refine ⟨back, blanks', ?_, RatCalc.skipBlanks_append blanks' stops⟩
  rw [List.append_assoc, List.append_assoc]
  exact RatCalc.skipBlanks_append blanks (solid.append _).stops

/-- A text with blanks in front does not start with a character that is no blank. -/
theorem Stops.blanks_append {p : Char → Bool} {b r : List Char} (blanks : Blanks b)
    (other : ∀ c, isBlank c = true → p c = false) (stops : Stops p r) : Stops p (b ++ r) := by
  cases b with
  | nil => exact stops
  | cons c b => exact .cons (other c (blanks c List.mem_cons_self))

/-- A name does not start with a blank. -/
theorem IsName.solid {name : List Char} (h : IsName name) : Solid name := by
  obtain ⟨c, cs, rfl, -, -⟩ := id h
  exact ⟨c, cs, rfl, Grammar.isBlank_of_isNameRest (h.inside c List.mem_cons_self)⟩

namespace Grammar

variable {s t r : List Char} {e : Expression}

/-! ### The forms -/

/-- An expression is read behind blanks, and blanks are skipped behind it. -/
def Inside (t : List Char) (e : Expression) (r : List Char) : Prop :=
  ∃ u, (expression 0 (skipBlanks t)).Accepts e u ∧ skipBlanks u = r

theorem accepts_group :
    (group s fun r _ => expression 0 r).Accepts e r ↔
      ∃ t, s = ['('] ++ t ∧ Inside t e (')' :: r) := by
  simp only [group, Reply.accepts_andThen, Reply.accepts_map, accepts_token, Token.chars, Inside,
    exists_prop]
  constructor
  · rintro ⟨-, t, rfl, e, u, inner, -, closed, rfl⟩
    exact ⟨t, rfl, u, inner, closed⟩
  · rintro ⟨t, rfl, u, inner, closed⟩
    exact ⟨(), t, rfl, e, u, inner, (), closed, rfl⟩

theorem accepts_sequence :
    (sequence s fun r _ => expression 0 r).Accepts e r ↔
      ∃ x y t u, s = ['{'] ++ t ∧ Inside t x (',' :: u) ∧ Inside u y ('}' :: r) ∧
        e = .sequence x y := by
  simp only [sequence, Reply.accepts_andThen, Reply.accepts_map, accepts_token, Token.chars,
    Inside, exists_prop]
  constructor
  · rintro ⟨-, t, rfl, x, v, first, -, u, comma, y, w, last, -, closed, rfl⟩
    exact ⟨x, y, t, u, rfl, ⟨v, first, comma⟩, ⟨w, last, closed⟩, rfl⟩
  · rintro ⟨x, y, t, u, rfl, ⟨v, first, comma⟩, ⟨w, last, closed⟩, rfl⟩
    exact ⟨(), t, rfl, x, v, first, (), u, comma, y, w, last, (), closed, rfl⟩

/-- A parameter is read behind blanks, and blanks are skipped behind it. -/
def Parameter (t : List Char) (name : Name) (r : List Char) : Prop :=
  ∃ u, (identifier (skipBlanks t)).Accepts name u ∧ skipBlanks u = r

/-- Two parameters are read with a blank between them. -/
def Parameters (t : List Char) (left right : Name) (r : List Char) : Prop :=
  ∃ u v, (identifier (skipBlanks t)).Accepts left u ∧ (whitespace u).Accepts () v ∧
    Parameter v right r

theorem accepts_mapForm :
    (mapForm s fun r _ => expression 0 r).Accepts e r ↔
      ∃ x parameter y t u v, s = ['m', 'a', 'p', '('] ++ t ∧ Inside t x (',' :: u) ∧
        Parameter u parameter ('-' :: '>' :: v) ∧ Inside v y (')' :: r) ∧
          e = .map x parameter y := by
  simp only [mapForm, Reply.accepts_andThen, Reply.accepts_map, accepts_token, Token.chars,
    Inside, Parameter, exists_prop]
  constructor
  · rintro ⟨-, t, rfl, x, a, input, -, u, comma, parameter, b, name, -, v, arrow, y, c, body, -,
      closed, rfl⟩
    exact ⟨x, parameter, y, t, u, v, rfl, ⟨a, input, comma⟩, ⟨b, name, arrow⟩, ⟨c, body, closed⟩,
      rfl⟩
  · rintro ⟨x, parameter, y, t, u, v, rfl, ⟨a, input, comma⟩, ⟨b, name, arrow⟩, ⟨c, body, closed⟩,
      rfl⟩
    exact ⟨(), t, rfl, x, a, input, (), u, comma, parameter, b, name, (), v, arrow, y, c, body, (),
      closed, rfl⟩

theorem accepts_reduceForm :
    (reduceForm s fun r _ => expression 0 r).Accepts e r ↔
      ∃ x i left right y t u v w, s = ['r', 'e', 'd', 'u', 'c', 'e', '('] ++ t ∧
        Inside t x (',' :: u) ∧ Inside u i (',' :: v) ∧
          Parameters v left right ('-' :: '>' :: w) ∧ Inside w y (')' :: r) ∧
            e = .reduce x i left right y := by
  simp only [reduceForm, Reply.accepts_andThen, Reply.accepts_bind, Reply.accepts_map,
    accepts_token, Token.chars, Inside, Parameter, Parameters, exists_prop]
  constructor
  · rintro ⟨-, t, rfl, x, a, input, -, u, comma, i, b, initial, -, v, comma', left, c, first, ⟨⟩, d,
      blanks, right, f, second, -, w, arrow, y, g, body, -, closed, rfl⟩
    exact ⟨x, i, left, right, y, t, u, v, w, rfl, ⟨a, input, comma⟩, ⟨b, initial, comma'⟩,
      ⟨c, d, first, blanks, f, second, arrow⟩, ⟨g, body, closed⟩, rfl⟩
  · rintro ⟨x, i, left, right, y, t, u, v, w, rfl, ⟨a, input, comma⟩, ⟨b, initial, comma'⟩,
      ⟨c, d, first, blanks, f, second, arrow⟩, ⟨g, body, closed⟩, rfl⟩
    exact ⟨(), t, rfl, x, a, input, (), u, comma, i, b, initial, (), v, comma', left, c, first, (),
      d, blanks, right, f, second, (), w, arrow, y, g, body, (), closed, rfl⟩

/-! ### Parameters -/

/-- A parameter in front of an arrow is a name with blanks around it. -/
theorem parameter_iff {name : Name} {v : List Char} :
    Parameter t name ('-' :: '>' :: v) ↔
      IsName name.toList ∧ ∃ p, Around name.toList p ∧ t = p ++ ['-', '>'] ++ v := by
  constructor
  · rintro ⟨u, accepted, arrow⟩
    obtain ⟨isName, -, spelled⟩ := accepts_identifier.1 accepted
    obtain ⟨p, around, rfl⟩ := around_of_skipBlanks spelled
    rw [arrow]
    exact ⟨isName, p, around, by simp⟩
  · rintro ⟨isName, p, around, rfl⟩
    have stops : Stops isBlank ('-' :: '>' :: v) := .cons rfl
    obtain ⟨b, blanks, front, back⟩ := around.skipBlanks_append isName.solid stops
    refine ⟨b ++ '-' :: '>' :: v, accepts_identifier.2 ⟨isName, ?_, ?_⟩, back⟩
    · exact Stops.blanks_append blanks isNameRest_of_isBlank (.cons rfl)
    · rw [← front, List.append_assoc]
      rfl

/-- Two parameters in front of an arrow are two names with blanks between and around them. -/
theorem parameters_iff {left right : Name} {v : List Char} :
    Parameters t left right ('-' :: '>' :: v) ↔
      IsName left.toList ∧ IsName right.toList ∧ ∃ b p, b ≠ [] ∧ Blanks b ∧
        Around (left.toList ++ b ++ right.toList) p ∧ t = p ++ ['-', '>'] ++ v := by
  constructor
  · rintro ⟨u, w, accepted, between, x, accepted', arrow⟩
    obtain ⟨isLeft, -, spelled⟩ := accepts_identifier.1 accepted
    obtain ⟨b, some, blanks, solid, rfl⟩ := accepts_whitespace.1 between
    obtain ⟨isRight, -, spelled'⟩ := accepts_identifier.1 accepted'
    rw [skipBlanks_of_stops solid] at spelled'
    rw [spelled', ← List.append_assoc, ← List.append_assoc] at spelled
    obtain ⟨p, around, rfl⟩ := around_of_skipBlanks spelled
    rw [arrow]
    exact ⟨isLeft, isRight, b, p, some, blanks, around, by simp⟩
  · rintro ⟨isLeft, isRight, b, p, some, blanks, around, rfl⟩
    have stops : Stops isBlank ('-' :: '>' :: v) := .cons rfl
    obtain ⟨b', blanks', front, back⟩ :=
      around.skipBlanks_append ((isLeft.solid.append _).append _) stops
    obtain ⟨c, cs, rfl⟩ := List.exists_cons_of_ne_nil some
    refine ⟨c :: cs ++ (right.toList ++ (b' ++ '-' :: '>' :: v)),
      right.toList ++ (b' ++ '-' :: '>' :: v), accepts_identifier.2 ⟨isLeft, ?_, ?_⟩,
      accepts_whitespace.2 ⟨c :: cs, some, blanks, (isRight.solid.append _).stops, rfl⟩,
      b' ++ '-' :: '>' :: v, accepts_identifier.2 ⟨isRight, ?_, ?_⟩, back⟩
    · exact .cons (isNameRest_of_isBlank c (blanks c List.mem_cons_self))
    · rw [← List.append_assoc, ← List.append_assoc, ← front, List.append_assoc]
      rfl
    · exact Stops.blanks_append blanks' isNameRest_of_isBlank (.cons rfl)
    · exact skipBlanks_of_stops (isRight.solid.append _).stops

end Grammar

end RatCalc
