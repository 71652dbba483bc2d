import Mathlib
import RatCalc.Expression.Printer
import RatCalc.Proofs.Grammar.Exactness
import RatCalc.Proofs.Printing.Decimal

/-!
# Reading the text of an expression

The text of an expression is derived as this very expression, and as an atom: every operation
stands in parentheses, so that no operator of the surroundings can reach into it. The literals
have to end as decimals and the names have to be names of the grammar.

## Main definitions

* `Expression.Printable`: what the parts of an expression have to be.

## Main results

* `Expression.derives_text`: the text is derived as the expression.
* `Expression.parse?_text`: reading the text gives the expression back.
-/

namespace RatCalc

/-- A fraction with a decimal expansion that ends, after fewer places than the bound. -/
def Fraction.Terminates (q : Fraction) : Prop :=
  ∃ k < Fraction.scaleBound, q.denominator ∣ 10 ^ k

namespace Expression

/-- All literals have decimal expansions that end, and all names are names of the grammar. -/
def Printable : Expression → Prop
  | number value => value.Terminates
  | identifier name => IsName name.toList
  | sequence first last => first.Printable ∧ last.Printable
  | operation left _ right => left.Printable ∧ right.Printable
  | map input parameter body => input.Printable ∧ IsName parameter.toList ∧ body.Printable
  | reduce input initial left right body =>
    input.Printable ∧ initial.Printable ∧ IsName left.toList ∧ IsName right.toList ∧ body.Printable

/-! ### The text of every form, in the pieces that the grammar takes it apart into -/

/-- The text of a sequence. -/
theorem text_sequence (first last : Expression) : (sequence first last).text =
    ['{'] ++ first.text ++ [','] ++ ' ' :: last.text ++ ['}'] := by
  have written : (sequence first last).text =
      '{' :: (first.text ++ ", ".toList ++ last.text ++ ['}']) := rfl
  simpa using written

/-- The text of an operation. -/
theorem text_operation (left : Expression) (op : Operator) (right : Expression) :
    (operation left op right).text =
      ['('] ++ (left.text ++ ' ' :: ([op.toChar] ++ [' ']) ++ right.text) ++ [')'] := by
  have written : (operation left op right).text =
      '(' :: (left.text ++ ' ' :: op.toChar :: ' ' :: (right.text ++ [')'])) := rfl
  simpa using written

/-- The text of a map. -/
theorem text_map (input : Expression) (parameter : String) (body : Expression) :
    (map input parameter body).text =
      ['m', 'a', 'p', '('] ++ input.text ++ [','] ++ ' ' :: (parameter.toList ++ [' ']) ++
        ['-', '>'] ++ ' ' :: body.text ++ [')'] := by
  have written : (map input parameter body).text =
      "map(".toList ++ input.text ++ ", ".toList ++ parameter.toList ++ " -> ".toList ++
        body.text ++ [')'] := rfl
  simpa using written

/-- The text of a reduction. -/
theorem text_reduce (input initial : Expression) (left right : String) (body : Expression) :
    (reduce input initial left right body).text =
      ['r', 'e', 'd', 'u', 'c', 'e', '('] ++ input.text ++ [','] ++ ' ' :: initial.text ++ [','] ++
        ' ' :: (left.toList ++ [' '] ++ right.toList ++ [' ']) ++ ['-', '>'] ++
          ' ' :: body.text ++ [')'] := by
  have written : (reduce input initial left right body).text =
      "reduce(".toList ++ input.text ++ ", ".toList ++ initial.text ++ ", ".toList ++
        left.toList ++ ' ' :: right.toList ++ " -> ".toList ++ body.text ++ [')'] := rfl
  simpa using written

/-! ### The derivation -/

/-- A text without blanks around it. -/
theorem around_self (s : List Char) : Around s s :=
  ⟨[], [], .nil, .nil, by simp⟩

/-- A text behind a space. -/
theorem around_space_before (s : List Char) : Around s (' ' :: s) :=
  ⟨[' '], [], .space, .nil, by simp⟩

/-- A text between two spaces. -/
theorem around_spaces (s : List Char) : Around s (' ' :: (s ++ [' '])) :=
  ⟨[' '], [' '], .space, .space, by simp⟩

/-- **The text of an expression is derived as the expression**, and as an atom. -/
theorem derives_text {e : Expression} (h : e.Printable) : Derives Spelled .atom e.text e := by
  induction e with
  | number value =>
    obtain ⟨k, small, divides⟩ := h
    exact .number (Fraction.ofLiteral?_decimal divides small literalDigits)
  | identifier name => exact .identifier h
  | sequence first last ihf ihl =>
    rw [text_sequence]
    exact .sequence ((ihf h.1).loosen (by decide)) (around_self _) ((ihl h.2).loosen (by decide))
      (around_space_before _)
  | operation left op right ihl ihr =>
    have inner := Derives.operation ((ihl h.1).loosen op.level.le_atom)
      (around_spaces [op.toChar]) ((ihr h.2).loosen op.level.tighter.le_atom)
    rw [text_operation]
    exact .group (inner.loosen op.level.sum_le) (around_self _)
  | map input parameter body ihi ihb =>
    rw [text_map]
    exact .map ((ihi h.1).loosen (by decide)) (around_self _) h.2.1 (around_spaces _)
      ((ihb h.2.2).loosen (by decide)) (around_space_before _)
  | reduce input initial left right body ihi ihs ihb =>
    obtain ⟨hi, hs, isLeft, isRight, hb⟩ := h
    rw [text_reduce]
    exact .reduce ((ihi hi).loosen (by decide)) (around_self _) ((ihs hs).loosen (by decide))
      (around_space_before _) isLeft isRight (List.cons_ne_nil _ _) .space (around_spaces _)
      ((ihb hb).loosen (by decide)) (around_space_before _)

/-- Reading the text of an expression gives the expression back. -/
theorem parse?_text {e : Expression} (h : e.Printable) : parse? e.text = .ok e :=
  parse?_eq_ok_iff.2 ⟨e.text, around_self e.text, (derives_text h).loosen (by decide)⟩

end Expression

end RatCalc
