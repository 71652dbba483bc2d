import RatCalc.Grammar.Word

/-!
# Reading expressions

An operand is a group in parentheses, a sequence, a `map`, a `reduce`, a literal or a name, tried
in this order. Behind an operand the reader climbs: as long as an operator follows that binds
tightly enough, with an operand that binds more tightly still, the two are joined to the
expression so far. So every operator associates to the left. An operator whose operand cannot be
read is left in the rest, together with the blanks before it.

## Main definitions

* `Grammar.operand`: reads an operand, given a reader for the expressions inside it.
* `Grammar.climb`: joins operators and operands to an expression.
* `Grammar.expression`: reads an expression whose operators bind at least so tightly.
-/

namespace RatCalc

namespace Grammar

/-- A reader for expressions that start behind the front of `s`. -/
abbrev Inner (s : List Char) : Type :=
  (r : List Char) → r.length < s.length → Reply Expression r

/-- Reads an expression in parentheses. -/
def group (s : List Char) (inner : Inner s) : Reply Expression s :=
  (token .openGroup s).andThen fun _ r₁ h₁ =>
    (inner r₁ h₁).andThen fun e r₂ _ =>
      (token .closeGroup r₂).map fun _ => e

/-- Reads a sequence: its two bounds in braces. -/
def sequence (s : List Char) (inner : Inner s) : Reply Expression s :=
  (token .openSequence s).andThen fun _ r₁ h₁ =>
    (inner r₁ h₁).andThen fun first r₂ h₂ =>
      (token .comma r₂).andThen fun _ r₃ h₃ =>
        (inner r₃ (by omega)).andThen fun last r₄ _ =>
          (token .closeSequence r₄).map fun _ => .sequence first last

/-- Reads a `map`: its input, its parameter and its body. -/
def mapForm (s : List Char) (inner : Inner s) : Reply Expression s :=
  (token .map s).andThen fun _ r₁ h₁ =>
    (inner r₁ h₁).andThen fun input r₂ h₂ =>
      (token .comma r₂).andThen fun _ r₃ h₃ =>
        (identifier r₃).andThen fun parameter r₄ h₄ =>
          (token .arrow r₄).andThen fun _ r₅ h₅ =>
            (inner r₅ (by omega)).andThen fun body r₆ _ =>
              (token .closeGroup r₆).map fun _ => .map input parameter body

/-- Reads a `reduce`: its input, its initial value, its two parameters with a blank between
them, and its body. -/
def reduceForm (s : List Char) (inner : Inner s) : Reply Expression s :=
  (token .reduce s).andThen fun _ r₁ h₁ =>
    (inner r₁ h₁).andThen fun input r₂ h₂ =>
      (token .comma r₂).andThen fun _ r₃ h₃ =>
        (inner r₃ (by omega)).andThen fun initial r₄ h₄ =>
          (token .comma r₄).andThen fun _ r₅ h₅ =>
            (identifier r₅).bind fun left r₆ h₆ =>
              (whitespace r₆).andThen fun _ r₇ h₇ =>
                (identifier r₇).andThen fun right r₈ h₈ =>
                  (token .arrow r₈).andThen fun _ r₉ h₉ =>
                    (inner r₉ (by omega)).andThen fun body r₁₀ _ =>
                      (token .closeGroup r₁₀).map fun _ => .reduce input initial left right body

/-- Reads an operand. -/
def operand (s : List Char) (inner : Inner s) : Reply Expression s :=
  (group s inner).orElse fun _ =>
    (sequence s inner).orElse fun _ =>
      (mapForm s inner).orElse fun _ =>
        (reduceForm s inner).orElse fun _ =>
          ((number s).map .number).orElse fun _ =>
            (identifier s).map .identifier

/-- Joins operators and operands to the expression read so far, for as long as they follow.
`tighter` reads an operand whose own operators bind at least as tightly as it is told. -/
def climb (level : Nat) {s : List Char} (tighter : Nat → Inner s) (left : Reading Expression s)
    (trouble : Option Trouble) : Reply Expression s :=
  let next : Reply (Operator × Expression) (skipBlanks left.rest) :=
    (operator level (skipBlanks left.rest)).andThen fun op r h =>
      (tighter (op.precedence + 1) r
        (Nat.lt_trans (Nat.lt_of_lt_of_le h (length_skipBlanks_le left.rest)) left.shorter)).map
        fun right => (op, right)
  match next.reading with
  | none => ⟨some left, furthest trouble next.trouble⟩
  | some ⟨(op, right), rest, shorter⟩ =>
    climb level tighter
      ⟨.operation left.value op right, rest,
        Nat.lt_trans (Nat.lt_of_lt_of_le shorter (length_skipBlanks_le left.rest)) left.shorter⟩
      (furthest trouble next.trouble)
termination_by left.rest.length
decreasing_by exact Nat.lt_of_lt_of_le shorter (length_skipBlanks_le left.rest)

/-- Reads an expression in which every operator outside parentheses binds at least as tightly as
`level`. -/
def expression (level : Nat) (s : List Char) : Reply Expression s :=
  match operand s fun r _ => expression 0 r with
  | ⟨none, trouble⟩ => ⟨none, trouble⟩
  | ⟨some left, trouble⟩ => climb level (fun tighter r _ => expression tighter r) left trouble
termination_by s.length
decreasing_by all_goals assumption

end Grammar

end RatCalc
