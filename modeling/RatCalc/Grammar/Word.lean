import RatCalc.Fraction.Literal
import RatCalc.Grammar.Reply
import RatCalc.Expression.Basic

/-!
# Words

The readers of single words: tokens, number literals, identifiers, operators, and the blanks and
line ends between them. A minus sign belongs to a literal only when a digit follows at once.

## Main definitions

* `Grammar.token`, `Grammar.number`, `Grammar.identifier`, `Grammar.operator`: the words.
* `Grammar.whitespace`, `Grammar.lineEnd`: what may stand between words and statements.
* `Grammar.numeral`: the longest literal at the front of a text.
-/

namespace RatCalc

namespace Grammar

/-- What follows the given characters, if the text starts with them. -/
def afterChars? : List Char → List Char → Option (List Char)
  | [], s => some s
  | _ :: _, [] => none
  | c :: cs, d :: s => if c == d then afterChars? cs s else none

/-- A text that starts with the given characters is them and what follows them. -/
theorem eq_append_of_afterChars? {cs s r : List Char} (h : afterChars? cs s = some r) :
    s = cs ++ r := by
  fun_induction afterChars? cs s with
  | case1 => simpa using h
  | case2 => simp at h
  | case3 c cs d s hcd ih => simp [ih h, eq_of_beq hcd]
  | case4 => simp at h

/-- Reads a token. -/
def token (t : Token) (s : List Char) : Reply Unit s :=
  match h : afterChars? t.chars s with
  | some r => .accept () r (by
      have := t.chars_length_pos
      rw [eq_append_of_afterChars? h, List.length_append]
      omega)
  | none => .refuse s [.token t]

/-- Whether a name may start with this character. -/
def isNameStart (c : Char) : Bool :=
  c.isAlpha || c == '_'

/-- Whether a name may go on with this character. -/
def isNameRest (c : Char) : Bool :=
  c.isAlphanum || c == '_'

/-- Reads a name: a letter or an underscore, then letters, digits and underscores. -/
def identifier : (s : List Char) → Reply Name s
  | [] => .refuse [] [.identifier]
  | c :: s =>
    if isNameStart c then
      .accept (String.ofList (c :: s.takeWhile isNameRest)) (s.dropWhile isNameRest)
        (Nat.lt_succ_of_le (length_dropWhile_le isNameRest s))
    else
      .refuse (c :: s) [.identifier]

/-- The longest unsigned literal at the front of a text, and the rest; the literal is empty if
there is none. A point counts only with a digit behind it. -/
def unsignedNumeral (s : List Char) : List Char × List Char :=
  let whole := s.takeWhile Char.isDigit
  let rest := s.dropWhile Char.isDigit
  match whole, rest with
  | [], _ => ([], s)
  | whole, '.' :: more =>
    match more.takeWhile Char.isDigit with
    | [] => (whole, rest)
    | places => (whole ++ '.' :: places, more.dropWhile Char.isDigit)
  | whole, rest => (whole, rest)

/-- The longest literal at the front of a text, and the rest; the literal is empty if there is
none. -/
def numeral : List Char → List Char × List Char
  | '-' :: s =>
    match unsignedNumeral s with
    | ([], _) => ([], '-' :: s)
    | (literal, rest) => ('-' :: literal, rest)
  | s => unsignedNumeral s

/-- The longest unsigned literal and the rest make up the text. -/
theorem unsignedNumeral_append (s : List Char) :
    (unsignedNumeral s).1 ++ (unsignedNumeral s).2 = s := by
  have whole : s.takeWhile Char.isDigit ++ s.dropWhile Char.isDigit = s :=
    List.takeWhile_append_dropWhile
  unfold unsignedNumeral
  dsimp only
  split
  · rfl
  · rename_i more rest _
    have places : more.takeWhile Char.isDigit ++ more.dropWhile Char.isDigit = more :=
      List.takeWhile_append_dropWhile
    split
    · exact whole
    · rw [rest] at whole
      simpa [places] using whole
  · exact whole

/-- The longest literal and the rest make up the text. -/
theorem numeral_append (s : List Char) : (numeral s).1 ++ (numeral s).2 = s := by
  unfold numeral
  split
  · next s =>
    have parts := unsignedNumeral_append s
    split
    · rfl
    · next h => simpa [h] using parts
  · exact unsignedNumeral_append _

/-- Reads a number literal. -/
def number (s : List Char) : Reply Fraction s :=
  match h : numeral s with
  | ([], _) => .refuse s [.number]
  | (c :: literal, rest) =>
    match Fraction.ofLiteral? (c :: literal) with
    | .ok value => .accept value rest (by
        have parts := numeral_append s
        rw [h] at parts
        simp only [← parts, List.length_append, List.length_cons]
        omega)
    | .error _ => .refuse s [.number]

/-- The operators that bind at least as tightly as `level`. -/
def operatorsFrom (level : Nat) : List Operator :=
  Operator.all.filter fun op => level ≤ op.precedence

/-- Reads an operator that binds at least as tightly as `level`. -/
def operator (level : Nat) : (s : List Char) → Reply Operator s
  | [] => .refuse [] ((operatorsFrom level).map fun op => .token (.operator op))
  | c :: s =>
    match (operatorsFrom level).find? fun op => op.toChar == c with
    | some op => .accept op s (Nat.lt_succ_self s.length)
    | none => .refuse (c :: s) ((operatorsFrom level).map fun op => .token (.operator op))

/-- Reads one blank or more. -/
def whitespace : (s : List Char) → Reply Unit s
  | [] => .refuse [] [.whitespace]
  | c :: s =>
    if isBlank c then
      .accept () (skipBlanks s) (Nat.lt_succ_of_le (length_skipBlanks_le s))
    else
      .refuse (c :: s) [.whitespace]

/-- Reads the end of a line, which may follow blanks and a carriage return. -/
def lineEnd (s : List Char) : Reply Unit s :=
  match h : skipBlanks s with
  | '\n' :: rest => .accept () rest (by
      have := length_skipBlanks_le s
      rw [h, List.length_cons] at this
      omega)
  | '\r' :: '\n' :: rest => .accept () rest (by
      have := length_skipBlanks_le s
      rw [h, List.length_cons, List.length_cons] at this
      omega)
  | _ => .refuse s [.newline]

/-- Reads one line end or more. -/
def lineEnds (s : List Char) : Reply Unit s :=
  match lineEnd s with
  | ⟨none, trouble⟩ => ⟨none, trouble⟩
  | ⟨some first, trouble⟩ =>
    match lineEnds first.rest with
    | ⟨none, later⟩ => ⟨some first, furthest trouble later⟩
    | ⟨some last, later⟩ => ⟨some (last.widen (Nat.le_of_lt first.shorter)), furthest trouble later⟩
termination_by s.length
decreasing_by exact first.shorter

end Grammar

end RatCalc
