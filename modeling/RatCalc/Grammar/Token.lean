import RatCalc.Operator

/-!
# Tokens

The fixed spellings of the grammar, and what a reader can name as expected at a place where it
could not go on. The opening parenthesis belongs to the spellings of `map` and `reduce`, so that
`map (` does not open a form.

## Main definitions

* `Token.chars`: the spelling of a token.
* `Expected.label`: how an expectation is shown; a token is shown in quotes.
-/

namespace RatCalc

/-- A fixed piece of program text. -/
inductive Token where
  | openGroup
  | closeGroup
  | openSequence
  | closeSequence
  | comma
  | arrow
  | equals
  | quote
  | map
  | reduce
  | var
  | out
  | print
  | operator (op : Operator)
  deriving DecidableEq, Repr

namespace Token

/-- The characters that a token is spelled with. -/
def chars : Token → List Char
  | openGroup => ['(']
  | closeGroup => [')']
  | openSequence => ['{']
  | closeSequence => ['}']
  | comma => [',']
  | arrow => ['-', '>']
  | equals => ['=']
  | quote => ['"']
  | map => ['m', 'a', 'p', '(']
  | reduce => ['r', 'e', 'd', 'u', 'c', 'e', '(']
  | var => ['v', 'a', 'r']
  | out => ['o', 'u', 't']
  | print => ['p', 'r', 'i', 'n', 't']
  | operator op => [op.toChar]

/-- No token is spelled with nothing. -/
theorem chars_length_pos (t : Token) : 0 < t.chars.length := by
  cases t <;> exact Nat.succ_pos _

end Token

/-- What a reader was ready to accept at some place. -/
inductive Expected where
  | token (t : Token)
  | identifier
  | number
  | whitespace
  | newline
  /-- One more character of the text of a `print` statement. -/
  | printedCharacter
  | endOfInput
  deriving DecidableEq, Repr

/-- The text between quotes, with a backslash before each quote inside. -/
def quoted (text : List Char) : List Char :=
  '"' :: text.flatMap (fun c => if c == '"' then ['\\', c] else [c]) ++ ['"']

/-- How an expectation is shown. -/
def Expected.label : Expected → String
  | token t => String.ofList (quoted t.chars)
  | identifier => "identifier"
  | number => "number"
  | whitespace => "whitespace"
  | newline => "newline"
  | printedCharacter => "[^ '\"' | '\\n']"
  | endOfInput => "EOF"

end RatCalc
