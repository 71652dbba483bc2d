import RatCalc.Grammar.Reply

/-!
# Parse errors

Where a text could not be read any further, and what would have been accepted there. A place is
told in three ways: the line, the column in characters, both counted from one, and the offset in
bytes of UTF-8, counted from zero.

## Main definitions

* `ParseError`: a place, the rule that failed and the message.
* `ParseError.ofTrouble`: the error for the furthest trouble that a reader met.
-/

namespace RatCalc

/-- A place in a text and why reading stopped there. -/
structure ParseError where
  line : Nat
  column : Nat
  offset : Nat
  rule : String
  message : String
  deriving DecidableEq, Repr

/-- The number of the line that starts behind this text, counted from one. -/
def lineAfter (before : List Char) : Nat :=
  before.count '\n' + 1

/-- The column of the character behind this text, counted from one in characters. -/
def columnAfter (before : List Char) : Nat :=
  (before.reverse.takeWhile (· != '\n')).length + 1

/-- How many bytes of UTF-8 the text takes. -/
def byteLength (text : List Char) : Nat :=
  text.foldr (fun c n => c.utf8Size + n) 0

/-- What was expected, each once, in the order of the labels. -/
def Trouble.labels (t : Trouble) : List String :=
  (t.expected.map Expected.label).eraseDups.mergeSort fun a b => !(b < a)

/-- The rule that a trouble is filed under. Unread input comes first; a single expectation is its
own rule. -/
def Trouble.rule (t : Trouble) : String :=
  if .endOfInput ∈ t.expected then "end_of_input"
  else match t.labels with
    | [label] => label
    | _ => "choice"

/-- The message for a trouble. -/
def Trouble.message (t : Trouble) : String :=
  if .endOfInput ∈ t.expected then "Expected end of input, but still had input remaining"
  else match t.labels with
    | [label] => "Expected " ++ label
    | labels => "No inputs matched, expected one of: " ++ ", ".intercalate labels

/-- The error for a trouble met in a text. -/
def ParseError.ofTrouble (source : List Char) (t : Trouble) : ParseError :=
  let before := source.take (source.length - t.left)
  { line := lineAfter before
    column := columnAfter before
    offset := byteLength before
    rule := t.rule
    message := t.message }

/-- What a reader of a whole text comes to: `rest` is what it left unread, which has to be
nothing. Unread input is trouble of its own. -/
def finishReading {α : Type} (source : List Char) (value : α) (rest : List Char)
    (trouble : Option Trouble) : Except ParseError α :=
  match rest with
  | [] => .ok value
  | rest =>
    let unread : Trouble := ⟨rest.length, [.endOfInput]⟩
    .error (ParseError.ofTrouble source ((furthest trouble (some unread)).getD unread))

end RatCalc
