import RatCalc.Grammar.Expression
import RatCalc.ParseError
import RatCalc.Program

/-!
# Reading programs

A statement is tried as a binding, as an output, as a printed text and at last as an expression,
so that the words `var`, `out` and `print` are not reserved. Statements are set apart by one line
end or more; empty lines may come first and last.

## Main definitions

* `Grammar.statement`: reads one statement.
* `Grammar.block`: reads statements for as long as they follow one another.
* `Program.parse?`, `Expression.parse?`: read a whole text, or tell where it went wrong.
-/

namespace RatCalc

namespace Grammar

/-- Reads a binding: `var`, a name, an equals sign and an expression. -/
def varStatement (s : List Char) : Reply Statement s :=
  (token .var s).bind fun _ r₁ _ =>
    (whitespace r₁).andThen fun _ r₂ _ =>
      (identifier r₂).andThen fun name r₃ _ =>
        (token .equals r₃).andThen fun _ r₄ _ =>
          (expression 0 r₄).map fun value => .var name value

/-- Reads an output: `out` and an expression. -/
def outStatement (s : List Char) : Reply Statement s :=
  (token .out s).bind fun _ r₁ _ =>
    (whitespace r₁).andThen fun _ r₂ _ =>
      (expression 0 r₂).map fun value => .out value

/-- Whether a printed text may hold this character. -/
def isPrintable (c : Char) : Bool :=
  c != '"' && c != '\n'

/-- Reads the characters of a printed text and the quote that closes it. -/
def printedText (s : List Char) : Reply String s :=
  let stop := s.dropWhile isPrintable
  match h : stop with
  | '"' :: rest =>
    ⟨some ⟨String.ofList (s.takeWhile isPrintable), rest, by
        have := length_dropWhile_le isPrintable s
        simp only [stop] at h
        rw [h, List.length_cons] at this
        omega⟩,
      some ⟨stop.length, [.printedCharacter]⟩⟩
  | _ => ⟨none, some ⟨stop.length, [.printedCharacter, .token .quote]⟩⟩

/-- Reads a text to print: `print` and the text between quotes. -/
def printStatement (s : List Char) : Reply Statement s :=
  (token .print s).andThen fun _ r₁ _ =>
    (token .quote r₁).bind fun _ r₂ _ =>
      (printedText r₂).map fun text => .print text

/-- Reads one statement. -/
def statement (s : List Char) : Reply Statement s :=
  (varStatement s).orElse fun _ =>
    (outStatement s).orElse fun _ =>
      (printStatement s).orElse fun _ =>
        (expression 0 s).map .expression

/-- Statements read from the front of a text, what is left behind them, and the furthest trouble
met on the way. -/
structure Block where
  statements : List Statement
  rest : List Char
  trouble : Option Trouble

/-- Reads statements with line ends between them. Line ends that no statement follows are left in
the rest. -/
def block (s : List Char) : Block :=
  match statement (skipBlanks s) with
  | ⟨none, trouble⟩ => ⟨[], s, trouble⟩
  | ⟨some first, trouble⟩ =>
    match lineEnds first.rest with
    | ⟨none, later⟩ => ⟨[first.value], first.rest, furthest trouble later⟩
    | ⟨some ends, later⟩ =>
      let more := block ends.rest
      let met := furthest (furthest trouble later) more.trouble
      match more.statements with
      | [] => ⟨[first.value], first.rest, met⟩
      | others => ⟨first.value :: others, more.rest, met⟩
termination_by s.length
decreasing_by
  have := length_skipBlanks_le s
  have := first.shorter
  have := ends.shorter
  omega

/-- Skips line ends, if there are any. -/
def skipLineEnds (s : List Char) : List Char × Option Trouble :=
  match lineEnds s with
  | ⟨none, trouble⟩ => (s, trouble)
  | ⟨some ends, trouble⟩ => (ends.rest, trouble)

/-- Skips blanks, but only up to the end of the text. -/
def skipFinalBlanks (s : List Char) : List Char :=
  if (skipBlanks s).isEmpty then [] else s

end Grammar

open Grammar

/-- Reads a whole program. -/
def Program.parse? (source : List Char) : Except ParseError Program :=
  let (start, before) := skipLineEnds source
  let body := block start
  let (stop, behind) := skipLineEnds body.rest
  finishReading source body.statements (skipFinalBlanks stop)
    (furthest (furthest before body.trouble) behind)

/-- Reads a whole text as one expression. -/
def Expression.parse? (source : List Char) : Except ParseError Expression :=
  match Grammar.expression 0 (skipBlanks source) with
  | ⟨none, trouble⟩ =>
    .error (ParseError.ofTrouble source (trouble.getD ⟨source.length, []⟩))
  | ⟨some found, trouble⟩ =>
    finishReading source found.value (skipBlanks found.rest) trouble

end RatCalc
