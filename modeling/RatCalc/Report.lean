import RatCalc.ParseError

/-!
# Reports of parse errors

A report shows the place and the message of a parse error, the line at fault behind a gutter with
its number, and below it a caret under the failing character. Tabs are shown as three blanks, and
the caret is placed by display width. How many columns a text takes depends on the display.

## Main definitions

* `ParseError.summary`: the place, the rule and the message.
* `ParseError.reportOn`: the whole report.
-/

namespace RatCalc

/-- The line with this index, counted from zero; a line past the end is empty. -/
def lineAt : Nat → List Char → List Char
  | 0, s => s.takeWhile (· != '\n')
  | n + 1, s =>
    match s.dropWhile (· != '\n') with
    | [] => []
    | _ :: rest => lineAt n rest

/-- The line without the carriage return at its end, if it has one. -/
def dropCarriageReturn (line : List Char) : List Char :=
  if line.getLast? = some '\r' then line.dropLast else line

/-- The text with three blanks for each tab. -/
def expandTabs (text : List Char) : List Char :=
  text.flatMap fun c => if c == '\t' then [' ', ' ', ' '] else [c]

namespace ParseError

/-- The place and the rule of an error, and its message. -/
def summary (e : ParseError) : List Char :=
  "Parse error at ".toList ++ Nat.toDigits 10 e.line ++ ':' :: Nat.toDigits 10 e.column ++
    " (".toList ++ e.rule.toList ++ ")\n\n".toList ++ e.message.toList

/-- The line number and the bar in front of the line at fault. -/
def gutter (e : ParseError) : List Char :=
  Nat.toDigits 10 e.line ++ ['|']

/-- The report of an error in a text, for a display on which texts take these columns. -/
def reportOn (width : List Char → Nat) (source : List Char) (e : ParseError) : List Char :=
  let line := dropCarriageReturn (lineAt (e.line - 1) source)
  let before := line.take (e.column - 1)
  let indent := width e.gutter + width (expandTabs before)
  e.summary ++ "\n\n".toList ++ e.gutter ++ expandTabs line ++
    '\n' :: List.replicate indent '>' ++ ['^']

end ParseError

end RatCalc
