import RatCalc.Expression.Printer

/-!
# Programs

A program is a list of statements, one a line.

## Main definitions

* `Statement`: a text to print, a value to print, a binding, or an expression on its own.
* `Program.print`: the text of a program, its statements on lines of their own.
-/

namespace RatCalc

/-- One statement of a program. -/
inductive Statement where
  | print (text : String)
  | out (value : Expression)
  | var (name : Name) (value : Expression)
  | expression (value : Expression)
  deriving DecidableEq

/-- The text of a statement. -/
def Statement.text : Statement → List Char
  | print text => "print \"".toList ++ text.toList ++ ['"']
  | out value => "out ".toList ++ value.text
  | var name value => "var ".toList ++ name.toList ++ " = ".toList ++ value.text
  | expression value => value.text

/-- The statements of a program in the order in which they run. -/
abbrev Program := List Statement

namespace Program

/-- The text of a program, as characters. -/
def text (p : Program) : List Char :=
  ['\n'].intercalate (p.map Statement.text)

/-- The text of a program. -/
def print (p : Program) : String :=
  String.ofList p.text

end Program

end RatCalc
