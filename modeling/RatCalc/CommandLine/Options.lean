import RatCalc.Evaluation.Basic

/-!
# Command-line options

The arguments are first cut into items: words, flags and the values attached to them. A value is
attached with an equals sign or, to a flag of one letter, directly. A value that stands in the
next argument must not look like a flag; a text that starts with a dash and is no cluster of known
flags does not.

## Main definitions

* `Argument.ofStrings`: the items of the arguments.
* `OptionsSeen.addAll?`: the options, if every item has a meaning and none comes twice.
* `Request.ofStrings`: what the command line asks for.
-/

namespace RatCalc

/-- Where a program comes from. -/
inductive Input where
  | direct (source : String)
  | file (path : String)
  /-- One program for each line of the standard input. -/
  | interactive
  deriving DecidableEq, Repr

/-- The settings of a run. -/
structure Options where
  input : Input := .interactive
  config : Config := {}
  /-- Whether each program is printed before it is run. -/
  dumpTree : Bool := false
  deriving DecidableEq, Repr

/-- An item of the command line. -/
inductive Argument where
  | word (text : String)
  | short (flag : Char)
  | long (flag : String)
  /-- A value attached to the flag before it. -/
  | attached (value : String)
  /-- A word behind a double dash, which is never a flag. -/
  | literal (text : String)
  deriving DecidableEq, Repr

namespace Argument

/-- The letters that are flags by themselves. -/
def plainLetters : List Char := ['h', 'V']

/-- The letters of flags that take a value. -/
def valueLetters : List Char := ['c', 'f']

/-- The items of a cluster of letters: plain flags, then at most one flag with a value, which
takes the remaining letters. With any other letter the whole argument is a word. -/
def ofCluster (whole : String) : List Char → List Argument
  | [] => []
  | c :: rest =>
    if c ∈ plainLetters then
      match ofCluster whole rest with
      | [.word text] => [.word text]
      | items => .short c :: items
    else if c ∈ valueLetters then
      if rest.isEmpty then [.short c] else [.short c, .attached (String.ofList rest)]
    else
      [.word whole]

/-- The items of an argument that starts with one dash. -/
def ofLetters (whole : String) (letters : List Char) : List Argument :=
  match letters with
  | [] => [.word whole]
  | [c] => [.short c]
  | c :: '=' :: value => [.short c, .attached (String.ofList value)]
  | c :: rest =>
    if '=' ∈ rest then [.short c, .attached (String.ofList rest)] else ofCluster whole letters

/-- The items of an argument that starts with two dashes. -/
def ofLongName (text : List Char) : List Argument :=
  let name := String.ofList (text.takeWhile (· != '='))
  match text.dropWhile (· != '=') with
  | [] => [.long name]
  | _ :: value => [.long name, .attached (String.ofList value)]

/-- The items of the arguments. Behind a double dash there are only words. -/
def ofStrings : List String → List Argument
  | [] => []
  | text :: rest =>
    match text.toList with
    | ['-', '-'] => rest.map .literal
    | '-' :: '-' :: name => ofLongName name ++ ofStrings rest
    | '-' :: letters => ofLetters text letters ++ ofStrings rest
    | _ => .word text :: ofStrings rest

/-- Whether an item asks for help. -/
def asksForHelp (a : Argument) : Bool :=
  a == .short 'h' || a == .long "help"

end Argument

/-- A count: digits, perhaps behind a plus sign, with a value that fits a word. -/
def parseCount? (text : String) : Option Nat :=
  let digits := match text.toList with
    | '+' :: rest => rest
    | all => all
  if digits.isEmpty || !digits.all Char.isDigit then none
  else
    let count := Nat.ofDigitChars 10 digits 0
    if count < wordBound then some count else none

/-- The options met so far, each at most once. -/
structure OptionsSeen where
  input : Option Input := none
  precision : Option Nat := none
  workers : Option Nat := none
  parallelDepth : Option Nat := none
  dumpTree : Bool := false

namespace OptionsSeen

/-- Fills a place that has to be empty. -/
def fill? {α : Type} (old : Option α) (value : Option α) : Option (Option α) :=
  match old, value with
  | none, some value => some (some value)
  | _, _ => none

/-- Takes in a flag with its value. -/
def addValue? (seen : OptionsSeen) (flag : Argument) (value : String) : Option OptionsSeen :=
  match flag with
  | .short 'c' => (fill? seen.input (some (.direct value))).map ({ seen with input := · })
  | .short 'f' => (fill? seen.input (some (.file value))).map ({ seen with input := · })
  | .long "precision" =>
    (fill? seen.precision (parseCount? value)).map ({ seen with precision := · })
  | .long "workers" => (fill? seen.workers (parseCount? value)).map ({ seen with workers := · })
  | .long "parallel-depth" =>
    (fill? seen.parallelDepth (parseCount? value)).map ({ seen with parallelDepth := · })
  | _ => none

/-- Takes in items until none is left. -/
def addAll? (seen : OptionsSeen) : List Argument → Option OptionsSeen
  | [] => some seen
  | .long "dump-ast" :: rest =>
    if seen.dumpTree then none else addAll? { seen with dumpTree := true } rest
  | flag :: .word value :: rest => (seen.addValue? flag value).bind (addAll? · rest)
  | flag :: .attached value :: rest => (seen.addValue? flag value).bind (addAll? · rest)
  | _ => none

/-- The options, with the defaults for those that were not met. -/
def toOptions (seen : OptionsSeen) : Options :=
  let defaults : Config := {}
  { input := seen.input.getD .interactive
    config :=
      { precision := seen.precision.getD defaults.precision
        workers := seen.workers.getD defaults.workers
        parallelDepth := seen.parallelDepth.getD defaults.parallelDepth }
    dumpTree := seen.dumpTree }

end OptionsSeen

/-- What a command line asks for. -/
inductive Request where
  | run (options : Options)
  | help
  | refused
  deriving DecidableEq, Repr

/-- What a command line asks for. Options that make sense together are taken first; a call for
help comes before any complaint. -/
def Request.ofStrings (args : List String) : Request :=
  let items := Argument.ofStrings args
  match ({} : OptionsSeen).addAll? items with
  | some seen => .run seen.toOptions
  | none => if items.any Argument.asksForHelp then .help else .refused

end RatCalc
