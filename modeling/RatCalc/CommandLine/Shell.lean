import RatCalc.CommandLine.Options
import RatCalc.Session
import RatCalc.Text.Width

/-!
# Running programs from the command line

A program is given as an argument, read from a file, or typed line by line. Its standard events
are printed to the standard output and its errors to the error output, each on a line of its own.

## Main definitions

* `Printed`: what a run wrote to both outputs and whether it ran without error.
* `Shell.run`: runs one program.
* `Shell.interact`: runs the lines of the standard input one after another.
* `execute`: a whole run of the command line, given the arguments, the files and the input.
-/

namespace RatCalc

/-- What was written to the standard output and to the error output. -/
structure Printed where
  output : String := ""
  errors : String := ""
  deriving DecidableEq, Repr

namespace Printed

instance : Append Printed :=
  ⟨fun first second => ⟨first.output ++ second.output, first.errors ++ second.errors⟩⟩

/-- The line that tells an event. -/
def ofEvent : OutputEvent → Printed
  | .standard text => { output := text ++ "\n" }
  | .error text => { errors := text ++ "\n" }

end Printed

/-- Why a file has no text. -/
inductive ReadFailure where
  | notFound
  | isDirectory
  | notDirectory
  | notText
  deriving DecidableEq, Repr

/-- The cause that is shown for a file without text. -/
def ReadFailure.message : ReadFailure → String
  | notFound => "No such file or directory (os error 2)"
  | isDirectory => "Is a directory (os error 21)"
  | notDirectory => "Not a directory (os error 20)"
  | notText => "stream did not contain valid UTF-8"

/-- The report of a failure outside of any program. -/
def failureReport (context cause : String) : String :=
  "Error: " ++ context ++ "\n\nCaused by:\n    " ++ cause ++ "\n"

/-- The report for a file without text. -/
def fileReport (path : String) (failure : ReadFailure) : String :=
  failureReport ("failed to read `" ++ path ++ "`") failure.message

/-- The report for a line of the standard input that is no text. -/
def inputReport : String :=
  failureReport "failed to read from standard input" ReadFailure.notText.message

/-- The prompt in front of every line that is read. -/
def prompt : String := "> "

/-- A session on the command line. -/
structure Shell where
  session : Session
  dumpTree : Bool

namespace Shell

/-- The shell that options ask for, before it has run anything. -/
def ofOptions (options : Options) : Shell :=
  ⟨{ config := options.config, width := Text.width }, options.dumpTree⟩

/-- The text of a program that is printed before it is run, if it is wanted and the program can be
read. -/
def dump (shell : Shell) (source : String) : Printed :=
  if shell.dumpTree then
    match Program.parse? source.toList with
    | .ok p => { errors := p.print ++ "\n" }
    | .error _ => {}
  else
    {}

/-- Runs one program. The last part of the answer tells whether it ran without error. -/
def run (shell : Shell) (source : String) : Shell × Printed × Bool :=
  let (events, session) := (shell.session.submit source.toList).events
  let printed := events.foldl (fun printed event => printed ++ Printed.ofEvent event)
    (shell.dump source)
  ({ shell with session }, printed, events.all fun
    | .standard _ => true
    | .error _ => false)

/-- Runs the lines of the standard input, with a prompt before each and a line end behind the
last. A line that is no text ends the run. The last part of the answer is the exit code. -/
def interact (shell : Shell) : List (Option String) → Printed × UInt32
  | [] => ({ output := prompt ++ "\n" }, 0)
  | none :: _ => ({ output := prompt, errors := inputReport }, 1)
  | some line :: rest =>
    let (shell, printed, _) := shell.run line
    let (later, code) := shell.interact rest
    (({ output := prompt } : Printed) ++ printed ++ later, code)

end Shell

/-- The bytes without a carriage return at their end. -/
def dropReturnByte (line : List UInt8) : List UInt8 :=
  if line.getLast? = some 13 then line.dropLast else line

/-- The lines of the standard input, without their line ends. A line that is not valid UTF-8 has
no text. -/
def inputLines (bytes : List UInt8) : List (Option String) :=
  if nonempty : bytes = [] then
    []
  else
    let line := bytes.takeWhile (· != 10)
    let rest := bytes.dropWhile (· != 10)
    if rest.isEmpty then
      [String.fromUTF8? ⟨line.toArray⟩]
    else
      String.fromUTF8? ⟨(dropReturnByte line).toArray⟩ :: inputLines rest.tail
termination_by bytes.length
decreasing_by
  have := (List.dropWhile_sublist (· != (10 : UInt8)) (l := bytes)).length_le
  have := List.length_pos_iff.2 nonempty
  rw [List.length_tail]
  omega

/-- The text that is printed for a call for help. -/
def helpText : String :=
  "Evaluate programs over exact fractions and integer sequences\n\n" ++
  "Usage: [-c=SOURCE | -f=PATH] [--precision=DIGITS] [--workers=N] [--parallel-depth=N] " ++
  "[--dump-ast]\n\n" ++
  "Available options:\n" ++
  "    -c=SOURCE             Read the program from the argument\n" ++
  "    -f=PATH               Read the program from a file\n" ++
  "        --precision=DIGITS\n" ++
  "                          Significant digits of non-terminating decimals\n" ++
  "        --workers=N       Workers that a single map may use\n" ++
  "        --parallel-depth=N\n" ++
  "                          Levels of a reduce that fork\n" ++
  "        --dump-ast        Print the parsed program to standard error\n" ++
  "    -h, --help            Prints help information\n"

/-- What is printed when the arguments make no sense. -/
def usageReport : String :=
  "Error: the arguments make no sense, pass --help for usage information\n"

/-- Runs the program of the options, or the lines of the input. -/
def Options.execute (options : Options) (read : String → Except ReadFailure String)
    (input : List UInt8) : Printed × UInt32 :=
  let shell := Shell.ofOptions options
  let once (source : String) : Printed × UInt32 :=
    let (_, printed, succeeded) := shell.run source
    (printed, if succeeded then 0 else 1)
  match options.input with
  | .direct source => once source
  | .file path =>
    match read path with
    | .ok source => once source
    | .error failure => ({ errors := fileReport path failure }, 1)
  | .interactive => shell.interact (inputLines input)

/-- A whole run of the command line: what it prints, and its exit code. -/
def execute (args : List String) (read : String → Except ReadFailure String)
    (input : List UInt8) : Printed × UInt32 :=
  match Request.ofStrings args with
  | .run options => options.execute read input
  | .help => ({ output := helpText }, 0)
  | .refused => ({ errors := usageReport }, 1)

end RatCalc
