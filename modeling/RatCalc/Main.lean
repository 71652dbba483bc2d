import RatCalc.CommandLine.Shell

/-!
# The command

Reads the arguments, files and lines that a run asks for and prints what it comes to.

## Main definitions

* `main`: the command.
-/

namespace RatCalc

namespace Command

/-- Writes to both outputs. -/
def write (printed : Printed) : IO Unit := do
  IO.print printed.output
  (← IO.getStdout).flush
  IO.eprint printed.errors

/-- Reads the bytes of the standard input up to a line end, behind those read already. -/
partial def readBytes (input : IO.FS.Stream) (line : ByteArray) : IO ByteArray := do
  let next ← input.read 1
  if next.isEmpty then
    return line
  else if next.toList = [10] then
    return line ++ next
  else
    readBytes input (line ++ next)

/-- Reads a line of the standard input: nothing at its end, and no text if the line is not valid
UTF-8. -/
def readLine : IO (Option (Option String)) := do
  return (inputLines (← readBytes (← IO.getStdin) .empty).toList).head?

/-- Runs lines as they are typed. -/
partial def interact (shell : Shell) : IO UInt32 := do
  write { output := prompt }
  match ← readLine with
  | none =>
    write { output := "\n" }
    return 0
  | some none =>
    write { errors := inputReport }
    return 1
  | some (some line) =>
    let (shell, printed, _) := shell.run line
    write printed
    interact shell

/-- Reads a file. -/
def readFile (path : String) : IO (Except ReadFailure String) := do
  try
    return .ok (← IO.FS.readFile path)
  catch
    | .noFileOrDirectory .. => return .error .notFound
    | .inappropriateType .. => return .error .isDirectory
    | _ => return .error .notText

end Command

end RatCalc

open RatCalc in
/-- Runs the command. -/
def main (args : List String) : IO UInt32 := do
  let finish (answer : Printed × UInt32) : IO UInt32 := do
    Command.write answer.1
    return answer.2
  match Request.ofStrings args with
  | .run options =>
    match options.input with
    | .interactive => Command.interact (Shell.ofOptions options)
    | .file path =>
      let text ← Command.readFile path
      finish (options.execute (fun _ => text) [])
    | .direct _ => finish (options.execute (fun _ => .error .notFound) [])
  | _ => finish (execute args (fun _ => .error .notFound) [])
