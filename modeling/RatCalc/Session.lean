import RatCalc.Evaluation.Basic
import RatCalc.Grammar.Program
import RatCalc.Report

/-!
# Sessions

A session keeps the bindings that its programs make. A submitted program is run on demand: each
pull runs statements until one of them has something to tell. The value of an expression
statement is told only when that statement is the last one, and the first error ends the run. A
canceled submission runs no further statement.

## Main definitions

* `OutputEvent`: a text for the standard output or for the error output.
* `Session.submit`: starts the run of a program.
* `Submission.pull`: the next event, if there is one.
* `Submission.drain`: the events until there are none.
-/

namespace RatCalc

/-- Something that a program tells. -/
inductive OutputEvent where
  | standard (text : String)
  | error (text : String)
  deriving DecidableEq, Repr

/-- What a statement has to tell. -/
inductive Effect where
  | silent
  /-- A text that is told only if no other statement follows. -/
  | provisional (text : String)
  | emit (text : String)
  deriving DecidableEq, Repr

/-- Runs a statement. Only a binding changes the environment. -/
def Statement.run (config : Config) (canceled : Bool) (env : Environment) (s : Statement) :
    Except EvalError (Effect × Environment) :=
  if canceled then
    .error .canceled
  else
    match s with
    | print text => .ok (.emit text, env)
    | out value => do
      return (.emit ((← value.evaluate config canceled env).render config.precision), env)
    | var name value => do
      return (.silent, env.bind name (← value.evaluate config canceled env))
    | expression value => do
      return (.provisional ((← value.evaluate config canceled env).render config.precision), env)

/-- The settings, the display and the bindings that the programs of a session share. -/
structure Session where
  config : Config
  /-- The columns that a text takes on the display. -/
  width : List Char → Nat
  environment : Environment := .empty

/-- A program on its way. -/
structure Submission where
  session : Session
  /-- The statements that have not been run. -/
  statements : List Statement
  /-- The value of the last statement run, if it is told when nothing follows. -/
  provisional : Option String := none
  /-- An event that is told before anything is run. -/
  queued : Option OutputEvent := none
  canceled : Bool := false
  done : Bool := false

/-- Starts the run of a program. One that cannot be read runs nothing and tells why. -/
def Session.submit (session : Session) (source : List Char) : Submission :=
  match Program.parse? source with
  | .ok statements => { session, statements }
  | .error e =>
    { session, statements := []
      queued := some (.error (String.ofList (e.reportOn session.width source))) }

/-- The value that a name is bound to in a session. -/
def Session.lookup? (session : Session) (name : Name) : Option Value :=
  session.environment.lookup? name

namespace Submission

/-- Cancels what has not been run yet. -/
def cancel (s : Submission) : Submission :=
  { s with canceled := true }

/-- How an error is told: whatever it is, a canceled submission was canceled. -/
def describe (s : Submission) (e : EvalError) : String :=
  if s.canceled then EvalError.canceled.message else e.message

/-- Runs the given statements until one of them has something to tell. -/
def advance (s : Submission) : List Statement → Option OutputEvent × Submission
  | [] =>
    (s.provisional.map .standard, { s with statements := [], provisional := none, done := true })
  | statement :: rest =>
    match statement.run s.session.config s.canceled s.session.environment with
    | .error e => (some (.error (s.describe e)), { s with statements := rest, done := true })
    | .ok (effect, environment) =>
      let session := { s.session with environment }
      match effect with
      | .silent => advance { s with session, provisional := none } rest
      | .provisional text => advance { s with session, provisional := some text } rest
      | .emit text =>
        (some (.standard text), { s with session, statements := rest, provisional := none })

/-- The next event, if there is one, and the submission behind it. -/
def pull (s : Submission) : Option OutputEvent × Submission :=
  match s.queued with
  | some event => (some event, { s with queued := none, done := true })
  | none => if s.done then (none, s) else s.advance s.statements

/-- The number of pulls after which a submission has nothing more to tell. -/
def pullBound (s : Submission) : Nat :=
  s.statements.length + 2

/-- The events of at most `count` pulls, up to the first that tells nothing. -/
def drain : (count : Nat) → Submission → List OutputEvent × Submission
  | 0, s => ([], s)
  | count + 1, s =>
    match s.pull with
    | (none, s) => ([], s)
    | (some event, s) =>
      let (events, s) := drain count s
      (event :: events, s)

/-- The events that are left, and the session behind them. -/
def events (s : Submission) : List OutputEvent × Session :=
  let (events, s) := s.drain s.pullBound
  (events, s.session)

end Submission

end RatCalc
