import Mathlib
import RatCalc.Session

/-!
# Programs are run on demand

The reference run of a program executes its statements in order until one of them fails. What it
tells is told by a submission one event a pull, and no pull executes a statement that is not
needed for its event. So after any number of pulls the bindings are those of the shortest prefix
of the program that tells as many events, and the statements behind it have not been executed.

## Main definitions

* `Statement.execute`: what one statement tells and which bindings it leaves.
* `Program.upTo`: the reference run of the first statements of a program.
* `Submission.after`: a submission after a number of pulls.
* `Submission.Follows`: a submission has come as far as that number of pulls asks for.

## Main results

* `Submission.follows_advance`: one pull, and all pulls behind it.
* `Session.submit_follows`: a submission follows the reference run of its program.
-/

namespace RatCalc

/-! ### The reference run -/

/-- What a statement tells, and the bindings that it leaves. The value of an expression is told
only if the statement is the last one. -/
def Statement.execute (config : Config) (env : Environment) (last : Bool) :
    Statement → Except EvalError (List OutputEvent × Environment)
  | print text => .ok ([.standard text], env)
  | out value => do
    let v ← value.evaluate config false env
    return ([.standard (v.render config.precision)], env)
  | var name value => do
    let v ← value.evaluate config false env
    return ([], env.bind name v)
  | expression value => do
    let v ← value.evaluate config false env
    return (if last then [.standard (v.render config.precision)] else [], env)

/-- How far a run has come. -/
structure Progress where
  /-- What has been told, the first event first. -/
  events : List OutputEvent
  environment : Environment
  /-- Whether every statement has been executed or one of them has failed. -/
  ended : Bool

namespace Program

/-- The run of the first `count` statements of a program. A failure is told and ends it. -/
def upTo (config : Config) : Environment → Program → (count : ℕ) → Progress
  | env, [], _ => ⟨[], env, true⟩
  | env, _ :: _, 0 => ⟨[], env, false⟩
  | env, s :: rest, count + 1 =>
    match s.execute config env rest.isEmpty with
    | .error e => ⟨[.error e.message], env, true⟩
    | .ok (events, env') =>
      let r := upTo config env' rest count
      { r with events := events ++ r.events }

/-- No shorter part of a program tells `k` events than its first `count` statements. -/
def Shortest (config : Config) (env : Environment) (p : Program) (k count : ℕ) : Prop :=
  k ≤ (p.upTo config env count).events.length ∧
    ∀ m, k ≤ (p.upTo config env m).events.length → count ≤ m

/-- The whole run of a program. -/
def run (config : Config) (env : Environment) (p : Program) : Progress :=
  p.upTo config env p.length

end Program

/-! ### Submissions that follow it -/

namespace Submission

/-- A submission after a number of pulls. -/
def after : ℕ → Submission → Submission
  | 0, s => s
  | k + 1, s => after k s.pull.2

/-- Where a submission of a program stands after `k` pulls. -/
structure Follows (config : Config) (width : List Char → ℕ) (env : Environment) (p : Program)
    (k : ℕ) (s : Submission) : Prop where
  /-- The next pull tells the next event of the run. -/
  next : s.pull.1 = (p.run config env).events[k]?
  /-- No more statements have been executed than the `k` events ask for. -/
  within : k ≤ (p.run config env).events.length →
    ∃ n, p.Shortest config env k n ∧
      s.session = ⟨config, width, (p.upTo config env n).environment⟩ ∧ s.statements = p.drop n
  /-- A pull without an event has executed the whole run, and no later pull does anything. -/
  behind : (p.run config env).events.length < k →
    s.session = ⟨config, width, (p.run config env).environment⟩ ∧ s.pull = (none, s)

/-- A submission that is done stays as it is. -/
theorem pull_of_done {s : Submission} (queued : s.queued = none) (done : s.done = true) :
    s.pull = (none, s) := by
  simp [pull, queued, done]

theorem after_of_done {s : Submission} (queued : s.queued = none) (done : s.done = true) (k : ℕ) :
    s.after k = s := by
  induction k with
  | zero => rfl
  | succ k ih => rw [after, pull_of_done queued done, ih]

end Submission

section Steps

variable {config : Config} {env : Environment}

/-- What the run of a statement gives, in the terms of the reference run. -/
def Effect.events (last : Bool) : Effect → List OutputEvent
  | silent => []
  | provisional text => if last then [.standard text] else []
  | emit text => [.standard text]

theorem Effect.length_events_le (effect : Effect) (last : Bool) :
    (effect.events last).length ≤ 1 := by
  cases effect with
  | silent | emit => simp [events]
  | provisional => cases last <;> simp [events]

/-- A statement is run as the reference run executes it. -/
theorem Statement.execute_eq_map_run (s : Statement) (last : Bool) :
    s.execute config env last =
      (s.run config false env).map fun r => (r.1.events last, r.2) := by
  cases s with
  | print text => rfl
  | out value | var name value | expression value =>
    cases h : value.evaluate config false env <;> simp [execute, run, h] <;> rfl

namespace Program

variable {s : Statement} {rest : Program}

theorem upTo_nil (count : ℕ) : upTo config env [] count = ⟨[], env, true⟩ := by
  cases count <;> rfl

theorem upTo_cons_of_error {e : EvalError} (h : s.run config false env = .error e) (count : ℕ) :
    upTo config env (s :: rest) (count + 1) = ⟨[.error e.message], env, true⟩ := by
  rw [upTo, Statement.execute_eq_map_run, h]
  rfl

theorem upTo_cons_of_ok {effect : Effect} {env' : Environment}
    (h : s.run config false env = .ok (effect, env')) (count : ℕ) :
    upTo config env (s :: rest) (count + 1) =
      { upTo config env' rest count with
        events := effect.events rest.isEmpty ++ (upTo config env' rest count).events } := by
  rw [upTo, Statement.execute_eq_map_run, h]
  rfl

theorem run_cons_of_ok {effect : Effect} {env' : Environment}
    (h : s.run config false env = .ok (effect, env')) :
    Program.run config env (s :: rest) =
      { Program.run config env' rest with
        events := effect.events rest.isEmpty ++ (Program.run config env' rest).events } :=
  upTo_cons_of_ok h rest.length

/-- Nothing has been told before the first statement. -/
theorem upTo_zero (p : Program) : (upTo config env p 0).events = [] := by
  cases p <;> rfl

/-- A run that has ended is not continued. -/
theorem upTo_of_ended {p : Program} {n : ℕ} (h : (upTo config env p n).ended = true) {m : ℕ}
    (le : n ≤ m) : upTo config env p m = upTo config env p n := by
  induction p generalizing env n m with
  | nil => rw [upTo_nil, upTo_nil]
  | cons s rest ih =>
    cases n with
    | zero => cases h
    | succ n =>
      obtain ⟨m, rfl⟩ := Nat.exists_eq_succ_of_ne_zero (by omega : m ≠ 0)
      cases run : s.run config false env with
      | error e => rw [upTo_cons_of_error run, upTo_cons_of_error run]
      | ok r =>
        rw [upTo_cons_of_ok run] at h
        rw [upTo_cons_of_ok run, upTo_cons_of_ok run, ih h (by omega)]

/-- A run of all statements has ended. -/
theorem ended_of_length_le {p : Program} {n : ℕ} (h : p.length ≤ n) :
    (upTo config env p n).ended = true := by
  induction p generalizing env n with
  | nil => rw [upTo_nil]
  | cons s rest ih =>
    obtain ⟨n, rfl⟩ := Nat.exists_eq_succ_of_ne_zero (Nat.ne_zero_of_lt h)
    cases run : s.run config false env with
    | error e => rw [upTo_cons_of_error run]
    | ok r =>
      rw [upTo_cons_of_ok run]
      exact ih (Nat.le_of_succ_le_succ h)

/-- A run that has ended is the whole run. -/
theorem upTo_eq_run_of_ended {p : Program} {n : ℕ} (h : (upTo config env p n).ended = true) :
    upTo config env p n = p.run config env := by
  rcases le_total n p.length with le | le
  · exact (upTo_of_ended h le).symm
  · exact upTo_of_ended (ended_of_length_le le_rfl) le

/-- A statement tells one event at most. -/
theorem length_upTo_succ_le (p : Program) (n : ℕ) :
    (upTo config env p (n + 1)).events.length ≤ (upTo config env p n).events.length + 1 := by
  induction p generalizing env n with
  | nil => simp [upTo_nil]
  | cons s rest ih =>
    cases run : s.run config false env with
    | error e => simp [upTo_cons_of_error run]
    | ok r =>
      obtain ⟨effect, env'⟩ := r
      cases n with
      | zero =>
        simpa [upTo_cons_of_ok run, upTo_zero] using effect.length_events_le rest.isEmpty
      | succ n =>
        rw [upTo_cons_of_ok run, upTo_cons_of_ok run, List.length_append, List.length_append]
        have := @ih env' n
        omega

/-- The shortest part that tells `k` events tells no more of them. -/
theorem Shortest.length_eq {p : Program} {k n : ℕ} (h : p.Shortest config env k n) :
    (upTo config env p n).events.length = k := by
  obtain ⟨enough, least⟩ := h
  refine le_antisymm ?_ enough
  cases n with
  | zero => simp [upTo_zero]
  | succ n =>
    by_contra more
    have short : (upTo config env p (n + 1)).events.length ≤ _ := length_upTo_succ_le p n
    exact absurd (least n (by omega)) (Nat.not_succ_le_self n)

end Program

namespace Submission

variable {s : Submission} {x : Statement} {p rest : Program} {width : List Char → ℕ}

/-- A submission that waits for its next pull. -/
structure Live (config : Config) (width : List Char → ℕ) (env : Environment) (s : Submission) :
    Prop where
  session : s.session = ⟨config, width, env⟩
  queued : s.queued = none
  canceled : s.canceled = false
  done : s.done = false

/-- The first statement fails in the next pull. -/
theorem Live.advance_of_error (live : s.Live config width env) {e : EvalError}
    (run : x.run config false env = .error e) :
    s.advance (x :: rest) =
      (some (.error e.message), { s with statements := rest, done := true }) := by
  rw [advance, live.session, live.canceled, run]
  simp [describe, live.canceled]

/-- The first statement is run in the next pull, which goes on unless the statement tells
something. -/
theorem Live.advance_of_ok (live : s.Live config width env) {effect : Effect} {env' : Environment} :
    x.run config false env = .ok (effect, env') →
      s.advance (x :: rest) =
        match effect with
        | .silent => { s with session := ⟨config, width, env'⟩, provisional := none }.advance rest
        | .provisional text =>
          { s with session := ⟨config, width, env'⟩, provisional := some text }.advance rest
        | .emit text =>
          (some (.standard text),
            { s with
              session := ⟨config, width, env'⟩
              statements := rest
              provisional := none }) := by
  intro run
  cases effect <;> rw [advance, live.session, live.canceled, run]

/-- A statement that does not fail is left behind with the events that it tells. -/
theorem Follows.cons {effect : Effect} {env' : Environment} {k : ℕ}
    (run : x.run config false env = .ok (effect, env'))
    (later : 0 < k + (effect.events rest.isEmpty).length) (h : Follows config width env' rest k s) :
    Follows config width env (x :: rest) (k + (effect.events rest.isEmpty).length) s := by
  have whole : Program.run config env (x :: rest) = _ := Program.run_cons_of_ok run
  refine ⟨?_, fun le => ?_, fun lt => ?_⟩
  · rw [whole, List.getElem?_append_right (Nat.le_add_left _ _), Nat.add_sub_cancel]
    exact h.next
  · rw [whole, List.length_append] at le
    obtain ⟨n, ⟨enough, least⟩, session, statements⟩ := h.within (by omega)
    refine ⟨n + 1, ⟨?_, fun m hm => ?_⟩, ?_, statements⟩
    · rw [Program.upTo_cons_of_ok run, List.length_append]
      omega
    · cases m with
      | zero =>
        rw [Program.upTo_zero, List.length_nil] at hm
        omega
      | succ m =>
        rw [Program.upTo_cons_of_ok run, List.length_append] at hm
        exact Nat.succ_le_succ (least m (by omega))
    · rw [Program.upTo_cons_of_ok run, session]
  · rw [whole, List.length_append] at lt
    rw [whole]
    exact h.behind (by omega)

/-- A statement that ends the run with its event is the last one executed. -/
theorem follows_of_done {event : OutputEvent} {env' : Environment}
    (ends : ∀ count, Program.upTo config env (x :: rest) (count + 1) = ⟨[event], env', true⟩)
    (session : s.session = ⟨config, width, env'⟩) (statements : s.statements = rest)
    (queued : s.queued = none) (done : s.done = true) (k : ℕ) :
    Follows config width env (x :: rest) (k + 1) (s.after k) := by
  have whole : Program.run config env (x :: rest) = ⟨[event], env', true⟩ := ends rest.length
  have stays : s.pull = (none, s) := pull_of_done queued done
  rw [after_of_done queued done]
  refine ⟨?_, fun le => ?_, fun _ => ?_⟩
  · rw [stays, whole]
    rfl
  · rw [whole, List.length_singleton] at le
    refine ⟨1, ⟨?_, fun m hm => ?_⟩, ?_, statements⟩
    · rw [ends 0]
      exact le
    · cases m with
      | zero =>
        rw [Program.upTo_zero, List.length_nil] at hm
        omega
      | succ m => omega
    · rw [session, ends 0]
  · rw [whole]
    exact ⟨session, stays⟩

/-- A submission without statements has nothing to tell. -/
theorem follows_nil (session : s.session = ⟨config, width, env⟩) (queued : s.queued = none)
    (done : s.done = true) (k : ℕ) : Follows config width env [] (k + 1) (s.after k) := by
  have stays : s.pull = (none, s) := pull_of_done queued done
  rw [after_of_done queued done]
  refine ⟨?_, fun le => absurd le (Nat.not_succ_le_zero k), fun _ => ⟨session, stays⟩⟩
  rw [stays]
  rfl

/-- A statement that tells nothing is skipped on the way to the next event. -/
theorem follows_of_skip {t : Submission} {effect : Effect} {env' : Environment}
    (run : x.run config false env = .ok (effect, env'))
    (quiet : effect.events rest.isEmpty = []) (skip : s.advance (x :: rest) = t.advance rest)
    (next : (t.advance rest).1 = (Program.run config env' rest).events[0]?)
    (later : ∀ k, Follows config width env' rest (k + 1) ((t.advance rest).2.after k)) :
    (s.advance (x :: rest)).1 = (Program.run config env (x :: rest)).events[0]? ∧
      ∀ k, Follows config width env (x :: rest) (k + 1) ((s.advance (x :: rest)).2.after k) := by
  rw [skip]
  refine ⟨?_, fun k => ?_⟩
  · rw [next, Program.run_cons_of_ok run, quiet, List.nil_append]
  · simpa only [quiet, List.length_nil, Nat.add_zero] using (later k).cons run (by omega)

/-- What holds behind the next pull holds from now on. -/
theorem follows_of_advance (live : s.Live config width env) (statements : s.statements = p)
    (next : (s.advance p).1 = (p.run config env).events[0]?)
    (later : ∀ k, Follows config width env p (k + 1) ((s.advance p).2.after k)) (k : ℕ) :
    Follows config width env p k (s.after k) := by
  have pull : s.pull = s.advance p := by
    simp [Submission.pull, live.queued, live.done, statements]
  cases k with
  | zero =>
    refine ⟨?_, fun _ => ⟨0, ⟨Nat.zero_le _, fun m _ => Nat.zero_le m⟩, ?_, statements⟩, ?_⟩
    · rw [after, pull, next]
    · rw [after, live.session]
      cases p <;> rfl
    · exact fun lt => absurd lt (Nat.not_lt_zero _)
  | succ k =>
    rw [after, pull]
    exact later k

/-- **One pull tells the first event, and all pulls behind it follow the run.** The induction is
on the statements that are left; the value of an expression that waits to be told matters only
when none is. -/
theorem follows_advance (live : s.Live config width env) (fresh : p = [] → s.provisional = none) :
    (s.advance p).1 = (p.run config env).events[0]? ∧
      ∀ k, Follows config width env p (k + 1) ((s.advance p).2.after k) := by
  induction p generalizing s env with
  | nil =>
    have stop : s.advance [] =
        (none, { s with statements := [], provisional := none, done := true }) := by
      rw [advance, fresh rfl]
      rfl
    rw [stop]
    exact ⟨rfl, follows_nil live.session live.queued rfl⟩
  | cons x rest ih =>
    cases run : x.run config false env with
    | error e =>
      rw [live.advance_of_error run]
      have ends : ∀ count, Program.upTo config env (x :: rest) (count + 1) = _ :=
        Program.upTo_cons_of_error run
      refine ⟨?_, follows_of_done ends live.session rfl live.queued rfl⟩
      rw [Program.run, List.length_cons, ends]
      rfl
    | ok r =>
      obtain ⟨effect, env'⟩ := r
      cases effect with
      | silent =>
        have skip : s.advance (x :: rest) =
            { s with session := ⟨config, width, env'⟩, provisional := none }.advance rest :=
          live.advance_of_ok run
        obtain ⟨next, later⟩ :=
          ih (s := { s with session := ⟨config, width, env'⟩, provisional := none })
            ⟨rfl, live.queued, live.canceled, live.done⟩ fun _ => rfl
        exact follows_of_skip run rfl skip next later
      | provisional text =>
        have skip : s.advance (x :: rest) =
            { s with session := ⟨config, width, env'⟩, provisional := some text }.advance rest :=
          live.advance_of_ok run
        cases rest with
        | nil =>
          have ends : ∀ count, Program.upTo config env [x] (count + 1) = _ :=
            Program.upTo_cons_of_ok run
          simp only [Program.upTo_nil] at ends
          rw [skip]
          exact ⟨by rw [Program.run, List.length_cons, ends]; rfl,
            follows_of_done ends rfl rfl live.queued rfl⟩
        | cons y others =>
          obtain ⟨next, later⟩ :=
            ih (s := { s with session := ⟨config, width, env'⟩, provisional := some text })
              ⟨rfl, live.queued, live.canceled, live.done⟩ fun none => nomatch none
          exact follows_of_skip run rfl skip next later
      | emit text =>
        rw [live.advance_of_ok run]
        have waits : Live config width env'
            { s with session := ⟨config, width, env'⟩, statements := rest, provisional := none } :=
          ⟨rfl, live.queued, live.canceled, live.done⟩
        obtain ⟨next, later⟩ := ih waits fun _ => rfl
        refine ⟨?_, fun k => ?_⟩
        · rw [Program.run_cons_of_ok run]
          rfl
        · exact (follows_of_advance waits rfl next later k).cons run (by simp [Effect.events])

/-! ### Any number of pulls -/

/-- Pulls until there are no more events deliver the events one after another. -/
theorem drain_eq_take {s : Submission} {events : List OutputEvent}
    (next : ∀ i, (s.after i).pull.1 = events[i]?) (k : ℕ) : (s.drain k).1 = events.take k := by
  induction k generalizing s events with
  | zero => rfl
  | succ k ih =>
    have first : s.pull.1 = events[0]? := next 0
    cases pulled : s.pull with
    | mk event t =>
      rw [pulled] at first
      cases events with
      | nil =>
        obtain rfl : event = none := first
        simp [drain, pulled]
      | cons e others =>
        obtain rfl : event = some e := first
        have later : ∀ i, (t.after i).pull.1 = others[i]? := fun i => by
          have := next (i + 1)
          rwa [after, pulled] at this
        simp [drain, pulled, ih later]

/-- Nothing changes behind the end of the run. -/
theorem session_after_of_ended {k n : ℕ} (follows : ∀ k, Follows config width env p k (s.after k))
    (shortest : p.Shortest config env k n) (ended : (p.upTo config env n).ended = true) (j : ℕ) :
    (s.after (k + j)).pull.1 = none ∧ (s.after (k + j)).session = (s.after k).session := by
  have whole := Program.upTo_eq_run_of_ended ended
  have told : (p.run config env).events.length = k := by rw [← whole, shortest.length_eq]
  refine ⟨?_, ?_⟩
  · rw [(follows (k + j)).next, List.getElem?_eq_none (by omega)]
  · obtain ⟨m, ⟨enough, least⟩, session, -⟩ := (follows k).within (by omega)
    obtain rfl : m = n := le_antisymm (least n shortest.1) (shortest.2 m enough)
    cases j with
    | zero => rfl
    | succ j => rw [((follows _).behind (by omega)).1, session, whole]

end Submission

end Steps

variable (session : Session) (source : List Char)

/-- **A submission is a lazy, exact execution of its program.** The events of the first `k` pulls
are the first `k` events of the reference run. The statements that have been executed then are
the shortest part of the program that tells these events, or the whole run if one of the pulls
came back without an event; the session holds the bindings that they leave, and a submission that
is dropped leaves it like that. When the run has ended, no pull tells anything or changes the
session. A program that cannot be read is told as one error and changes nothing. -/
theorem Session.submit_follows :
    (∀ p, Program.parse? source = .ok p → ∀ k,
      ((session.submit source).drain k).1 =
          (p.run session.config session.environment).events.take k ∧
        ((session.submit source).after k).Follows session.config session.width
          session.environment p k ∧
        ∀ n, p.Shortest session.config session.environment k n →
          (p.upTo session.config session.environment n).ended = true → ∀ j,
            ((session.submit source).after (k + j)).pull.1 = none ∧
              ((session.submit source).after (k + j)).session =
                ((session.submit source).after k).session) ∧
    ∀ e, Program.parse? source = .error e → ∀ k,
      ((session.submit source).after k).session = session ∧
        ((session.submit source).after k).pull.1 =
          if k = 0 then some (.error (String.ofList (e.reportOn session.width source)))
          else none := by
  refine ⟨fun p parsed => ?_, fun e failed k => ?_⟩
  · have submitted : session.submit source = { session, statements := p } := by
      simp [Session.submit, parsed]
    have live : Submission.Live session.config session.width session.environment
        (session.submit source) := by
      rw [submitted]
      exact ⟨rfl, rfl, rfl, rfl⟩
    have statements : (session.submit source).statements = p := by rw [submitted]
    have follows : ∀ k, Submission.Follows session.config session.width session.environment p k
        ((session.submit source).after k) := by
      obtain ⟨next, later⟩ := Submission.follows_advance (p := p) live fun _ => by rw [submitted]
      exact Submission.follows_of_advance live statements next later
    exact fun k => ⟨Submission.drain_eq_take (fun i => (follows i).next) k, follows k,
      fun n shortest ended => Submission.session_after_of_ended follows shortest ended⟩
  · have submitted : session.submit source =
        { session, statements := []
          queued := some (.error (String.ofList (e.reportOn session.width source))) } := by
      simp [Session.submit, failed]
    cases k with
    | zero =>
      rw [submitted]
      exact ⟨rfl, rfl⟩
    | succ k =>
      have told : (session.submit source).pull.2.queued = none ∧
          (session.submit source).pull.2.done = true := by
        rw [submitted]
        exact ⟨rfl, rfl⟩
      rw [Submission.after, Submission.after_of_done told.1 told.2,
        Submission.pull_of_done told.1 told.2, submitted]
      exact ⟨rfl, rfl⟩

/-- One event is pulled, so the second binding has not been made and the failure not been met. -/
theorem Session.submit_follows_first_event :
    let session : Session := { config := {}, width := List.length }
    let source := "var x = 2\nout x\nvar x = 3\nx / 0".toList
    Program.parse? source =
        .ok [.var "x" (.number (.ofInt 2)), .out (.identifier "x"), .var "x" (.number (.ofInt 3)),
          .expression (.operation (.identifier "x") .divide (.number 0))] ∧
      ((session.submit source).drain 1).1 = [.standard "2"] ∧
      ((session.submit source).after 1).session.lookup? "x" = some (.number (.ofInt 2)) := by
  intro session source
  have parsed : Program.parse? source =
      .ok [.var "x" (.number (.ofInt 2)), .out (.identifier "x"), .var "x" (.number (.ofInt 3)),
        .expression (.operation (.identifier "x") .divide (.number 0))] := by
    decide +kernel
  obtain ⟨told, follows, -⟩ := (submit_follows session _).1 _ parsed 1
  refine ⟨parsed, told.trans ?_, ?_⟩
  · decide +kernel
  · obtain ⟨n, ⟨enough, least⟩, session, -⟩ := follows.within (by decide +kernel)
    obtain rfl : n = 2 := by
      have le : n ≤ 2 := least 2 (by decide +kernel)
      interval_cases n
      · exact absurd enough (by decide +kernel)
      · exact absurd enough (by decide +kernel)
      · rfl
    rw [session]
    decide +kernel

end RatCalc
