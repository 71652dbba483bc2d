import Mathlib
import RatCalc.Proofs.Evaluation.Siblings
import RatCalc.Proofs.Grammar.Lines
import RatCalc.Proofs.Session.Laziness

/-!
# Programs in several submissions

A program that is cut at a line break means the same: what its two parts tell, submitted one after
the other, is what it tells as a whole, and the bindings that they leave are its bindings. There
is one exception. The value of an expression at the end of the first part is told only if nothing
follows it. And a part that fails is the end of the whole program.

## Main definitions

* `Program.Final`: what a program tells only because nothing follows it.

## Main results

* `Program.run_append`, `Program.run_append_of_error`: the runs of two programs in a row.
* `Session.drain_submit`: all events of a submission, and the bindings that it leaves.
* `Session.submit_append`: a program in two submissions.
-/

namespace RatCalc

section Runs

variable {config : Config} {env : Environment}

/-! ### The runs of programs in a row -/

/-- A statement that does not fail tells no error. -/
theorem Effect.error_notMem_events (effect : Effect) (last : Bool) (text : String) :
    .error text ∉ effect.events last := by
  cases effect with
  | silent | emit => simp [events]
  | provisional => cases last <;> simp [events]

namespace Program

variable {s : Statement} {p rest : Program}

/-- What a program tells only because nothing follows it. This is the value of its last statement
if that is an expression, in the bindings that the program leaves, and nothing otherwise. -/
def Final (config : Config) (env : Environment) (p : Program) (own : List OutputEvent) : Prop :=
  match p.getLast? with
  | some (.expression e) =>
    ∃ v, e.evaluate config false env = .ok v ∧ own = [.standard (v.render config.precision)]
  | _ => own = []

theorem run_cons_of_error {e : EvalError} (h : s.run config false env = .error e) :
    Program.run config env (s :: rest) = ⟨[.error e.message], env, true⟩ :=
  upTo_cons_of_error h rest.length

/-- A program tells one event for each statement at most. -/
theorem length_upTo_le (p : Program) (n : ℕ) : (p.upTo config env n).events.length ≤ n := by
  induction n with
  | zero => rw [upTo_zero, List.length_nil]
  | succ n ih => exact (length_upTo_succ_le p n).trans (Nat.succ_le_succ ih)

/-- What a single statement tells is told whether or not something follows it, up to the value of
an expression. -/
theorem exists_final_singleton {effect : Effect} {env' : Environment}
    (h : s.run config false env = .ok (effect, env')) :
    ∃ own, Final config env' [s] own ∧ effect.events true = effect.events false ++ own := by
  cases s with
  | print text =>
    cases h
    exact ⟨[], rfl, rfl⟩
  | out e | var name e =>
    obtain ⟨v, -, rest⟩ := bind_eq_ok_iff.1 h
    cases rest
    exact ⟨[], rfl, rfl⟩
  | expression e =>
    obtain ⟨v, value, rest⟩ := bind_eq_ok_iff.1 h
    cases rest
    exact ⟨[.standard (v.render config.precision)], ⟨v, value, rfl⟩, rfl⟩

/-- **A program that does not fail is continued by the one behind it**, which starts with the
bindings of the first one. Only what the first one tells because nothing follows it is left out. -/
theorem run_append (sound : ∀ text, .error text ∉ (p.run config env).events) :
    ∃ told own, Final config (p.run config env).environment p own ∧
      (p.run config env).events = told ++ own ∧
      ∀ q, q ≠ [] →
        (Program.run config env (p ++ q)).events =
            told ++ (Program.run config (p.run config env).environment q).events ∧
          (Program.run config env (p ++ q)).environment =
            (Program.run config (p.run config env).environment q).environment := by
  induction p generalizing env with
  | nil => exact ⟨[], [], rfl, rfl, fun q _ => ⟨rfl, rfl⟩⟩
  | cons s rest ih =>
    cases run : s.run config false env with
    | error e =>
      rw [run_cons_of_error run] at sound
      exact absurd (List.mem_singleton_self _) (sound e.message)
    | ok r =>
      obtain ⟨effect, env'⟩ := r
      have whole : Program.run config env (s :: rest) = _ := run_cons_of_ok run
      cases rest with
      | nil =>
        obtain ⟨own, final, events⟩ := exists_final_singleton run
        refine ⟨effect.events false, own, ?_, ?_, fun q more => ?_⟩
        · rw [whole]
          exact final
        · rw [whole, ← events]
          exact List.append_nil _
        · rw [List.singleton_append, run_cons_of_ok run, whole, List.isEmpty_eq_false_iff.2 more]
          exact ⟨rfl, rfl⟩
      | cons t others =>
        obtain ⟨told, own, final, events, continued⟩ := ih fun text mem =>
          sound text (by rw [whole]; exact List.mem_append_right _ mem)
        refine ⟨effect.events false ++ told, own, ?_, ?_, fun q more => ?_⟩
        · rw [whole]
          exact final
        · rw [whole, List.append_assoc, ← events]
          rfl
        · obtain ⟨told', left⟩ := continued q more
          rw [List.cons_append, run_cons_of_ok run, whole]
          refine ⟨?_, left⟩
          rw [told', ← List.append_assoc]
          rfl

/-- **A program that fails is not continued.** -/
theorem run_append_of_error {text : String} (h : .error text ∈ (p.run config env).events)
    (q : Program) : Program.run config env (p ++ q) = p.run config env := by
  induction p generalizing env with
  | nil => exact absurd h List.not_mem_nil
  | cons s rest ih =>
    rw [List.cons_append]
    cases run : s.run config false env with
    | error e => rw [run_cons_of_error run, run_cons_of_error run]
    | ok r =>
      obtain ⟨effect, env'⟩ := r
      rw [run_cons_of_ok run] at h ⊢
      have later : .error text ∈ (Program.run config env' rest).events :=
        (List.mem_append.1 h).resolve_left (effect.error_notMem_events _ text)
      have more : rest ≠ [] := by
        rintro rfl
        exact absurd later List.not_mem_nil
      rw [run_cons_of_ok run, ih later, List.isEmpty_eq_false_iff.2 more,
        List.isEmpty_eq_false_iff.2 (List.append_ne_nil_of_left_ne_nil more q)]

end Program

/-! ### All events of a submission -/

/-- Pulls that go on until there are no more events end with the first that tells nothing. -/
theorem Submission.drain_eq_after {s : Submission} {events : List OutputEvent}
    (next : ∀ i, (s.after i).pull.1 = events[i]?) {k : ℕ} (enough : events.length < k) :
    (s.drain k).2 = s.after (events.length + 1) := by
  induction events generalizing s k with
  | nil =>
    obtain ⟨k, rfl⟩ := Nat.exists_eq_add_of_lt enough
    have first : s.pull.1 = none := next 0
    cases pulled : s.pull with
    | mk event t =>
      rw [pulled] at first
      obtain rfl : event = none := first
      simp [drain, after, pulled]
  | cons e others ih =>
    obtain ⟨k, rfl⟩ := Nat.exists_eq_succ_of_ne_zero (Nat.ne_zero_of_lt enough)
    have first : s.pull.1 = some e := next 0
    cases pulled : s.pull with
    | mk event t =>
      rw [pulled] at first
      obtain rfl : event = some e := first
      have later : ∀ i, (t.after i).pull.1 = others[i]? := fun i => by
        have := next (i + 1)
        rwa [after, pulled] at this
      have rest := ih later (Nat.lt_of_succ_lt_succ enough)
      simp [drain, after, pulled, rest]

end Runs

namespace Session

variable {source : List Char} {p : Program}

/-- A program that can be read is followed from the start. -/
theorem follows_submit (session : Session) (parsed : Program.parse? source = .ok p) (k : ℕ) :
    ((session.submit source).after k).Follows session.config session.width session.environment
      p k := by
  have submitted : session.submit source = { session, statements := p } := by
    rw [submit, parsed]
  have live : (session.submit source).Live session.config session.width session.environment := by
    rw [submitted]
    exact ⟨rfl, rfl, rfl, rfl⟩
  have statements : (session.submit source).statements = p := by rw [submitted]
  obtain ⟨next, later⟩ := Submission.follows_advance (p := p) live fun _ => by rw [submitted]
  exact Submission.follows_of_advance live statements next later k

/-- **As many pulls as there are events and one more come to the end of the run.** -/
theorem drain_submit (session : Session) (parsed : Program.parse? source = .ok p) {k : ℕ}
    (enough : (p.run session.config session.environment).events.length < k) :
    ((session.submit source).drain k).1 =
        (p.run session.config session.environment).events ∧
      ((session.submit source).drain k).2.session =
        ⟨session.config, session.width, (p.run session.config session.environment).environment⟩ ∧
      ((session.submit source).drain k).2.pull.1 = none := by
  have follows := session.follows_submit parsed
  have next := fun i => (follows i).next
  obtain ⟨whole, stays⟩ := (follows _).behind (Nat.lt_succ_self _)
  rw [Submission.drain_eq_take next, Submission.drain_eq_after next enough]
  exact ⟨List.take_of_length_le enough.le, whole, by rw [stays]⟩

/-- The events of a submission are those of the run of its program. -/
theorem events_submit (session : Session) (parsed : Program.parse? source = .ok p) :
    (session.submit source).events =
      ((p.run session.config session.environment).events,
        ⟨session.config, session.width,
          (p.run session.config session.environment).environment⟩) := by
  have bound : (session.submit source).pullBound = p.length + 2 := by
    rw [submit, parsed]
    rfl
  have few : (p.run session.config session.environment).events.length ≤ p.length :=
    p.length_upTo_le p.length
  obtain ⟨events, left, -⟩ := session.drain_submit parsed
    (k := p.length + 2) (Nat.lt_succ_of_le (few.trans (Nat.le_succ _)))
  rw [Submission.events, bound, ← events, ← left]

/-- **A program may be submitted in two parts.** Where the first part does not fail, both parts
together leave the bindings that they leave one after the other, and tell what they tell one
after the other. The value of an expression at the end of the first part is left out if a statement
follows. Where the first part fails, the second one does nothing. -/
theorem submit_append (session : Session) {source' : List Char} {q : Program}
    (parsed : Program.parse? source = .ok p) (parsed' : Program.parse? source' = .ok q) :
    let first := (session.submit source).events
    let second := (first.2.submit source').events
    let joint := (session.submit (source ++ '\n' :: source')).events
    ((∀ text, .error text ∉ first.1) →
      joint.2 = second.2 ∧
        ∃ told own, p.Final first.2.config first.2.environment own ∧ first.1 = told ++ own ∧
          joint.1 = told ++ (if q = [] then own else []) ++ second.1) ∧
    ((∃ text, .error text ∈ first.1) → joint = first) := by
  intro first second joint
  obtain ⟨config, width, env⟩ := session
  have atFirst : first = _ := events_submit ⟨config, width, env⟩ parsed
  have atSecond : second = _ := events_submit first.2 parsed'
  have atJoint : joint = _ :=
    events_submit ⟨config, width, env⟩ (Program.parse?_append parsed parsed')
  rw [atFirst] at atSecond ⊢
  rw [atSecond, atJoint]
  dsimp only
  refine ⟨fun sound => ?_, fun ⟨text, failed⟩ => ?_⟩
  · obtain ⟨told, own, final, events, continued⟩ := Program.run_append sound
    by_cases empty : q = []
    · subst empty
      rw [List.append_nil]
      refine ⟨rfl, told, own, final, events, ?_⟩
      rw [if_pos rfl, ← events]
      exact (List.append_nil _).symm
    · obtain ⟨told', left⟩ := continued q empty
      rw [told', left]
      refine ⟨rfl, told, own, final, events, ?_⟩
      rw [if_neg empty, List.append_nil]
  · rw [Program.run_append_of_error failed]

/-- The value of `x + 1` is told alone, and left out in front of `out x`. Behind a division by zero
nothing is told. -/
theorem submit_append_out :
    let session : Session := { config := {}, width := List.length }
    let value := "var x = 2\nx + 1 \n".toList
    let failure := "x / 0".toList
    let rest := "\n out x".toList
    let bound := (session.submit value).events.2
    (session.submit value).events.1 = [.standard "3"] ∧
      (bound.submit rest).events.1 = [.standard "2"] ∧
      (session.submit (value ++ '\n' :: rest)).events.1 = [.standard "2"] ∧
      (session.submit (value ++ '\n' :: rest)).events.2 = (bound.submit rest).events.2 ∧
      (bound.submit (failure ++ '\n' :: rest)).events = (bound.submit failure).events := by
  intro session value failure rest bound
  have parsed : Program.parse? value =
      .ok [.var "x" (.number (.ofInt 2)),
        .expression (.operation (.identifier "x") .add (.number 1))] := by
    decide +kernel
  have fails : Program.parse? failure =
      .ok [.expression (.operation (.identifier "x") .divide (.number 0))] := by
    decide +kernel
  have follows : Program.parse? rest = .ok [.out (.identifier "x")] := by decide +kernel
  have first : (session.submit value).events.1 = [.standard "3"] := by decide +kernel
  have second : (bound.submit rest).events.1 = [.standard "2"] := by decide +kernel
  have failed : (bound.submit failure).events.1 = [.error "Division by zero"] := by decide +kernel
  obtain ⟨left, told, own, ⟨v, -, rfl⟩, events, joint⟩ :=
    (submit_append session parsed follows).1 (by simp [first])
  obtain rfl : told = [] := by
    have alone := congrArg List.length (events.symm.trans first)
    simpa using alone
  refine ⟨first, second, joint.trans second, left, ?_⟩
  exact (submit_append bound fails follows).2 ⟨_, by rw [failed]; exact List.mem_singleton_self _⟩

end Session

end RatCalc
