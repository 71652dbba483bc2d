import Mathlib
import RatCalc.Proofs.Evaluation.Tokens
import RatCalc.Proofs.Session.Splitting

/-!
# Canceled submissions

Each submission has a token of its own, and whoever holds a copy of it may cancel the submission.
Between two pulls nothing is kept back that would still have to be told, so a submission that is
canceled there tells at most one more event, whatever is done afterwards: that it was canceled, if
it had statements left to execute, or why its program could not be read.

## Main definitions

* `Watched`: a submission with its token, among all tokens.
* `Watched.play`: turns of its caller, who pulls events and takes steps on the tokens.
* `Program.Unfinished`: a run that still has statements to execute after a number of events.
* `Submission.Executed`: what holds of a submission between two pulls.
* `Session.Pending`: the event that a submission has left to tell when it is canceled.

## Main results

* `Submission.unfinished_iff`: when a submission has statements left to execute.
* `Watched.play_of_canceled`: a canceled submission tells one event at most.
* `Session.pending_pull`: it is the one that is left.
* `Session.watch_canceled`: cancellation is final, and the next submission is not canceled.
-/

namespace RatCalc

section Runs

variable {config : Config} {env : Environment}

/-! ### Runs that are left half way -/

namespace Program

variable {p : Program}

/-- When `k` events have been asked for, the run has not ended, so there are statements that have
not been executed. -/
def Unfinished (config : Config) (env : Environment) (p : Program) (k : ℕ) : Prop :=
  ∃ n, p.Shortest config env k n ∧ (p.upTo config env n).ended = false

/-- A part of a run tells no more events than the whole. -/
theorem length_upTo_le_run (p : Program) (n : ℕ) :
    (upTo config env p n).events.length ≤ (p.run config env).events.length := by
  induction p generalizing env n with
  | nil => rw [upTo_nil, run, upTo_nil]
  | cons s rest ih =>
    cases n with
    | zero =>
      rw [upTo_zero]
      exact Nat.zero_le _
    | succ n =>
      cases run : s.run config false env with
      | error e => rw [upTo_cons_of_error run, run_cons_of_error run]
      | ok r =>
        rw [upTo_cons_of_ok run, run_cons_of_ok run, List.length_append, List.length_append]
        exact Nat.add_le_add_left (ih n) _

end Program

namespace Submission

variable {s : Submission} {x : Statement} {p rest : Program} {width : List Char → ℕ} {k n : ℕ}

/-- Where a submission stands between two pulls when it has executed `n` statements. No value is
kept back that is told when nothing follows. -/
structure Executed (p : Program) (config : Config) (env : Environment) (n : ℕ) (s : Submission) :
    Prop where
  within : n ≤ p.length
  statements : s.statements = p.drop n
  queued : s.queued = none
  provisional : s.done = false → s.provisional = none
  ended : (p.upTo config env n).ended = (s.done || s.statements.isEmpty)

theorem Executed.cons {effect : Effect} {env' : Environment}
    (run : x.run config false env = .ok (effect, env')) (h : Executed rest config env' n s) :
    Executed (x :: rest) config env (n + 1) s where
  within := Nat.succ_le_succ h.within
  statements := h.statements
  queued := h.queued
  provisional := h.provisional
  ended := by
    rw [Program.upTo_cons_of_ok run]
    exact h.ended

/-- A submission that waits for its next pull has executed nothing yet. -/
theorem Live.executed (live : s.Live config width env) (statements : s.statements = p)
    (provisional : s.provisional = none) : Executed p config env 0 s where
  within := Nat.zero_le _
  statements := statements
  queued := live.queued
  provisional _ := provisional
  ended := by
    rw [live.done, statements]
    cases p <;> rfl

/-- Behind a pull, and behind all pulls after it, a submission stands between two pulls. The
induction is on the statements that are left, as that of `follows_advance` is. -/
theorem exists_executed_advance (live : s.Live config width env) (k : ℕ) :
    ∃ n, Executed p config env n ((s.advance p).2.after k) := by
  induction p generalizing s env k with
  | nil =>
    have stays := after_of_done (s := (s.advance []).2) live.queued rfl k
    rw [stays]
    exact ⟨0, le_rfl, rfl, live.queued, fun _ => rfl, rfl⟩
  | cons x rest ih =>
    cases run : x.run config false env with
    | error e =>
      have stays := after_of_done (s := { s with statements := rest, done := true })
        live.queued rfl k
      rw [live.advance_of_error run, stays]
      refine ⟨1, Nat.succ_le_succ (Nat.zero_le _), rfl, live.queued, fun running => ?_, ?_⟩
      · cases running
      · rw [Program.upTo_cons_of_error run]
        rfl
    | ok r =>
      obtain ⟨effect, env'⟩ := r
      rw [live.advance_of_ok run]
      cases effect with
      | silent | provisional text =>
        obtain ⟨n, executed⟩ :=
          ih (s := { s with session := ⟨config, width, env'⟩, provisional := _ })
            ⟨rfl, live.queued, live.canceled, live.done⟩ k
        exact ⟨n + 1, executed.cons run⟩
      | emit text =>
        have waits : Live config width env'
            { s with session := ⟨config, width, env'⟩, statements := rest, provisional := none } :=
          ⟨rfl, live.queued, live.canceled, live.done⟩
        cases k with
        | zero => exact ⟨1, (waits.executed rfl rfl).cons run⟩
        | succ k =>
          obtain ⟨n, executed⟩ := ih waits k
          refine ⟨n + 1, Executed.cons run ?_⟩
          simpa [after, pull, live.queued, live.done] using executed

/-- A pull that comes to the end of the statements without an event is the last one. -/
theorem done_of_advance {statements : List Statement} (h : (s.advance statements).1 = none) :
    (s.advance statements).2.done = true := by
  induction statements generalizing s with
  | nil => rfl
  | cons x rest ih =>
    unfold advance at h ⊢
    split at h
    · cases h
    · split at h
      · exact ih h
      · exact ih h
      · cases h

/-- **What is left of a run can be seen from its submission.** -/
theorem unfinished_iff (follows : Follows config width env p k s)
    (executed : Executed p config env n s) :
    p.Unfinished config env k ↔ s.done = false ∧ s.statements ≠ [] := by
  -- The submission determines how many statements have been executed, unless none is left.
  have same : ∀ m, s.statements = p.drop m → s.statements ≠ [] → m = n := by
    intro m statements more
    have lengths := congrArg List.length (statements.symm.trans executed.statements)
    rw [statements, Ne, List.drop_eq_nil_iff] at more
    rw [List.length_drop, List.length_drop] at lengths
    have := executed.within
    omega
  constructor
  · rintro ⟨m, shortest, running⟩
    have few : k ≤ (p.run config env).events.length :=
      shortest.1.trans (p.length_upTo_le_run m)
    obtain ⟨m', ⟨enough, least⟩, -, statements⟩ := follows.within few
    obtain rfl : m' = m := le_antisymm (least m shortest.1) (shortest.2 m' enough)
    have more : s.statements ≠ [] := by
      intro empty
      rw [statements, List.drop_eq_nil_iff] at empty
      rw [Program.ended_of_length_le empty] at running
      cases running
    have ended := executed.ended
    rw [← same m' statements more, running, eq_comm, Bool.or_eq_false_iff] at ended
    exact ⟨ended.1, more⟩
  · rintro ⟨running, more⟩
    have few : k ≤ (p.run config env).events.length := by
      by_contra many
      have stays := (follows.behind (not_le.1 many)).2
      have pull : s.pull = s.advance s.statements := by
        rw [Submission.pull, executed.queued, running]
        rfl
      have done : (s.advance s.statements).2.done = true :=
        done_of_advance (by rw [← pull, stays])
      rw [← pull, stays, running] at done
      cases done
    obtain ⟨m, shortest, -, statements⟩ := follows.within few
    refine ⟨m, shortest, ?_⟩
    rw [same m statements more, executed.ended, running, List.isEmpty_eq_false_iff.2 more]
    rfl

/-! ### Pulls of a canceled submission -/

theorem canceled_advance (s : Submission) (statements : List Statement) :
    (s.advance statements).2.canceled = s.canceled := by
  induction statements generalizing s with
  | nil => rfl
  | cons x rest ih =>
    unfold advance
    split
    · rfl
    · split
      · exact ih _
      · exact ih _
      · rfl

/-- A pull cancels nothing. -/
theorem canceled_pull (s : Submission) : s.pull.2.canceled = s.canceled := by
  unfold pull
  split
  · rfl
  · split
    · rfl
    · exact s.canceled_advance s.statements

/-- **A pull of a canceled submission executes nothing and is the last one.** -/
theorem pull_cancel (provisional : s.done = false → s.provisional = none) :
    s.cancel.pull.1 = s.queued.or
        (if s.done || s.statements.isEmpty then none else some (.error "Canceled")) ∧
      s.cancel.pull.2.session = s.session ∧ s.cancel.pull.2.queued = none ∧
      s.cancel.pull.2.done = true := by
  unfold pull cancel
  dsimp only
  cases queued : s.queued with
  | some event => exact ⟨rfl, rfl, rfl, rfl⟩
  | none =>
    cases done : s.done with
    | true => exact ⟨rfl, rfl, rfl, rfl⟩
    | false =>
      cases statements : s.statements with
      | nil =>
        rw [advance, provisional done]
        exact ⟨rfl, rfl, rfl, rfl⟩
      | cons x rest => exact ⟨rfl, rfl, rfl, rfl⟩

end Submission

end Runs

/-! ### Submissions and their tokens -/

/-- A submission whose flag is a token, among all tokens. -/
structure Watched where
  submission : Submission
  token : CancelToken
  table : CancelTable

/-- Starts the run of a program under a new token, which is the last one of the table. -/
def Session.watch (session : Session) (source : List Char) (table : CancelTable) : Watched :=
  { submission := session.submit source
    token := (table.forest.add none).2
    table := table.push none }

namespace Watched

open CancelForest

/-- A turn of the caller. -/
inductive Turn where
  /-- The next event is asked for. -/
  | pull
  /-- A step is taken on the tokens. -/
  | act (action : CancelAction)
  deriving DecidableEq

/-- Whether the token of a submission is canceled. -/
def isCanceled (w : Watched) : Bool :=
  w.table.forest.isCanceled w.token

/-- A submission as its next pull finds it. -/
def seen (w : Watched) : Submission :=
  { w.submission with canceled := w.isCanceled }

/-- Takes several turns. The outcomes of the pulls are listed, the first one first. -/
def play : List Turn → Watched → List (Option OutputEvent) × Watched
  | [], w => ([], w)
  | .pull :: turns, w =>
    let pulled := w.seen.pull
    let played := play turns { w with submission := pulled.2 }
    (pulled.1 :: played.1, played.2)
  | .act action :: turns, w => play turns { w with table := w.table.step action }

variable {w : Watched} {turns : List Turn}

/-- What pulls and steps on the tokens keep is kept by all turns. -/
theorem play_induction {P : Watched → Prop} (start : P w)
    (pull : ∀ w s, P w → P { w with submission := s })
    (act : ∀ w action, .act action ∈ turns → P w → P { w with table := w.table.step action }) :
    P (play turns w).2 := by
  induction turns generalizing w with
  | nil => exact start
  | cons turn turns ih =>
    have later := fun w action mem => act w action (List.mem_cons_of_mem turn mem)
    cases turn with
    | pull => exact ih (pull w _ start) later
    | act action => exact ih (act w action List.mem_cons_self start) later

/-- Cancellation is not undone. -/
theorem isCanceled_play (h : w.isCanceled = true) (turns : List Turn) :
    (play turns w).2.isCanceled = true :=
  play_induction (P := fun w => w.isCanceled = true) h (fun _ _ kept => kept)
    fun _ action _ kept => CancelTable.isCanceled_step kept action

/-- The token of a submission is the same at every moment, and its node is there. -/
theorem token_play (h : w.token.node < w.table.forest.nodes.length) (turns : List Turn) :
    (play turns w).2.token = w.token ∧
      w.token.node < (play turns w).2.table.forest.nodes.length :=
  play_induction (P := fun v => v.token = w.token ∧ w.token.node < v.table.forest.nodes.length)
    ⟨rfl, h⟩ (fun _ _ kept => kept)
    fun v action _ kept => ⟨kept.1, kept.2.trans_le (v.table.length_le_step action)⟩

/-- As long as its token is not canceled, a submission is that of the pulls alone. -/
theorem submission_play (start : w.submission.canceled = false)
    (running : (play turns w).2.isCanceled = false) :
    (play turns w).2.submission = w.submission.after (turns.count .pull) := by
  induction turns generalizing w with
  | nil => rfl
  | cons turn turns ih =>
    cases turn with
    | pull =>
      have seen : w.seen = w.submission := by
        have before : w.isCanceled = false := by
          by_contra canceled
          rw [isCanceled_play (Bool.eq_true_of_not_eq_false canceled)] at running
          cases running
        rw [Watched.seen, before, ← start]
      rw [List.count_cons_self, Submission.after, ← seen]
      exact ih (by rw [seen, Submission.canceled_pull, start]) running
    | act action =>
      rw [List.count_cons_of_ne (by simp)]
      exact ih start running

/-- A submission that is done tells nothing and keeps its bindings. -/
theorem play_of_done (queued : w.submission.queued = none) (done : w.submission.done = true)
    (turns : List Turn) :
    (play turns w).1 = List.replicate (turns.count .pull) none ∧
      (play turns w).2.submission.session = w.submission.session := by
  induction turns generalizing w with
  | nil => exact ⟨rfl, rfl⟩
  | cons turn turns ih =>
    cases turn with
    | pull =>
      have stays : w.seen.pull = (none, w.seen) := Submission.pull_of_done queued done
      obtain ⟨told, session⟩ := ih (w := { w with submission := w.seen }) queued done
      rw [List.count_cons_self, List.replicate_succ, play, stays]
      exact ⟨congrArg _ told, session⟩
    | act action =>
      rw [List.count_cons_of_ne (by simp)]
      exact ih queued done

/-- **A canceled submission tells what its next pull tells, and nothing behind it.** -/
theorem play_of_canceled (canceled : w.isCanceled = true)
    (provisional : w.submission.done = false → w.submission.provisional = none)
    (turns : List Turn) :
    (play turns w).1 =
        (w.submission.cancel.pull.1 :: List.replicate (turns.count .pull) none).take
          (turns.count .pull) ∧
      (play turns w).2.submission.session = w.submission.session := by
  induction turns generalizing w with
  | nil => exact ⟨rfl, rfl⟩
  | cons turn turns ih =>
    cases turn with
    | pull =>
      have seen : w.seen = w.submission.cancel := by rw [Watched.seen, canceled, Submission.cancel]
      obtain ⟨-, session, queued, done⟩ := Submission.pull_cancel provisional
      obtain ⟨told, later⟩ :=
        play_of_done (w := { w with submission := w.submission.cancel.pull.2 }) queued done turns
      rw [List.count_cons_self, play, seen]
      refine ⟨?_, later.trans session⟩
      rw [List.take_succ_cons, List.replicate_succ', List.take_left' (List.length_replicate ..)]
      exact congrArg _ told
    | act action =>
      rw [List.count_cons_of_ne (by simp)]
      exact ih (CancelTable.isCanceled_step canceled action) provisional

/-- The token of `w` is newer than those of a table, which keep their numbers. It derives from no
other one and is not canceled. -/
structure Newer (table : CancelTable) (w : Watched) : Prop where
  token : w.token.node = table.forest.nodes.length
  untouched : Untouched w.token.node w.table.forest.nodes
  tokens : ∀ {index : ℕ} {token : CancelToken},
    table.tokens[index]? = some token → w.table.tokens[index]? = some token

theorem newer_watch (session : Session) (source : List Char) (table : CancelTable) :
    Newer table (session.watch source table) where
  token := rfl
  untouched := untouched_newest
  tokens found := CancelTable.token_step found .new

/-- **Steps that cancel an older token leave a newer one alone.** -/
theorem Newer.isCanceled_play {table : CancelTable} (h : Newer table w) {older : CancelToken}
    (there : older.node < table.forest.nodes.length)
    (others : ∀ index, .act (.cancel index) ∈ turns → table.tokens[index]? = some older) :
    (play turns w).2.isCanceled = false := by
  have kept : Newer table (play turns w).2 := by
    refine play_induction h (fun w s h => ⟨h.token, h.untouched, h.tokens⟩) fun w action mem h => ?_
    refine ⟨h.token, CancelTable.untouched_step h.untouched ?_, fun found =>
      CancelTable.token_step (h.tokens found) action⟩
    rintro index token rfl found
    have same := (h.tokens (others index mem)).symm.trans found
    cases same
    rw [h.token]
    exact there.ne
  exact kept.untouched.isFlagged_eq_false

end Watched

namespace Session

open Watched

variable (session : Session) (source : List Char) (table : CancelTable)

/-- A new submission is not canceled. -/
theorem canceled_submit : (session.submit source).canceled = false := by
  unfold submit
  split <;> rfl

/-- A program that can be read has been executed up to some statement between any two pulls. -/
theorem exists_executed_submit {p : Program} (parsed : Program.parse? source = .ok p) (k : ℕ) :
    ∃ n, Submission.Executed p session.config session.environment n
      ((session.submit source).after k) := by
  have live : Submission.Live session.config session.width session.environment
      { session, statements := p } :=
    ⟨rfl, rfl, rfl, rfl⟩
  rw [submit, parsed]
  cases k with
  | zero => exact ⟨0, live.executed rfl rfl⟩
  | succ k => exact Submission.exists_executed_advance live k

/-- A program that cannot be read is over with the first pull. -/
theorem after_submit_of_error {e : ParseError} (failed : Program.parse? source = .error e)
    (k : ℕ) :
    (session.submit source).after (k + 1) = { session, statements := [], done := true } := by
  rw [submit, failed]
  exact Submission.after_of_done rfl rfl k

/-- The event that a submission has left to tell when it is canceled behind `k` pulls. -/
inductive Pending (session : Session) (source : List Char) (k : ℕ) : Option OutputEvent → Prop
  /-- The run has statements left to execute. -/
  | unfinished {p : Program} (parsed : Program.parse? source = .ok p)
      (left : p.Unfinished session.config session.environment k) :
      Pending session source k (some (.error "Canceled"))
  /-- All statements have been executed, or one of them has failed. -/
  | finished {p : Program} (parsed : Program.parse? source = .ok p)
      (ended : ¬ p.Unfinished session.config session.environment k) :
      Pending session source k none
  /-- The program cannot be read, which has not been told. -/
  | unread {e : ParseError} (failed : Program.parse? source = .error e) (start : k = 0) :
      Pending session source k (some (.error (String.ofList (e.reportOn session.width source))))
  /-- The program cannot be read, which has been told. -/
  | rejected {e : ParseError} (failed : Program.parse? source = .error e) (later : k ≠ 0) :
      Pending session source k none

/-- No value is kept back between two pulls. -/
theorem provisional_after_submit (k : ℕ)
    (running : ((session.submit source).after k).done = false) :
    ((session.submit source).after k).provisional = none := by
  cases parsed : Program.parse? source with
  | ok p =>
    obtain ⟨n, executed⟩ := session.exists_executed_submit source parsed k
    exact executed.provisional running
  | error e =>
    cases k with
    | zero =>
      rw [Submission.after, submit, parsed]
    | succ k => rw [session.after_submit_of_error source parsed]

/-- **The next pull of a canceled submission tells the event that is left.** -/
theorem pending_pull (k : ℕ) :
    session.Pending source k ((session.submit source).after k).cancel.pull.1 := by
  cases parsed : Program.parse? source with
  | ok p =>
    obtain ⟨n, executed⟩ := session.exists_executed_submit source parsed k
    have left := Submission.unfinished_iff (session.follows_submit parsed k) executed
    rw [(Submission.pull_cancel executed.provisional).1, executed.queued, Option.none_or]
    by_cases unfinished : p.Unfinished session.config session.environment k
    · obtain ⟨running, more⟩ := left.1 unfinished
      rw [running, List.isEmpty_eq_false_iff.2 more]
      exact .unfinished parsed unfinished
    · have ended : (((session.submit source).after k).done ||
          ((session.submit source).after k).statements.isEmpty) = true := by
        by_contra running
        rw [Bool.not_eq_true, Bool.or_eq_false_iff, List.isEmpty_eq_false_iff] at running
        exact unfinished (left.2 running)
      rw [if_pos ended]
      exact .finished parsed unfinished
  | error e =>
    cases k with
    | zero =>
      rw [Submission.after, submit, parsed]
      exact .unread parsed rfl
    | succ k =>
      rw [session.after_submit_of_error source parsed]
      exact .rejected parsed (Nat.succ_ne_zero k)

/-- **Cancellation is final and clean.** A submission is canceled through any copy of its token
after some pulls, between which any other steps on tokens are taken. Whatever is done from then
on, its pulls tell one event at most, which is the one that it has left to tell, and its session
keeps the bindings that it has. A later submission of the session is not canceled, nor is it by
copies of the old token. -/
theorem watch_canceled {before : List Turn} {w : Watched}
    (reached : ((session.watch source table).play before).2 = w) (running : w.isCanceled = false)
    {handle : ℕ} (clone : w.table.tokens[handle]? = some w.token) (later : List Turn) :
    let told := (w.play (.act (.cancel handle) :: later)).1
    let left := (w.play (.act (.cancel handle) :: later)).2
    w.submission = (session.submit source).after (before.count .pull) ∧
    left.submission.session = w.submission.session ∧
    (∃ pending, session.Pending source (before.count .pull) pending ∧
      told = (pending :: List.replicate (later.count .pull) none).take (later.count .pull)) ∧
    ∀ source' turns,
      (∀ index, .act (.cancel index) ∈ turns → left.table.tokens[index]? = some w.token) →
      ((left.submission.session.watch source' left.table).play turns).2.isCanceled = false := by
  intro told left
  have there : w.token.node < w.table.forest.nodes.length := by
    rw [← reached]
    obtain ⟨same, there⟩ := token_play (w := session.watch source table) (Nat.lt_succ_self _) before
    rwa [same]
  have submission : w.submission = (session.submit source).after (before.count .pull) := by
    rw [← reached] at running ⊢
    exact submission_play (canceled_submit session source) running
  have canceled : { w with table := w.table.step (.cancel handle) }.isCanceled = true :=
    CancelTable.isCanceled_cancel clone there
  have provisional : w.submission.done = false → w.submission.provisional = none := by
    rw [submission]
    exact session.provisional_after_submit source _
  have pending : session.Pending source (before.count .pull) w.submission.cancel.pull.1 := by
    rw [submission]
    exact session.pending_pull source _
  obtain ⟨events, stays⟩ := play_of_canceled canceled provisional later
  refine ⟨submission, stays, ⟨_, pending, events⟩, ?_⟩
  intro source' turns others
  have newer := newer_watch left.submission.session source' left.table
  exact newer.isCanceled_play (token_play there (.act (.cancel handle) :: later)).2 others

/-- The second binding is not made when the submission is canceled through a copy of its token,
once before its next pull and once more behind it. The next program is run. -/
theorem watch_canceled_twice :
    let session : Session := { config := {}, width := List.length }
    let w := ((session.watch "var x = 2\nout x\nvar x = 3\nx".toList .empty).play
      [.pull, .act (.clone 0)]).2
    let later : List Turn := [.pull, .act (.cancel 0), .pull]
    let left := (w.play (.act (.cancel 1) :: later)).2
    let next := left.submission.session.watch "out x + 1".toList left.table
    w.isCanceled = false ∧ w.table.tokens[1]? = some w.token ∧
      (w.play (.act (.cancel 1) :: later)).1 = [some (.error "Canceled"), none] ∧
      left.submission.session.lookup? "x" = some (.number (.ofInt 2)) ∧
      (next.play [.act (.cancel 0), .pull]).1 = [some (.standard "3")] ∧
      (next.play [.act (.cancel 0), .pull]).2.isCanceled = false := by
  intro session w later left next
  have running : w.isCanceled = false := by decide +kernel
  have clone : w.table.tokens[1]? = some w.token := by decide +kernel
  have parsed : Program.parse? "var x = 2\nout x\nvar x = 3\nx".toList =
      .ok [.var "x" (.number (.ofInt 2)), .out (.identifier "x"), .var "x" (.number (.ofInt 3)),
        .expression (.identifier "x")] := by
    decide +kernel
  obtain ⟨-, stays, ⟨pending, event, told⟩, others⟩ :=
    watch_canceled session _ .empty rfl running clone later
  refine ⟨running, clone, told.trans ?_, ?_, by decide +kernel, ?_⟩
  · cases event with
    | unfinished => rfl
    | finished parsed' ended =>
      cases parsed.symm.trans parsed'
      refine absurd ⟨2, ⟨by decide +kernel, fun m enough => ?_⟩, by decide +kernel⟩ ended
      by_contra less
      interval_cases m <;> exact absurd enough (by decide +kernel)
    | unread failed => cases parsed.symm.trans failed
    | rejected failed => cases parsed.symm.trans failed
  · rw [Session.lookup?, stays]
    decide +kernel
  · refine others "out x + 1".toList _ fun index mem => ?_
    obtain rfl : index = 0 := by simpa using mem
    decide +kernel

end Session

end RatCalc
