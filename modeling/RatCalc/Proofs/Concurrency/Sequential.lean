import Mathlib
import RatCalc.Proofs.Concurrency.Job

/-!
# One task after another

Running the tasks of a group one after another is one of the orders in which their workers may
take their turns: each worker runs its chunk to the end before the next one starts, and nobody
looks at the token while a task runs but the task itself. So what `join` and `mapIndexed` come to
is something that their jobs may come to.

## Main definitions

* `Crew.Leaves`: how a worker leaves its chunk and what it hands over.
* `Crew.Past`: some workers have come to their ends, and the others have not begun.

## Main results

* `Job.Ends.andThen`: jobs one after another.
* `Job.steps_runChunk`, `Job.steps_chunks`: one worker, and one worker after another.
* `Job.ends_join`, `Job.ends_mapIndexed`: the two kinds of groups.
-/

namespace RatCalc

namespace Job

variable {α β : Type} {length : ℕ} {canceled : Bool}

theorem Step.bind {t t' : Job α} (h : Step canceled t t') (f : α → Job β) :
    Step canceled (t.bind f) (t'.bind f) := by
  cases h with
  | look => exact .look
  | work i works step => exact .work i works step
  | turn step => exact .turn step
  | finish finished => exact .finish finished

/-- A job comes to what it makes of the result of another one. -/
theorem Ends.andThen {t : Job α} {r : Except EvalError α} (h : Ends canceled t r) {f : α → Job β}
    {g : α → Except EvalError β} (after : ∀ x, r = .ok x → Ends canceled (f x) (g x)) :
    Ends canceled (t >>= f) (r >>= g) := by
  have first : Relation.ReflTransGen (Step canceled) (t.bind f) ((done r).bind f) :=
    h.lift (Job.bind · f) fun _ _ step => step.bind f
  cases r with
  | ok x => exact first.trans (after x rfl)
  | error e => exact first

theorem Ends.andThen_ok {t : Job α} {x : α} (h : Ends canceled t (.ok x)) {f : α → Job β}
    {r : Except EvalError β} (after : Ends canceled (f x) r) : Ends canceled (t >>= f) r :=
  h.andThen (g := fun _ => r) fun _ same => Except.ok.inj same ▸ after

theorem Ends.andThen_error {t : Job α} {e : EvalError} (h : Ends canceled t (.error e))
    (f : α → Job β) : Ends canceled (t >>= f) (.error e) :=
  h.andThen (g := fun _ => .error e) nofun

theorem ends_done (r : Except EvalError α) : Ends canceled (done r) r :=
  .refl

theorem ends_after_check {t : Job α} {r : Except EvalError α} (h : Ends false t r) :
    Ends false (check >>= fun _ => t) r :=
  .head .look h

theorem ends_check_canceled (t : Job α) : Ends true (check >>= fun _ => t) (.error .canceled) :=
  .single .look

/-! ### One task -/

section Crew

variable {c : Crew fun _ : Fin length => β} {jobs : Fin length → Job β}
variable {next : Except EvalError (Fin length → β) → Job α} {i : Fin length}

/-- A crew sees the token of its caller as it is now. -/
theorem ends_of_under {r : Except EvalError α}
    (h : Ends canceled (.crew (c.under canceled) jobs next) r) :
    Ends canceled (.crew c jobs next) r := by
  generalize start : crew (c.under canceled) jobs next = t at h
  induction h using Relation.ReflTransGen.head_induction_on generalizing jobs with
  | refl => cases start
  | head step rest ih =>
    subst start
    cases step with
    | work i works step => exact .head (.work i works step) (ih rfl)
    | turn step => exact .head (.turn step) rest
    | finish finished => exact .head (.finish finished) rest

theorem under_of_caller (caller : c.group.callerCanceled = canceled) : c.under canceled = c := by
  subst caller
  rfl

/-- A task runs to its result while all others rest. -/
theorem steps_work (works : c.stage i = .working) {t : Job β}
    (h : Relation.ReflTransGen (Step (c.under canceled).group.isCanceled) (jobs i) t) :
    Relation.ReflTransGen (Step canceled) (.crew c jobs next)
      (.crew c (Function.update jobs i t) next) := by
  induction h with
  | refl => rw [Function.update_eq_self]
  | @tail t t' _ step ih =>
    have once : Function.update (Function.update jobs i t) i t' = Function.update jobs i t' :=
      Function.update_idem ..
    rw [← once]
    refine ih.tail (.work i works ?_)
    rwa [Function.update_self]

/-- A turn of a crew that knows the token of its caller. -/
theorem step_turn (caller : c.group.callerCanceled = canceled)
    {c' : Crew fun _ : Fin length => β} {event : Event fun _ : Fin length => β}
    (step : Crew.Step (Returns jobs) c event c') :
    Step canceled (.crew c jobs next) (.crew c' jobs next) :=
  .turn (by rwa [under_of_caller caller])

/-- The group takes in what there is for an index. -/
theorem step_settle (caller : c.group.callerCanceled = canceled) (r : Except EvalError β) :
    Step canceled (.crew (c.move c.group i (.returned r)) jobs next)
      (.crew (c.move (c.group.settle r).1 i (.settled r.toOption)) jobs next) := by
  have returned : (c.move c.group i (.returned r)).stage i = .returned r :=
    Crew.stage_move_self ..
  have settle : Crew.Step (Returns jobs) (c.move c.group i (.returned r)) _ _ :=
    .settle i r returned
  rw [Crew.move_move, Group.settle_value] at settle
  exact step_turn (c := c.move c.group i (.returned r)) caller settle

variable (next)

/-- A task that has been started is run, and the group takes in what it returns. -/
theorem steps_settle (caller : c.group.callerCanceled = canceled) (works : c.stage i = .working)
    {r : Except EvalError β} (h : Ends c.group.isCanceled (jobs i) r) :
    Relation.ReflTransGen (Step canceled) (.crew c jobs next)
      (.crew (c.move (c.group.settle r).1 i (.settled r.toOption))
        (Function.update jobs i (.done r)) next) := by
  have run : Relation.ReflTransGen (Step canceled) (.crew c jobs next)
      (.crew c (Function.update jobs i (.done r)) next) :=
    steps_work works (by rwa [under_of_caller caller])
  have returned : Step canceled (.crew c (Function.update jobs i (.done r)) next)
      (.crew (c.move c.group i (.returned r)) (Function.update jobs i (.done r)) next) :=
    step_turn caller (.outcome i { result := r } works ⟨Function.update_self .., rfl⟩)
  exact (run.tail returned).tail (step_settle caller r)

/-- A worker finds its token canceled and hands that to the group. -/
theorem steps_look_canceled (caller : c.group.callerCanceled = canceled)
    (waits : c.stage i = .waiting) (stands : c.StandsAt i) (saw : c.group.isCanceled = true) :
    Relation.ReflTransGen (Step canceled) (.crew c jobs next)
      (.crew (c.move c.group i (.settled none)) jobs next) := by
  have look : Crew.Step (Returns jobs) c _ _ := .look i waits stands
  rw [saw, if_pos rfl] at look
  exact (Relation.ReflTransGen.single (step_turn caller look)).tail (step_settle caller _)

/-- A worker that does not find its token canceled starts the task. -/
theorem step_look (caller : c.group.callerCanceled = canceled)
    (waits : c.stage i = .waiting) (stands : c.StandsAt i) (saw : c.group.isCanceled = false) :
    Step canceled (.crew c jobs next) (.crew (c.move c.group i .working) jobs next) := by
  have look : Crew.Step (Returns jobs) c _ _ := .look i waits stands
  rw [saw, if_neg Bool.false_ne_true] at look
  exact step_turn caller look

/-- A task whose token is not canceled is started and run, and the group takes in what it
returns. -/
theorem steps_task (caller : c.group.callerCanceled = canceled) (waits : c.stage i = .waiting)
    (stands : c.StandsAt i) (saw : c.group.isCanceled = false) {r : Except EvalError β}
    (h : Ends c.group.isCanceled (jobs i) r) :
    Relation.ReflTransGen (Step canceled) (.crew c jobs next)
      (.crew (c.move (c.group.settle r).1 i (.settled r.toOption))
        (Function.update jobs i (.done r)) next) := by
  refine .head (step_look next caller waits stands saw) ?_
  have run := steps_settle (c := c.move c.group i .working) next caller
    (Crew.stage_move_self ..) h
  rwa [Crew.move_move] at run

end Crew

/-! ### Two tasks -/

/-- What a group comes to, converted. -/
theorem map_finish (g : Group) (value : Option α) (f : α → β) :
    (g.finish value).map f = g.finish (value.map f) := by
  unfold Group.finish
  cases g.failure <;> cases value <;> rfl

/-- Two tasks, the left one first. -/
theorem join_eq (x y : Bool → Except EvalError α) :
    RatCalc.join canceled x y =
      let g : Group := { callerCanceled := canceled }
      let g' := (g.settle (x g.isCanceled)).1
      (g'.settle (y g'.isCanceled)).1.finish
        ((x g.isCanceled).toOption.bind fun a =>
          (y g'.isCanceled).toOption.map fun b => (a, b)) := by
  simp only [RatCalc.join, Group.settle_value]

/-- Two tasks one after the other. -/
theorem ends_join {left right : Job α} {x y : Bool → Except EvalError α}
    (hl : ∀ b, Ends b left (x b)) (hr : ∀ b, Ends b right (y b)) :
    Ends canceled (join left right) (RatCalc.join canceled x y) := by
  let c : Crew fun _ : Fin 2 => α := Crew.pair canceled
  let r := x c.group.isCanceled
  let c' := c.move (c.group.settle r).1 0 (.settled r.toOption)
  let r' := y c'.group.isCanceled
  let c'' := c'.move (c'.group.settle r').1 1 (.settled r'.toOption)
  have caller : c'.group.callerCanceled = canceled := Group.callerCanceled_settle ..
  have finished : c''.Finished := Fin.forall_fin_two.2 ⟨.inl ⟨_, rfl⟩, .inl ⟨_, rfl⟩⟩
  have result : c''.result.map leftRight = RatCalc.join canceled x y := by
    rw [Crew.result, map_finish, ← Crew.both_eq, join_eq]
    rfl
  refine ends_of_under ?_
  rw [← result]
  refine Relation.ReflTransGen.trans (steps_settle (c := c) (i := 0) _ rfl rfl (hl _)) ?_
  refine Relation.ReflTransGen.trans (steps_settle (c := c') (i := 1) _ caller rfl (hr _)) ?_
  exact .single (.finish finished)

end Job

/-! ### One worker after another -/

namespace Crew

variable {α : Type} {length : ℕ} {c c' : Crew fun _ : Fin length => α}

/-- What the indices have given so far, as tasks that only tell it. -/
def given (c : Crew fun _ : Fin length => α) : IndexedTask length α := fun i h _ =>
  { result := (c.stage ⟨i, h⟩).value?.elim (.error .canceled) .ok }

/-- The indices from `i` on have given these values. -/
theorem answers_given_iff {i : ℕ} {ys : List α} :
    Answers c.given i ys ↔ ∀ k (hk : k < ys.length),
      ∃ h : i + k < length, c.stage ⟨i + k, h⟩ = .settled (some ys[k]) := by
  have told (j : Fin length) (y : α) :
      (c.stage j).value?.elim (.error EvalError.canceled) Except.ok = .ok y ↔
        c.stage j = .settled (some y) := by
    rw [← Stage.value?_eq_some_iff]
    cases (c.stage j).value? <;> simp
  simp only [answers_iff, given, told]

/-- Indices that rest have given the same values. -/
theorem answers_given_congr {i : ℕ} {ys : List α} (h : Answers c.given i ys)
    (rest : ∀ j : Fin length, i ≤ j → (j : ℕ) < i + ys.length → c'.stage j = c.stage j) :
    Answers c'.given i ys := by
  rw [answers_given_iff] at h ⊢
  intro k hk
  obtain ⟨inside, settled⟩ := h k hk
  exact ⟨inside, (rest _ (Nat.le_add_right i k) (Nat.add_lt_add_left hk i)).trans settled⟩

/-- How a worker leaves the indices from `i` up to `stop` when it hands over what it had before
and their values, or nothing. -/
def Leaves (c : Crew fun _ : Fin length => α) (i stop : ℕ) (before : Array α) :
    Option (Array α) → Prop
  | some out => ∃ ys : List α, out = before ++ ys.toArray ∧ ys.length = stop - i ∧
      Answers c.given i ys
  | none => ∃ j : Fin length, i ≤ j ∧ (j : ℕ) < stop ∧ c.stage j = .settled none ∧
      ∀ k : Fin length, i ≤ k → k < j → ∃ x, c.stage k = .settled (some x)

/-- A worker that has got a value goes on with the next index. -/
theorem Leaves.cons {i stop : ℕ} {before : Array α} {value : α} {out : Option (Array α)}
    (h : c.Leaves (i + 1) stop (before.push value) out) (within : i < stop) (inside : i < length)
    (own : c.stage ⟨i, inside⟩ = .settled (some value)) : c.Leaves i stop before out := by
  cases out with
  | some out =>
    obtain ⟨ys, rfl, count, answers⟩ := h
    refine ⟨value :: ys, by simp, by simp only [List.length_cons]; omega, ?_, answers⟩
    exact ⟨inside, by simp [given, own, Stage.value?]⟩
  | none =>
    obtain ⟨j, low, high, settled, earlier⟩ := h
    refine ⟨j, by omega, high, settled, fun k hk kj => ?_⟩
    rcases Nat.lt_or_eq_of_le hk with further | same
    · exact earlier k further kj
    · obtain rfl : k = ⟨i, inside⟩ := Fin.ext same.symm
      exact ⟨value, own⟩

/-- An index without a value is the last one that a worker gets to. -/
theorem leaves_none {i stop : ℕ} {before : Array α} (within : i < stop) (inside : i < length)
    (own : c.stage ⟨i, inside⟩ = .settled none) : c.Leaves i stop before none :=
  ⟨⟨i, inside⟩, le_rfl, within, own, fun _ low high => absurd high (Nat.not_lt.2 low)⟩

/-- A worker that has got values so far in its chunk stands at the next index. -/
theorem standsAt_of_before {chunk i : ℕ} (inside : i < length) (low : chunk * c.size ≤ i)
    (high : i < (chunk + 1) * c.size)
    (before : ∀ j : Fin length, chunk * c.size ≤ j → (j : ℕ) < i →
      ∃ x, c.stage j = .settled (some x)) : c.StandsAt ⟨i, inside⟩ := by
  intro j earlier worker
  have within : i / c.size = chunk := Nat.div_eq_of_lt_le low high
  refine before j ?_ earlier
  calc chunk * c.size = (j : ℕ) / c.size * c.size := by rw [← within]; exact worker ▸ rfl
    _ ≤ j := Nat.div_mul_le_self ..

end Crew

/-- An index before or behind a stretch of indices is none of them. -/
theorem ne_of_outside {length i stop : ℕ} (inside : i < length) (within : i < stop)
    {j : Fin length} (outside : (j : ℕ) < i ∨ stop ≤ j) : j ≠ ⟨i, inside⟩ := by
  rintro rfl
  rcases outside with before | behind
  · exact lt_irrefl i before
  · exact Nat.not_le.2 within behind

namespace Job

variable {α β : Type} {length : ℕ} {canceled : Bool}
variable {task : IndexedTask length β} {first : Fin length → Job β}
variable (next : Except EvalError (Fin length → β) → Job α)

/-- **A worker runs its chunk to the end while all others rest.** -/
theorem steps_runChunk (quiet : ∀ i h b, (task i h b).cancels = false)
    (ends : ∀ i b, Ends b (first i) (task i i.isLt b).result) (chunk : ℕ) {stop i : ℕ}
    (inside : stop ≤ length) {group : Group} (visited : Array ℕ) (results : Array β)
    {c : Crew fun _ : Fin length => β} {jobs : Fin length → Job β} (same : c.group = group)
    (caller : c.group.callerCanceled = canceled) (low : chunk * c.size ≤ i)
    (high : stop ≤ (chunk + 1) * c.size)
    (fresh : ∀ j : Fin length, i ≤ j → c.stage j = .waiting ∧ jobs j = first j)
    (before : ∀ j : Fin length, chunk * c.size ≤ j → (j : ℕ) < i →
      ∃ x, c.stage j = .settled (some x)) :
    ∃ c' jobs', Relation.ReflTransGen (Step canceled) (.crew c jobs next) (.crew c' jobs' next) ∧
      c'.group = (Sweep.runChunk task stop inside i group visited results).group ∧
      c'.group.callerCanceled = canceled ∧ c'.size = c.size ∧
      (∀ j : Fin length, (j : ℕ) < i ∨ stop ≤ j → c'.stage j = c.stage j ∧ jobs' j = jobs j) ∧
      c'.Leaves i stop results
        (Sweep.runChunk task stop inside i group visited results).results := by
  fun_induction Sweep.runChunk task stop inside i group visited results generalizing c jobs with
  -- The token is found canceled.
  | case1 i group visited results hi saw =>
    have inside' : i < length := hi.trans_le inside
    obtain ⟨waits, -⟩ := fresh ⟨i, inside'⟩ le_rfl
    have stands := Crew.standsAt_of_before inside' low (hi.trans_le high) before
    refine ⟨_, jobs, steps_look_canceled next caller waits stands (by rw [same, saw]), same, caller,
      rfl, fun j hj => ⟨Crew.stage_move_of_ne _ _ (ne_of_outside inside' hi hj), rfl⟩,
      Crew.leaves_none hi inside' (Crew.stage_move_self ..)⟩
  -- The task gives a value, and the worker goes on.
  | case2 i group visited results hi saw outcome group' group'' value =>
    rename_i settled ih
    have inside' : i < length := hi.trans_le inside
    obtain ⟨waits, rests⟩ := fresh ⟨i, inside'⟩ le_rfl
    have stands := Crew.standsAt_of_before inside' low (hi.trans_le high) before
    have alive : c.group.isCanceled = false := by rw [same]; simpa using saw
    have untouched : group' = group := by simp [group', outcome, quiet]
    obtain ⟨result, kept⟩ := Group.settle_of_some (congrArg Prod.snd settled)
    rw [settled] at kept
    have run : Ends c.group.isCanceled (jobs ⟨i, inside'⟩) (.ok value) := by
      rw [rests, ← result, same]
      exact ends _ _
    have turn := steps_task next caller waits stands alive run
    let c₁ := c.move c.group ⟨i, inside'⟩ (.settled (some value))
    let jobs₁ := Function.update jobs ⟨i, inside'⟩ (.done (.ok value))
    have later (j : Fin length) (hj : i + 1 ≤ j) :
        c₁.stage j = .waiting ∧ jobs₁ j = first j := by
      have other := ne_of_outside inside' (Nat.lt_succ_self i) (.inr hj)
      obtain ⟨stage, job⟩ := fresh j (Nat.le_of_succ_le hj)
      exact ⟨(Crew.stage_move_of_ne _ _ other).trans stage,
        (Function.update_of_ne other ..).trans job⟩
    have earlier (j : Fin length) (low' : chunk * c.size ≤ j) (hj : (j : ℕ) < i + 1) :
        ∃ x, c₁.stage j = .settled (some x) := by
      by_cases own : j = ⟨i, inside'⟩
      · subst own
        exact ⟨value, Crew.stage_move_self ..⟩
      · rw [Crew.stage_move_of_ne _ _ own]
        exact before j low' (lt_of_le_of_ne (Nat.lt_succ_iff.1 hj) fun eq => own (Fin.ext eq))
    obtain ⟨c', jobs', steps, hg, hc, hs, others, leaves⟩ :=
      @ih c₁ jobs₁ (same.trans (kept.trans untouched).symm) caller (Nat.le_succ_of_le low) high
        later earlier
    refine ⟨c', jobs', turn.trans steps, hg, hc, hs, fun j hj => ?_, leaves.cons hi inside' ?_⟩
    · have other := ne_of_outside inside' hi hj
      obtain ⟨stage, job⟩ := others j (hj.imp_left Nat.lt_succ_of_lt)
      exact ⟨stage.trans (Crew.stage_move_of_ne _ _ other),
        job.trans (Function.update_of_ne other ..)⟩
    · exact (others _ (.inl (Nat.lt_succ_self i))).1.trans (Crew.stage_move_self ..)
  -- The task gives none, which ends the chunk.
  | case3 i group visited results hi saw outcome group' =>
    rename_i group'' settled
    have inside' : i < length := hi.trans_le inside
    obtain ⟨waits, rests⟩ := fresh ⟨i, inside'⟩ le_rfl
    have stands := Crew.standsAt_of_before inside' low (hi.trans_le high) before
    have alive : c.group.isCanceled = false := by rw [same]; simpa using saw
    have untouched : group' = group := by simp [group', outcome, quiet]
    have run : Ends c.group.isCanceled (jobs ⟨i, inside'⟩) outcome.result := by
      rw [rests, same]
      exact ends _ _
    have turn := steps_task next caller waits stands alive run
    have nothing : outcome.result.toOption = none := by
      rw [← Group.settle_value group', settled]
    rw [nothing] at turn
    refine ⟨_, _, turn, ?_, ?_, rfl, fun j hj => ?_,
      Crew.leaves_none hi inside' (Crew.stage_move_self ..)⟩
    · rw [same, ← untouched]
      exact congrArg Prod.fst settled
    · exact (Group.callerCanceled_settle ..).trans caller
    · have other := ne_of_outside inside' hi hj
      exact ⟨Crew.stage_move_of_ne _ _ other, Function.update_of_ne other ..⟩
  -- The chunk is done.
  | case4 i group visited results hi =>
    exact ⟨c, jobs, .refl, same, caller, rfl, fun _ _ => ⟨rfl, rfl⟩, [], by simp,
      by simp; omega, trivial⟩

end Job

namespace Crew

variable {α : Type} {length : ℕ} {c c' : Crew fun _ : Fin length => α}

/-- The workers of the indices below `n` have come to their ends, and the others have not begun.
`results` is what they have handed over, or nothing once one of them has. -/
structure Past (c : Crew fun _ : Fin length => α) (n : ℕ) (results : Option (Array α)) :
    Prop where
  waits : ∀ j : Fin length, n ≤ j → c.stage j = .waiting
  ended : ∀ j : Fin length, (j : ℕ) < n → (∃ x, c.stage j = .settled x) ∨
    ∃ k < j, c.SameWorker k j ∧ c.stage k = .settled none
  given : ∀ out, results = some out → out.size = min n length ∧ Answers c.given 0 out.toList
  missing : results = none → ∃ j, c.stage j = .settled none

/-- The next worker comes to its end. -/
theorem Past.next {chunk : ℕ} {results handed : Option (Array α)}
    (h : c.Past (chunk * c.size) results) (size : c'.size = c.size)
    (rest : ∀ j : Fin length, (j : ℕ) < chunk * c.size ∨ min ((chunk + 1) * c.size) length ≤ j →
      c'.stage j = c.stage j)
    (leaves : c'.Leaves (chunk * c.size) (min ((chunk + 1) * c.size) length) #[] handed) :
    c'.Past ((chunk + 1) * c.size)
      (results.bind fun done => handed.map fun out => done ++ out) where
  waits j hj := by
    have before := h.waits j ((Nat.mul_le_mul_right _ (Nat.le_succ chunk)).trans hj)
    exact (rest j (.inr ((Nat.min_le_left ..).trans hj))).trans before
  ended j hj := by
    rcases lt_or_ge (j : ℕ) (chunk * c.size) with earlier | low
    · rw [rest j (.inl earlier)]
      refine (h.ended j earlier).imp_right ?_
      rintro ⟨k, hk, worker, settled⟩
      refine ⟨k, hk, ?_, (rest k (.inl (lt_trans hk earlier))).trans settled⟩
      rwa [SameWorker, size]
    have within : (j : ℕ) / c.size = chunk := Nat.div_eq_of_lt_le low hj
    cases handed with
    | some out =>
      obtain ⟨ys, rfl, count, answers⟩ := leaves
      obtain ⟨inside, settled⟩ := answers_given_iff.1 answers (j - chunk * c.size) (by omega)
      simp only [Nat.add_sub_cancel' low] at settled
      exact .inl ⟨_, settled⟩
    | none =>
      obtain ⟨k, lowk, highk, settled, earlier⟩ := leaves
      rcases lt_trichotomy j k with before | same | behind
      · obtain ⟨x, given⟩ := earlier j low before
        exact .inl ⟨_, given⟩
      · exact .inl ⟨none, same ▸ settled⟩
      · refine .inr ⟨k, behind, ?_, settled⟩
        rw [SameWorker, size, within]
        exact Nat.div_eq_of_lt_le lowk (highk.trans_le (Nat.min_le_left ..))
  given out hout := by
    obtain ⟨done, hdone, hout⟩ := Option.bind_eq_some_iff.1 hout
    obtain ⟨next, rfl, rfl⟩ := Option.map_eq_some_iff.1 hout
    obtain ⟨filled, answers⟩ := h.given done hdone
    obtain ⟨ys, rfl, count, others⟩ := leaves
    rw [Nat.add_mul, one_mul] at count ⊢
    refine ⟨?_, ?_⟩
    · simp only [Array.empty_append, Array.size_append, List.size_toArray, count, filled]
      omega
    · rw [Array.toList_append, answers_append]
      refine ⟨answers_given_congr answers fun j _ hj => rest j (.inl ?_), ?_⟩
      · rw [Array.length_toList, filled] at hj
        omega
      -- A chunk that starts behind the last index is empty, wherever it is said to start.
      by_cases inside : chunk * c.size ≤ length
      · simpa [filled, inside] using others
      · obtain rfl := List.eq_nil_of_length_eq_zero (by omega : ys.length = 0)
        trivial
  missing none := by
    cases results with
    | none =>
      obtain ⟨j, settled⟩ := h.missing rfl
      refine ⟨j, (rest j (.inl ?_)).trans settled⟩
      by_contra late
      rw [h.waits j (Nat.not_lt.1 late)] at settled
      cases settled
    | some done =>
      cases handed with
      | none =>
        obtain ⟨k, -, -, settled, -⟩ := leaves
        exact ⟨k, settled⟩
      | some out => cases none

/-- When all workers have come to their ends, the crew has finished with what they handed over. -/
theorem Past.result {n : ℕ} {results : Option (Array α)} (h : c.Past n results)
    (all : length ≤ n) : c.Finished ∧ c.values?.map Array.ofFn = results := by
  refine ⟨fun j => h.ended j (j.isLt.trans_le all), ?_⟩
  cases results with
  | some out =>
    obtain ⟨filled, answers⟩ := h.given out rfl
    rw [Nat.min_eq_right all] at filled
    subst filled
    have each (j : Fin out.size) : c.stage j = .settled (some out[j]) := by
      obtain ⟨inside, settled⟩ := answers_given_iff.1 answers j (by simp)
      simpa using settled
    rw [values?_eq_some_iff.2 each]
    exact congrArg some Array.ofFn_getElem
  | none =>
    obtain ⟨j, settled⟩ := h.missing rfl
    have lacks : c.values? = none := gather_eq_none_iff.2 ⟨j, by rw [settled]; rfl⟩
    rw [lacks]
    rfl

end Crew

namespace Job

variable {α β : Type} {length : ℕ} {canceled : Bool}
variable {task : IndexedTask length β} {first : Fin length → Job β}
variable (next : Except EvalError (Fin length → β) → Job α)

/-- One worker after another comes to its end. -/
theorem steps_chunks (quiet : ∀ i h b, (task i h b).cancels = false)
    (ends : ∀ i b, Ends b (first i) (task i i.isLt b).result) {c : Crew fun _ : Fin length => β}
    {size : ℕ} (sized : c.size = size) (caller : c.group.callerCanceled = canceled)
    (fresh : ∀ j, c.stage j = .waiting) (count : ℕ) :
    ∃ c' jobs', Relation.ReflTransGen (Step canceled) (.crew c first next) (.crew c' jobs' next) ∧
      c'.group = (Sweep.chunks task size count { group := c.group }).group ∧
      c'.group.callerCanceled = canceled ∧ c'.size = size ∧
      (∀ j : Fin length, count * size ≤ j → jobs' j = first j) ∧
      c'.Past (count * size) (Sweep.chunks task size count { group := c.group }).results := by
  induction count with
  | zero =>
    have past : c.Past (0 * size) (some #[]) :=
      ⟨fun j _ => fresh j, fun j hj => absurd hj (by simp),
        fun out h => Option.some.inj h ▸ ⟨by simp, trivial⟩, nofun⟩
    exact ⟨c, first, .refl, rfl, caller, sized, fun _ _ => rfl, past⟩
  | succ count ih =>
    obtain ⟨c', jobs', steps, hg, hc, rfl, waiting, past⟩ := ih
    obtain ⟨c'', jobs'', steps', hg', hc', hs', others, leaves⟩ :=
      steps_runChunk next quiet ends count (Nat.min_le_right ((count + 1) * c'.size) length)
        (Sweep.chunks task c'.size count { group := c.group }).visited #[] hg hc le_rfl
        (Nat.min_le_left ..) (fun j hj => ⟨past.waits j hj, waiting j hj⟩)
        fun j low hj => absurd hj (Nat.not_lt.2 low)
    refine ⟨c'', jobs'', steps.trans steps', ?_, hc', hs', fun j hj => ?_, ?_⟩
    · rw [hg', Sweep.chunks_succ, Sweep.addChunk]
    · have waited : count * c'.size ≤ j := (Nat.mul_le_mul_right _ (Nat.le_succ count)).trans hj
      exact (others j (.inr ((Nat.min_le_left ..).trans hj))).2.trans (waiting j waited)
    · rw [Sweep.chunks_succ, Sweep.addChunk]
      exact past.next hs' (fun j hj => (others j hj).1) leaves

/-- **Tasks for all indices one worker after another.** -/
theorem ends_mapIndexed (workers : ℕ) {task : IndexedTask length α} {jobs : Fin length → Job α}
    (quiet : ∀ i h b, (task i h b).cancels = false)
    (ends : ∀ i b, Ends b (jobs i) (task i i.isLt b).result) :
    Ends canceled (mapIndexed workers jobs) (RatCalc.mapIndexed canceled length workers task) := by
  refine ends_of_under ?_
  let c : Crew fun _ : Fin length => α := Crew.spread canceled length workers
  obtain ⟨c', jobs', steps, hg, -, -, -, past⟩ :=
    steps_chunks (fun r => done (r.map Array.ofFn)) quiet ends (c := c) rfl rfl (fun _ => rfl)
      (chunkCount length workers)
  obtain ⟨finished, collected⟩ := past.result (le_ceilDiv_mul length c.size_pos)
  have result : c'.result.map Array.ofFn = RatCalc.mapIndexed canceled length workers task := by
    rw [Crew.result, map_finish, collected, hg]
    rfl
  rw [← result]
  exact steps.tail (.finish finished)

end Job

end RatCalc
