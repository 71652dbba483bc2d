import Mathlib
import RatCalc.Proofs.Concurrency.Chunks
import RatCalc.Proofs.Concurrency.Order
import RatCalc.Proofs.Concurrency.Promise

/-!
# Tasks spread over workers

Tasks for all indices are spread over workers in chunks, which cover the row of the indices. So if
all tasks succeed under a token that nobody cancels, there are the values of all indices in their
order, whatever the number of workers and the order of their turns; and with one worker, or none,
the tasks are run one after another, up to the first one that stops the worker.

## Main definitions

* `Crew.Succeeds`: what a run comes to whose tasks all succeed.

## Main results

* `mapIndexed_of_ok`, `Crew.Run.succeeds`: tasks that all succeed, one worker after another and in
  every order of turns.
* `Sweep.exists_visits_alone`, `Crew.Run.inTurn_alone`: a lone worker.
* `Crew.spread_covers`: these together, with the chunks.
-/

namespace RatCalc

variable {α : Type} {length workers : ℕ}

/-! ### Tasks that all succeed -/

/-- Tasks that all succeed give their values in the order of the indices. -/
theorem mapIndexed_of_ok {task : IndexedTask length α} {values : Fin length → α}
    (succeed : ∀ i : Fin length, task i i.isLt false = { result := .ok (values i) }) :
    mapIndexed false length workers task = .ok (Array.ofFn values) := by
  have quiet (i : ℕ) (h : i < length) : (task i h false).cancels = false := by
    rw [succeed ⟨i, h⟩]
  refine (mapIndexed_eq_ok_iff quiet).2 ⟨Array.size_ofFn, answers_iff.2 fun k hk => ?_⟩
  have inside : k < length := by simpa using hk
  have answer : (task k inside false).result = .ok (values ⟨k, inside⟩) := by
    rw [succeed ⟨k, inside⟩]
  simpa using ⟨inside, answer⟩

namespace Crew

variable {task : Fin length → Bool → Outcome α → Prop} {values : Fin length → α}
variable {trace : List (Event fun _ : Fin length => α)} {c c' : Crew fun _ : Fin length => α}

/-- What a run comes to whose tasks all succeed. -/
structure Succeeds (task : Fin length → Bool → Outcome α → Prop)
    (trace : List (Event fun _ : Fin length => α)) (c : Crew fun _ : Fin length => α)
    (values : Fin length → α) : Prop where
  /-- There are three turns for each index at most. -/
  bounded : trace.length ≤ 3 * length
  /-- As long as a worker has to go on, one can. -/
  going : ¬ c.Finished → ∃ event c', Step task c event c'
  /-- When no worker has, there are the values in the order of the indices. -/
  collects : c.Finished → c.group.finish c.results = .ok (List.ofFn values)
  /-- Then every task has been run, and none twice. -/
  once : c.Finished → (starts trace).Perm (List.finRange length)

/-- A crew whose tasks all have values takes in no failure. -/
theorem Sound.failure_eq_none (h : c.Sound (fun i => some (values i)) False) :
    c.group.failure = none := by
  refine Option.eq_none_iff_forall_ne_some.2 fun e kept => ?_
  obtain ⟨-, i, missing⟩ := h.failure e kept
  cases missing

/-- Nor does it cancel its token. -/
theorem Sound.isCanceled_eq_false (h : c.Sound (fun i => some (values i)) False)
    (caller : c.group.callerCanceled = false) : c.group.isCanceled = false := by
  have own : c.group.canceled = false :=
    Bool.eq_false_iff.2 fun canceled => h.canceled canceled h.failure_eq_none
  rw [Group.isCanceled, caller, own]
  rfl

/-- When it has finished, it has got every value. -/
theorem Sound.settled (h : c.Sound (fun i => some (values i)) False) (finished : c.Finished)
    (i : Fin length) : c.stage i = .settled (some (values i)) := by
  have valued (j : Fin length) : c.stage j ≠ .settled none := fun settled => by
    have fits := h.stages j
    rw [settled] at fits
    exact fits.elim id fun failed => failed h.failure_eq_none
  rcases finished i with ⟨x, settled⟩ | ⟨j, -, -, settled⟩
  · have fits := h.stages i
    cases x with
    | none => exact absurd settled (valued i)
    | some x =>
      rw [settled] at fits
      rw [settled, fits]
  · exact absurd settled (valued j)

theorem Sound.finish_results (h : c.Sound (fun i => some (values i)) False)
    (finished : c.Finished) : c.group.finish c.results = .ok (List.ofFn values) := by
  refine Group.finish_eq_ok_iff.2 ⟨h.failure_eq_none, ?_⟩
  rw [results_eq, values?_eq_some_iff.2 (h.settled finished)]
  rfl

theorem fresh_spread {canceled : Bool} :
    (spread canceled length workers : Crew fun _ : Fin length => α).Fresh :=
  ⟨rfl, fun _ => rfl⟩

/-- Only the caller cancels its token. -/
theorem Run.callerCanceled_eq_false (run : Run task (spread false length workers) trace c)
    (calm : .interrupt ∉ trace) : c.group.callerCanceled = false := by
  refine Bool.eq_false_iff.2 fun canceled => ?_
  rcases (run.recorded_of_fresh fresh_spread).caller.1 canceled with before | mem
  · cases before
  · exact calm mem

/-- **Nothing goes wrong** while the caller is not canceled and the tasks give their values. -/
theorem Run.sound (succeed : ∀ i o, task i false o ↔ o = { result := .ok (values i) })
    (run : Run task (spread false length workers) trace c) (calm : .interrupt ∉ trace) :
    c.Sound (fun i => some (values i)) False := by
  induction run with
  | start => exact .start rfl rfl fun _ => .inl rfl
  | interrupt before ih => exact absurd (List.mem_append_right _ List.mem_cons_self) calm
  | @turn trace c c' event run step ih =>
    have earlier : .interrupt ∉ trace := fun mem => calm (List.mem_append_left _ mem)
    have caller := run.callerCanceled_eq_false earlier
    have same : c.under false = c := by
      rw [← caller]
      rfl
    have alive : (c.under false).group.isCanceled = false :=
      same.symm ▸ (ih earlier).isCanceled_eq_false caller
    have answer {i : Fin length} {o : Outcome α}
        (may : task i (c.under false).group.isCanceled o) : o = { result := .ok (values i) } :=
      (succeed i o).1 (alive ▸ may)
    have turn : Step task (c.under false) event c' := same.symm ▸ step
    obtain ⟨sound, -⟩ := (ih earlier).step (fun i o may => by rw [answer may])
      (fun i o may => by rw [answer may]; rfl) turn
    exact sound.mono (by simp)

/-- As many turns have been taken as there are fewer to take. -/
theorem Run.length_add_rest_le {start : Crew fun _ : Fin length => α}
    (run : Run task start trace c) (calm : .interrupt ∉ trace) :
    trace.length + c.rest ≤ start.rest := by
  induction run with
  | start => simp
  | interrupt before ih => exact absurd (List.mem_append_right _ List.mem_cons_self) calm
  | turn before step ih =>
    have earlier := ih fun mem => calm (List.mem_append_left _ mem)
    have less := step.rest_lt
    rw [List.length_append, List.length_singleton]
    omega

theorem rest_spread (canceled : Bool) (length workers : ℕ) :
    (spread canceled length workers : Crew fun _ : Fin length => α).rest = 3 * length := by
  simp [rest, spread, Stage.rest, Nat.mul_comm]

/-- **Tasks that all succeed are run to their end**, in every order of turns. -/
theorem Run.succeeds (succeed : ∀ i o, task i false o ↔ o = { result := .ok (values i) })
    (run : Run task (spread false length workers) trace c) (calm : .interrupt ∉ trace) :
    Succeeds task trace c values := by
  have sound := run.sound succeed calm
  refine ⟨?_, fun unfinished => ?_, sound.finish_results, fun finished => ?_⟩
  · have turns := run.length_add_rest_le calm
    rw [rest_spread] at turns
    omega
  · refine exists_step unfinished fun i _ => ⟨{ result := .ok (values i) }, ?_⟩
    rw [sound.isCanceled_eq_false (run.callerCanceled_eq_false calm)]
    exact (succeed i _).2 rfl
  · have unique := run.nodup_starts fresh_spread
    refine (List.perm_ext_iff_of_nodup unique (List.nodup_finRange length)).2 fun i => ?_
    have recorded := run.recorded_of_fresh fresh_spread
    obtain ⟨o, returned, -⟩ := recorded.returned_of_settled (sound.settled finished i)
    exact iff_of_true (run.mem_starts_of_outcome fresh_spread returned) (List.mem_finRange i)

end Crew

/-! ### A lone worker -/

/-- **A lone worker sweeps all indices in order**, up to the first one whose task stops it. -/
theorem Sweep.exists_visits_alone (few : workers ≤ 1) (canceled : Bool)
    (task : IndexedTask length α) :
    ∃ n, (sweep canceled length workers task).visited.toList = List.range n ∧
      Visits task canceled 0 length n := by
  rcases Nat.eq_zero_or_pos length with rfl | nonempty
  · have none : chunkCount 0 workers = 0 :=
      Nat.eq_zero_of_not_pos fun h => absurd (lt_chunkCount_iff.1 h) (Nat.not_lt_zero _)
    refine ⟨0, ?_, .nil canceled 0⟩
    rw [sweep, none]
    rfl
  · have one : chunkCount length workers = 1 := by
      refine le_antisymm ((chunkCount_le length workers).trans (Nat.max_le.2 ⟨few, le_rfl⟩)) ?_
      exact lt_chunkCount_iff.2 (by simpa [chunkAt] using nonempty)
    have whole : min ((0 + 1) * chunkSize length workers) length = length := by
      rw [Nat.zero_add, Nat.one_mul, Nat.min_eq_right (le_chunkSize few)]
    have begins :
        0 * chunkSize length workers ≤ min ((0 + 1) * chunkSize length workers) length := by
      rw [Nat.zero_mul]
      exact Nat.zero_le _
    obtain ⟨n, all, visits⟩ := exists_visits task (Nat.min_le_right _ length) begins
      { callerCanceled := canceled } #[] #[]
    rw [whole, Nat.zero_mul] at visits
    refine ⟨n, ?_, by simpa [Group.isCanceled] using visits⟩
    rw [sweep, one]
    calc _ = [] ++ List.Ico (0 * chunkSize length workers) n := all
      _ = List.range n := by rw [List.nil_append, Nat.zero_mul, List.Ico.zero_bot]

namespace Crew

/-- **A lone worker runs the tasks one after another**, whenever the caller is canceled. -/
theorem Run.inTurn_alone {task : Fin length → Bool → Outcome α → Prop} (few : workers ≤ 1)
    {canceled : Bool} {trace : List (Event fun _ : Fin length => α)}
    {c : Crew fun _ : Fin length => α}
    (run : Run task (spread canceled length workers) trace c) : InTurn trace := by
  refine run.inTurn fresh_spread fun i j => ?_
  have first (i : Fin length) : (i : ℕ) / chunkSize length workers = 0 :=
    Nat.div_eq_of_lt (i.isLt.trans_le (le_chunkSize few))
  exact (first i).trans (first j).symm

/-! ### Together -/

/-- **Chunks cover every index once and in order.** There are no more chunks than workers, none is
empty, one behind the other they are the row of the indices, and for up to `2 ^ 63` of these nothing
overflows a word. So tasks that all succeed, while nobody cancels a token, give the values of all
indices in their order: if one worker after another is at work, and in every order of their turns.
With one worker, or none, the tasks are run one after another on the first indices; none is run
behind one that fails, or during which a token is canceled. -/
theorem spread_covers {length : ℕ} (bound : length ≤ 2 ^ 63) (workers : ℕ) :
    Covered length workers ∧
    (∀ {α : Type} (values : Fin length → α),
      (∀ task : IndexedTask length α,
        (∀ i : Fin length, task i i.isLt false = { result := .ok (values i) }) →
          mapIndexed false length workers task = .ok (Array.ofFn values)) ∧
      ∀ task : Fin length → Bool → Outcome α → Prop,
        (∀ i o, task i false o ↔ o = { result := .ok (values i) }) →
          ∀ trace c, Run task (spread false length workers) trace c → .interrupt ∉ trace →
            Succeeds task trace c values) ∧
    (workers ≤ 1 → ∀ {α : Type} (canceled : Bool),
      (∀ task : IndexedTask length α,
        ∃ n, (sweep canceled length workers task).visited.toList = List.range n ∧
          Sweep.Visits task canceled 0 length n) ∧
      ∀ (task : Fin length → Bool → Outcome α → Prop) trace c,
        Run task (spread canceled length workers) trace c → InTurn trace) := by
  refine ⟨covered bound workers, fun values => ⟨fun task succeed => mapIndexed_of_ok succeed,
    fun task succeed trace c run calm => run.succeeds succeed calm⟩, fun few α canceled => ⟨?_, ?_⟩⟩
  · exact Sweep.exists_visits_alone few canceled
  · exact fun task trace c run => run.inTurn_alone few

/-- Five indices make three chunks for four workers. Of two workers the second one may be ahead,
and the values still stand in order. One worker stops behind the index whose task runs when the
caller is canceled, and behind one whose task fails. -/
theorem spread_covers_small :
    (5 ≤ 2 ^ 63 ∧ wordChunks? 5 4 = some [⟨0, 2, 2⟩, ⟨2, 4, 2⟩, ⟨4, 5, 1⟩] ∧
      mapIndexed false 5 4 (fun i _ _ => { result := .ok (2 * i) }) = .ok #[0, 2, 4, 6, 8]) ∧
    (∃ final : Crew fun _ : Fin 2 => ℕ,
      Run (fun i _ o => o = { result := .ok (2 * (i : ℕ)) }) (spread false 2 4)
        [.look 1 false, .look 0 false, .outcome 1 { result := .ok 2 }, .settle 1 (.ok 2),
          .outcome 0 { result := .ok 0 }, .settle 0 (.ok 0)] final ∧
        final.Finished ∧ final.group.finish final.results = .ok [0, 2]) ∧
    (∃ trace, ∃ final : Crew fun _ : Fin 3 => ℕ,
      trace = [.look 0 false, .outcome 0 { result := .ok 7 }, .settle 0 (.ok 7), .look 1 false,
        .interrupt, .outcome 1 { result := .ok 8 }, .settle 1 (.ok 8)] ∧
        Run (fun _ _ _ => True) (spread false 3 0) trace final ∧ ∀ j ∈ starts trace, j ≤ 1) ∧
    ∀ i ∈ (sweep false 3 1 fun i _ _ =>
      if i = 1 then { result := .error .divisionByZero } else { result := .ok i }).visited.toList,
      i ≤ 1 := by
  refine ⟨⟨by norm_num, ?_, ?_⟩, ?_, ?_, ?_⟩
  · exact (spread_covers (by norm_num) 4).1.words
  · exact ((spread_covers (by norm_num) 4).2.1 fun i : Fin 5 => 2 * (i : ℕ)).1 _ fun _ => rfl
  · obtain ⟨final, run, finished⟩ : ∃ final : Crew fun _ : Fin 2 => ℕ,
        Run (fun i _ o => o = { result := .ok (2 * (i : ℕ)) }) (spread false 2 4)
          [.look 1 false, .look 0 false, .outcome 1 { result := .ok 2 }, .settle 1 (.ok 2),
            .outcome 0 { result := .ok 0 }, .settle 0 (.ok 0)] final ∧ final.Finished :=
      ⟨_, ((((((Run.start.turn (.look 1 rfl (standsAt_alone rfl _))).turn
        (.look 0 rfl (standsAt_alone rfl _))).turn (.outcome 1 _ rfl rfl)).turn
        (.settle 1 _ rfl)).turn (.outcome 0 _ rfl rfl)).turn (.settle 0 _ rfl)),
        Fin.forall_fin_two.2 ⟨.inl ⟨_, rfl⟩, .inl ⟨_, rfl⟩⟩⟩
    have succeeds := ((spread_covers (by norm_num : 2 ≤ 2 ^ 63) 4).2.1
      fun i : Fin 2 => 2 * (i : ℕ)).2 _ (fun _ _ => Iff.rfl) _ final run (by simp)
    exact ⟨final, run, finished, succeeds.collects finished⟩
  · let trace : List (Event fun _ : Fin 3 => ℕ) := [.look 0 false, .outcome 0 { result := .ok 7 },
      .settle 0 (.ok 7), .look 1 false, .interrupt, .outcome 1 { result := .ok 8 },
      .settle 1 (.ok 8)]
    obtain ⟨final, run⟩ : ∃ final, Run (fun _ _ _ => True) (spread false 3 0) trace final := by
      refine ⟨_, ((((((Run.start.turn (.look 0 rfl ?first)).turn (.outcome 0 _ rfl trivial)).turn
        (.settle 0 _ rfl)).turn (.look 1 rfl ?second)).interrupt).turn
        (.outcome 1 _ rfl trivial)).turn (.settle 1 _ rfl)⟩
      case first => exact fun j before => absurd before (Fin.not_lt_zero j)
      case second =>
        intro j before _
        obtain rfl := (Fin.lt_one_iff j).1 before
        exact ⟨7, rfl⟩
    have inTurn := (((spread_covers (by norm_num) 0).2.2 (by norm_num)) false).2 _ trace final run
    refine ⟨trace, final, rfl, run, ?_⟩
    have last := (inTurn.interrupted [.look 0 false, .outcome 0 { result := .ok 7 },
      .settle 0 (.ok 7), .look 1 false] [.outcome 1 { result := .ok 8 }, .settle 1 (.ok 8)] rfl).2
    exact last 1 (by decide) (by simp)
  · intro i mem
    obtain ⟨n, all, visits⟩ := (((spread_covers (by norm_num) 1).2.2 le_rfl) false).1
      fun i (_ : i < 3) _ =>
        if i = 1 then { result := .error .divisionByZero } else { result := .ok i }
    rw [all, List.mem_range] at mem
    by_contra later
    exact visits.goes 1 (Nat.zero_le _) (by simp; omega) (.inr ⟨.divisionByZero, rfl⟩)

end Crew

end RatCalc
