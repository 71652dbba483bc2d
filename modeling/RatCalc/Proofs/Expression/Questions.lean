import Mathlib
import RatCalc.Expression.Query

/-!
# Which leaves are asked

A question stops separately at every inner node, as soon as the answers of its children so far
settle the matter there. An answer that settles a node becomes the answer of that node and settles
its parent as well, so the verdict is the same as if the leaves stood in a row: they are asked from
left to right, up to the first one that settles the matter.

## Main definitions

* `Question.askRow`: the verdict on leaves that stand in a row.

## Main results

* `Question.ask_eq_askRow`: the verdict on an expression is that on the row of its leaves.
* `Question.asked_askRow`, `Question.settles_askRow`: the verdict on a row.
* `Question.ask_deciding_leaves`: the answer, and the leaves that are asked for it.
-/

namespace RatCalc

/-- An answer that does not settle the matter is that of a node that has nothing to ask. -/
theorem Strategy.settles_eq_false_iff {strategy : Strategy} {answer : Bool} :
    strategy.settles answer = false ↔ answer = strategy.identity :=
  bne_eq_false_iff_eq

theorem Strategy.settles_all (answer : Bool) : Strategy.all.settles answer = !answer :=
  Bool.bne_true answer

theorem Strategy.settles_any (answer : Bool) : Strategy.any.settles answer = answer :=
  Bool.bne_false answer

namespace Question

variable (q : Question) {u v : Verdict} {leaf : Leaf}

/-! ### One verdict behind another -/

variable {q} in
theorem followedBy_of_settles (h : q.strategy.settles u.answer = true) : q.followedBy u v = u := by
  rw [followedBy, if_pos h]

variable {q} in
theorem followedBy_of_not_settles (h : q.strategy.settles u.answer = false) :
    q.followedBy u v = ⟨v.answer, u.asked ++ v.asked⟩ := by
  rw [followedBy, if_neg (Bool.eq_false_iff.1 h)]

/-- The verdict of a node that has nothing to ask. -/
def silent : Verdict :=
  ⟨q.strategy.identity, []⟩

theorem silent_followedBy (v : Verdict) : q.followedBy q.silent v = v :=
  followedBy_of_not_settles (Strategy.settles_eq_false_iff.2 rfl)

theorem followedBy_silent (u : Verdict) : q.followedBy u q.silent = u := by
  cases h : q.strategy.settles u.answer with
  | true => exact followedBy_of_settles h
  | false =>
    rw [followedBy_of_not_settles h, silent, ← Strategy.settles_eq_false_iff.1 h, List.append_nil]

/-- It does not matter which verdicts are joined first: one that settles the matter at a node
settles it at the parent of the node. -/
theorem followedBy_assoc (u v w : Verdict) :
    q.followedBy (q.followedBy u v) w = q.followedBy u (q.followedBy v w) := by
  cases hu : q.strategy.settles u.answer with
  | true => rw [followedBy_of_settles hu, followedBy_of_settles hu, followedBy_of_settles hu]
  | false =>
    rw [followedBy_of_not_settles hu, followedBy_of_not_settles hu]
    cases hv : q.strategy.settles v.answer with
    | true =>
      rw [followedBy_of_settles hv]
      exact followedBy_of_settles hv
    | false =>
      rw [followedBy_of_not_settles hv, ← List.append_assoc]
      exact followedBy_of_not_settles hv

/-! ### Leaves in a row -/

/-- The verdict on leaves that stand in a row. -/
def askRow (q : Question) : List Leaf → Verdict
  | [] => q.silent
  | leaf :: rest => q.followedBy ⟨q.holds leaf, [leaf]⟩ (q.askRow rest)

theorem askRow_append (leaves rest : List Leaf) :
    q.askRow (leaves ++ rest) = q.followedBy (q.askRow leaves) (q.askRow rest) := by
  induction leaves with
  | nil => exact (q.silent_followedBy _).symm
  | cons leaf leaves ih => rw [List.cons_append, askRow, ih, askRow, followedBy_assoc]

/-- **The verdict on an expression is that on the row of its leaves.** -/
theorem ask_eq_askRow (e : Expression) : q.ask e = q.askRow e.leaves := by
  induction e with
  | number value => exact (q.followedBy_silent _).symm
  | identifier name => exact (q.followedBy_silent _).symm
  | sequence first last hf hl => rw [ask, hf, hl, Expression.leaves, askRow_append]
  | operation left op right hl hr => rw [ask, hl, hr, Expression.leaves, askRow_append]
  | map input parameter body hi hb => rw [ask, hi, hb, Expression.leaves, askRow_append]
  | reduce input initial left right body hi hs hb =>
    rw [ask, hi, hs, hb, Expression.leaves, askRow_append, askRow_append]

/-- Whether the answer of a leaf settles the matter. -/
def settledBy (leaf : Leaf) : Bool :=
  q.strategy.settles (q.holds leaf)

variable {q} in
theorem askRow_cons_of_settled (h : q.settledBy leaf = true) (rest : List Leaf) :
    q.askRow (leaf :: rest) = ⟨q.holds leaf, [leaf]⟩ :=
  followedBy_of_settles h

variable {q} in
theorem askRow_cons_of_not_settled (h : q.settledBy leaf = false) (rest : List Leaf) :
    q.askRow (leaf :: rest) = ⟨(q.askRow rest).answer, leaf :: (q.askRow rest).asked⟩ :=
  followedBy_of_not_settles h

/-- The leaves of a row are asked up to the first one that settles the matter. -/
theorem asked_askRow (leaves : List Leaf) :
    (q.askRow leaves).asked = leaves.take (leaves.findIdx q.settledBy + 1) := by
  induction leaves with
  | nil => rfl
  | cons leaf rest ih =>
    rw [List.findIdx_cons]
    cases h : q.settledBy leaf with
    | true => rw [askRow_cons_of_settled h, cond_true, List.take_succ_cons, List.take_zero]
    | false => rw [askRow_cons_of_not_settled h, ih, cond_false, List.take_succ_cons]

/-- The matter is settled if one of the leaves settles it. -/
theorem settles_askRow (leaves : List Leaf) :
    q.strategy.settles (q.askRow leaves).answer = leaves.any q.settledBy := by
  induction leaves with
  | nil => exact Strategy.settles_eq_false_iff.2 rfl
  | cons leaf rest ih =>
    rw [List.any_cons]
    cases h : q.settledBy leaf with
    | true => rw [askRow_cons_of_settled h, Bool.true_or]; exact h
    | false => rw [askRow_cons_of_not_settled h, Bool.false_or, ih]

/-- **Exactly the deciding leaves are asked.** When every leaf has to agree, the answer tells
whether all do, and the leaves asked are those up to the first that does not. When one is enough,
the answer tells whether some leaf agrees, and the leaves asked are those up to the first that
does. All leaves are asked if there is no such leaf. -/
theorem ask_deciding_leaves (holds : Leaf → Bool) (e : Expression) :
    let all := ask ⟨.all, holds⟩ e
    let any := ask ⟨.any, holds⟩ e
    (all.answer = true ↔ ∀ leaf ∈ e.leaves, holds leaf = true) ∧
      all.asked = e.leaves.take (e.leaves.findIdx (fun leaf => !holds leaf) + 1) ∧
      (any.answer = true ↔ ∃ leaf ∈ e.leaves, holds leaf = true) ∧
      any.asked = e.leaves.take (e.leaves.findIdx holds + 1) := by
  intro all any
  have settlesAll : settledBy ⟨.all, holds⟩ = fun leaf => !holds leaf :=
    funext fun leaf => Strategy.settles_all (holds leaf)
  have settlesAny : settledBy ⟨.any, holds⟩ = holds :=
    funext fun leaf => Strategy.settles_any (holds leaf)
  have allRow : all = askRow ⟨.all, holds⟩ e.leaves := ask_eq_askRow _ e
  have anyRow : any = askRow ⟨.any, holds⟩ e.leaves := ask_eq_askRow _ e
  refine ⟨?_, ?_, ?_, ?_⟩
  · have answer : (!all.answer) = e.leaves.any fun leaf => !holds leaf :=
      calc (!all.answer) = Strategy.all.settles all.answer := (Strategy.settles_all _).symm
        _ = e.leaves.any (settledBy ⟨.all, holds⟩) := allRow ▸ settles_askRow _ e.leaves
        _ = e.leaves.any fun leaf => !holds leaf := by rw [settlesAll]
    rw [← List.not_all_eq_any_not] at answer
    rw [Bool.not_inj answer, List.all_eq_true]
  · rw [allRow, asked_askRow, settlesAll]
  · have answer : any.answer = e.leaves.any holds :=
      calc any.answer = Strategy.any.settles any.answer := (Strategy.settles_any _).symm
        _ = e.leaves.any (settledBy ⟨.any, holds⟩) := anyRow ▸ settles_askRow _ e.leaves
        _ = e.leaves.any holds := by rw [settlesAny]
    rw [answer, List.any_eq_true]
  · rw [anyRow, asked_askRow, settlesAny]

end Question

end RatCalc
