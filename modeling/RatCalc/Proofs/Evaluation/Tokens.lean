import Mathlib
import RatCalc.Evaluation.Cancellation

/-!
# Steps on cancellation tokens

A step on the tokens adds a node, sets the flag of one node or leaves all nodes as they are. So a
token that is canceled stays canceled, whatever is done to it and to the others, and one that
derives from no other is canceled by a step on its own node only.

## Main definitions

* `CancelForest.Untouched`: a node that derives from no other and has not been canceled.
* `CancelTable.Step`: what a step does to the tokens and their nodes, one case for each kind.

## Main results

* `CancelTable.step_takes`, `CancelTable.step_cases`: what a step does, and to the nodes alone.
* `CancelTable.isCanceled_step`: cancellation is not undone.
* `CancelForest.Untouched.isFlagged_eq_false`, `CancelTable.untouched_step`: who is not canceled.
-/

namespace RatCalc

/-! ### Nodes and their flags -/

namespace CancelForest

variable {node other : ℕ} {newest : CancelNode} {nodes older : List CancelNode}

@[simp]
theorem length_flag (node : ℕ) (nodes : List CancelNode) :
    (flag node nodes).length = nodes.length := by
  induction nodes with
  | nil => rfl
  | cons newest older ih =>
    rw [flag]
    split_ifs
    · rfl
    · rw [List.length_cons, ih, List.length_cons]

theorem isFlagged_cons_of_ne (h : node ≠ older.length) :
    isFlagged node (newest :: older) = isFlagged node older := by
  rw [isFlagged, if_neg h]

theorem isFlagged_newest_iff : isFlagged older.length (newest :: older) = true ↔
    newest.canceled = true ∨
      ∃ parent, newest.parent = some parent ∧ isFlagged parent older = true := by
  rw [isFlagged, if_pos rfl, Bool.or_eq_true]
  cases newest.parent <;> simp

/-- Only a node that is there is flagged. -/
theorem lt_length_of_isFlagged (h : isFlagged node nodes = true) : node < nodes.length := by
  induction nodes with
  | nil => cases h
  | cons newest older ih =>
    rw [List.length_cons]
    by_cases same : node = older.length
    · omega
    · rw [isFlagged_cons_of_ne same] at h
      exact (ih h).trans (Nat.lt_succ_self _)

/-- A flag that is set sets no other flag back. -/
theorem isFlagged_flag (h : isFlagged node nodes = true) (other : ℕ) :
    isFlagged node (flag other nodes) = true := by
  induction nodes generalizing node with
  | nil => exact h
  | cons newest older ih =>
    have length := length_flag other older
    rw [flag]
    by_cases same : node = older.length
    · subst same
      split_ifs with here
      · exact isFlagged_newest_iff.2 (.inl rfl)
      · -- The parent is older, so the flag that is set may be one that the node derives from.
        rw [← length, isFlagged_newest_iff]
        exact (isFlagged_newest_iff.1 h).imp_right fun ⟨parent, derives, flagged⟩ =>
          ⟨parent, derives, ih flagged⟩
    · rw [isFlagged_cons_of_ne same] at h
      split_ifs with here
      · rw [isFlagged_cons_of_ne same]
        exact h
      · rw [isFlagged_cons_of_ne (by rwa [length])]
        exact ih h

/-- A node whose flag is set is flagged. -/
theorem isFlagged_flag_self (h : node < nodes.length) :
    isFlagged node (flag node nodes) = true := by
  induction nodes with
  | nil => exact absurd h (Nat.not_lt_zero _)
  | cons newest older ih =>
    rw [flag]
    split_ifs with here
    · rw [isFlagged, if_pos here, Bool.true_or]
    · rw [isFlagged_cons_of_ne (by rwa [length_flag])]
      exact ih (lt_of_le_of_ne (Nat.le_of_lt_succ h) here)

/-- The node with the given number derives from no other one and has not been canceled. -/
def Untouched (node : ℕ) (nodes : List CancelNode) : Prop :=
  ∃ newer older, nodes = newer ++ ⟨false, none⟩ :: older ∧ older.length = node

theorem untouched_newest : Untouched older.length (⟨false, none⟩ :: older) :=
  ⟨[], older, rfl, rfl⟩

namespace Untouched

theorem isFlagged_eq_false (h : Untouched node nodes) : isFlagged node nodes = false := by
  obtain ⟨newer, older, rfl, rfl⟩ := h
  induction newer with
  | nil => rw [List.nil_append, isFlagged, if_pos rfl]; rfl
  | cons new others ih =>
    rw [List.cons_append, isFlagged_cons_of_ne, ih]
    simp only [List.length_append, List.length_cons]
    omega

theorem cons (h : Untouched node nodes) (new : CancelNode) : Untouched node (new :: nodes) := by
  obtain ⟨newer, older, rfl, length⟩ := h
  exact ⟨new :: newer, older, rfl, length⟩

/-- The flag of another node may be set. -/
theorem flag (h : Untouched node nodes) (ne : other ≠ node) :
    Untouched node (CancelForest.flag other nodes) := by
  obtain ⟨newer, older, rfl, rfl⟩ := h
  induction newer with
  | nil =>
    rw [List.nil_append, CancelForest.flag, if_neg ne]
    exact ⟨[], CancelForest.flag other older, rfl, length_flag other older⟩
  | cons new others ih =>
    rw [List.cons_append, CancelForest.flag]
    split_ifs
    · exact ⟨{ new with canceled := true } :: others, older, rfl, rfl⟩
    · exact ih.cons new

end Untouched

end CancelForest

/-! ### Steps -/

namespace CancelTable

open CancelForest

variable {table : CancelTable} {token : CancelToken} {node : ℕ}

/-- What a step does to the tokens and their nodes. -/
inductive Step (table : CancelTable) : CancelAction → CancelTable → Prop
  | new : Step table .new (table.push none)
  | child {index : ℕ} {token : CancelToken} (found : table.tokens[index]? = some token) :
    Step table (.child index) (table.push (some token))
  | clone {index : ℕ} {token : CancelToken} (found : table.tokens[index]? = some token) :
    Step table (.clone index) { table with tokens := table.tokens.push token }
  | cancel {index : ℕ} {token : CancelToken} (found : table.tokens[index]? = some token) :
    Step table (.cancel index) { table with forest := table.forest.cancel token }
  /-- The token that the step would be taken on is not there. -/
  | idle (action : CancelAction) : Step table action table

/-- What a step comes to is one of the cases. All that holds of every step is drawn from here. -/
theorem step_takes (table : CancelTable) (action : CancelAction) :
    Step table action (table.step action) := by
  cases action with
  | new => exact .new
  | child index | clone index | cancel index =>
    rw [step]
    split
    · exact .idle _
    · next found =>
      constructor
      exact found

/-- **What a step does to the nodes.** It adds one, changes none or sets the flag of a token. -/
theorem step_cases (table : CancelTable) (action : CancelAction) :
    (∃ new, (table.step action).forest.nodes = new :: table.forest.nodes) ∨
      (table.step action).forest.nodes = table.forest.nodes ∨
      ∃ index token, action = .cancel index ∧ table.tokens[index]? = some token ∧
        (table.step action).forest.nodes = flag token.node table.forest.nodes := by
  have taken := table.step_takes action
  generalize table.step action = after at taken ⊢
  cases taken with
  | new => exact .inl ⟨_, rfl⟩
  | child found => exact .inl ⟨_, rfl⟩
  | clone found => exact .inr (.inl rfl)
  | cancel found => exact .inr (.inr ⟨_, _, rfl, found, rfl⟩)
  | idle => exact .inr (.inl rfl)

/-- No token is given away. -/
theorem token_step {index : ℕ} (h : table.tokens[index]? = some token) (action : CancelAction) :
    (table.step action).tokens[index]? = some token := by
  have pushed (other : CancelToken) : (table.tokens.push other)[index]? = some token := by
    obtain ⟨there, -⟩ := Array.getElem?_eq_some_iff.1 h
    rw [Array.getElem?_push, if_neg there.ne, h]
  have taken := table.step_takes action
  generalize table.step action = after at taken ⊢
  cases taken with
  | new => exact pushed _
  | child found => exact pushed _
  | clone found => exact pushed _
  | cancel found => exact h
  | idle => exact h

/-- No node is given away. -/
theorem length_le_step (table : CancelTable) (action : CancelAction) :
    table.forest.nodes.length ≤ (table.step action).forest.nodes.length := by
  rcases table.step_cases action with ⟨new, nodes⟩ | nodes | ⟨index, token, -, -, nodes⟩ <;>
    rw [nodes]
  · exact Nat.le_succ _
  · rw [length_flag]

/-- **A token that is canceled stays canceled.** -/
theorem isCanceled_step (h : table.forest.isCanceled token = true) (action : CancelAction) :
    (table.step action).forest.isCanceled token = true := by
  unfold isCanceled at h ⊢
  rcases table.step_cases action with ⟨new, nodes⟩ | nodes | ⟨index, other, -, -, nodes⟩ <;>
    rw [nodes]
  · rw [isFlagged_cons_of_ne (lt_length_of_isFlagged h).ne]
    exact h
  · exact h
  · exact isFlagged_flag h other.node

/-- A step that cancels a token makes it canceled. -/
theorem isCanceled_cancel {index : ℕ} (h : table.tokens[index]? = some token)
    (there : token.node < table.forest.nodes.length) :
    (table.step (.cancel index)).forest.isCanceled token = true := by
  rw [step, h]
  exact isFlagged_flag_self there

/-- A node that derives from no other one is left alone by steps that cancel other nodes. -/
theorem untouched_step (h : Untouched node table.forest.nodes) {action : CancelAction}
    (others : ∀ index token, action = .cancel index → table.tokens[index]? = some token →
      token.node ≠ node) : Untouched node (table.step action).forest.nodes := by
  rcases table.step_cases action with
    ⟨new, nodes⟩ | nodes | ⟨index, token, cancels, found, nodes⟩ <;> rw [nodes]
  · exact h.cons new
  · exact h
  · exact h.flag (others index token cancels found)

end CancelTable

end RatCalc
