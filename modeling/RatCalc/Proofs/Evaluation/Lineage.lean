import Mathlib
import RatCalc.Proofs.Evaluation.Tokens

/-!
# Lineages of cancellation tokens

Which tokens a cancellation reaches can be read off the history of a run, without a look at the
nodes: it reaches the tokens from which there is a way to the canceled one that leads from a token
to the one it derives from, and between a token and its copies in both directions. It does not
matter whether a token of the way was made before the cancellation or behind it.

## Main definitions

* `CancelForest.Under`: a node is another one or derives from it.
* `CancelTable.Took`: a step that was taken in a run, on a token that was there.
* `CancelTable.Within`: a way from a token to one that shares its node with it or an ancestor of it.
* `CancelTable.Reached`: a token whose way leads to a canceled one.

## Main results

* `CancelForest.isFlagged_flag_iff`: the nodes that a cancellation reaches.
* `CancelTable.Within.nodesUnder`, `CancelTable.within_of_nodesUnder`: the nodes of a run derive
  from one another as its history says.
* `CancelTable.isCanceled_run_iff`: cancellation flows exactly downward.
-/

namespace RatCalc

/-! ### Nodes and those that they derive from -/

namespace CancelForest

variable {node middle top other : ℕ} {newest : CancelNode} {nodes older : List CancelNode}

/-- A node is the other one or derives from it, by way of any number of nodes. -/
inductive Under : List CancelNode → ℕ → ℕ → Prop
  | self (newest : CancelNode) (older : List CancelNode) :
    Under (newest :: older) older.length older.length
  /-- The newest node derives from what its parent derives from. -/
  | parent {newest : CancelNode} {older : List CancelNode} {parent top : ℕ}
    (derives : newest.parent = some parent) (h : Under older parent top) :
    Under (newest :: older) older.length top
  /-- A newer node changes nothing for the older ones. -/
  | older (newest : CancelNode) {older : List CancelNode} {node top : ℕ}
    (h : Under older node top) : Under (newest :: older) node top

theorem Under.lt (h : Under nodes node top) : node < nodes.length := by
  induction h with
  | self => exact Nat.lt_succ_self _
  | parent derives h ih => exact Nat.lt_succ_self _
  | older newest h ih => exact Nat.lt_succ_of_lt ih

/-- A node derives from older nodes only. -/
theorem Under.le (h : Under nodes node top) : top ≤ node := by
  induction h with
  | self => exact le_rfl
  | parent derives h ih => exact ih.trans h.lt.le
  | older newest h ih => exact ih

theorem Under.top_lt (h : Under nodes node top) : top < nodes.length :=
  h.le.trans_lt h.lt

theorem under_newest_iff : Under (newest :: older) older.length top ↔
    top = older.length ∨ ∃ parent, newest.parent = some parent ∧ Under older parent top := by
  constructor
  · intro h
    generalize same : older.length = node at h
    cases h with
    | self => exact .inl rfl
    | parent derives h => exact .inr ⟨_, derives, h⟩
    | older newest h => exact absurd h.lt same.not_gt
  · rintro (rfl | ⟨parent, derives, h⟩)
    · exact .self newest older
    · exact .parent derives h

theorem under_cons_of_ne (ne : node ≠ older.length) :
    Under (newest :: older) node top ↔ Under older node top := by
  constructor
  · intro h
    cases h with
    | self => exact absurd rfl ne
    | parent => exact absurd rfl ne
    | older newest h => exact h
  · exact .older newest

theorem Under.refl (there : node < nodes.length) : Under nodes node node := by
  induction nodes with
  | nil => exact absurd there (Nat.not_lt_zero _)
  | cons newest older ih =>
    by_cases same : node = older.length
    · rw [same]
      exact .self newest older
    · exact .older newest (ih (lt_of_le_of_ne (Nat.le_of_lt_succ there) same))

theorem Under.trans (h : Under nodes node middle) (h' : Under nodes middle top) :
    Under nodes node top := by
  induction h with
  | self => exact h'
  | parent derives h ih =>
    rw [under_cons_of_ne h.top_lt.ne] at h'
    exact .parent derives (ih h')
  | older newest h ih =>
    rw [under_cons_of_ne h.top_lt.ne] at h'
    exact .older newest (ih h')

/-- Setting a flag leaves alone what derives from what. -/
theorem under_flag_iff : Under (flag other nodes) node top ↔ Under nodes node top := by
  induction nodes generalizing node with
  | nil => exact Iff.rfl
  | cons newest older ih =>
    rw [flag]
    split_ifs with here
    · by_cases same : node = older.length
      · rw [same, under_newest_iff, under_newest_iff]
      · rw [under_cons_of_ne same, under_cons_of_ne same]
    · have length := length_flag other older
      by_cases same : node = older.length
      · rw [same, under_newest_iff, ← length, under_newest_iff, length]
        simp only [ih]
      · rw [under_cons_of_ne same, under_cons_of_ne (by rwa [length]), ih]

/-- What derives from a node that is flagged is flagged. -/
theorem Under.isFlagged (h : Under nodes node top) (flagged : isFlagged top nodes = true) :
    CancelForest.isFlagged node nodes = true := by
  induction h with
  | self => exact flagged
  | parent derives h ih =>
    rw [isFlagged_cons_of_ne h.top_lt.ne] at flagged
    exact isFlagged_newest_iff.2 (.inr ⟨_, derives, ih flagged⟩)
  | older newest h ih =>
    rw [isFlagged_cons_of_ne h.top_lt.ne] at flagged
    rw [isFlagged_cons_of_ne h.lt.ne]
    exact ih flagged

/-- **The nodes that a cancellation reaches** are the canceled one and those that derive from
it. -/
theorem isFlagged_flag_iff : isFlagged node (flag other nodes) = true ↔
    isFlagged node nodes = true ∨ Under nodes node other := by
  constructor
  · intro h
    induction nodes generalizing node with
    | nil => exact .inl h
    | cons newest older ih =>
      rw [flag] at h
      by_cases same : node = older.length
      · subst same
        split_ifs at h with here
        · exact .inr (under_newest_iff.2 (.inl here))
        · rw [← length_flag other older, isFlagged_newest_iff] at h
          rcases h with canceled | ⟨parent, derives, h⟩
          · exact .inl (isFlagged_newest_iff.2 (.inl canceled))
          · exact (ih h).imp (fun h => isFlagged_newest_iff.2 (.inr ⟨parent, derives, h⟩))
              (.parent derives)
      · rw [isFlagged_cons_of_ne same, under_cons_of_ne same]
        split_ifs at h with here
        · rw [isFlagged_cons_of_ne same] at h
          exact .inl h
        · rw [isFlagged_cons_of_ne (by rwa [length_flag])] at h
          exact ih h
  · rintro (h | h)
    · exact isFlagged_flag h other
    · exact (under_flag_iff.2 h).isFlagged (isFlagged_flag_self h.top_lt)

end CancelForest

/-! ### Runs and their histories -/

namespace CancelTable

open CancelForest

variable {table : CancelTable} {token token' : CancelToken} {actions : List CancelAction}
  {action : CancelAction} {kind : ℕ → CancelAction} {index count t u : ℕ}

theorem run_concat (table : CancelTable) (actions : List CancelAction) (action : CancelAction) :
    table.run (actions ++ [action]) = (table.run actions).step action := by
  rw [run, List.foldl_append]
  rfl

theorem run_append (table : CancelTable) (actions later : List CancelAction) :
    table.run (actions ++ later) = (table.run actions).run later :=
  List.foldl_append

theorem token_run (h : table.tokens[t]? = some token) (actions : List CancelAction) :
    (table.run actions).tokens[t]? = some token := by
  induction actions generalizing table with
  | nil => exact h
  | cons action actions ih => exact ih (token_step h action)

theorem isCanceled_run (h : table.forest.isCanceled token = true) (actions : List CancelAction) :
    (table.run actions).forest.isCanceled token = true := by
  induction actions generalizing table with
  | nil => exact h
  | cons action actions ih => exact ih (isCanceled_step h action)

/-- What derives from what does not change. -/
theorem under_step (h : Under table.forest.nodes t u) (action : CancelAction) :
    Under (table.step action).forest.nodes t u := by
  rcases table.step_cases action with ⟨new, nodes⟩ | nodes | ⟨index, token, -, -, nodes⟩ <;>
    rw [nodes]
  · exact .older new h
  · exact h
  · exact under_flag_iff.2 h

theorem under_run (h : Under table.forest.nodes t u) (actions : List CancelAction) :
    Under (table.run actions).forest.nodes t u := by
  induction actions generalizing table with
  | nil => exact h
  | cons action actions ih => exact ih (under_step h action)

/-- The nodes of all tokens are there. -/
def Grounded (table : CancelTable) : Prop :=
  ∀ ⦃index : ℕ⦄ ⦃token : CancelToken⦄, table.tokens[index]? = some token →
    token.node < table.forest.nodes.length

/-- A token is one of the old ones or the one that was added. -/
theorem getElem?_push_cases {tokens : Array CancelToken} {new : CancelToken}
    (h : (tokens.push new)[index]? = some token) :
    tokens[index]? = some token ∨ index = tokens.size ∧ token = new := by
  rw [Array.getElem?_push] at h
  split_ifs at h with last
  · exact .inr ⟨last, (Option.some.inj h).symm⟩
  · exact .inl h

theorem grounded_step (h : table.Grounded) (action : CancelAction) :
    (table.step action).Grounded := by
  have pushed (parent : Option CancelToken) : (table.push parent).Grounded := by
    intro index token found
    rcases getElem?_push_cases found with old | ⟨-, rfl⟩
    · exact Nat.lt_succ_of_lt (h old)
    · exact Nat.lt_succ_self _
  have taken := table.step_takes action
  generalize table.step action = after at taken ⊢
  cases taken with
  | new => exact pushed none
  | child found => exact pushed (some _)
  | clone found =>
    intro index token found'
    rcases getElem?_push_cases found' with old | ⟨-, rfl⟩
    · exact h old
    · exact h found
  | cancel found =>
    intro index token found'
    exact (h found').trans_eq (length_flag _ _).symm
  | idle => exact h

theorem grounded_run (actions : List CancelAction) : (run .empty actions).Grounded := by
  induction actions using List.reverseRecOn with
  | nil =>
    intro index token found
    cases found
  | append_singleton actions action ih =>
    rw [run_concat]
    exact grounded_step ih action

/-- In a run, a step of this kind was taken on the token `index` when there were `count` tokens,
`index` among them. -/
def Took (actions : List CancelAction) (kind : ℕ → CancelAction) (index count : ℕ) : Prop :=
  ∃ before, before ++ [kind index] <+: actions ∧ (run .empty before).tokens.size = count ∧
    index < count

theorem Took.append (h : Took actions kind index count) (later : List CancelAction) :
    Took (actions ++ later) kind index count := by
  obtain ⟨before, taken, made⟩ := h
  exact ⟨before, taken.trans (List.prefix_append actions later), made⟩

/-- The last step of a run. -/
theorem took_last (kind : ℕ → CancelAction)
    (found : (run .empty actions).tokens[index]? = some token) :
    Took (actions ++ [kind index]) kind index (run .empty actions).tokens.size :=
  ⟨actions, List.prefix_rfl, rfl, (Array.getElem?_eq_some_iff.1 found).1⟩

/-- From a token one step on the way to those whose cancellation reaches it. Tokens are numbered
in the order in which they are made, so the one that a step makes has the number `count`. -/
inductive Link (actions : List CancelAction) : ℕ → ℕ → Prop
  /-- From a token to the one that it was derived from. -/
  | parent {index count : ℕ} (h : Took actions .child index count) : Link actions count index
  /-- From a copy to its original. -/
  | original {index count : ℕ} (h : Took actions .clone index count) : Link actions count index
  /-- From an original to its copy. -/
  | copy {index count : ℕ} (h : Took actions .clone index count) : Link actions index count

/-- The second token shares its node with the first one or with an ancestor of it. -/
def Within (actions : List CancelAction) : ℕ → ℕ → Prop :=
  Relation.ReflTransGen (Link actions)

theorem Within.append (h : Within actions t u) (later : List CancelAction) :
    Within (actions ++ later) t u := by
  refine Relation.ReflTransGen.mono (fun t u link => ?_) _ _ h
  cases link with
  | parent h => exact .parent (h.append later)
  | original h => exact .original (h.append later)
  | copy h => exact .copy (h.append later)

/-! ### Histories and nodes -/

/-- The node of the second token is that of the first one or one that it derives from. -/
def NodesUnder (table : CancelTable) (t u : ℕ) : Prop :=
  ∃ token token', table.tokens[t]? = some token ∧ table.tokens[u]? = some token' ∧
    Under table.forest.nodes token.node token'.node

theorem NodesUnder.run (h : table.NodesUnder t u) (actions : List CancelAction) :
    (table.run actions).NodesUnder t u := by
  obtain ⟨token, token', ht, hu, under⟩ := h
  exact ⟨token, token', token_run ht actions, token_run hu actions, under_run under actions⟩

theorem NodesUnder.trans {v : ℕ} (h : table.NodesUnder t u) (h' : table.NodesUnder u v) :
    table.NodesUnder t v := by
  obtain ⟨token, token', ht, hu, under⟩ := h
  obtain ⟨other, token'', hu', hv, under'⟩ := h'
  obtain rfl := Option.some.inj (hu.symm.trans hu')
  exact ⟨token, token'', ht, hv, under.trans under'⟩

/-- A step of the history, the tokens that it was taken on and the rest of the run. -/
theorem Took.exists_step (h : Took actions kind index count) :
    ∃ (before : CancelTable) (later : List CancelAction) (token : CancelToken),
      before.Grounded ∧ before.tokens.size = count ∧ before.tokens[index]? = some token ∧
        (before.step (kind index)).run later = run .empty actions := by
  obtain ⟨before, ⟨later, rfl⟩, rfl, there⟩ := h
  refine ⟨_, later, _, grounded_run before, rfl, Array.getElem?_eq_getElem there, ?_⟩
  rw [run_append, run_concat]

/-- A new token lies under the one that it was derived from. -/
theorem nodesUnder_child (grounded : table.Grounded) (found : table.tokens[index]? = some token) :
    (table.step (.child index)).NodesUnder table.tokens.size index := by
  have there := token_step found (.child index)
  rw [step, found] at there ⊢
  exact ⟨_, token, Array.getElem?_push_size, there, .parent rfl (.refl (grounded found))⟩

/-- A copy and its original lie under each other. -/
theorem nodesUnder_clone (grounded : table.Grounded) (found : table.tokens[index]? = some token) :
    (table.step (.clone index)).NodesUnder table.tokens.size index ∧
      (table.step (.clone index)).NodesUnder index table.tokens.size := by
  have there := token_step found (.clone index)
  rw [step, found] at there ⊢
  have copy : (table.tokens.push token)[table.tokens.size]? = some token := Array.getElem?_push_size
  have under := Under.refl (grounded found)
  exact ⟨⟨token, token, copy, there, under⟩, ⟨token, token, there, copy, under⟩⟩

theorem Link.nodesUnder (h : Link actions t u) : (run .empty actions).NodesUnder t u := by
  cases h with
  | parent h =>
    obtain ⟨before, later, token, grounded, rfl, found, run⟩ := h.exists_step
    exact run ▸ (nodesUnder_child grounded found).run later
  | original h =>
    obtain ⟨before, later, token, grounded, rfl, found, run⟩ := h.exists_step
    exact run ▸ (nodesUnder_clone grounded found).1.run later
  | copy h =>
    obtain ⟨before, later, token, grounded, rfl, found, run⟩ := h.exists_step
    exact run ▸ (nodesUnder_clone grounded found).2.run later

theorem Within.nodesUnder (h : Within actions t u)
    (there : (run .empty actions).tokens[t]? = some token) :
    (run .empty actions).NodesUnder t u := by
  induction h with
  | refl => exact ⟨token, token, there, there, .refl (grounded_run actions there)⟩
  | tail _ link ih => exact ih.trans link.nodesUnder

/-- Where the nodes of a table with a new one come from: a new token lies under itself and under
what the token lies under that it derives from. -/
theorem nodesUnder_push_cases (grounded : table.Grounded) {parent : Option CancelToken}
    (h : (table.push parent).NodesUnder t u) :
    table.NodesUnder t u ∨ t = table.tokens.size ∧ (u = table.tokens.size ∨
      ∃ above token', parent = some above ∧ table.tokens[u]? = some token' ∧
        Under table.forest.nodes above.node token'.node) := by
  obtain ⟨token, token', ht, hu, under⟩ := h
  change Under (_ :: table.forest.nodes) token.node token'.node at under
  rcases getElem?_push_cases ht with old | ⟨last, rfl⟩
  · rw [under_cons_of_ne (grounded old).ne] at under
    rcases getElem?_push_cases hu with old' | ⟨-, rfl⟩
    · exact .inl ⟨token, token', old, old', under⟩
    · exact absurd under.top_lt (lt_irrefl _)
  · refine .inr ⟨last, ?_⟩
    rcases getElem?_push_cases hu with old' | ⟨last', -⟩
    · rcases under_newest_iff.1 under with same | ⟨node, derives, under⟩
      · exact absurd same (grounded old').ne
      · obtain ⟨above, rfl, rfl⟩ := Option.map_eq_some_iff.1 derives
        exact .inr ⟨above, token', rfl, old', under⟩
    · exact .inl last'

/-- **The nodes of a run have the lineages of its history.** The induction is on the run, with one
case for each kind of step: a new token is linked with those that it lies under by its first
step. -/
theorem within_of_nodesUnder (h : (run .empty actions).NodesUnder t u) : Within actions t u := by
  induction actions using List.reverseRecOn generalizing t u with
  | nil =>
    obtain ⟨token, token', ht, -⟩ := h
    cases ht
  | append_singleton actions action ih =>
    have grounded := grounded_run actions
    rw [run_concat] at h
    have taken := (run .empty actions).step_takes action
    generalize (run .empty actions).step action = after at taken h
    cases taken with
    | new =>
      rcases nodesUnder_push_cases grounded h with old | ⟨rfl, rfl | ⟨above, token', none, -⟩⟩
      · exact (ih old).append _
      · exact .refl
      · cases none
    | child found =>
      rcases nodesUnder_push_cases grounded h with
        old | ⟨rfl, rfl | ⟨above, token', some, hu, under⟩⟩
      · exact (ih old).append _
      · exact .refl
      · obtain rfl := Option.some.inj some
        have way := ih ⟨_, token', found, hu, under⟩
        exact .head (.parent (took_last .child found)) (way.append _)
    | @clone index token found =>
      obtain ⟨first, second, ht, hu, under⟩ := h
      have made := took_last .clone found
      -- A copy has the node of its original, so the way may be taken between the originals.
      have original {x : ℕ} {other : CancelToken}
          (there : ((run .empty actions).tokens.push token)[x]? = some other) :
          ∃ y, (run .empty actions).tokens[y]? = some other ∧
            Within (actions ++ [.clone index]) x y ∧ Within (actions ++ [.clone index]) y x := by
        rcases getElem?_push_cases there with old | ⟨rfl, rfl⟩
        · exact ⟨x, old, .refl, .refl⟩
        · exact ⟨index, found, .single (.original made), .single (.copy made)⟩
      obtain ⟨t', ht', down, -⟩ := original ht
      obtain ⟨u', hu', -, up⟩ := original hu
      have way := (ih ⟨first, second, ht', hu', under⟩).append [.clone index]
      exact down.trans (way.trans up)
    | cancel found =>
      obtain ⟨token, token', ht, hu, under⟩ := h
      exact (ih ⟨token, token', ht, hu, under_flag_iff.1 under⟩).append _
    | idle => exact (ih h).append _

/-! ### Canceled tokens -/

/-- In a run, a token was canceled that shares its node with the given one or with an ancestor of
it. -/
def Reached (actions : List CancelAction) (t : ℕ) : Prop :=
  ∃ u count, Took actions .cancel u count ∧ Within actions t u

theorem Reached.append (h : Reached actions t) (later : List CancelAction) :
    Reached (actions ++ later) t := by
  obtain ⟨u, count, took, way⟩ := h
  exact ⟨u, count, took.append later, way.append later⟩

theorem Within.reached (h : Within actions t u) (h' : Reached actions u) : Reached actions t := by
  obtain ⟨v, count, took, way⟩ := h'
  exact ⟨v, count, took, h.trans way⟩

theorem Reached.isCanceled (h : Reached actions t)
    (there : (run .empty actions).tokens[t]? = some token) :
    (run .empty actions).forest.isCanceled token = true := by
  obtain ⟨u, count, took, way⟩ := h
  obtain ⟨before, later, canceled, grounded, -, found, run⟩ := took.exists_step
  obtain ⟨_, other, there', found', under⟩ := way.nodesUnder there
  obtain rfl := Option.some.inj (there.symm.trans there')
  rw [← run] at found' under ⊢
  obtain rfl := Option.some.inj ((token_run (token_step found _) later).symm.trans found')
  exact under.isFlagged (isCanceled_run (isCanceled_cancel found (grounded found)) later)

/-- Whoever is canceled has been reached. The induction is on the run: a new token is canceled if
the one that it takes its node or its parent from is. -/
theorem reached_of_isCanceled (there : (run .empty actions).tokens[t]? = some token)
    (h : (run .empty actions).forest.isCanceled token = true) : Reached actions t := by
  induction actions using List.reverseRecOn generalizing t token with
  | nil => cases there
  | append_singleton actions action ih =>
    have grounded := grounded_run actions
    rw [run_concat] at there h
    have taken := (run .empty actions).step_takes action
    generalize (run .empty actions).step action = after at taken there h
    cases taken with
    | new =>
      rcases getElem?_push_cases there with old | ⟨rfl, rfl⟩
      · exact (ih old ((isFlagged_cons_of_ne (grounded old).ne).symm.trans h)).append _
      · rcases isFlagged_newest_iff.1 h with canceled | ⟨parent, none, -⟩
        · cases canceled
        · cases none
    | child found =>
      rcases getElem?_push_cases there with old | ⟨rfl, rfl⟩
      · exact (ih old ((isFlagged_cons_of_ne (grounded old).ne).symm.trans h)).append _
      · rcases isFlagged_newest_iff.1 h with canceled | ⟨parent, some, flagged⟩
        · cases canceled
        · obtain rfl := Option.some.inj some
          have way : Within _ _ _ := .single (.parent (took_last .child found))
          exact way.reached ((ih found flagged).append _)
    | clone found =>
      rcases getElem?_push_cases there with old | ⟨rfl, rfl⟩
      · exact (ih old h).append _
      · have way : Within _ _ _ := .single (.original (took_last .clone found))
        exact way.reached ((ih found h).append _)
    | cancel found =>
      rcases isFlagged_flag_iff.1 h with before | under
      · exact (ih there before).append _
      · have way := within_of_nodesUnder ⟨_, _, there, found, under⟩
        exact ⟨_, _, took_last .cancel found, way.append _⟩
    | idle => exact (ih there h).append _

/-- A token that no way leads from to the canceled one keeps its answer. -/
theorem isCanceled_cancel_of_not_within (there : (run .empty actions).tokens[t]? = some token)
    (apart : ¬ Within actions t u) :
    (run .empty (actions ++ [.cancel u])).forest.isCanceled token =
      (run .empty actions).forest.isCanceled token := by
  rw [run_concat, step]
  split
  · rfl
  · next canceled found =>
    refine Bool.eq_iff_iff.2 (isFlagged_flag_iff.trans (or_iff_left fun under => apart ?_))
    exact within_of_nodesUnder ⟨token, canceled, there, found, under⟩

/-- **Cancellation flows exactly downward.** A token is canceled, and its check fails, exactly if
in the run a token was canceled that shares its node with it or with an ancestor of it. So no
further step takes a cancellation back, a copy answers as its original, and canceling a token
changes only the answers of the tokens from which a way leads to it. -/
theorem isCanceled_run_iff (there : (run .empty actions).tokens[t]? = some token) :
    let forest := (run .empty actions).forest
    (forest.isCanceled token = true ↔ Reached actions t) ∧
      (forest.check token = .error .canceled ↔ Reached actions t) ∧
      (forest.check token = .ok () ↔ ¬ Reached actions t) ∧
      (∀ later, forest.isCanceled token = true →
        (run .empty (actions ++ later)).forest.isCanceled token = true) ∧
      (∀ u token', Took actions .clone u t → (run .empty actions).tokens[u]? = some token' →
        forest.isCanceled token = forest.isCanceled token') ∧
      ∀ u, ¬ Within actions t u → forest.isCanceled token =
        (run .empty (actions ++ [.cancel u])).forest.isCanceled token := by
  intro forest
  have reached {x : ℕ} {other : CancelToken}
      (there : (run .empty actions).tokens[x]? = some other) :
      forest.isCanceled other = true ↔ Reached actions x :=
    ⟨reached_of_isCanceled there, fun h => h.isCanceled there⟩
  refine ⟨reached there, ?_, ?_, fun later h => ?_, fun u token' copied original => ?_,
    fun u apart => (isCanceled_cancel_of_not_within there apart).symm⟩
  · rw [check, ← reached there]
    split_ifs with canceled <;> simp [canceled]
  · rw [check, ← reached there]
    split_ifs with canceled <;> simp [canceled]
  · rw [run_append]
    exact isCanceled_run h later
  · have up : Within actions t u := .single (.original copied)
    have down : Within actions u t := .single (.copy copied)
    exact Bool.eq_iff_iff.2
      (((reached there).trans ⟨down.reached, up.reached⟩).trans (reached original).symm)

/-- A child that is derived from a copy, after the original was canceled, is canceled. A child
that was derived from the parent of the two is not. -/
theorem isCanceled_run_iff_late_child :
    let actions : List CancelAction := [.new, .child 0, .clone 1, .cancel 1, .child 2, .child 0]
    let forest := (run .empty actions).forest
    (run .empty actions).tokens[3]? = some ⟨2⟩ ∧ forest.isCanceled ⟨2⟩ = true ∧
      (run .empty actions).tokens[4]? = some ⟨3⟩ ∧ forest.isCanceled ⟨3⟩ = false ∧
      Reached actions 3 ∧ ¬ Reached actions 4 := by
  intro actions forest
  have late : (run .empty actions).tokens[3]? = some ⟨2⟩ := by decide
  have sibling : (run .empty actions).tokens[4]? = some ⟨3⟩ := by decide
  have canceled : forest.isCanceled ⟨2⟩ = true := by decide
  have running : forest.isCanceled ⟨3⟩ = false := by decide
  refine ⟨late, canceled, sibling, running, (isCanceled_run_iff late).1.1 canceled, fun h => ?_⟩
  exact Bool.false_ne_true (running.symm.trans ((isCanceled_run_iff sibling).1.2 h))

end CancelTable

end RatCalc
