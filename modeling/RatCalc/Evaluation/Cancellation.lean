import RatCalc.Evaluation.Error

/-!
# Cancellation tokens

A token is a flag that a running evaluation looks at. A token derived from another one is
canceled when it or any token that it derives from is; canceling it leaves those alone. Copies of
a token share its node, so they always agree.

## Main definitions

* `CancelForest`: the nodes of all tokens, each with its flag and the node it derives from.
* `CancelForest.isCanceled`, `CancelForest.check`: what a token answers.
* `CancelTable`, `CancelAction`: numbered tokens, and the steps that make, copy and cancel them.
-/

namespace RatCalc

/-- A token, as the number of its node. Nodes are numbered in the order in which they are made. -/
structure CancelToken where
  node : Nat
  deriving DecidableEq, Repr

/-- A node: whether it was canceled itself, and the node that it derives from. -/
structure CancelNode where
  canceled : Bool
  parent : Option Nat
  deriving DecidableEq, Repr

/-- The nodes of all tokens, the newest first. A node derives from an older one. -/
structure CancelForest where
  nodes : List CancelNode
  deriving DecidableEq

namespace CancelForest

/-- The forest without tokens. -/
def empty : CancelForest := ⟨[]⟩

/-- Adds a node that derives from the given one, if any. -/
def add (forest : CancelForest) (parent : Option CancelToken) : CancelForest × CancelToken :=
  (⟨⟨false, parent.map (·.node)⟩ :: forest.nodes⟩, ⟨forest.nodes.length⟩)

/-- Sets the flag of the node with the given number. -/
def flag (node : Nat) : List CancelNode → List CancelNode
  | [] => []
  | newest :: older =>
    if node = older.length then { newest with canceled := true } :: older
    else newest :: flag node older

/-- Cancels a token. -/
def cancel (forest : CancelForest) (token : CancelToken) : CancelForest :=
  ⟨flag token.node forest.nodes⟩

/-- Whether the node with the given number, or one that it derives from, has its flag set. -/
def isFlagged (node : Nat) : List CancelNode → Bool
  | [] => false
  | newest :: older =>
    if node = older.length then
      newest.canceled ||
        match newest.parent with
        | none => false
        | some parent => isFlagged parent older
    else
      isFlagged node older

/-- Whether a token is canceled. -/
def isCanceled (forest : CancelForest) (token : CancelToken) : Bool :=
  isFlagged token.node forest.nodes

/-- Fails if a token is canceled. -/
def check (forest : CancelForest) (token : CancelToken) : Except EvalError Unit :=
  if forest.isCanceled token then .error .canceled else .ok ()

end CancelForest

/-- A step on numbered tokens. The first three add a token to the table. -/
inductive CancelAction where
  | new
  | child (index : Nat)
  | clone (index : Nat)
  | cancel (index : Nat)
  deriving DecidableEq, Repr

/-- Tokens numbered in the order in which they were made, over one forest. -/
structure CancelTable where
  forest : CancelForest
  tokens : Array CancelToken

namespace CancelTable

/-- The table without tokens. -/
def empty : CancelTable := ⟨.empty, #[]⟩

/-- The table with one more token, which has a node of its own. -/
def push (table : CancelTable) (parent : Option CancelToken) : CancelTable :=
  let (forest, token) := table.forest.add parent
  ⟨forest, table.tokens.push token⟩

/-- Takes a step. A step on a token that is not there does nothing. -/
def step (table : CancelTable) : CancelAction → CancelTable
  | .new => table.push none
  | .child index =>
    match table.tokens[index]? with
    | none => table
    | some token => table.push (some token)
  | .clone index =>
    match table.tokens[index]? with
    | none => table
    | some token => { table with tokens := table.tokens.push token }
  | .cancel index =>
    match table.tokens[index]? with
    | none => table
    | some token => { table with forest := table.forest.cancel token }

/-- Takes several steps, the first one first. -/
def run (table : CancelTable) (actions : List CancelAction) : CancelTable :=
  actions.foldl step table

/-- Whether each token is canceled, in order. -/
def statuses (table : CancelTable) : List Bool :=
  table.tokens.toList.map table.forest.isCanceled

end CancelTable

end RatCalc
