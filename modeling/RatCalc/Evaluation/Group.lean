import RatCalc.Evaluation.Error

/-!
# Groups of sibling tasks

Tasks that work for the same result form a group. The group has a token of its own, derived from
that of its caller, and keeps the first real failure of any task; that failure cancels the
group's token, so that the other tasks stop at their next look at it. Being canceled is never a
failure of its own: it comes either from another task's failure or from the caller.

Tasks are run one after another here, which is one of the orders in which concurrent tasks may
take their turns. A task is a function of whether its token is canceled when it starts.

## Main definitions

* `Group`: the flags and the failure of a group; `Group.settle` takes in the outcome of a task,
  `Group.finish` tells what the group comes to.
* `join`: two tasks, both of whose results are wanted.
* `mapIndexed`: one task for each index, spread over workers in runs of adjacent indices.
-/

namespace RatCalc

/-- The state that sibling tasks share. -/
structure Group where
  /-- Whether the token of the caller is canceled. -/
  callerCanceled : Bool
  /-- Whether the token of the group is canceled itself. -/
  canceled : Bool := false
  /-- The first failure of a task. -/
  failure : Option EvalError := none
  deriving DecidableEq

namespace Group

/-- Whether a task sees its token canceled. -/
def isCanceled (g : Group) : Bool :=
  g.callerCanceled || g.canceled

/-- Cancels the token of the group. -/
def cancel (g : Group) : Group :=
  { g with canceled := true }

/-- Takes in the outcome of a task. The first failure is kept, and every failure cancels the
group. -/
def settle {α : Type} (g : Group) : Except EvalError α → Group × Option α
  | .ok value => (g, some value)
  | .error .canceled => (g, none)
  | .error e => ({ g with canceled := true, failure := g.failure.or (some e) }, none)

/-- What a group comes to when the tasks together gave `value`, or none because one of them gave
nothing. -/
def finish {α : Type} (g : Group) (value : Option α) : Except EvalError α :=
  match g.failure, value with
  | some e, _ => .error e
  | none, some value => .ok value
  | none, none => .error .canceled

end Group

/-- Runs two tasks of one group. `canceled` tells whether the token of the caller is. -/
def join {α β : Type} (canceled : Bool) (left : Bool → Except EvalError α)
    (right : Bool → Except EvalError β) : Except EvalError (α × β) :=
  let start : Group := { callerCanceled := canceled }
  let (g, x) := start.settle (left start.isCanceled)
  let (g, y) := g.settle (right g.isCanceled)
  g.finish (x.bind fun x => y.map fun y => (x, y))

/-- What a task for an index comes to, and whether it cancels the token of its group before it
answers. -/
structure Outcome (α : Type) where
  result : Except EvalError α
  cancels : Bool := false

/-- A task for every index below `length`. -/
abbrev IndexedTask (length : Nat) (α : Type) : Type :=
  (i : Nat) → i < length → Bool → Outcome α

/-- The ratio of two numbers, rounded up to a whole number. -/
def ceilDiv (n d : Nat) : Nat :=
  (n + d - 1) / d

/-- How many indices a worker takes at most. -/
def chunkSize (length workers : Nat) : Nat :=
  max 1 (ceilDiv length (max workers 1))

/-- How many workers get any index. -/
def chunkCount (length workers : Nat) : Nat :=
  ceilDiv length (chunkSize length workers)

/-- The state of a sweep over indices: the group, the indices whose task has run, in this order,
and the results so far, or none once a task gave nothing. -/
structure Sweep (α : Type) where
  group : Group
  visited : Array Nat := #[]
  results : Option (Array α) := some #[]

namespace Sweep

variable {α : Type} {length : Nat}

/-- Runs the tasks of the indices from `i` up to `stop`. The token is looked at before each task,
and the first task that gives nothing ends the run. -/
def runChunk (task : IndexedTask length α) (stop : Nat) (inside : stop ≤ length) (i : Nat)
    (group : Group) (visited : Array Nat) (results : Array α) : Sweep α :=
  if h : i < stop then
    if group.isCanceled then
      ⟨group, visited, none⟩
    else
      let outcome := task i (Nat.lt_of_lt_of_le h inside) group.isCanceled
      let group := if outcome.cancels then group.cancel else group
      match group.settle outcome.result with
      | (group, some value) =>
        runChunk task stop inside (i + 1) group (visited.push i) (results.push value)
      | (group, none) => ⟨group, visited.push i, none⟩
  else
    ⟨group, visited, some results⟩
termination_by stop - i

/-- Runs one worker's chunk after those before it, and adds its results to theirs. -/
def addChunk (task : IndexedTask length α) (size : Nat) (s : Sweep α) (chunk : Nat) : Sweep α :=
  let next := runChunk task (min ((chunk + 1) * size) length) (Nat.min_le_right ..) (chunk * size)
    s.group s.visited #[]
  { next with results := s.results.bind fun done => next.results.map (done ++ ·) }

end Sweep

/-- Runs the tasks of all indices, one worker's chunk after another. -/
def sweep {α : Type} (canceled : Bool) (length workers : Nat) (task : IndexedTask length α) :
    Sweep α :=
  (List.range (chunkCount length workers)).foldl
    (Sweep.addChunk task (chunkSize length workers)) { group := { callerCanceled := canceled } }

/-- The results of the tasks of all indices, in the order of the indices. -/
def mapIndexed {α : Type} (canceled : Bool) (length workers : Nat) (task : IndexedTask length α) :
    Except EvalError (Array α) :=
  let done := sweep canceled length workers task
  done.group.finish done.results

end RatCalc
