import NeoGraph.Executor.Attempts

/-!
# Pauses

The invocations of a super-step run side by side: its one ready node, its
ready nodes as branches, or its Sends. Each records what it does under the
checkpoint the step started from. When one of them interrupts, and nothing
outranks the interrupt, the step pauses: a checkpoint is saved that
re-enters the step. A step that started from no checkpoint has recorded
nothing; it records under the pause itself the results of what finished and
the attempts of what paused.

The branches record in any order.
-/

namespace NeoGraph.Executor

variable {R : Type}

/-! ## The outcome of a step -/

namespace InvocationExit

/-- A cancellation, out of memory. -/
def isStopped : InvocationExit R → Bool
  | stopped => true
  | _ => false

/-- A failure that was not routed. -/
def isFailed : InvocationExit R → Bool
  | failed => true
  | _ => false

/-- An interrupt, of either kind. -/
def isInterrupted : InvocationExit R → Bool
  | interrupted _ _ => true
  | _ => false

/-- An interrupt that asks for reconciliation. -/
def isReconciliation : InvocationExit R → Bool
  | interrupted _ reconciliation => reconciliation
  | _ => false

/-- The attempt an invocation paused in. -/
def interruptedAttempt : InvocationExit R → ℕ
  | interrupted attempt _ => attempt
  | _ => 0

/-- The result of an invocation that finished. -/
def result? : InvocationExit R → Option R
  | finished result => some result
  | _ => none

end InvocationExit

/-- How a step ends: with the exception of one invocation, or paused for
some of them. -/
structure StepOutcome where
  endAt : Option ℕ := none
  pause : List ℕ := []
  besideFailure : Bool := false
deriving DecidableEq

/-- **The outcome of a step**, whatever the order its invocations ended in.
What stops the run comes first; an uncertain effect pauses the step even
beside a failure; a failure comes before an ordinary interrupt. -/
def stepOutcome (exits : List (InvocationExit R)) : StepOutcome :=
  let indices := List.range exits.length
  let at? (p : InvocationExit R → Bool) (i : ℕ) : Bool := exits[i]?.any p
  let stop := indices.find? (at? InvocationExit.isStopped)
  let failure := indices.find? (at? InvocationExit.isFailed)
  let reconciliations := indices.filter (at? InvocationExit.isReconciliation)
  let interrupts := indices.filter (at? InvocationExit.isInterrupted)
  if stop.isSome then { endAt := stop }
  else if failure.isSome ∧ reconciliations = [] then { endAt := failure }
  else
    { besideFailure := failure.isSome
      pause := if failure.isSome then reconciliations else interrupts }

/-! ## A part of a super-step -/

/-- The invocations of a super-step that run side by side: its ready nodes,
or its Sends, which run when the ready nodes have their results. -/
structure StepPart (R : Type) where
  step : ℕ
  threadId : String
  /-- The checkpoint the step started from; empty when there is none. -/
  parentId : String
  replay : List (PendingWrite R)
  /-- The nodes of the graph. -/
  nodes : Finset String
  invocations : List (Invocation R)
  /-- The ready nodes with their results, when this part is the Sends. -/
  readyResults : Option (List (String × R)) := none
  /-- Ready nodes are distinct, and Sends are numbered. -/
  taskIds_nodup : (invocations.map fun inv => inv.kind.taskId step).Nodup
  readyResults_mem : ∀ l ∈ readyResults, ∀ r ∈ l, r.1 ∈ nodes

namespace StepPart

variable (started : R) (part : StepPart R)

/-- What an invocation of the part does. -/
def run (inv : Invocation R) : InvocationRun R :=
  runInvocation started part.nodes part.step part.replay inv

/-- Everything the part records under its parent, one invocation after the
other. -/
def log : List (PendingWrite R) :=
  part.invocations.flatMap fun inv => (part.run started inv).writes

/-- The outcome of the part. -/
def outcome : StepOutcome :=
  stepOutcome (part.invocations.map fun inv => (part.run started inv).exit)

/-- The nodes a resume of the pause re-enters. -/
def nextNodes : List String :=
  match part.readyResults with
  | some results => results.map Prod.fst
  | none => part.invocations.map fun inv => inv.kind.nodeName

/-- The checkpoint of a pause. -/
def pauseCheckpoint (id currentNode : String) : StoredCheckpoint :=
  { id := id
    threadId := part.threadId
    parentId := part.parentId
    currentNode := currentNode
    nextNodes := part.nextNodes
    interruptPhase := .nodeInterrupt
    step := part.step }

/-- What an invocation has recorded under a pause without a parent: its
result, or the attempt it paused in. -/
def pauseWrite (inv : Invocation R) : List (PendingWrite R) :=
  let exit := (part.run started inv).exit
  match exit.result? with
  | some result => [⟨inv.kind.taskId part.step, inv.kind.nodeName, result, part.step⟩]
  | none =>
    if exit.interruptedAttempt ≤ 0 then []
    else
      [attemptStart started (inv.kind.taskId part.step) inv.kind.nodeName exit.interruptedAttempt
        part.step]

/-- The results of the ready nodes, as pending writes. -/
def readyWrites : List (PendingWrite R) :=
  (part.readyResults.getD []).map fun r =>
    ⟨makeStaticTaskId part.step r.1, r.1, r.2, part.step⟩

/-- What a pause without a parent records. -/
def pauseWrites : List (PendingWrite R) :=
  part.readyWrites ++ part.invocations.flatMap (part.pauseWrite started)

/-- **A part that pauses**: the branches have recorded under the parent, in
some order, the checkpoint of the pause is saved, and without a parent the
rest is recorded under it. -/
def pause (store : CheckpointStore R) (log : List (PendingWrite R)) (pauseId : String) :
    Option (CheckpointStore R × StoredCheckpoint) :=
  let outcome := part.outcome started
  match outcome.endAt, outcome.pause with
  | none, first :: _ =>
    let currentNode := (part.invocations[first]?.map fun inv => inv.kind.nodeName).getD ""
    let cp := part.pauseCheckpoint pauseId currentNode
    let store := (store.recordPendingWrites part.threadId part.parentId log).save cp
    some (if part.parentId = "" then
        store.recordPendingWrites part.threadId pauseId (part.pauseWrites started)
      else store, cp)
  | _, _ => none

end StepPart

/-! ## Where a step starts -/

/-- Every write of a thread is of the step its task id names. -/
def CheckpointStore.StepTagged (store : CheckpointStore R) (threadId : String) : Prop :=
  ∀ checkpointId, ∀ row ∈ store.getWrites threadId checkpointId, OfStep row.step row.taskId

/-- **Where a super-step starts from**, and what it replays: from nothing, in
a thread's first run; from a checkpoint that is no pause of the step, in a
run that continues a thread or went on to the step; or from the checkpoint
a resume re-enters, with the writes it collected. -/
inductive StepEntry (store : CheckpointStore R) (threadId : String) (step : ℕ) :
    String → List (PendingWrite R) → Prop where
  | fresh : StepEntry store threadId step "" []
  | continues (cp : StoredCheckpoint) (hload : store.loadById cp.id = some cp)
      (hid : cp.id ≠ "") (hthread : cp.threadId = threadId)
      (hschema : cp.schemaVersion = checkpointSchemaVersion) (hself : cp.parentId ≠ cp.id)
      (hpast : cp.resumePhase = .nodeInterrupt → cp.step < step) :
      StepEntry store threadId step cp.id []
  | resumes (cp : StoredCheckpoint) (hload : store.loadById cp.id = some cp)
      (hschema : cp.schemaVersion = checkpointSchemaVersion) (rows : List (PendingWrite R))
      (hrows : collectResumeWrites store threadId cp = .ok rows)
      (hstep : cp.resumeStartStep = .ok step) : StepEntry store threadId step cp.id rows

end NeoGraph.Executor
