import Mathlib
import NeoGraph.Basic
import NeoGraph.Lib.SortedMap

/-!
# The scheduler

The scheduler owns the topology of a compiled graph – static edges,
conditional edges, barriers, `any_of` joins and failure targets – and
answers two questions: what the successors of a node are in a given state
(`Scheduler.resolveNextNodes`), and what the next super-step runs once the
nodes of the current one have returned (`Scheduler.planImpl`).

A plan is made in three passes. A `Command.goto` preempts everything,
barriers included; the last one in routing order wins. Otherwise every
routed node signals its successors – or its failure target only, when its
failure is handled – and a target that is a declared join is gated: the
signals accumulate in a `BarrierState` that the caller threads from call
to call, and the join fires, with its accumulator cleared, once every
required upstream has signalled it or every slot holds an alternative.

The condition functions belong to the registry, which is outside the
scheduler: `ConditionRegistry` is the part of it the scheduler reads. The
state is whatever type the conditions look at, and a condition may throw.
-/

namespace NeoGraph

/-! ## Topology -/

/-- The pseudo-node the first super-step is routed from. -/
def startNode : String := "__start__"

/-- The pseudo-node that ends a run. -/
def endNode : String := "__end__"

/-- The reserved route key of an open condition. -/
def defaultRoute : String := "default"

/-- The hidden marker that keeps the historical fallback target of a
schema version 0 graph. -/
def legacyDefaultRoute : String := "\x1fneograph-legacy-default"

/-- A static edge. -/
structure Edge where
  /-- Source node name. -/
  src : String
  /-- Destination node name. -/
  dst : String
deriving DecidableEq, Repr

/-- A conditional edge: the label returned by the condition selects the
route. -/
structure ConditionalEdge where
  /-- Source node name. -/
  src : String
  /-- Condition name in the registry. -/
  condition : String
  /-- Destination node by label. -/
  routes : SortedMap String String
deriving DecidableEq

/-- The declared labels of a condition. -/
structure ConditionSpec where
  /-- The labels the condition is known to return. -/
  labels : List String
  /-- Whether it may return other labels too. -/
  «open» : Bool
deriving DecidableEq, Repr

/-- The part of the registry the scheduler reads: the condition functions,
which may be missing and may throw, and their declared labels. -/
structure ConditionRegistry (σ : Type) where
  /-- The condition of a name. -/
  condition : String → Except Exn (σ → Except Exn String)
  /-- The declared labels of a condition. -/
  conditionSpec : String → Option ConditionSpec

/-- Signals received so far, by join node. -/
abbrev BarrierState := SortedMap String (Finset String)

/-- Required upstream nodes, by barrier node. -/
abbrev BarrierSpecs := SortedMap String (Finset String)

/-- A join whose slots may each list alternatives. -/
structure JoinSpec where
  /-- The slots, each a set of alternative sources. -/
  slots : List (Finset String)
deriving DecidableEq

/-- Joins with at least one slot of several alternatives, by join node. -/
abbrev JoinSpecs := SortedMap String JoinSpec

/-- The immutable routing oracle of a compiled graph. -/
structure Scheduler (σ : Type) where
  /-- Static edges, in declaration order. -/
  edges : List Edge
  /-- Conditional edges, in declaration order. -/
  conditionalEdges : List ConditionalEdge
  /-- Declared barriers. -/
  barrierSpecs : BarrierSpecs
  /-- Declared `any_of` joins. -/
  joinSpecs : JoinSpecs
  /-- Failure target of a node whose failures are handled. -/
  failureTargets : SortedMap String String
  /-- The conditions. -/
  registry : ConditionRegistry σ

variable {σ : Type}

/-! ## Successors of a node -/

/-- The route keys a routing failure lists: all but the legacy marker, in
key order. -/
def ConditionalEdge.declaredKeys (ce : ConditionalEdge) : String :=
  ", ".intercalate
    ((ce.routes.keys.filter (fun key => decide (key ≠ legacyDefaultRoute))).map
      (fun key => "'" ++ key ++ "'"))

/-- Whether a label violates the declared label set of a closed
condition. -/
def outsideClosedContract (spec : Option ConditionSpec) (result : String) : Bool :=
  match spec with
  | some spec => !spec.open && !spec.labels.contains result
  | none => false

/-- The route a conditional edge takes on a label: the exact route, then
the legacy marker, then the default route of an open condition. -/
def ConditionalEdge.route (ce : ConditionalEdge) (spec : Option ConditionSpec)
    (result : String) : Option String :=
  let outside := outsideClosedContract spec result
  match (if outside then none else ce.routes.find? result) with
  | some target => some target
  | none =>
    match ce.routes.find? legacyDefaultRoute with
    | some target => some target
    | none =>
      if !outside && (spec.elim true ConditionSpec.open) then
        ce.routes.find? defaultRoute
      else none

/-- The text of a routing failure. -/
def ConditionalEdge.failureText (ce : ConditionalEdge) (current : String)
    (spec : Option ConditionSpec) (result : String) : String :=
  "Conditional routing failed at source node '" ++ current
    ++ "': condition '" ++ ce.condition ++ "' returned label '"
    ++ result ++ "', "
    ++ (if outsideClosedContract spec result then
          "which is outside the condition's declared closed label set"
        else
          "which has no exact route; add an explicit 'default' route "
            ++ "to handle unknown labels")
    ++ ". Declared route keys: [" ++ ce.declaredKeys ++ "]"

namespace Scheduler

/-- The failure target of a node, if it has a failure edge. -/
def failureTarget (sch : Scheduler σ) (node : String) : Option String :=
  sch.failureTargets.find? node

/-- The direct successors of a node. The first conditional edge from the
node decides alone; without one, every static edge contributes, and a node
without edges goes to `endNode`. -/
def resolveNextNodes (sch : Scheduler σ) (current : String) (state : σ) :
    Except Exn (List String) :=
  match sch.conditionalEdges.find? (fun ce => ce.src = current) with
  | some ce => do
    let condFn ← sch.registry.condition ce.condition
    let result ← condFn state
    let spec := sch.registry.conditionSpec ce.condition
    match ce.route spec result with
    | some target => .ok [target]
    | none => .error (.runtimeError (ce.failureText current spec result))
  | none =>
    let successors := (sch.edges.filter (fun e => e.src = current)).map Edge.dst
    if successors.isEmpty then .ok [endNode] else .ok successors

/-- Whether a node has no edge at all, so that it reaches `endNode` only
implicitly. -/
def endsImplicitly (sch : Scheduler σ) (node : String) : Bool :=
  !(sch.conditionalEdges.any (fun ce => ce.src = node))
    && !(sch.edges.any (fun e => e.src = node))

/-- The nodes routed from `startNode`. -/
def planStartStep (sch : Scheduler σ) : List String :=
  (sch.edges.filter (fun e => e.src = startNode && e.dst ≠ endNode)).map Edge.dst

end Scheduler

/-! ## Planning the next super-step -/

/-- The routing signal of a node that just ran. -/
structure StepRouting where
  /-- The node. -/
  nodeName : String
  /-- The target of its `Command`, if it returned one with a target. -/
  commandGoto : Option String
deriving DecidableEq, Repr

/-- The plan of the next super-step. -/
structure NextStepPlan where
  /-- The nodes to execute. -/
  ready : List String := []
  /-- Some routing signal reached `endNode`. -/
  hitEnd : Bool := false
  /-- `endNode` was reached by an edge, a route or a `Command`, not only
  by a node without successors. -/
  hitExplicitEnd : Bool := false
  /-- The `Command` target that took over, if any. -/
  winningCommandGoto : Option String := none
deriving DecidableEq, Repr

/-- Pass 1: the last `Command` target in routing order. -/
def winningGoto (routings : List StepRouting) : Option String :=
  routings.foldl (fun acc r => r.commandGoto.or acc) none

/-- Sorting followed by removal of consecutive duplicates. -/
def sortUnique (l : List String) : List String :=
  (l.insertionSort (· ≤ ·)).destutter (· ≠ ·)

/-- One signal of pass 2; a signal to `endNode` is not recorded. -/
def addSignal (node : String) (signals : SortedMap String (Finset String))
    (next : String) : SortedMap String (Finset String) :=
  if next = endNode then signals else signals.alterD next ∅ (insert node)

/-- Pass 2: which nodes signalled which target. -/
def collectSignals (routed : List (String × List String)) : SortedMap String (Finset String) :=
  routed.foldl (fun signals p => p.2.foldl (addSignal p.1) signals) ∅

/-- Whether received signals meet a declaration. A barrier declaration
takes precedence over an `any_of` one. -/
def satisfied (spec : Option (Finset String)) (join : Option JoinSpec)
    (accum : Finset String) : Bool :=
  match spec with
  | some required => decide (required ⊆ accum)
  | none => join.elim true fun join =>
      join.slots.all fun slot => decide (∃ source ∈ slot, source ∈ accum)

namespace Scheduler

/-- The successors a routed node signals: its failure target alone when
its failure is handled. -/
def successorsOf (sch : Scheduler σ) (state : σ) (node : String) (failed : Bool) :
    Except Exn (List String) :=
  if failed then
    match sch.failureTarget node with
    | some target => .ok [target]
    | none => .error (.logicError
        ("Node '" ++ node ++ "' failed as handled but has no failure edge"))
  else sch.resolveNextNodes node state

/-- The successors of every routed node, in routing order. -/
def routeAll (sch : Scheduler σ) (state : σ) :
    List (StepRouting × Bool) → Except Exn (List (String × List String))
  | [] => .ok []
  | (r, failed) :: rest => do
    let next ← sch.successorsOf state r.nodeName failed
    let tail ← sch.routeAll state rest
    .ok ((r.nodeName, next) :: tail)

/-- Whether a target is a declared join. -/
def isBarrier (sch : Scheduler σ) (target : String) : Bool :=
  sch.barrierSpecs.contains target || sch.joinSpecs.contains target

/-- Pass 3 on one signalled target. -/
def gate (sch : Scheduler σ) (acc : List String × BarrierState)
    (entry : String × Finset String) : List String × BarrierState :=
  if sch.isBarrier entry.1 then
    let accum := acc.2.getD entry.1 ∅ ∪ entry.2
    if satisfied (sch.barrierSpecs.find? entry.1) (sch.joinSpecs.find? entry.1) accum then
      (acc.1 ++ [entry.1], acc.2.insert entry.1 ∅)
    else (acc.1, acc.2.insert entry.1 accum)
  else (acc.1 ++ [entry.1], acc.2)

/-- The flags of the routed nodes; no flags at all count as all false. -/
def failedFlags (routings : List StepRouting) (failed : List Bool) : Except Exn (List Bool) :=
  if failed.isEmpty then .ok (routings.map fun _ => false)
  else if failed.length ≠ routings.length then
    .error (.invalidArgument "Scheduler::plan_next_step: failed and routings size mismatch")
  else .ok failed

/-- The plan of a `Command` target. -/
def gotoPlan (target : String) : NextStepPlan :=
  if target = endNode then
    { hitEnd := true, hitExplicitEnd := true, winningCommandGoto := some target }
  else { ready := [target], winningCommandGoto := some target }

/-- The end flags of a super-step without a `Command` target, and its
ready set. -/
def routedPlan (sch : Scheduler σ) (routed : List (String × List String))
    (ready : List String) : NextStepPlan where
  ready := ready
  hitEnd := routed.any fun p => p.2.contains endNode
  hitExplicitEnd := routed.any fun p => p.2.contains endNode && !sch.endsImplicitly p.1

/-- The shared planning function. Without a barrier state, or without any
declared join, every successor fires. Every exception is thrown before the
barrier state is touched. -/
def planImpl (sch : Scheduler σ) (routings : List StepRouting) (state : σ)
    (barrierState : Option BarrierState) (failed : List Bool) :
    Except Exn (NextStepPlan × Option BarrierState) := do
  let flags ← failedFlags routings failed
  match winningGoto routings with
  | some target => .ok (gotoPlan target, barrierState)
  | none =>
    let routed ← sch.routeAll state (routings.zip flags)
    match barrierState with
    | none =>
      .ok (sch.routedPlan routed (sortUnique ((routed.flatMap Prod.snd).filter (· ≠ endNode))),
        none)
    | some barriers =>
      if sch.barrierSpecs.isEmpty && sch.joinSpecs.isEmpty then
        .ok (sch.routedPlan routed
          (sortUnique ((routed.flatMap Prod.snd).filter (· ≠ endNode))), some barriers)
      else
        let gated := (collectSignals routed).entries.foldl sch.gate ([], barriers)
        .ok (sch.routedPlan routed gated.1, some gated.2)

/-- Barrier-aware planning: the caller owns the barrier state. -/
def planNextStep (sch : Scheduler σ) (routings : List StepRouting) (state : σ)
    (barrierState : BarrierState) (failed : List Bool) :
    Except Exn (NextStepPlan × BarrierState) := do
  let (plan, after) ← sch.planImpl routings state (some barrierState) failed
  .ok (plan, after.getD barrierState)

end Scheduler

end NeoGraph
