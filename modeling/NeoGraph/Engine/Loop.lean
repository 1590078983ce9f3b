import Mathlib
import NeoGraph.Scheduler

/-!
# The super-step loop

A run repeats super-steps: it executes the ready nodes and the Sends they
emitted, plans the next super-step from their routings, and saves a
checkpoint. It returns when nothing is ready, when the step limit is
reached, or early – at an interrupt, at a safe point, when a budget is
exhausted. When it stops with nothing ready, a declared join that still holds
signals did not fire: `stalledBarriers` lists these joins, each with what it
waits for, what it has received and, where a member that ran handed its work
on, a node that did signal the join (`stallPath`).

What the nodes do is not the engine's: `Environment` gives, for every
super-step, the outcome of running the ready nodes and their Sends, and
the signals from outside that the loop polls. All of these are arbitrary,
so a statement about runs holds for all nodes, schedules and callers.

`Graph` is a compiled graph, of which one promise of the compiler matters
here: a failure edge does not lead to `endNode`. A step that was executed
and planned leaves a `StepRecord`. Steps are numbered by natural numbers; the
engine counts in 32 bits, and its exception "Graph super-step index exceeds the
executable range", which a run meets only after 2^31 steps, is left out.
-/

namespace NeoGraph

/-- A join that holds signals but has not fired. -/
structure Stall where
  node : String
  /-- The slots of the join; a barrier has one for each of its members. -/
  waitFor : List (Finset String)
  received : Finset String
  /-- The slots without a signal. -/
  missing : List (Finset String)
  /-- From a missing member that ran to a node that signalled the join. -/
  paths : List (String × List String)
  /-- The slots with the first such node as an alternative. -/
  suggestedWaitFor : Option (List (Finset String))
deriving DecidableEq

/-! ## Paths of missing members -/

/-- The successors of a node that ran and were not seen before, up to the
first one that signalled the join. -/
def visitSuccessors (ran received : Finset String) (current : String) :
    List String → List (String × String) → List String →
      List (String × String) × List String × Option String
  | [], parent, queue => (parent, queue, none)
  | next :: rest, parent, queue =>
    if next ∉ ran ∨ (parent.lookup next).isSome then
      visitSuccessors ran received current rest parent queue
    else if next ∈ received then ((next, current) :: parent, queue, some next)
    else visitSuccessors ran received current rest ((next, current) :: parent) (queue ++ [next])

/-- The breadth-first search. Every node enters the queue at most once. -/
def searchLoop (ran received : Finset String) (successors : String → List String) :
    ℕ → List (String × String) → List String → List (String × String) × Option String
  | 0, parent, _ => (parent, none)
  | _ + 1, parent, [] => (parent, none)
  | fuel + 1, parent, current :: queue =>
    match visitSuccessors ran received current (successors current) parent queue with
    | (parent, _, some reached) => (parent, some reached)
    | (parent, queue, none) => searchLoop ran received successors fuel parent queue

/-- The path that led to a node, followed back to where the search began. -/
def tracePath (parent : List (String × String)) (member : String) : ℕ → String → List String
  | 0, node => [node]
  | fuel + 1, node =>
    if node = member then [node]
    else tracePath parent member fuel ((parent.lookup node).getD member) ++ [node]

/-- The path from a member that ran to a node that signalled the join. -/
def stallPath (ran received : Finset String) (successors : String → List String)
    (member : String) : Option (List String) :=
  if member ∈ ran then
    match searchLoop ran received successors (ran.card + 1) [(member, member)] [member] with
    | (parent, some reached) => some (tracePath parent member ran.card reached)
    | (_, none) => none
  else none

/-- The slots with a stand-in for a member, unless it already fills one. -/
def suggestWaitFor (slots : List (Finset String)) (member standIn : String) :
    Option (List (Finset String)) :=
  if slots.any fun slot => standIn ∈ slot then none
  else some (slots.map fun slot => if member ∈ slot then insert standIn slot else slot)

local instance isTrans_le_member : IsTrans String fun a b => a ≤ b := inferInstance

local instance antisymm_le_member : Std.Antisymm fun a b : String => a ≤ b := inferInstance

/-- A stall with the paths of its missing members. -/
def addStallPaths (node : String) (slots missing : List (Finset String))
    (received ran : Finset String) (successors : String → List String) : Stall :=
  let members := (missing.flatMap fun slot => slot.sort (· ≤ ·)).eraseDups
  let paths := members.filterMap fun member =>
    (stallPath ran received successors member).map fun path => (member, path)
  { node := node, waitFor := slots, received := received, missing := missing, paths := paths,
    suggestedWaitFor :=
      match paths with
      | [] => none
      | (member, path) :: _ => suggestWaitFor slots member (path.getLastD member) }

/-! ## The stalls of a barrier state -/

/-- The slots of a declared join; a barrier is a join of single members. -/
def declaredSlots (specs : BarrierSpecs) (joins : JoinSpecs) (node : String) :
    Option (List (Finset String)) :=
  match joins.find? node with
  | some join => some join.slots
  | none => (specs.find? node).map fun members =>
      (members.sort (· ≤ ·)).map fun member => {member}

/-- **The declared joins that hold signals.** -/
def stalledBarriers (state : BarrierState) (specs : BarrierSpecs) (joins : JoinSpecs)
    (trace : List String) (successors : String → List String) : List Stall :=
  state.entries.filterMap fun entry =>
    if entry.2 = ∅ then none
    else (declaredSlots specs joins entry.1).map fun slots =>
      addStallPaths entry.1 slots
        (slots.filter fun slot => decide (¬∃ source ∈ slot, source ∈ entry.2)) entry.2
        trace.toFinset successors

theorem isSome_declaredSlots (specs : BarrierSpecs) (joins : JoinSpecs) (node : String) :
    (declaredSlots specs joins node).isSome = (specs.contains node || joins.contains node) := by
  unfold declaredSlots SortedMap.contains
  cases joins.find? node with
  | some join | none => simp

/-- **Nothing stalls** exactly when every declared join is empty. -/
theorem stalledBarriers_eq_nil_iff (state : BarrierState) (specs : BarrierSpecs)
    (joins : JoinSpecs) (trace : List String) (successors : String → List String) :
    stalledBarriers state specs joins trace successors = []
      ↔ ∀ node, (specs.contains node || joins.contains node) = true → state.getD node ∅ = ∅ := by
  unfold stalledBarriers
  rw [List.filterMap_eq_nil_iff]
  constructor
  · intro h node hd
    rw [← isSome_declaredSlots] at hd
    unfold SortedMap.getD
    cases hf : state.find? node with
    | none => rfl
    | some received =>
      by_contra hne
      have hn := h (node, received) ((state.mem_entries_iff node received).mpr hf)
      dsimp only at hn
      rw [if_neg (by simpa using hne), Option.map_eq_none_iff] at hn
      rw [hn] at hd
      cases hd
  · rintro h ⟨node, received⟩ hen
    dsimp only
    split_ifs with hne
    · rfl
    rw [Option.map_eq_none_iff, ← Option.not_isSome_iff_eq_none, isSome_declaredSlots]
    intro hd
    have he := h node hd
    unfold SortedMap.getD at he
    rw [(state.mem_entries_iff node received).mp hen] at he
    exact hne he

/-! ## Checkpoints and runs -/

/-- When a checkpoint was saved. -/
inductive CheckpointPhase where
  | before
  | after
  | completed
  | nodeInterrupt
  | updated
deriving DecidableEq, Repr

/-- How a run stopped, once known. Every checkpoint carries it. -/
structure RunStatusMarks where
  barrierStall : Option (List Stall) := none
  /-- The failure-exit node that completed, and its code. -/
  failureExit : Option (String × String) := none
deriving DecidableEq

/-- A checkpoint, as the loop saves it. -/
structure Checkpoint (σ : Type) where
  state : σ
  currentNode : String
  nextNodes : List String
  phase : CheckpointPhase
  step : ℕ
  parent : Option ℕ
  barrierState : BarrierState
  marks : RunStatusMarks

/-- A compiled graph. -/
structure Graph (σ : Type) where
  scheduler : Scheduler σ
  /-- Failure-exit nodes and their codes. -/
  failureExits : SortedMap String String
  interruptBefore : Finset String
  interruptAfter : Finset String
  failureTarget_ne_end : ∀ node target,
    scheduler.failureTarget node = some target → target ≠ endNode

/-- The state of a run between super-steps. The checkpoints saved so far
are named by their position. -/
structure RunState (σ : Type) where
  state : σ
  ready : List String
  barrierState : BarrierState
  marks : RunStatusMarks
  trace : List String
  lastCheckpoint : Option ℕ
  saved : List (Checkpoint σ)

/-- What running one node gives the loop. -/
structure NodeOutcome where
  commandGoto : Option String
  /-- The targets of the Sends it emitted. -/
  sends : List String
  /-- Its failure is handled: it routes along its failure edge. -/
  failed : Bool

/-- Why executing a super-step does not return. -/
inductive Abort where
  | interrupted
  | threw (e : Exn)

/-- Everything the loop takes from outside. -/
structure Environment (σ : Type) where
  budgetExhausted : ℕ → Bool
  cancelled : ℕ → Bool
  /-- The gate of a node was answered, or passed in an earlier call. -/
  gatePassed : ℕ → String → Bool
  /-- Running the ready nodes: an outcome for each, and the state. -/
  runReady : ℕ → RunState σ → Except Abort (List NodeOutcome × σ)
  /-- Running the Sends, given with the node that emitted them. -/
  runSends : ℕ → RunState σ → List (String × String) →
    Except Abort (List (StepRouting × Bool) × σ)
  safePoint : ℕ → Bool

/-- A super-step that was executed and planned. -/
structure StepRecord (σ : Type) where
  step : ℕ
  /-- The nodes that ran, Sends included, with whether their failure is
  handled. -/
  routings : List (StepRouting × Bool)
  /-- The state the next super-step was planned in. -/
  state : σ

/-- How a run ended before its loop did. -/
inductive Stopped where
  | budget
  | cancelled
  | interruptedBefore (node : String)
  | interrupted
  | interruptedAfter (node : String)
  | safePoint
  | threw (e : Exn)

variable {σ : Type}

/-! ## Saving -/

/-- A checkpoint is saved and becomes the last one. -/
def RunState.save (s : RunState σ) (state : σ) (currentNode : String) (nextNodes : List String)
    (phase : CheckpointPhase) (step : ℕ) : RunState σ :=
  { s with
      lastCheckpoint := some s.saved.length
      saved := s.saved ++ [⟨state, currentNode, nextNodes, phase, step, s.lastCheckpoint,
        s.barrierState, s.marks⟩] }

/-- The node name of the checkpoint that anchors the pending writes of the
first step of a thread. -/
def firstStepAnchorNode : String := "__first_step_anchor__"

/-- The anchor of a step that is entered in some state, when the thread has
no checkpoint yet. -/
def RunState.anchor (s : RunState σ) (enabled : Bool) (state : σ) (step : ℕ) : RunState σ :=
  if enabled && s.lastCheckpoint.isNone then
    s.save state firstStepAnchorNode s.ready .before step
  else s

/-- The name a committed super-step is filed under. -/
def traceTag (tag : String) (trace : List String) (step : ℕ) : String :=
  trace.getLastD (tag ++ toString step)

/-! ## One super-step -/

/-- The ready nodes and the nodes reached by Sends, executed. -/
def executeStep (env : Environment σ) (enabled : Bool) (step : ℕ) (s : RunState σ) :
    RunState σ × Except Abort (List (StepRouting × Bool)) :=
  let start := s.state
  let s := if s.ready.length = 1 then s else s.anchor enabled start step
  match env.runReady step s with
  | .error abort => (s, .error abort)
  | .ok (outcomes, state) =>
    let ran := s.ready.zip outcomes
    let routings := ran.map fun p => (⟨p.1, p.2.commandGoto⟩, p.2.failed)
    let sends := ran.flatMap fun p => p.2.sends.map fun target => (p.1, target)
    let s := { s with state := state, trace := s.trace ++ s.ready }
    if sends = [] then (s, .ok routings)
    else
      -- a Send that interrupts re-enters the whole step
      let s := s.anchor enabled start step
      match env.runSends step s sends with
      | .error abort => (s, .error abort)
      | .ok (spawned, state) =>
        ({ s with state := state, trace := s.trace ++ sends.map Prod.snd },
          .ok (routings ++ spawned))

namespace Graph

/-- Whether the failures of a super-step are routed at all. -/
def handledFlags (g : Graph σ) (routings : List (StepRouting × Bool)) : List Bool :=
  if g.scheduler.failureTargets.isEmpty || !(routings.any Prod.snd) then []
  else routings.map Prod.snd

/-- The first failure-exit node that completed. -/
def completedExit (g : Graph σ) (routings : List (StepRouting × Bool)) (handled : List Bool) :
    Option (String × String) :=
  routings.findSome? fun r =>
    if !handled.isEmpty && r.2 then none
    else (g.failureExits.find? r.1.nodeName).map fun code => (r.1.nodeName, code)

/-- The plan of the next super-step; a failure exit ends the run
explicitly. -/
def planStep (g : Graph σ) (routings : List (StepRouting × Bool)) (state : σ)
    (barriers : BarrierState) (exit : Option (String × String)) :
    Except Exn (NextStepPlan × BarrierState) := do
  let (plan, barriers) ←
    g.scheduler.planNextStep (routings.map Prod.fst) state barriers (g.handledFlags routings)
  if exit.isSome then
    .ok ({ plan with
             ready := [], hitEnd := true, hitExplicitEnd := true }, barriers)
  else .ok (plan, barriers)

/-- The routes the scheduler may take from a node: its failure edge, and
its first conditional edge or else its static edges. -/
def successors (g : Graph σ) (node : String) : List String :=
  (g.scheduler.failureTarget node).toList
    ++ match g.scheduler.conditionalEdges.find? (fun ce => ce.src = node) with
      | some ce => ce.routes.entries.map Prod.snd
      | none => (g.scheduler.edges.filter fun e => e.src = node).map Edge.dst

/-- The mark of a super-step that leaves nothing ready and did not reach
the end explicitly. -/
def markStall (g : Graph σ) (plan : NextStepPlan) (s : RunState σ) : Option (List Stall) :=
  if plan.ready = [] && !plan.hitExplicitEnd then
    match stalledBarriers s.barrierState g.scheduler.barrierSpecs g.scheduler.joinSpecs s.trace
        g.successors with
    | [] => s.marks.barrierStall
    | stalls => some stalls
  else s.marks.barrierStall

/-- The state after planning, with the marks known by then. -/
def planned (g : Graph σ) (routings : List (StepRouting × Bool)) (s : RunState σ) :
    Except Exn (NextStepPlan × RunState σ) := do
  let exit := s.marks.failureExit <|> g.completedExit routings (g.handledFlags routings)
  let (plan, barriers) ← g.planStep routings s.state s.barrierState exit
  let s := { s with barrierState := barriers }
  .ok (plan, { s with marks := ⟨g.markStall plan s, exit⟩ })

/-- The next nodes a checkpoint records. -/
def nextNodes (ready : List String) : List String := if ready = [] then [endNode] else ready

/-- How a super-step ends. -/
inductive StepEnd (σ : Type) where
  /-- Nothing was ready. -/
  | done
  | stopped (how : Stopped) (s : RunState σ)
  | next (record : StepRecord σ) (s : RunState σ)
  /-- The step was planned, and the run pauses after it. -/
  | paused (record : StepRecord σ) (how : Stopped) (s : RunState σ)

/-- What follows planning: interrupts after a node, the checkpoint of the
step, a safe point. -/
def finishStep (g : Graph σ) (env : Environment σ) (enabled : Bool) (step : ℕ)
    (record : StepRecord σ) (plan : NextStepPlan) (s : RunState σ) : StepEnd σ :=
  match s.ready.find? fun node => enabled && node ∈ g.interruptAfter with
  | some node =>
    .paused record (.interruptedAfter node)
      (s.save s.state node (nextNodes plan.ready) .after step)
  | none =>
    let s := { s with ready := plan.ready }
    if !enabled then .next record s
    else
      let s :=
        s.save s.state (traceTag "__step__" s.trace step) (nextNodes s.ready) .completed step
      if env.safePoint step then .paused record .safePoint s else .next record s

/-- **One iteration of the loop.** -/
def superStep (g : Graph σ) (env : Environment σ) (enabled : Bool) (step : ℕ) (s : RunState σ) :
    StepEnd σ :=
  if env.budgetExhausted step then
    .stopped .budget
      (if enabled then
        s.save s.state (traceTag "__budget__" s.trace step) s.ready .completed step
       else s)
  else if env.cancelled step then .stopped .cancelled s
  else if s.ready = [] then .done
  else
    match s.ready.find? fun node =>
      node ∈ g.interruptBefore && enabled && !env.gatePassed step node with
    | some node => .stopped (.interruptedBefore node) (s.save s.state node s.ready .before step)
    | none =>
      match executeStep env enabled step s with
      | (s, .error .interrupted) => .stopped .interrupted s
      | (s, .error (.threw e)) => .stopped (.threw e) s
      | (s, .ok routings) =>
        match g.planned routings s with
        | .error e => .stopped (.threw e) s
        | .ok (plan, s') =>
          g.finishStep env enabled step ⟨step, routings, s.state⟩ plan s'

/-! ## Whole runs -/

/-- The loop: the super-steps executed, the state at the end, and how the
run stopped if not by the end of the loop. -/
def loop (g : Graph σ) (env : Environment σ) (enabled : Bool) :
    ℕ → ℕ → RunState σ → List (StepRecord σ) × RunState σ × Option Stopped
  | 0, _, s => ([], s, none)
  | remaining + 1, step, s =>
    match g.superStep env enabled step s with
    | .done => ([], s, none)
    | .stopped how s => ([], s, some how)
    | .paused record how s => ([record], s, some how)
    | .next record s =>
      let (records, s, how) := g.loop env enabled remaining (step + 1) s
      (record :: records, s, how)

/-- The state a run enters its loop with. Its marks are new, whether the
run is fresh or resumes a checkpoint. -/
def enter (state : σ) (ready : List String) (barriers : BarrierState)
    (lastCheckpoint : Option ℕ) (saved : List (Checkpoint σ)) : RunState σ :=
  ⟨state, ready, barriers, {}, [], lastCheckpoint, saved⟩

end Graph

/-- The result of a run whose loop ended. -/
structure RunResult (σ : Type) where
  output : σ
  maxStepsExhausted : Bool
  barrierStalled : Option (List Stall)
  failureExit : Option (String × String)
  checkpointId : Option ℕ

/-- The result a finished loop reports. -/
def RunState.result (s : RunState σ) : RunResult σ :=
  ⟨s.state, s.ready ≠ [], s.marks.barrierStall, s.marks.failureExit, s.lastCheckpoint⟩

/-- The result of a run that stopped because its budget is exhausted. It says
whether something was left to run; the marks of the run are not part of it. -/
def RunState.budgetResult (s : RunState σ) : RunResult σ :=
  ⟨s.state, s.ready ≠ [], none, none, s.lastCheckpoint⟩

/-- The result of a run whose loop ended, or was left for the budget. -/
def RunState.resultOf (s : RunState σ) : Option Stopped → RunResult σ
  | some .budget => s.budgetResult
  | _ => s.result

/-- Resuming a checkpoint with nothing left to run: the result is read off
the checkpoint. -/
def resumeCompleted (saved : List (Checkpoint σ)) (id : ℕ) : Option (RunResult σ) :=
  match saved[id]? with
  | some cp =>
    if cp.nextNodes = [endNode] then
      some ⟨cp.state, false, cp.marks.barrierStall, cp.marks.failureExit, some id⟩
    else none
  | none => none

end NeoGraph
