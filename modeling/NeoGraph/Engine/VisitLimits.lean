import NeoGraph.Compiler.Accepted
import NeoGraph.Engine.VisitHistory

/-!
# Visit limits across interrupts

A run can pause before a super-step (at a gate), in one (when an invocation
interrupts) and after one, and every pause leaves a checkpoint from which the
run is resumed, perhaps more than once. The runs on a thread, their pauses and
their resumes are moves of a `VisitSession`.

The counters of a run follow its history (`Follows`), whatever pauses and
resumes lie in between: a super-step, wherever it is left, extends both alike
(`follows_countStep`), and a checkpoint keeps the counters of the history that a
resume continues (`visits_resumed`).
-/

namespace NeoGraph

open Executor FailureRunState Option List FailureRouting Compiler Compiler.Checked
open Compiler (NodeRetryPolicySpec FailureEdge)

/-! ## Activations and completions of a step -/

section Dispatch

variable (routing : FailureRouting)

/-- An activation is taken; a graph without limits has no counters. -/
def takeActivation (failure : Option FailureRunState) (node : String) :
    Bool × Option FailureRunState :=
  match failure with
  | none => (true, none)
  | some s => ((s.activate routing node).1, some (s.activate routing node).2)

/-- The activations of a step are taken in dispatch order, before any of the
invocations runs. -/
def dispatch (failure : Option FailureRunState) :
    List String → List VisitEvent × Option FailureRunState
  | [] => ([], failure)
  | node :: nodes =>
    let taken := takeActivation routing failure node
    let rest := dispatch taken.2 nodes
    (.activated node taken.1 :: rest.1, rest.2)

/-- The invocations that completed, without those whose failure is handled. -/
def completions (routings : List (String × Bool)) : List String :=
  (routings.filter fun r => !(routing.routes && r.2)).map Prod.fst

/-- The targets that completed reset counters. -/
def complete (failure : Option FailureRunState) (targets : List String) : Option FailureRunState :=
  failure.map fun s => targets.foldl (fun s target => s.targetCompleted routing target) s

end Dispatch

/-! ## One super-step -/

/-- How the invocations of a batch ended: all with a result, or some with an
interrupt, or with an exception that ends the run. -/
inductive BatchEnd (α : Type) where
  | finished (results : List α)
  | paused (interrupts : List PendingInterrupt) (listed : Bool)
  | threw

/-- The result of a ready node: a failure that is handled, the targets of its
Sends. -/
structure ReadyResult where
  failed : Bool
  sends : List String

/-- What the engine keeps in the metadata beside the counters. -/
structure KeptMetadata where
  reserved : ReservedMetadata := {}
  guard : Json String := .null

/-- What happens in a super-step that is not up to the counters. -/
structure StepScript where
  ready : BatchEnd ReadyResult
  /-- For each Send: its failure is handled. -/
  sends : BatchEnd Bool
  /-- What is planned next. -/
  next : List String
  interruptAfter : Bool := false
  safePoint : Bool := false
  kept : CheckpointPhase → KeptMetadata := fun _ => {}

/-- A run between super-steps. -/
structure VisitRun where
  failure : Option FailureRunState
  ready : List String
  step : ℕ
  /-- The thread has a checkpoint. -/
  hasCheckpoint : Bool
  history : List VisitEvent

/-- A super-step, with the counters at its end or where it was left. -/
structure CountedStep where
  failure : Option FailureRunState
  history : List VisitEvent
  /-- The counters when the Sends are about to be dispatched, if there are any. -/
  beforeSends : Option (Option FailureRunState)
  ended : BatchEnd Unit

/-- The counters after the step. -/
def CountedStep.visits (counted : CountedStep) : Option (SortedMap String ℤ) :=
  counted.failure.map FailureRunState.visits

namespace VisitRun

variable (routing : FailureRouting) (r : VisitRun)

/-- The counters of a run. -/
def visits : Option (SortedMap String ℤ) := r.failure.map FailureRunState.visits

/-- The counters with which the invocations of a step are dispatched. -/
def marked : Option FailureRunState := r.failure.map markStepStart

/-- The Sends of a step, and their invocations. -/
def countSends (script : StepScript) (ran : List (String × ReadyResult))
    (failure : Option FailureRunState) (history : List VisitEvent) : CountedStep :=
  let sends := ran.flatMap fun p => p.2.sends
  let sent := dispatch routing failure sends
  let beforeSends := if sends = [] then none else some failure
  match if sends = [] then .finished [] else script.sends with
  | .threw => ⟨sent.2, history ++ sent.1, beforeSends, .threw⟩
  | .paused interrupts listed =>
    ⟨sent.2, history ++ sent.1, beforeSends, .paused interrupts listed⟩
  | .finished failed =>
    let targets := completions routing (ran.map (fun p => (p.1, p.2.failed)) ++ sends.zip failed)
    ⟨complete routing sent.2 targets, history ++ sent.1 ++ targets.map .completed, beforeSends,
      .finished []⟩

/-- **The counters of a super-step.** -/
def countStep (script : StepScript) : CountedStep :=
  let dispatched := dispatch routing r.marked r.ready
  let history := r.history ++ dispatched.1
  match script.ready with
  | .threw => ⟨dispatched.2, history, none, .threw⟩
  | .paused interrupts listed => ⟨dispatched.2, history, none, .paused interrupts listed⟩
  | .finished results =>
    countSends routing script (r.ready.zip results) dispatched.2 history

end VisitRun

/-! ## Checkpoints -/

/-- A checkpoint, with the history of the run that a resume continues. -/
structure VisitCheckpoint where
  nextNodes : List String
  phase : CheckpointPhase
  step : ℕ
  metadata : Json String
  history : List VisitEvent

namespace VisitCheckpoint

/-- The step a resume enters. -/
def startStep (cp : VisitCheckpoint) : ℕ :=
  match cp.phase with
  | .after | .completed | .updated => cp.step + 1
  | .before | .nodeInterrupt => cp.step

/-- **A resumed run.** -/
def resumed (routing : FailureRouting) (cp : VisitCheckpoint) : VisitRun :=
  { failure :=
      if routing.countsVisits then some (restore {} cp.metadata) else none
    ready := cp.nextNodes
    step := cp.startStep
    hasCheckpoint := true
    history := cp.history }

end VisitCheckpoint

/-- A run that resumes nothing. -/
def VisitRun.fresh (routing : FailureRouting) (ready : List String) (step : ℕ)
    (hasCheckpoint : Bool) : VisitRun :=
  { failure := if routing.countsVisits then some {} else none
    ready := ready
    step := step
    hasCheckpoint := hasCheckpoint
    history := [] }

/-- A checkpoint that a resume enters the present step from. -/
def VisitRun.reentry (r : VisitRun) (phase : CheckpointPhase) (metadata : Json String) :
    VisitCheckpoint :=
  ⟨r.ready, phase, r.step, metadata, r.history⟩

/-- The metadata a checkpoint is saved with. -/
def KeptMetadata.store (kept : KeptMetadata) (failure : Option FailureRunState)
    (timing : CheckpointTiming) : Json String :=
  withEphemeralGuard (checkpointMetadataFor kept.reserved failure timing) kept.guard

/-! ## The runs on a thread -/

/-- The run in progress, and the checkpoints of the thread. -/
structure VisitSession where
  run : Option VisitRun := none
  saved : List VisitCheckpoint := []
  /-- The history of every super-step that was entered, to its end or to where
  it was left. -/
  trails : List (List VisitEvent) := []

/-- What can happen to a thread. -/
inductive VisitMove where
  | start (ready : List String) (step : ℕ) (hasCheckpoint : Bool)
  | resume (checkpoint : ℕ)
  /-- A gate pauses the run before its step. -/
  | gate (answers : List GateAnswer) (kept : KeptMetadata)
  | superStep (script : StepScript)
  /-- The budget of the run is exhausted. -/
  | budget (kept : KeptMetadata)
  | stop

namespace VisitSession

variable (routing : FailureRouting) (enabled : Bool) (s : VisitSession)

/-- The run ends with a checkpoint. -/
def pause (cp : VisitCheckpoint) : VisitSession := { s with run := none, saved := s.saved ++ [cp] }

/-- The checkpoint that anchors the writes of a thread's first step, if it is
due: before several ready nodes are dispatched, else before the Sends are. -/
def anchors (r : VisitRun) (script : StepScript) : List VisitCheckpoint :=
  if r.hasCheckpoint || !enabled then []
  else if r.ready.length ≠ 1 then
    [r.reentry .before ((script.kept .before).store r.marked .betweenSteps)]
  else
    match (r.countStep routing script).beforeSends with
    | some failure => [r.reentry .before ((script.kept .before).store failure .duringStep)]
    | none => []

/-- A super-step that finished. -/
def finishStep (r : VisitRun) (script : StepScript) (counted : CountedStep) : VisitSession :=
  let next : VisitRun :=
    { failure := counted.failure
      ready := script.next
      step := r.step + 1
      hasCheckpoint := r.hasCheckpoint || enabled
      history := counted.history }
  let checkpoint (phase : CheckpointPhase) : VisitCheckpoint :=
    ⟨Graph.nextNodes script.next, phase, r.step,
      (script.kept phase).store counted.failure .betweenSteps, counted.history⟩
  if enabled = false then { s with run := some next }
  else if script.interruptAfter then s.pause (checkpoint .after)
  else if script.safePoint then s.pause (checkpoint .completed)
  else { s with run := some next, saved := s.saved ++ [checkpoint .completed] }

/-- **A super-step of the run in progress.** -/
def superStep (r : VisitRun) (script : StepScript) : VisitSession :=
  if r.ready = [] ∨ r.ready = [endNode] then { s with run := none }
  else
    let counted := r.countStep routing script
    let s : VisitSession :=
      { s with saved := s.saved ++ anchors routing enabled r script
               trails := s.trails ++ [counted.history] }
    match counted.ended with
    | .threw => { s with run := none }
    | .paused interrupts listed =>
      if enabled = false then { s with run := none }
      else
        s.pause (r.reentry .nodeInterrupt (withEphemeralGuard
          (withPendingInterrupts
            (checkpointMetadataFor (script.kept .nodeInterrupt).reserved counted.failure
              .duringStep) interrupts listed)
          (script.kept .nodeInterrupt).guard))
    | .finished _ => s.finishStep enabled r script counted

/-- **One move.** -/
def step (move : VisitMove) : VisitSession :=
  match move, s.run with
  | .start ready step hasCheckpoint, _ =>
    { s with run := some (VisitRun.fresh routing ready step hasCheckpoint) }
  | .resume checkpoint, _ =>
    match s.saved[checkpoint]? with
    | some cp => { s with run := some (cp.resumed routing) }
    | none => s
  | .gate answers kept, some r =>
    if enabled = false then s
    else
      s.pause (r.reentry .before (withEphemeralGuard
        (withGateAnswers (checkpointMetadataFor kept.reserved r.failure .betweenSteps) answers)
        kept.guard))
  | .superStep script, some r => s.superStep routing enabled r script
  | .budget kept, some r =>
    if enabled = false then { s with run := none }
    else s.pause ⟨r.ready, .completed, r.step, kept.store r.failure .betweenSteps, r.history⟩
  | .stop, _ => { s with run := none }
  | _, none => s

/-- Moves, one after the other. -/
def runMoves (moves : List VisitMove) : VisitSession :=
  moves.foldl (fun s move => s.step routing enabled move) s

end VisitSession

/-! ## A step follows its history -/

/-- The counters of a run, if its graph has limits, are those of its history,
along which the limits hold. -/
structure Follows (routing : FailureRouting) (visits : Option (SortedMap String ℤ))
    (history : List VisitEvent) : Prop where
  present : visits.isSome = routing.countsVisits
  counts : ∀ v, visits = some v → routing.Counts v history
  bounded : routing.Bounded history

section Step

variable {routing : FailureRouting} {history : List VisitEvent}

/-- A graph that keeps no counters has no limits. -/
theorem Follows.limit_eq_none (hlinked : routing.Linked) (h : Follows routing none history)
    (node : String) : routing.limit node = none := by
  rw [← not_isSome_iff_eq_none]
  intro hs
  have := h.present.trans (hlinked.countsVisits node hs)
  cases this

variable (hlinked : routing.Linked)
include hlinked

variable {failure : Option FailureRunState}

theorem follows_takeActivation (h : Follows routing (failure.map FailureRunState.visits) history)
    (node : String) :
    let taken := takeActivation routing failure node
    Follows routing (taken.2.map FailureRunState.visits)
        (history ++ [.activated node taken.1])
      ∧ taken.2.map stepStart = failure.map stepStart := by
  cases failure with
  | none =>
    refine ⟨⟨h.present, nofun, fun node' limit hl => ?_⟩, rfl⟩
    rw [h.limit_eq_none hlinked node'] at hl
    cases hl
  | some s =>
    obtain ⟨hcnts, hexecutes⟩ := (h.counts s.visits rfl).activate node
    refine ⟨⟨h.present, fun v hv => ?_, h.bounded.activated hexecutes⟩, ?_⟩
    · obtain rfl := Option.some.inj hv
      exact hcnts
    · exact congrArg some (s.stepStart_activate routing node)

/-- **Dispatching a batch** extends the history by its activations. -/
theorem follows_dispatch (nodes : List String)
    (h : Follows routing (failure.map FailureRunState.visits) history) :
    let dispatched := dispatch routing failure nodes
    Follows routing (dispatched.2.map FailureRunState.visits) (history ++ dispatched.1)
      ∧ dispatched.2.map stepStart = failure.map stepStart := by
  induction nodes generalizing failure history with
  | nil => exact ⟨by rwa [show (dispatch routing failure []).1 = [] from rfl, append_nil], rfl⟩
  | cons node nodes ih =>
    obtain ⟨hf, hs⟩ := follows_takeActivation hlinked h node
    obtain ⟨hr, hs'⟩ := ih hf
    refine ⟨?_, hs'.trans hs⟩
    rw [append_assoc] at hr
    exact hr

omit hlinked in
theorem stepStart_complete (failure : Option FailureRunState) (targets : List String) :
    (complete routing failure targets).map stepStart
      = failure.map FailureRunState.stepStart := by
  have hf : ∀ (targets : List String) (s : FailureRunState),
      (targets.foldl (fun s target => s.targetCompleted routing target) s).stepStart
        = s.stepStart := by
    intro targets
    induction targets with
    | nil => exact fun _ => rfl
    | cons target targets ih => exact fun s => (ih _).trans (s.stepStart_targetCompleted routing _)
  unfold complete
  rw [Option.map_map]
  exact map_congr fun s _ => hf targets s

/-- The counts of a step follow what happened in it. -/
theorem follows_complete (haccepted : routing.LimitsAccepted) (targets : List String)
    (h : Follows routing (failure.map FailureRunState.visits) history) :
    Follows routing ((complete routing failure targets).map FailureRunState.visits)
      (history ++ targets.map .completed) := by
  induction targets generalizing failure history with
  | nil =>
    have hn : complete routing failure [] = failure := by
      cases failure with
      | none | some s => rfl
    rwa [hn, map_nil, append_nil]
  | cons target targets ih =>
    have hf : Follows routing
        ((failure.map fun s => s.targetCompleted routing target).map FailureRunState.visits)
        (history ++ [.completed target]) := by
      refine ⟨?_, fun v hv => ?_, h.bounded.completed target haccepted⟩
      · rw [isSome_map, isSome_map, ← h.present, isSome_map]
      · obtain ⟨s, hs, rfl⟩ := map_eq_some_iff.mp hv
        obtain ⟨s', rfl, rfl⟩ := map_eq_some_iff.mp hs
        exact (h.counts s'.visits rfl).targetCompleted hlinked target
    have hco : complete routing failure (target :: targets)
        = complete routing (failure.map fun s => s.targetCompleted routing target) targets := by
      cases failure with
      | none | some s => rfl
    have hr := ih hf
    rw [append_assoc] at hr
    rw [hco]
    exact hr

theorem follows_countSends (haccepted : routing.LimitsAccepted) (script : StepScript)
    (ran : List (String × ReadyResult))
    (h : Follows routing (failure.map FailureRunState.visits) history) :
    let counted := VisitRun.countSends routing script ran failure history
    Follows routing counted.visits counted.history
      ∧ counted.failure.map stepStart = failure.map stepStart
      ∧ ∀ f, counted.beforeSends = some f → f = failure := by
  obtain ⟨hsn, hs⟩ := follows_dispatch hlinked (ran.flatMap fun p => p.2.sends) h
  have hb : ∀ f, (if ran.flatMap (fun p => p.2.sends) = [] then none else some failure)
      = some f → f = failure := by
    intro f hf
    split at hf
    · cases hf
    · exact (Option.some.inj hf).symm
  unfold VisitRun.countSends
  dsimp only
  split
  · exact ⟨hsn, hs, hb⟩
  · exact ⟨hsn, hs, hb⟩
  · exact ⟨follows_complete hlinked haccepted _ hsn,
      (stepStart_complete _ _).trans hs, hb⟩

/-- **A super-step's counters** are those of its history, wherever it ends; the
ones from before the step are still known. -/
theorem follows_countStep (haccepted : routing.LimitsAccepted) {r : VisitRun}
    (h : Follows routing r.visits r.history) (script : StepScript) :
    let counted := r.countStep routing script
    Follows routing counted.visits counted.history
      ∧ counted.failure.map stepStart = r.visits
      ∧ ∀ f, counted.beforeSends = some f → f.map stepStart = r.visits := by
  have hmk : r.marked.map FailureRunState.visits = r.visits := by
    unfold VisitRun.marked VisitRun.visits
    rw [Option.map_map]
    rfl
  have hmk' : r.marked.map stepStart = r.visits := by
    unfold VisitRun.marked VisitRun.visits
    rw [Option.map_map]
    rfl
  rw [← hmk] at h
  obtain ⟨hr, hs⟩ := follows_dispatch hlinked r.ready h
  rw [hmk'] at hs
  unfold VisitRun.countStep
  split
  · exact ⟨hr, hs, nofun⟩
  · exact ⟨hr, hs, nofun⟩
  rename_i results _
  obtain ⟨hsnd, hs', hb⟩ :=
    follows_countSends hlinked haccepted script (r.ready.zip results) hr
  exact ⟨hsnd, hs'.trans hs, fun f hf => hb f hf ▸ hs⟩

omit hlinked in
/-- **What a step does with the counters** depends on the counters it is entered
with, and not on how the run got there. -/
theorem countStep_congr {r r' : VisitRun} (hvs : r.visits = r'.visits)
    (hr : r.ready = r'.ready) (hhistory : r.history = r'.history) (script : StepScript) :
    r.countStep routing script = r'.countStep routing script := by
  have hmk : ∀ r : VisitRun, r.marked = r.visits.map fun v => ⟨v, v⟩ := by
    intro r
    unfold VisitRun.marked VisitRun.visits
    rw [Option.map_map]
    rfl
  unfold VisitRun.countStep
  rw [hmk, hmk, hvs, hr, hhistory]

end Step

/-! ## Resuming a checkpoint -/

/-- The counters that a checkpoint keeps. -/
def CheckpointTiming.counters (timing : CheckpointTiming) (s : FailureRunState) :
    SortedMap String ℤ :=
  match timing with
  | .duringStep => s.stepStart
  | .betweenSteps => s.visits

/-- The counters in the metadata are those of a run that does (or does not) keep
counters. -/
def KeepsVisits (metadata : Json String) (failure : Option FailureRunState)
    (timing : CheckpointTiming) : Prop :=
  ∀ s, failure = some s →
    nodeVisits metadata = answerOf (encode (timing.counters s))

theorem keepsVisits_checkpointMetadataFor (kept : ReservedMetadata)
    (failure : Option FailureRunState) (timing : CheckpointTiming) :
    KeepsVisits (checkpointMetadataFor kept failure timing) failure timing := by
  rintro s rfl
  rw [nodeVisits_checkpointMetadataFor]
  cases timing with
  | duringStep | betweenSteps => rfl

variable {timing : CheckpointTiming} {failure : Option FailureRunState} {metadata : Json String}

theorem KeepsVisits.withEphemeralGuard (h : KeepsVisits metadata failure timing)
    (guard : Json String) :
    KeepsVisits (withEphemeralGuard metadata guard) failure timing := fun s hs =>
  (nodeVisits_withEphemeralGuard metadata guard).trans (h s hs)

theorem KeepsVisits.withGateAnswers (h : KeepsVisits metadata failure timing)
    (answers : List GateAnswer) :
    KeepsVisits (withGateAnswers metadata answers) failure timing := fun s hs =>
  (nodeVisits_withGateAnswers metadata answers).trans (h s hs)

theorem KeepsVisits.withPendingInterrupts (h : KeepsVisits metadata failure timing)
    (interrupts : List PendingInterrupt) (listed : Bool) :
    KeepsVisits (withPendingInterrupts metadata interrupts listed) failure timing := fun s hs =>
  (nodeVisits_withPendingInterrupts metadata interrupts listed).trans (h s hs)

/-- **A resumed run has the counters of its checkpoint.** -/
theorem visits_resumed {routing : FailureRouting} (haccepted : routing.LimitsAccepted)
    {cp : VisitCheckpoint} (hkp : KeepsVisits cp.metadata failure timing)
    (h : Follows routing (failure.map timing.counters) cp.history) :
    (cp.resumed routing).visits = failure.map timing.counters := by
  have hp := h.present
  unfold VisitRun.visits VisitCheckpoint.resumed
  cases failure with
  | none =>
    rw [if_neg (by rw [← hp]; exact Bool.false_ne_true)]
    rfl
  | some s =>
    rw [if_pos (show routing.countsVisits = true from hp.symm)]
    exact congrArg some (restore_encode {}
      ((h.counts _ rfl).inRange h.bounded haccepted) (hkp s rfl))

/-! ## What a move saves -/

/-- A checkpoint that a move of a run saved, and the counters a resume of it
starts with. -/
inductive SavedBy (routing : FailureRouting) (r : VisitRun) (move : VisitMove)
    (cp : VisitCheckpoint) : Prop where
  /-- Before a step, or while it runs: the resume enters the step again. -/
  | entered (phase : cp.phase = .before ∨ cp.phase = .nodeInterrupt)
      (nextNodes : cp.nextNodes = r.ready) (step : cp.step = r.step)
      (history : cp.history = r.history) (visits : (cp.resumed routing).visits = r.visits)
  /-- After a step. -/
  | finished (script : StepScript) (move : move = .superStep script)
      (phase : cp.phase = .after ∨ cp.phase = .completed)
      (history : cp.history = (r.countStep routing script).history)
      (visits : (cp.resumed routing).visits = (r.countStep routing script).visits)
  /-- By a run without budget. -/
  | budget (kept : KeptMetadata) (move : move = .budget kept) (phase : cp.phase = .completed)
      (nextNodes : cp.nextNodes = r.ready) (history : cp.history = r.history)
      (visits : (cp.resumed routing).visits = r.visits)

section Saved

variable {routing : FailureRouting} (hlinked : routing.Linked)
  (haccepted : routing.LimitsAccepted) {r : VisitRun} (h : Follows routing r.visits r.history)
include hlinked haccepted h

omit hlinked in
theorem savedBy_reentry {move : VisitMove} {phase : CheckpointPhase}
    (hph : phase = .before ∨ phase = .nodeInterrupt) {metadata : Json String}
    {failure : Option FailureRunState} {timing : CheckpointTiming}
    (hkp : KeepsVisits metadata failure timing)
    (hvs : failure.map timing.counters = r.visits) :
    SavedBy routing r move (r.reentry phase metadata) := by
  rw [← hvs] at h
  have hrsm := visits_resumed haccepted (show KeepsVisits (r.reentry phase metadata).metadata
    failure timing from hkp) h
  exact .entered hph rfl rfl rfl (hrsm.trans hvs)

variable (enabled : Bool)

theorem savedBy_anchors (script : StepScript) {cp : VisitCheckpoint}
    (hcp : cp ∈ VisitSession.anchors routing enabled r script) :
    SavedBy routing r (.superStep script) cp := by
  unfold VisitSession.anchors at hcp
  split at hcp
  · cases hcp
  split at hcp
  · obtain rfl := mem_singleton.mp hcp
    refine savedBy_reentry haccepted h (.inl rfl)
      ((keepsVisits_checkpointMetadataFor _ _ _).withEphemeralGuard _) ?_
    unfold VisitRun.marked VisitRun.visits
    rw [Option.map_map]
    rfl
  · split at hcp
    · rename_i failure hb
      obtain rfl := mem_singleton.mp hcp
      exact savedBy_reentry haccepted h (.inl rfl)
        ((keepsVisits_checkpointMetadataFor _ _ _).withEphemeralGuard _)
        ((follows_countStep hlinked haccepted h script).2.2 failure hb)
    · cases hcp

/-- The checkpoint after a step. -/
theorem savedBy_finished (script : StepScript) {phase : CheckpointPhase}
    (hph : phase = .after ∨ phase = .completed) (nextNodes : List String) (step : ℕ)
    (kept : KeptMetadata) :
    let counted := r.countStep routing script
    SavedBy routing r (.superStep script)
      ⟨nextNodes, phase, step, kept.store counted.failure .betweenSteps, counted.history⟩ := by
  intro counted
  have hrsm := visits_resumed haccepted
    (show KeepsVisits (VisitCheckpoint.mk nextNodes phase step
        (kept.store counted.failure .betweenSteps) counted.history).metadata counted.failure
          .betweenSteps from
      (keepsVisits_checkpointMetadataFor _ _ _).withEphemeralGuard _)
    (follows_countStep hlinked haccepted h script).1
  exact .finished script rfl hph rfl hrsm

theorem savedBy_finishStep (s : VisitSession) (script : StepScript) :
    ∃ new, (s.finishStep enabled r script (r.countStep routing script)).saved = s.saved ++ new
      ∧ ∀ cp ∈ new, SavedBy routing r (.superStep script) cp := by
  have hcheckpoint := fun phase hph => @savedBy_finished _ hlinked haccepted _ h script
    phase hph (Graph.nextNodes script.next) r.step (script.kept phase)
  unfold VisitSession.finishStep
  split
  · exact ⟨[], (append_nil _).symm, nofun⟩
  split
  · exact ⟨_, rfl, fun cp hcp => mem_singleton.mp hcp ▸ hcheckpoint .after (.inl rfl)⟩
  split <;> exact ⟨_, rfl, fun cp hcp => mem_singleton.mp hcp ▸ hcheckpoint .completed (.inr rfl)⟩

/-- The checkpoints of a step hold its counts. -/
theorem savedBy_superStep (s : VisitSession) (script : StepScript) :
    ∃ new, (s.superStep routing enabled r script).saved = s.saved ++ new
      ∧ ∀ cp ∈ new, SavedBy routing r (.superStep script) cp := by
  have hanchors := fun cp => @savedBy_anchors _ hlinked haccepted _ h enabled script cp
  unfold VisitSession.superStep
  split
  · exact ⟨[], (append_nil _).symm, nofun⟩
  dsimp only
  split
  · exact ⟨_, rfl, hanchors⟩
  · split
    · exact ⟨_, rfl, hanchors⟩
    refine ⟨_, append_assoc _ _ _, fun cp hcp => ?_⟩
    obtain hcp | hcp := mem_append.mp hcp
    · exact hanchors cp hcp
    obtain rfl := mem_singleton.mp hcp
    exact savedBy_reentry haccepted h (.inr rfl)
      (((keepsVisits_checkpointMetadataFor _ _ _).withPendingInterrupts _ _).withEphemeralGuard
        _) (follows_countStep hlinked haccepted h script).2.1
  · obtain ⟨new, hsv, hn⟩ := savedBy_finishStep hlinked haccepted h enabled
      { s with saved := s.saved ++ VisitSession.anchors routing enabled r script
               trails := s.trails ++ [(r.countStep routing script).history] } script
    refine ⟨_, hsv.trans (append_assoc _ _ _), fun cp hcp => ?_⟩
    obtain hcp | hcp := mem_append.mp hcp
    · exact hanchors cp hcp
    · exact hn cp hcp

/-- **What a move of a run saves.** -/
theorem savedBy_step {s : VisitSession} (hr : s.run = some r) (move : VisitMove) :
    ∃ new, (s.step routing enabled move).saved = s.saved ++ new
      ∧ ∀ cp ∈ new, SavedBy routing r move cp := by
  have hn : ∃ new : List VisitCheckpoint, s.saved = s.saved ++ new
      ∧ ∀ cp ∈ new, SavedBy routing r move cp := ⟨[], (append_nil _).symm, nofun⟩
  cases move with unfold VisitSession.step
  | start ready step hasCheckpoint | stop => exact hn
  | resume checkpoint =>
    dsimp only
    split <;> exact hn
  | gate answers kept =>
    rw [hr]
    dsimp only
    split
    · exact hn
    refine ⟨_, rfl, fun cp hcp => ?_⟩
    obtain rfl := mem_singleton.mp hcp
    exact savedBy_reentry haccepted h (.inl rfl)
      (((keepsVisits_checkpointMetadataFor _ _ _).withGateAnswers _).withEphemeralGuard _) rfl
  | superStep script =>
    rw [hr]
    exact savedBy_superStep hlinked haccepted h enabled s script
  | budget kept =>
    rw [hr]
    dsimp only
    split
    · exact hn
    refine ⟨_, rfl, fun cp hcp => ?_⟩
    obtain rfl := mem_singleton.mp hcp
    have hrsm := visits_resumed haccepted
      (show KeepsVisits (VisitCheckpoint.mk r.ready .completed r.step
          (kept.store r.failure .betweenSteps) r.history).metadata r.failure .betweenSteps from
        (keepsVisits_checkpointMetadataFor _ _ _).withEphemeralGuard _) h
    exact .budget kept rfl rfl rfl rfl hrsm

end Saved

/-! ## Whole runs -/

/-- The counters of the run in progress and of every checkpoint are those of
their histories, and the limits hold along every history. -/
structure VisitSession.Sound (routing : FailureRouting) (s : VisitSession) : Prop where
  run : ∀ r, s.run = some r → Follows routing r.visits r.history
  saved : ∀ cp ∈ s.saved, Follows routing (cp.resumed routing).visits cp.history
  trails : ∀ trail ∈ s.trails, routing.Bounded trail

section Sound

variable {routing : FailureRouting} (hlinked : routing.Linked)
  (haccepted : routing.LimitsAccepted)
include hlinked haccepted

omit hlinked in
theorem follows_fresh (ready : List String) (step : ℕ) (hasCheckpoint : Bool) :
    Follows routing (VisitRun.fresh routing ready step hasCheckpoint).visits [] := by
  unfold VisitRun.fresh VisitRun.visits
  refine ⟨?_, fun v hv => ?_, bounded_nil haccepted⟩
  · cases routing.countsVisits with
    | true | false => rfl
  split at hv
  · obtain rfl := Option.some.inj hv
    exact counts_nil
  · cases hv

variable {r : VisitRun}

theorem SavedBy.follows (h : Follows routing r.visits r.history) {move : VisitMove}
    {cp : VisitCheckpoint} (hcp : SavedBy routing r move cp) :
    Follows routing (cp.resumed routing).visits cp.history := by
  cases hcp with
  | entered phase nextNodes step history visits
  | budget kept move phase nextNodes history visits =>
    rw [history, visits]
    exact h
  | finished script move phase history visits =>
    rw [history, visits]
    exact (follows_countStep hlinked haccepted h script).1

variable {s : VisitSession}

/-- **One super-step** leaves a run and histories that are sound. -/
theorem follows_superStep (h : Follows routing r.visits r.history) (enabled : Bool)
    (ht : ∀ trail ∈ s.trails, routing.Bounded trail) (script : StepScript) :
    (∀ r', (s.superStep routing enabled r script).run = some r' →
        Follows routing r'.visits r'.history)
      ∧ ∀ trail ∈ (s.superStep routing enabled r script).trails, routing.Bounded trail := by
  have hc := (follows_countStep hlinked haccepted h script).1
  have ht' : ∀ trail ∈ s.trails ++ [(r.countStep routing script).history],
      routing.Bounded trail := by
    intro trail htr
    obtain htr | htr := mem_append.mp htr
    · exact ht trail htr
    · obtain rfl := mem_singleton.mp htr
      exact hc.bounded
  unfold VisitSession.superStep
  split
  · exact ⟨nofun, ht⟩
  dsimp only
  split
  · exact ⟨nofun, ht'⟩
  · split <;> exact ⟨nofun, ht'⟩
  unfold VisitSession.finishStep
  split
  · exact ⟨fun r' hr' => Option.some.inj hr' ▸ hc, ht'⟩
  split
  · exact ⟨nofun, ht'⟩
  split
  · exact ⟨nofun, ht'⟩
  · exact ⟨fun r' hr' => Option.some.inj hr' ▸ hc, ht'⟩

/-- What a move of a run saves is sound. -/
theorem VisitSession.Sound.saved_step (h : s.Sound routing) (enabled : Bool) (hr : s.run = some r)
    (move : VisitMove) :
    ∀ cp ∈ (s.step routing enabled move).saved,
      Follows routing (cp.resumed routing).visits cp.history := by
  intro cp hcp
  obtain ⟨new, heq, hn⟩ := savedBy_step hlinked haccepted (h.run r hr) enabled hr move
  rw [heq] at hcp
  obtain hcp | hcp := mem_append.mp hcp
  · exact h.saved cp hcp
  · exact (hn cp hcp).follows hlinked haccepted (h.run r hr)

/-- **One move keeps a session sound.** -/
theorem VisitSession.Sound.step (h : s.Sound routing) (enabled : Bool) (move : VisitMove) :
    (s.step routing enabled move).Sound routing := by
  cases move with
  | start ready step hasCheckpoint =>
    exact ⟨fun r hr => Option.some.inj hr ▸ follows_fresh haccepted ready step hasCheckpoint,
      h.saved, h.trails⟩
  | resume checkpoint =>
    unfold VisitSession.step
    dsimp only
    split
    · rename_i cp hcp
      exact ⟨fun r hr => Option.some.inj hr ▸ h.saved cp (mem_of_getElem? hcp), h.saved, h.trails⟩
    · exact h
  | stop => exact ⟨nofun, h.saved, h.trails⟩
  | gate answers kept =>
    cases hrun : s.run with
    | none =>
      unfold VisitSession.step
      rw [hrun]
      exact h
    | some r =>
      have hsv := h.saved_step hlinked haccepted enabled hrun (.gate answers kept)
      unfold VisitSession.step at hsv ⊢
      rw [hrun] at hsv ⊢
      dsimp only at hsv ⊢
      split_ifs with hen
      · exact h
      · rw [if_neg hen] at hsv
        exact ⟨nofun, hsv, h.trails⟩
  | budget kept =>
    cases hrun : s.run with
    | none =>
      unfold VisitSession.step
      rw [hrun]
      exact h
    | some r =>
      have hsv := h.saved_step hlinked haccepted enabled hrun (.budget kept)
      unfold VisitSession.step at hsv ⊢
      rw [hrun] at hsv ⊢
      dsimp only at hsv ⊢
      split_ifs with hen
      · exact ⟨nofun, h.saved, h.trails⟩
      · rw [if_neg hen] at hsv
        exact ⟨nofun, hsv, h.trails⟩
  | superStep script =>
    cases hrun : s.run with
    | none =>
      unfold VisitSession.step
      rw [hrun]
      exact h
    | some r =>
      have hsv := h.saved_step hlinked haccepted enabled hrun (.superStep script)
      obtain ⟨hrun', ht⟩ :=
        follows_superStep hlinked haccepted (h.run r hrun) enabled h.trails script
      unfold VisitSession.step at hsv ⊢
      rw [hrun] at hsv ⊢
      exact ⟨hrun', hsv, ht⟩

/-- **Every session is sound.** -/
theorem VisitSession.sound_runMoves (enabled : Bool) (moves : List VisitMove) :
    (VisitSession.runMoves routing enabled {} moves).Sound routing := by
  have hf : ∀ (moves : List VisitMove) (s : VisitSession), s.Sound routing →
      (s.runMoves routing enabled moves).Sound routing := by
    intro moves
    induction moves with
    | nil => exact fun s h => h
    | cons move moves ih => exact fun s h => ih _ (h.step hlinked haccepted enabled move)
  exact hf moves {} ⟨nofun, fun _ hcp => absurd hcp not_mem_nil,
    fun _ ht => absurd ht not_mem_nil⟩

end Sound

/-! ## Checkpoints stay -/

section Saved

variable (routing : FailureRouting) (enabled : Bool) (s : VisitSession)

theorem saved_prefix_superStep (r : VisitRun) (script : StepScript) :
    s.saved <+: (s.superStep routing enabled r script).saved := by
  unfold VisitSession.superStep
  split
  · exact prefix_rfl
  dsimp only
  split
  · exact prefix_append _ _
  · split
    · exact prefix_append _ _
    · exact (prefix_append _ _).trans (prefix_append _ _)
  · refine (prefix_append s.saved (VisitSession.anchors routing enabled r script)).trans ?_
    unfold VisitSession.finishStep
    split
    · exact prefix_rfl
    split
    · exact prefix_append _ _
    split <;> exact prefix_append _ _

/-- A checkpoint of a thread stays where it is. -/
theorem saved_prefix_step (move : VisitMove) : s.saved <+: (s.step routing enabled move).saved := by
  unfold VisitSession.step
  split
  · exact prefix_rfl
  · split <;> exact prefix_rfl
  · split
    · exact prefix_rfl
    · exact prefix_append _ _
  · exact saved_prefix_superStep routing enabled s _ _
  · split
    · exact prefix_rfl
    · exact prefix_append _ _
  · exact prefix_rfl
  · exact prefix_rfl

theorem run_resume {s : VisitSession} {id : ℕ} {cp : VisitCheckpoint} (h : s.saved[id]? = some cp) :
    (s.step routing enabled (.resume id)).run = some (cp.resumed routing) := by
  unfold VisitSession.step
  dsimp only
  rw [h]

theorem saved_prefix_runMoves (moves : List VisitMove) :
    s.saved <+: (s.runMoves routing enabled moves).saved := by
  induction moves generalizing s with
  | nil => exact prefix_rfl
  | cons move moves ih => exact (saved_prefix_step routing enabled s move).trans (ih _)

end Saved

/-! ## Limits hold across interrupts -/

/-- The policies of a graph, as the compiler accepted them. -/
def CompiledPolicies (policies : SortedMap String NodeRetryPolicySpec) : Prop :=
  ∀ node policy, policies.find? node = some policy →
    ∃ f document pointer, (parseNodeRetryPolicy f document pointer).Accepts policy

/-- A limit that the compiler accepts is in its range. -/
theorem maxVisits_of_accepts {f : FloatOps} {document : Document} {pointer : String}
    {policy : NodeRetryPolicySpec} (h : (parseNodeRetryPolicy f document pointer).Accepts policy)
    {limit : ℤ} (hl : policy.maxVisits = some limit) : 1 ≤ limit ∧ limit ≤ 100 := by
  unfold parseNodeRetryPolicy at h
  simp only [bind_accepts, pure_accepts] at h
  obtain ⟨_, -, _, -, _, -, _, -, maxVisits, hrd, _, -, _, -, _, -, _, -, rfl⟩ := h
  obtain ⟨-, hn⟩ | ⟨v, -, hrd⟩ := optionalField_accepts hrd
  · rw [hn] at hl
    cases hl
  unfold boundedInteger at hrd
  split at hrd
  · exact absurd hrd not_report_bind
  split_ifs at hrd with hrg
  · have hv := pure_accepts.mp hrd
    obtain rfl := Option.some.inj (hv.trans hl)
    exact hrg
  · exact absurd hrd not_report_bind

theorem limitsAccepted_build {policies : SortedMap String NodeRetryPolicySpec}
    (h : CompiledPolicies policies) (edges : List FailureEdge) (exits : SortedMap String String) :
    (build policies edges exits).LimitsAccepted := by
  intro node limit hl
  rw [limit_build, bind_eq_some_iff] at hl
  obtain ⟨policy, hpol, hl⟩ := hl
  obtain ⟨f, document, pointer, ha⟩ := h node policy hpol
  exact maxVisits_of_accepts ha hl

/-- **Visit limits hold across interrupts.** On a thread with any runs, pauses
and resumes, a node with a limit executes no more often than its limit between
two completions of its failure target, or from the start. And a checkpoint that
a pause saves, resumed at any time after, leads to the counters of the run that
paused: before or during a step to the counters that run enters it with, so that
every way to execute the step ends with the counters it would have ended with
there; after a step to the counters of its end. -/
theorem visitLimits_across_interrupts {policies : SortedMap String NodeRetryPolicySpec}
    (hpol : CompiledPolicies policies) (edges : List FailureEdge)
    (exits : SortedMap String String) (enabled : Bool) (moves : List VisitMove) :
    let routing := build policies edges exits
    let s := VisitSession.runMoves routing enabled {} moves
    (∀ node policy limit, policies.find? node = some policy → policy.maxVisits = some limit →
      ∀ trail ∈ s.trails, ∀ before window behind, trail = before ++ window ++ behind →
        (∀ target, routing.target node = some target → .completed target ∉ window) →
        (window.count (.activated node true) : ℤ) ≤ limit)
    ∧ ∀ r, s.run = some r → ∀ move id cp, s.saved.length ≤ id →
        (s.step routing enabled move).saved[id]? = some cp →
        ∀ more, ∃ resumed,
          (((s.step routing enabled move).runMoves routing enabled more).step routing enabled
            (.resume id)).run = some resumed
          ∧ (cp.phase = .before ∨ cp.phase = .nodeInterrupt →
              resumed.ready = r.ready ∧ resumed.step = r.step ∧ ∀ script,
                (resumed.countStep routing script).visits = (r.countStep routing script).visits)
          ∧ (cp.phase = .after → ∃ script, move = .superStep script
              ∧ resumed.visits = (r.countStep routing script).visits) := by
  intro routing s
  have hlinked : routing.Linked := linked_build policies edges exits
  have haccepted : routing.LimitsAccepted := limitsAccepted_build hpol edges exits
  have hsd : s.Sound routing := VisitSession.sound_runMoves hlinked haccepted enabled moves
  refine ⟨fun node policy limit hpolicy hl trail ht before window behind ht' hw =>
    (hsd.trails trail ht).withinLimits node limit ?_ before window behind ht' hw,
    fun r hr move id cp hid hcp more => ?_⟩
  · rw [limit_build, hpolicy]
    exact hl
  · have hrun := hsd.run r hr
    obtain ⟨new, hsv, hn⟩ := savedBy_step hlinked haccepted hrun enabled hr move
    have hm : cp ∈ new := by
      rw [hsv, getElem?_append_right hid] at hcp
      exact mem_of_getElem? hcp
    have hlt : ((s.step routing enabled move).runMoves routing enabled more).saved[id]?
        = some cp := by
      obtain ⟨later, hp⟩ :=
        saved_prefix_runMoves routing enabled (s.step routing enabled move) more
      rw [← hp, List.getElem?_append_left (List.getElem?_eq_some_iff.mp hcp).1]
      exact hcp
    refine ⟨cp.resumed routing, ?_, ?_⟩
    · exact run_resume routing enabled hlt
    · cases hn cp hm with
      | entered phase nextNodes step history visits =>
        refine ⟨fun _ => ⟨nextNodes, ?_, fun script => ?_⟩, fun haft => ?_⟩
        · unfold VisitCheckpoint.resumed VisitCheckpoint.startStep
          obtain hph | hph := phase
          all_goals
            rw [hph]
            exact step
        · rw [countStep_congr visits nextNodes history]
        · rw [haft] at phase
          obtain hph | hph := phase <;> cases hph
      | finished script move phase history visits =>
        refine ⟨fun hb => ?_, fun _ => ⟨script, move, visits⟩⟩
        obtain hph | hph := phase
        all_goals
          rw [hph] at hb
          obtain h | h := hb <;> cases h
      | budget kept move phase nextNodes history visits =>
        rw [phase]
        refine ⟨fun hb => ?_, nofun⟩
        obtain h | h := hb <;> cases h

/-- One activation of `test`, then one that is refused, with the run paused and
resumed between them. -/
theorem visitLimits_across_interrupts_test :
    let routing := build ⟨[("test", { maxVisits := some 1 })], by decide⟩
      [⟨"test", "ask", none⟩] ∅
    ∀ trail ∈ (VisitSession.runMoves routing true {}
        [.start ["test"] 0 false,
          .superStep
            { ready := .finished [⟨true, []⟩]
              sends := .threw
              next := ["test"]
              interruptAfter := true },
          .resume 0,
          .superStep { ready := .threw, sends := .threw, next := [] }]).trails,
      .completed "ask" ∉ trail → (trail.count (.activated "test" true) : ℤ) ≤ 1 := by
  intro routing trail htr hc
  have hpol : CompiledPolicies ⟨[("test", { maxVisits := some 1 })], by decide⟩ := by
    intro node policy hpolicy
    obtain ⟨-, rfl⟩ : node = "test" ∧ policy = { maxVisits := some 1 } := by
      have := (SortedMap.mem_entries_iff _ _ _).mpr hpolicy
      simpa using this
    exact ⟨⟨id, fun n => n.toUInt64, id, fun _ => rfl, rfl⟩, .obj [("max_visits", .uint 1)], "",
      rfl, rfl⟩
  refine (visitLimits_across_interrupts hpol [⟨"test", "ask", none⟩] ∅ true _).1 "test" _ 1
    rfl rfl trail htr [] trail [] (append_nil trail).symm fun target ht => ?_
  obtain rfl : "ask" = target := Option.some.inj ht
  exact hc

end NeoGraph
