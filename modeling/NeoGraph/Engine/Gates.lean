import NeoGraph.Executor.Attempts
import NeoGraph.Lib.JsonObject

/-!
# Gates

A node with an interrupt before it is a gate: a run that reaches a
super-step in which it is ready pauses, with a checkpoint, before the step
executes. A resume of that checkpoint gives an answer to the gate it held.
The answers of the other gates of the step come with the checkpoint, in its
metadata, so that a step with several gates pauses once for each and
executes when all are answered.

An answer goes to one invocation, which is told by the step and its task id.
-/

namespace NeoGraph

open Executor Json

/-! ## Answers in the metadata of a checkpoint -/

/-- The answer to a gate: the task id of its node, and the value, if the
resume gave one. -/
structure GateAnswer where
  id : String
  value : Option (Json String)

/-- The reserved member of the metadata. -/
def metadataNamespace : String := "_neograph"

/-- What the engine and the executor keep in the metadata of a checkpoint. -/
structure ReservedMetadata where
  graphInvocation : Option (Json String) := none
  journalVersion : Option (Json String) := none
  journal : Option (Json String) := none
  parentCallId : Option (Json String) := none
  nodeVisits : Option (Json String) := none
  barrierStalled : Option (Json String) := none
  failureExit : Option (Json String) := none

/-- The members of the reserved metadata. -/
def ReservedMetadata.fields (r : ReservedMetadata) : List (String × Option (Json String)) :=
  [("subgraph_invocation_id", r.graphInvocation),
    ("subgraph_write_journal_version", r.journalVersion),
    ("subgraph_write_journal", r.journal),
    ("subgraph_parent_call_id", r.parentCallId),
    ("node_visits", r.nodeVisits),
    ("barrier_stalled", r.barrierStalled),
    ("failure_exit", r.failureExit)]

/-- The metadata of a checkpoint between steps; null when there is nothing to
keep. -/
def checkpointMetadata (r : ReservedMetadata) : Json String :=
  if present r.fields = [] then .null
  else .obj [(metadataNamespace, .obj (present r.fields))]

/-- An answer as it is kept. -/
def GateAnswer.toJson (answer : GateAnswer) : Json String :=
  .obj (("id", .str answer.id) :: (answer.value.map fun value => ("value", value)).toList)

/-- The answers so far are put into the metadata. -/
def withGateAnswers (metadata : Json String) (answers : List GateAnswer) : Json String :=
  if answers = [] then metadata
  else
    let reserved := ((metadata.get? metadataNamespace).map members).getD []
    .obj (put metadata.members metadataNamespace
      (.obj (put reserved "answered_gates" (.arr (answers.map GateAnswer.toJson)))))

/-- One answer is read back. -/
def readGateAnswer (entry : Json String) : Except Exn GateAnswer :=
  match entry with
  | .obj _ =>
    match entry.get? "id" with
    | some (.str id) => .ok ⟨id, entry.get? "value"⟩
    | _ => .error (.runtimeError "Before checkpoint answered gates are malformed")
  | _ => .error (.runtimeError "Before checkpoint answered gates are malformed")

/-- The answers that the metadata of a checkpoint carries. -/
def recordedGateAnswers (metadata : Json String) : Except Exn (List GateAnswer) :=
  match metadata.get? metadataNamespace with
  | none => .ok []
  | some reserved =>
    match reserved.get? "answered_gates" with
    | none => .ok []
    | some (.arr list) => list.mapM readGateAnswer
    | some _ => .error (.runtimeError "Before checkpoint answered gates are malformed")

/-! ## Runs -/

/-- What a run knows about answers. -/
structure GateRun where
  isResume : Bool := false
  startStep : ℕ := 0
  /-- The resumed checkpoint held a gate or a node's interrupt. -/
  resumeAnswersGate : Bool := false
  /-- The gates of the step that are answered. -/
  gateAnswers : List GateAnswer := []
  answers : SortedMap String (Option (Json String)) := ∅
  /-- The node's interrupt that is answered. -/
  answeredInterrupt : String := ""
  answeredStep : Option ℕ := none

/-- What a resume is asked to do. -/
structure ResumeRequest where
  /-- Null for a resume without a value. -/
  value : Json String
  /-- The interrupt to answer; empty when none is named. -/
  requested : String := ""
  checkpointId : String
  /-- The pending interrupts of the checkpoint, and the results it replays. -/
  pending : Except Exn (List String) := .ok []
  replayed : String → Bool := fun _ => false

/-- The interrupt a resume answers: for a node's interrupt the requested one,
or the first that is pending; none for any other checkpoint. -/
def answeredInterrupt (phase : CheckpointPhase) (request : ResumeRequest) : Except Exn String :=
  let requested := request.requested
  if phase ≠ .nodeInterrupt then
    if requested ≠ "" then
      .error (.invalidArgument ("Cannot answer interrupt '" ++ requested ++ "': checkpoint "
        ++ request.checkpointId ++ " is not a NodeInterrupt pause"))
    else .ok ""
  else do
    let pending ← request.pending
    if requested = "" then return pending.headD ""
    else if pending = [] ∧ request.replayed requested = true then return requested
    else if requested ∉ pending then
      let listed := String.intercalate ", " (pending.map fun id => "'" ++ id ++ "'")
      throw (.invalidArgument ("Interrupt '" ++ requested ++ "' is not pending at checkpoint "
        ++ request.checkpointId ++ " (pending: " ++ (if listed = "" then "none" else listed)
        ++ ")"))
    else return requested

/-- The step a resume enters. -/
def Checkpoint.startStep {σ : Type} (cp : Checkpoint σ) : ℕ :=
  match cp.phase with
  | .after | .completed | .updated => cp.step + 1
  | .before | .nodeInterrupt => cp.step

/-- The value a resume gives; null is none. -/
def answerOf : Json String → Option (Json String)
  | .null => none
  | value => some value

/-- The answers by task id; a later one replaces an earlier one. -/
def answerMap (answers : List GateAnswer) : SortedMap String (Option (Json String)) :=
  answers.foldl (fun found answer => found.insert answer.id answer.value) SortedMap.empty

/-- **A resume.** A gate's checkpoint carries the gates that were answered
before; the resume answers the one it held. -/
def resumeRun {σ : Type} (gates : Finset String) (cp : Checkpoint σ) (metadata : Json String)
    (request : ResumeRequest) : Except Exn GateRun := do
  let resumeAnswersGate : Bool :=
    cp.phase = .nodeInterrupt ∨ cp.phase = .before ∧ cp.currentNode ∈ gates
  let run : GateRun :=
    { isResume := true
      startStep := cp.startStep
      resumeAnswersGate := resumeAnswersGate }
  let answered ← answeredInterrupt cp.phase request
  if answered = "" ∧ resumeAnswersGate = true ∧ cp.phase = .before then
    let recorded ← recordedGateAnswers metadata
    let answered := makeStaticTaskId cp.startStep cp.currentNode
    let gateAnswers := recorded ++ [⟨answered, answerOf request.value⟩]
    return { run with
      gateAnswers := gateAnswers
      answers := (answerMap gateAnswers).insert answered (answerOf request.value)
      answeredStep := some cp.startStep }
  else if answered ≠ "" then
    return { run with
      answeredInterrupt := answered
      answers := SortedMap.empty.insert answered (answerOf request.value)
      answeredStep := some cp.startStep }
  else return run

namespace GateRun

variable (run : GateRun)

/-- The step is the one a resume entered. -/
def resumedStep (step : ℕ) : Bool := run.isResume && step = run.startStep

/-- The gate of a node is no reason to pause: the step has passed its gates,
or this one is answered. -/
def gatePassed (step : ℕ) (node : String) : Bool :=
  run.resumedStep step &&
    (run.resumeAnswersGate && run.gateAnswers.isEmpty ||
      run.gateAnswers.any fun gate => gate.id = makeStaticTaskId step node)

/-- The metadata of the checkpoint of a gate. -/
def gateMetadata (step : ℕ) (metadata : Json String) : Json String :=
  if run.resumedStep step then withGateAnswers metadata run.gateAnswers else metadata

/-- **What an invocation receives**, in each of its attempts: the value of the
answer, and the interrupt it answers. -/
def bindResumeValue (step : ℕ) (taskId : String) : Option (Json String) × String :=
  if run.answeredStep = some step then
    let value := (run.answers.find? taskId).join
    (value, if value.isSome ∧ taskId = run.answeredInterrupt then taskId else "")
  else (none, "")

end GateRun

/-- The environment of a run: the gates that are passed are the run's. -/
def Environment.withGates {σ : Type} (env : Environment σ) (run : GateRun) : Environment σ :=
  { env with gatePassed := run.gatePassed }

/-! ## What the metadata keeps -/

theorem readGateAnswer_toJson (answer : GateAnswer) :
    readGateAnswer answer.toJson = .ok answer := by
  obtain ⟨id, value⟩ := answer
  cases value with
  | none | some value => rfl

/-- The answers are kept in the metadata of the checkpoint. -/
theorem get?_withGateAnswers (metadata : Json String) {answers : List GateAnswer}
    (h : answers ≠ []) : ∃ reserved,
      (withGateAnswers metadata answers).get? metadataNamespace = some reserved ∧
        reserved.get? "answered_gates" = some (.arr (answers.map GateAnswer.toJson)) := by
  unfold withGateAnswers
  rw [if_neg h]
  refine ⟨_, (lookup_put _ _ _ _).trans (if_pos rfl), ?_⟩
  exact (lookup_put _ _ _ _).trans (if_pos rfl)

/-- The metadata of the engine has no answers of its own. -/
theorem answered_gates_checkpointMetadata (r : ReservedMetadata) {reserved : Json String}
    (h : (checkpointMetadata r).get? metadataNamespace = some reserved) :
    reserved.get? "answered_gates" = none := by
  unfold checkpointMetadata at h
  split at h
  · cases h
  have hr : some (obj (present r.fields)) = some reserved := h
  obtain rfl := Option.some.inj hr
  show (present r.fields).lookup "answered_gates" = none
  rw [lookup_present]
  · rfl
  · show ["subgraph_invocation_id", "subgraph_write_journal_version", "subgraph_write_journal",
      "subgraph_parent_call_id", "node_visits", "barrier_stalled", "failure_exit"].Nodup
    decide

/-- **Answers are read back as they were written.** Other members that a
checkpoint's metadata gets beside the reserved one do not matter. -/
theorem recordedGateAnswers_eq (r : ReservedMetadata) (answers : List GateAnswer)
    {stored : Json String} (hst : stored.get? metadataNamespace
      = (withGateAnswers (checkpointMetadata r) answers).get? metadataNamespace) :
    recordedGateAnswers stored = .ok answers := by
  unfold recordedGateAnswers
  rw [hst]
  by_cases h : answers = []
  · subst h
    rw [show withGateAnswers (checkpointMetadata r) [] = checkpointMetadata r from if_pos rfl]
    cases hr : (checkpointMetadata r).get? metadataNamespace with
    | none => rfl
    | some reserved =>
      dsimp only
      rw [answered_gates_checkpointMetadata r hr]
  · obtain ⟨reserved, hr, hl⟩ := get?_withGateAnswers (checkpointMetadata r) h
    rw [hr]
    dsimp only
    rw [hl]
    show (answers.map GateAnswer.toJson).mapM readGateAnswer = _
    rw [mapM_eq_ok, List.forall₂_map_left_iff, List.forall₂_same]
    exact fun answer _ => readGateAnswer_toJson answer

/-! ## What a resume knows -/

section Resume

variable {σ : Type} {gates : Finset String} {cp : Checkpoint σ} {metadata : Json String}
  {request : ResumeRequest} {run : GateRun}

/-- A resume knows its step, and answers of that step only. -/
theorem resumeRun_step (h : resumeRun gates cp metadata request = .ok run) :
    run.isResume = true ∧ run.startStep = cp.startStep ∧
      (run.answeredStep = none ∨ run.answeredStep = some cp.startStep) := by
  unfold resumeRun at h
  obtain ⟨answered, -, h⟩ := bind_eq_ok.mp h
  split at h
  · obtain ⟨recorded, -, h⟩ := bind_eq_ok.mp h
    cases h
    exact ⟨rfl, rfl, .inr rfl⟩
  · split at h
    · cases h
      exact ⟨rfl, rfl, .inr rfl⟩
    · cases h
      exact ⟨rfl, rfl, .inl rfl⟩

theorem answeredInterrupt_of_not_interrupt {phase : CheckpointPhase}
    (hph : phase ≠ .nodeInterrupt) {answered : String}
    (h : answeredInterrupt phase request = .ok answered) :
    answered = "" ∧ request.requested = "" := by
  unfold answeredInterrupt at h
  dsimp only at h
  rw [if_pos hph] at h
  split at h
  · cases h
  · rename_i hr
    cases h
    exact ⟨rfl, not_not.mp hr⟩

/-- A resume that answers no gate and no interrupt knows no answers. -/
theorem resumeRun_unanswering (hph : cp.phase ≠ .nodeInterrupt)
    (hg : cp.phase = .before → cp.currentNode ∉ gates)
    (h : resumeRun gates cp metadata request = .ok run) :
    run.resumeAnswersGate = false ∧ run.gateAnswers = [] ∧ run.answeredStep = none := by
  have ha : decide (cp.phase = .nodeInterrupt ∨ cp.phase = .before ∧ cp.currentNode ∈ gates)
      = false := decide_eq_false fun h => h.elim hph fun h => hg h.1 h.2
  unfold resumeRun at h
  obtain ⟨answered, han, h⟩ := bind_eq_ok.mp h
  obtain ⟨rfl, -⟩ := answeredInterrupt_of_not_interrupt hph han
  rw [ha, if_neg fun h => Bool.false_ne_true h.2.1, if_neg fun h => h rfl] at h
  cases h
  exact ⟨rfl, rfl, rfl⟩

/-- **A resume of a gate's checkpoint** knows the answers the checkpoint
carries, and its own. -/
theorem resumeRun_gate (hph : cp.phase = .before) (hg : cp.currentNode ∈ gates)
    (h : resumeRun gates cp metadata request = .ok run) :
    ∃ recorded, recordedGateAnswers metadata = .ok recorded ∧ run.resumeAnswersGate = true ∧
      run.gateAnswers = recorded
        ++ [⟨makeStaticTaskId cp.startStep cp.currentNode, answerOf request.value⟩] ∧
      run.answers = (answerMap run.gateAnswers).insert
        (makeStaticTaskId cp.startStep cp.currentNode) (answerOf request.value) ∧
      run.answeredStep = some cp.startStep ∧ run.answeredInterrupt = "" := by
  have hne : cp.phase ≠ .nodeInterrupt := by
    rw [hph]
    decide
  have ha : decide (cp.phase = .nodeInterrupt ∨ cp.phase = .before ∧ cp.currentNode ∈ gates)
      = true := decide_eq_true (.inr ⟨hph, hg⟩)
  unfold resumeRun at h
  obtain ⟨answered, han, h⟩ := bind_eq_ok.mp h
  obtain ⟨rfl, -⟩ := answeredInterrupt_of_not_interrupt hne han
  rw [ha, if_pos ⟨rfl, rfl, hph⟩] at h
  obtain ⟨recorded, hr, h⟩ := bind_eq_ok.mp h
  cases h
  exact ⟨recorded, hr, rfl, rfl, rfl, rfl, rfl⟩

/-- Such a resume is accepted when its checkpoint's metadata can be read. -/
theorem resumeRun_gate_ok (hph : cp.phase = .before) (hg : cp.currentNode ∈ gates)
    (hr : request.requested = "") {recorded : List GateAnswer}
    (hrc : recordedGateAnswers metadata = .ok recorded) :
    ∃ run, resumeRun gates cp metadata request = .ok run := by
  have hne : cp.phase ≠ .nodeInterrupt := by
    rw [hph]
    decide
  have han : answeredInterrupt cp.phase request = .ok "" := by
    unfold answeredInterrupt
    dsimp only
    rw [if_pos hne, if_neg fun h => h hr]
  have ha : decide (cp.phase = .nodeInterrupt ∨ cp.phase = .before ∧ cp.currentNode ∈ gates)
      = true := decide_eq_true (.inr ⟨hph, hg⟩)
  unfold resumeRun
  rw [ha, han, hrc]
  exact ⟨_, if_pos ⟨rfl, rfl, hph⟩⟩

end Resume

end NeoGraph
