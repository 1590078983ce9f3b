import NeoGraph.Program.Journal

/-!
# Records of a run

What a store keeps of a run beside its journal: the run record, which is the
latest snapshot of the run, and the records of its children. The lineage of a
run and its generations say which runs continue one another.

A record is made by a function that checks it and gives it the identity of
its content; the identity is a field of the model. Payloads that no rule
looks into (inputs, outputs, branches) are opaque.
-/

namespace NeoGraph.Program

/-! ## Texts -/

/-- Text without control characters and without a space at either end. -/
def isToken (s : String) : Bool :=
  s.toList.all (fun c => 0x20 ≤ c.toNat && c.toNat ≠ 0x7f) && s.toList.head?.any (· ≠ ' ')
    && s.toList.getLast?.any (· ≠ ' ')

def isSha256Identity (s : String) : Bool :=
  s.toList.length = 71 && s.toList.take 7 = "sha256:".toList
    && (s.toList.drop 7).all fun c =>
      ('0' ≤ c && c ≤ '9') || ('a' ≤ c && c ≤ 'f')

/-! ## Results -/

/-- How an attempt ended. -/
inductive ProgramTerminalStatus where
  | completed
  | interrupted
  | cancelled
  | budgetExhausted
  | timedOut
  | failed
  | ambiguousEffect
  | checkpointIncompatible
deriving DecidableEq, Repr

/-- The result of a run. -/
structure ProgramResult where
  id : String
  status : ProgramTerminalStatus
  runId : String
  programVersionId : String
  bundleId : String
  operationId : String
  attempt : BitVec 64
  usage : ProgramUsage := {}
  checkpoint : Option CoreCheckpointIdentity := none
  /-- The result has the authority of the provider's budget. -/
  providerBudgetAuthority : Bool := false
deriving DecidableEq

/-! ## Runs -/

/-- How far a pending input or effect is. -/
inductive ProgramPendingState where
  | awaiting
  | consumed
  | expired
  | cancelled
  | ambiguous
deriving DecidableEq, Repr

/-- A pending input, as a continuation refers to it. -/
structure ProgramPendingInput where
  id : String
  callId : String
  state : ProgramPendingState
deriving DecidableEq

/-- A pending effect, as a continuation refers to it. -/
structure ProgramPendingEffect where
  id : String
  callId : String
  effectId : String
  operationId : String
  state : ProgramPendingState
deriving DecidableEq

/-- What a run was asked for. -/
structure RunInvocation where
  /-- The identity of the canonical payload. -/
  canonicalIdentity : String
  ownerScope : String
  programVersionId : String
  runId : String
  /-- Empty for a run that is not a child. -/
  parentRunId : String := ""
  budget : RunBudget := {}
  input : String := ""
  correlationId : String := ""
deriving DecidableEq

/-- Evidence that a fork may start from a checkpoint of its source. -/
structure ForkCompatibilityReceipt where
  id : String
  storageSchemaVersion : BitVec 32
  ownerScope : String
  compatible : Bool
  sourceRunId : String
  sourceProgramVersionId : String
  sourceCheckpointId : String
  targetProgramVersionId : String
deriving DecidableEq

/-- The latest snapshot of a run. -/
structure ProgramRunRecord where
  id : String
  ownerScope : String
  runId : String
  programVersionId : String
  bundleId : String
  bindingFingerprint : String
  invocation : RunInvocation
  childDepth : BitVec 32 := 0
  continuation : ProgramContinuation
  remainingBudget : RunBudget := {}
  exactCheckpoint : Option CoreCheckpointIdentity := none
  exactCheckpointContentId : Option String := none
  pendingInput : Option ProgramPendingInput := none
  pendingEffect : Option ProgramPendingEffect := none
  terminalResult : Option ProgramResult := none
  forkReceipt : Option ForkCompatibilityReceipt := none
  journalHead : String
  recordedBindingSetFingerprint : Option String := none
  eventSequence : BitVec 64 := 0
  effectSequence : BitVec 64 := 0
  createdAtMs : ℤ := 0
  updatedAtMs : ℤ := 0
  /-- The run that this one continues, for a run that replaced another. -/
  logicalRunId : String
  attemptResume : Option String := none
  settledBranches : Option String := none
deriving DecidableEq

/-! ## Children -/

/-- How far a child of a run is. -/
inductive ProgramChildState where
  | publishing
  | dispatched
  | completed
  | cancelled
  | failed
deriving DecidableEq, Repr

/-- What a child was asked for. -/
structure ProgramPersistedInvocation where
  input : String := ""
  grantedBudget : RunBudget := {}
  traceId : String := ""
  parentRunId : String
  childDepth : BitVec 32
deriving DecidableEq

/-- What a run keeps of a child. -/
structure ProgramChildRecord where
  childRunId : String
  linkId : String
  linkReceipt : String
  invocation : ProgramPersistedInvocation
  state : ProgramChildState := .publishing
  terminalResult : Option ProgramResult := none
  /-- Not zero if the result is that of a replacement of the child. -/
  terminalGeneration : BitVec 64 := 0
deriving DecidableEq

/-! ## Lineages -/

/-- Evidence that a generation replaces another. -/
structure ProgramReplacementReceipt where
  id : String
  ownerScope : String
  lineageId : String
  sourceGeneration : BitVec 64
  sourceGenerationId : String
  sourceLineageHeadId : String
  sourceRunId : String
  sourceRunRecordId : String
  sourceJournalHead : String
  sourceProgramVersionId : String
  sourceBundleId : String
  checkpointCoordinateId : String
  checkpointEntryId : String
  handoffValueIdentity : String
  targetGeneration : BitVec 64
  targetRunId : String
  targetProgramVersionId : String
  targetBundleId : String
  targetInputIdentity : String
  targetInvocationId : String
  targetBindingFingerprint : String
  targetInitialRunRecordId : String
  targetInitialJournalHead : String
deriving DecidableEq

/-- One run of a lineage. -/
structure ProgramRunGeneration where
  id : String
  ownerScope : String
  lineageId : String
  generation : BitVec 64
  runId : String
  programVersionId : String
  bundleId : String
  initialRunRecordId : String
  initialJournalHead : String
  predecessorGenerationId : Option String := none
  createdAtMs : ℤ := 0
  childDepth : BitVec 32 := 0
  replacementReceipt : Option ProgramReplacementReceipt := none
  /-- The identity of the receipt of a graph migration. -/
  graphMigrationReceipt : Option String := none
  /-- The identity of the receipt of a runtime-state transfer. -/
  runtimeStateTransferReceipt : Option String := none
deriving DecidableEq

/-- The head of a lineage. -/
structure ProgramRunLineage where
  id : String
  ownerScope : String
  lineageId : String
  rootRunId : String
  activeGeneration : BitVec 64
  activeGenerationId : String
  activeRunRecordId : String
  activeJournalHead : String
  remainingBudget : RunBudget := {}
  inflightReservation : RunBudget := {}
  predecessorHeadId : Option String := none
  createdAtMs : ℤ := 0
  updatedAtMs : ℤ := 0
  /-- What the lineage has given to children for good. -/
  committedDescendantBudget : RunBudget := {}
deriving DecidableEq

/-- The identities of contents: `journal`, `run` and `lineageHead` do not read
the identity that is a field of their argument. -/
structure Identities where
  lineage : String → String → String
  journal : ProgramJournalRecord → String
  run : ProgramRunRecord → String
  lineageHead : ProgramRunLineage → String

/-- The identity of the lineage of a root run; a malformed owner or run throws. -/
def programRunLineageId (ids : Identities) (ownerScope rootRunId : String) : Option String :=
  if ownerScope ≠ "" ∧ isToken rootRunId = true then some (ids.lineage ownerScope rootRunId)
  else none

/-- The generation is the active one of the lineage, and the run is its run. -/
def doesProgramRunGenerationBind (generation : ProgramRunGeneration) (lineage : ProgramRunLineage)
    (run : ProgramRunRecord) : Bool :=
  generation.ownerScope = run.ownerScope && generation.lineageId = lineage.lineageId
    && generation.generation = lineage.activeGeneration
    && generation.id = lineage.activeGenerationId && generation.runId = run.runId
    && generation.programVersionId = run.programVersionId && generation.bundleId = run.bundleId
    && generation.childDepth = run.childDepth

end NeoGraph.Program
