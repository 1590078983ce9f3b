import NeoGraph.Lib.SortedMap
import NeoGraph.Program.CommandLog
import NeoGraph.Program.Records

/-!
# Child relations

A parent does not keep its children in its own record. Each child is a row,
and one head per parent counts the rows and sums what they have reserved of
the parent's budget for good. A change of a row changes the head with it.

This module has the rows and heads and the rules that plan a change: what a
plan reads is a `TransitionReads`, and a plan names the row and the head to
write. A plan is `none` where the code lets an exception out, which leaves
everything as it was.
-/

namespace NeoGraph.Program

open Option

/-! ## Rows and heads -/

/-- The child may still do something. -/
def relationChildIsOpen (state : ProgramChildState) : Bool :=
  state = .publishing || state = .dispatched

def relationStateIsTerminal (state : ProgramChildState) : Bool :=
  state = .completed || state = .cancelled || state = .failed

/-- One child of one parent. -/
structure ProgramChildRelation where
  ownerScope : String
  parentRunId : String
  /-- The place of the child among the children, in the order they came. -/
  ordinal : BitVec 64 := 0
  child : ProgramChildRecord
  rowVersion : BitVec 64 := 1
deriving DecidableEq

/-- The child can still change its state. -/
def ProgramChildRelation.isOpen (row : ProgramChildRelation) : Bool :=
  relationChildIsOpen row.child.state

/-- The result of a child fits its state. -/
def childResultFits (child : ProgramChildRecord) (result : ProgramResult) : Bool :=
  (result.runId = child.childRunId || 2 ≤ child.terminalGeneration)
    && (result.runId ≠ child.childRunId || child.terminalGeneration = 0)
    && result.programVersionId ≠ "" && result.attempt ≠ 0
    && (child.state ≠ .completed || result.status = .completed)
    && (child.state ≠ .cancelled || result.status = .cancelled)
    && (child.state ≠ .failed || result.status = .failed || result.status = .budgetExhausted
      || result.status = .timedOut || result.status = .checkpointIncompatible)
    && (child.state ≠ .dispatched || result.status = .interrupted
      || result.status = .ambiguousEffect)

/-- What a child record must satisfy by itself. -/
def validChildShape (child : ProgramChildRecord) : Bool :=
  isToken child.childRunId && isSha256Identity child.linkId && child.linkReceipt ≠ ""
    && (child.state ≠ .publishing || child.terminalResult.isNone)
    && (child.state ≠ .completed && child.state ≠ .failed || child.terminalResult.isSome)
    && (child.terminalGeneration = 0 || child.terminalResult.isSome)
    && child.terminalResult.all (childResultFits child)

/-- What holds of every relation. -/
def validRelation (d : ProgramChildRelation) : Bool :=
  d.ownerScope ≠ "" && isToken d.parentRunId && d.rowVersion ≠ 0
    && d.child.childRunId ≠ d.parentRunId && d.child.invocation.parentRunId = d.parentRunId
    && d.child.invocation.childDepth ≠ 0 && validChildShape d.child

/-- A relation that passes its checks. -/
def ProgramChildRelation.create (data : ProgramChildRelation) : Option ProgramChildRelation :=
  if validRelation data then some data else none

/-- The head of the rows of one parent. -/
structure ProgramChildRelationHead where
  ownerScope : String
  parentRunId : String
  /-- Grows with every change. -/
  epoch : BitVec 64 := 0
  count : BitVec 64 := 0
  openCount : BitVec 64 := 0
  /-- What the rows have reserved. -/
  committedBudget : RunBudget := {}
  closed : Bool := false
  /-- The journal record that closed the head. -/
  closedBy : String := ""
deriving DecidableEq

/-- What holds of every head. -/
def validRelationHead (d : ProgramChildRelationHead) : Bool :=
  d.ownerScope ≠ "" && isToken d.parentRunId && d.openCount ≤ d.count && d.count ≤ d.epoch
    && d.closed = (d.closedBy ≠ "")
    && d.committedBudget.maxConcurrency = 0 && d.committedBudget.maxChildDepth = 0
    && d.committedBudget.maxNodeRetries = none
    && (d.count ≠ 0 || (d.openCount = 0 && d.committedBudget = {}))

namespace ProgramChildRelationHead

def create (data : ProgramChildRelationHead) : Option ProgramChildRelationHead :=
  if validRelationHead data then some data else none

/-- The head of a parent that has no rows. -/
def empty (ownerScope parentRunId : String) : Option ProgramChildRelationHead :=
  create { ownerScope := ownerScope, parentRunId := parentRunId }

end ProgramChildRelationHead

/-! ## Budgets of children -/

/-- What a child reserves of its parent's budget for good. -/
def childPermanentReservation (granted : RunBudget) : Option RunBudget :=
  if granted.maxTotalChildren = BitVec.allOnes 64 then none
  else
    some {
      wallTimeMs := granted.wallTimeMs
      modelTokens := granted.modelTokens
      monetaryMicrounits := granted.monetaryMicrounits
      maxProgramOperations := granted.maxProgramOperations
      maxCoreSteps := granted.maxCoreSteps
      maxDynamicCompiles := granted.maxDynamicCompiles
      maxTotalChildren := granted.maxTotalChildren + 1 }

/-- The sum of the permanent fields, unless one of them overflows. -/
def addPermanentBudget (aggregate addition : RunBudget) : Option RunBudget := do
  let wallTimeMs ← checkedTotal aggregate.wallTimeMs addition.wallTimeMs
  let modelTokens ← checkedTotal aggregate.modelTokens addition.modelTokens
  let monetaryMicrounits ← checkedTotal aggregate.monetaryMicrounits addition.monetaryMicrounits
  let maxProgramOperations ←
    checkedTotal aggregate.maxProgramOperations addition.maxProgramOperations
  let maxCoreSteps ← checkedTotal aggregate.maxCoreSteps addition.maxCoreSteps
  let maxDynamicCompiles ← checkedTotal aggregate.maxDynamicCompiles addition.maxDynamicCompiles
  let maxTotalChildren ← checkedTotal aggregate.maxTotalChildren addition.maxTotalChildren
  some { aggregate with
    wallTimeMs, modelTokens, monetaryMicrounits, maxProgramOperations, maxCoreSteps,
    maxDynamicCompiles, maxTotalChildren }

/-- What a parent can give to children: what remains, and what a pending
command has in reserve. -/
def restoreReservation (available reservation : RunBudget) : Option RunBudget := do
  let wallTimeMs ← checkedTotal available.wallTimeMs reservation.wallTimeMs
  let modelTokens ← checkedTotal available.modelTokens reservation.modelTokens
  let monetaryMicrounits ←
    checkedTotal available.monetaryMicrounits reservation.monetaryMicrounits
  let maxProgramOperations ←
    checkedTotal available.maxProgramOperations reservation.maxProgramOperations
  let maxCoreSteps ← checkedTotal available.maxCoreSteps reservation.maxCoreSteps
  some { available with
    wallTimeMs, modelTokens, monetaryMicrounits, maxProgramOperations, maxCoreSteps }

/-- An amount fits on top of what is used. -/
def fits {w : ℕ} (bound used requested : BitVec w) : Bool :=
  used ≤ bound && requested ≤ bound - used

/-- What the children of a parent reserve with one more child, if the child
fits. -/
def childRelationInsertAdmits (parentRemaining parentInflight committed childGranted : RunBudget) :
    Option RunBudget := do
  let limit ← restoreReservation parentRemaining parentInflight
  let reservation ← childPermanentReservation childGranted
  if fits limit.wallTimeMs committed.wallTimeMs reservation.wallTimeMs
      && fits limit.modelTokens committed.modelTokens reservation.modelTokens
      && fits limit.monetaryMicrounits committed.monetaryMicrounits
        reservation.monetaryMicrounits
      && fits limit.maxProgramOperations committed.maxProgramOperations
        reservation.maxProgramOperations
      && fits limit.maxCoreSteps committed.maxCoreSteps reservation.maxCoreSteps
      && fits limit.maxDynamicCompiles committed.maxDynamicCompiles
        reservation.maxDynamicCompiles
      && fits limit.maxTotalChildren committed.maxTotalChildren reservation.maxTotalChildren then
    addPermanentBudget committed reservation
  else none

/-! ## What plans read -/

/-- What the rules read of the stored state, for one owner. -/
structure TransitionReads where
  runRecord : String → Option ProgramRunRecord
  journalRecord : String → Option ProgramJournalRecord
  lineageHead : String → Option ProgramRunLineage
  generation : String → BitVec 64 → Option ProgramRunGeneration
  /-- The lineage a run belongs to. -/
  runLineageId : String → Option String
  latestCommand : String → Option (CommandEntry String String)
  effectIdPublished : String → String → Bool
  /-- The identity of the graph safe point of a run at a lineage head. -/
  graphMigrationCapsule : String → String → Option String
  contextHistory : String → List String
  synthesisHeads : String → List String
  hookHeads : String → List String
  /-- The head of a parent's rows; a parent without rows has none. -/
  relationHead : String → Option ProgramChildRelationHead
  relationRow : String → String → Option ProgramChildRelation

/-- The run record and the journal record of a run. -/
def TransitionReads.publicationHead (reads : TransitionReads) (runId : String) :
    Option (ProgramRunRecord × ProgramJournalRecord) := do
  let run ← reads.runRecord runId
  let journal ← reads.journalRecord runId
  if run.journalHead = journal.id then some (run, journal) else none

/-- The run of a parent: that of the active generation of its lineage, or the
run itself. -/
def activeParentRun (reads : TransitionReads) (lineageId logicalRunId : String) : Option String :=
  match reads.lineageHead lineageId with
  | none => some logicalRunId
  | some lineage =>
    match reads.generation lineage.lineageId lineage.activeGeneration with
    | none => none
    | some generation =>
      if generation.id = lineage.activeGenerationId then some generation.runId else none

/-- The records of a parent. -/
def activeParentHead (ids : Identities) (reads : TransitionReads)
    (ownerScope logicalRunId : String) :
    Option (Option (ProgramRunRecord × ProgramJournalRecord)) := do
  let lineageId ← programRunLineageId ids ownerScope logicalRunId
  some ((activeParentRun reads lineageId logicalRunId).bind reads.publicationHead)

/-! ## Plans -/

/-- Why a change is refused. -/
inductive ProgramChildRelationRefusal where
  | none
  | parentAbsent
  | parentNotRunning
  | fenceMismatch
  | closed
  | rowConflict
  | rowMissing
  | rowVersionMismatch
  | invalidTransition
  | budgetExceeded
  | resultUnbound
  | invalid
deriving DecidableEq, Repr

/-- What a plan says of the change it was asked for. -/
inductive ProgramChildRelationStatus where
  | applied
  | alreadyPresent
  | refused
deriving DecidableEq, Repr

/-- What a change decided: the row and the head to write if it is applied, and
else the stored ones. -/
structure RelationPlan where
  status : ProgramChildRelationStatus := .refused
  refusal : ProgramChildRelationRefusal := .invalid
  row : Option ProgramChildRelation := none
  head : Option ProgramChildRelationHead := none

/-- Nothing is changed, for a reason. -/
def relationRefused (refusal : ProgramChildRelationRefusal) (row : Option ProgramChildRelation)
    (head : Option ProgramChildRelationHead) : RelationPlan := ⟨.refused, refusal, row, head⟩

/-- Nothing is left to change. -/
def relationPresent (row : Option ProgramChildRelation) (head : Option ProgramChildRelationHead) :
    RelationPlan := ⟨.alreadyPresent, .none, row, head⟩

/-- A change is applied if its row and its head are valid. -/
def relationApplied (existing : Option ProgramChildRelation)
    (storedHead : Option ProgramChildRelationHead) (row : ProgramChildRelation)
    (head : ProgramChildRelationHead) : RelationPlan :=
  match row.create, head.create with
  | some row, some head => ⟨.applied, .none, some row, some head⟩
  | _, _ => relationRefused .invalid existing storedHead

def relationHeadOrEmpty (head : Option ProgramChildRelationHead)
    (ownerScope parentRunId : String) : Option ProgramChildRelationHead :=
  match head with
  | some head => some head
  | none => ProgramChildRelationHead.empty ownerScope parentRunId

/-- What a child keeps for life. -/
def sameChildMetadata (lhs rhs : ProgramChildRecord) : Bool :=
  lhs.childRunId = rhs.childRunId && lhs.linkId = rhs.linkId
    && lhs.linkReceipt = rhs.linkReceipt && lhs.invocation = rhs.invocation

/-- Where a child may go from a state. -/
def validChildStateTransition (previous next : ProgramChildState) : Bool :=
  previous = next
    || previous = .publishing && (next = .dispatched || next = .completed || next = .cancelled
      || next = .failed)
    || previous = .dispatched && (next = .completed || next = .cancelled || next = .failed)

def sameChildResultAndGeneration (lhs rhs : ProgramChildRecord) : Bool :=
  lhs.terminalGeneration = rhs.terminalGeneration
    && lhs.terminalResult.map ProgramResult.id = rhs.terminalResult.map ProgramResult.id

/-- A stored row of a spawned child is dispatched. -/
def planRelationAdvance (run : ProgramRunRecord) (head : ProgramChildRelationHead)
    (storedHead : Option ProgramChildRelationHead) (row : ProgramChildRelation)
    (child : ProgramChildRecord) (advancePublishing : Bool) : RelationPlan :=
  if !sameChildMetadata row.child child then relationRefused .rowConflict (some row) storedHead
  else if !(advancePublishing && row.child.state = .publishing && child.state = .dispatched) then
    relationPresent (some row) storedHead
  else if head.closed then relationRefused .closed (some row) storedHead
  else if run.continuation.state ≠ .running then
    relationRefused .parentNotRunning (some row) storedHead
  else
    relationApplied (some row) storedHead
      { row with
        child := { row.child with state := .dispatched }
        rowVersion := row.rowVersion + 1 }
      { head with epoch := head.epoch + 1 }

/-- A row is added. -/
def planRelationAdd (ownerScope parentRunId : String) (run : ProgramRunRecord)
    (journal : ProgramJournalRecord) (head : ProgramChildRelationHead)
    (storedHead : Option ProgramChildRelationHead) (child : ProgramChildRecord) : RelationPlan :=
  if head.closed then relationRefused .closed none storedHead
  else if run.continuation.state ≠ .running then relationRefused .parentNotRunning none storedHead
  else if child.invocation.parentRunId ≠ run.logicalRunId
      ∨ child.invocation.childDepth ≠ run.childDepth + 1 ∨ child.childRunId = run.runId then
    relationRefused .invalid none storedHead
  else
    match childRelationInsertAdmits run.remainingBudget journal.inflightReservation
      head.committedBudget child.invocation.grantedBudget with
    | none => relationRefused .budgetExceeded none storedHead
    | some aggregate =>
      if head.count = BitVec.allOnes 64 ∨ head.epoch = BitVec.allOnes 64 then
        relationRefused .budgetExceeded none storedHead
      else
        relationApplied none storedHead ⟨ownerScope, parentRunId, head.count, child, 1⟩
          { head with
            epoch := head.epoch + 1
            count := head.count + 1
            openCount := head.openCount + 1
            committedBudget := aggregate }

/-- A child is added, or the stored row of a spawned child is dispatched. -/
def planRelationInsert (ids : Identities) (reads : TransitionReads)
    (ownerScope parentRunId : String) (expectedParentFence : BitVec 64)
    (child : ProgramChildRecord) (advancePublishing : Bool) : Option RelationPlan := do
  let parent ← activeParentHead ids reads ownerScope parentRunId
  let storedHead := reads.relationHead parentRunId
  let existing := reads.relationRow parentRunId child.childRunId
  if !relationChildIsOpen child.state || child.terminalResult.isSome
      || child.terminalGeneration ≠ 0 then
    some (relationRefused .invalid existing storedHead)
  else
    match parent with
    | none => some (relationRefused .parentAbsent existing storedHead)
    | some (run, journal) =>
      if run.continuation.fence ≠ expectedParentFence then
        some (relationRefused .fenceMismatch existing storedHead)
      else
        (relationHeadOrEmpty storedHead ownerScope parentRunId).map fun head =>
          match existing with
          | some row => planRelationAdvance run head storedHead row child advancePublishing
          | none => planRelationAdd ownerScope parentRunId run journal head storedHead child

/-- The result of a child is that of its generation. -/
def doesProgramChildGenerationResultBind (parentOwnerScope parentLogicalRunId : String)
    (child : ProgramChildRecord) (generation : ProgramRunGeneration) (lineage : ProgramRunLineage)
    (resultRun : ProgramRunRecord) : Bool :=
  match child.terminalResult, resultRun.terminalResult with
  | some result, some runResult =>
    parentOwnerScope = resultRun.ownerScope && child.invocation.parentRunId = parentLogicalRunId
      && lineage.rootRunId = child.childRunId && child.terminalGeneration = generation.generation
      && 2 ≤ child.terminalGeneration && generation.replacementReceipt.isSome
      && doesProgramRunGenerationBind generation lineage resultRun
      && resultRun.invocation.parentRunId = parentLogicalRunId
      && resultRun.childDepth = child.invocation.childDepth && result.id = runResult.id
  | _, _ => false

/-- A result of a replacement of the child binds the record of that run, which
may be the one that is being published. -/
def relationResultBinds (ids : Identities) (reads : TransitionReads)
    (ownerScope parentLogicalRunId : String) (child : ProgramChildRecord)
    (pendingChildRun : Option ProgramRunRecord) : Option Bool := do
  if child.terminalGeneration = 0 then some true
  else
    let lineageId ← programRunLineageId ids ownerScope child.childRunId
    match reads.lineageHead lineageId, reads.generation lineageId child.terminalGeneration with
    | some lineage, some generation =>
      let run := (pendingChildRun.filter (·.runId = generation.runId)).or
        (reads.runRecord generation.runId)
      some (run.any fun run => doesProgramChildGenerationResultBind ownerScope
        parentLogicalRunId child generation lineage run)
    | _, _ => some false

/-- What is checked of an update before it is compared with the stored row. -/
def updateConflict (parent : Option (ProgramRunRecord × ProgramJournalRecord)) (childWrites : Bool)
    (writerFence : BitVec 64) (expectedRowVersion : Option (BitVec 64)) (row : ProgramChildRelation)
    (next : ProgramChildRecord) : Option ProgramChildRelationRefusal :=
  if !childWrites && parent.isNone then some .parentAbsent
  else if !childWrites && parent.any (·.1.continuation.fence ≠ writerFence) then
    some .fenceMismatch
  else if !sameChildMetadata row.child next then some .rowConflict
  else if expectedRowVersion.any (· ≠ row.rowVersion) then some .rowVersionMismatch
  else none

/-- Whether a result is written under the fence of the run that produced it. A
row without a run is ended by the parent's process. -/
def writerRefusal (ids : Identities) (reads : TransitionReads) (ownerScope parentRunId : String)
    (writerFence : BitVec 64) (next : ProgramChildRecord) :
    Option (Option ProgramChildRelationRefusal) :=
  let writerRun := (next.terminalResult.map ProgramResult.runId).getD next.childRunId
  match reads.runRecord writerRun with
  | some writer =>
    some (if writer.continuation.fence ≠ writerFence then some .fenceMismatch else none)
  | none =>
    if !relationStateIsTerminal next.state then some (some .invalidTransition)
    else
      (activeParentHead ids reads ownerScope parentRunId).map fun parent =>
        if parent.any (·.1.continuation.fence = writerFence) then none else some .fenceMismatch

/-- Whether a row may be dispatched. -/
def dispatchRefusal (parent : Option (ProgramRunRecord × ProgramJournalRecord))
    (head : ProgramChildRelationHead) (row : ProgramChildRelation) (next : ProgramChildRecord) :
    Option ProgramChildRelationRefusal :=
  if row.child.state = .publishing ∧ next.state = .dispatched then
    match parent with
    | none => some .invalidTransition
    | some (run, _) =>
      if head.closed then some .closed
      else if run.continuation.state ≠ .running then some .parentNotRunning
      else none
  else none

/-- An update that passed every check. -/
def planRelationChange (ids : Identities) (reads : TransitionReads)
    (ownerScope parentRunId : String) (head : ProgramChildRelationHead) (row : ProgramChildRelation)
    (next : ProgramChildRecord) (pendingChildRun : Option ProgramRunRecord) : RelationPlan :=
  if row.rowVersion = BitVec.allOnes 64 ∨ head.epoch = BitVec.allOnes 64 then
    relationRefused .invalid (some row) (some head)
  else
    match ({ row with child := next, rowVersion := row.rowVersion + 1 } :
        ProgramChildRelation).create with
    | none => relationRefused .invalid (some row) (some head)
    | some newRow =>
      match relationResultBinds ids reads ownerScope parentRunId next pendingChildRun with
      | none => relationRefused .invalid (some row) (some head)
      | some false => relationRefused .resultUnbound (some row) (some head)
      | some true =>
        relationApplied (some row) (some head) newRow
          { head with
            epoch := head.epoch + 1
            openCount :=
              if row.isOpen && !newRow.isOpen then head.openCount - 1 else head.openCount }

/-- The records of the parent, where the parent's process writes. -/
def updateParent (ids : Identities) (reads : TransitionReads) (ownerScope parentRunId : String)
    (childWrites : Bool) : Option (Option (ProgramRunRecord × ProgramJournalRecord)) :=
  if childWrites then some none else activeParentHead ids reads ownerScope parentRunId

/-- Whether the writer of a result that is not part of a publication may
write it. -/
def updateWriter (ids : Identities) (reads : TransitionReads) (ownerScope parentRunId : String)
    (writerFence : BitVec 64) (next : ProgramChildRecord) (standalone : Bool) :
    Option (Option ProgramChildRelationRefusal) :=
  if standalone then writerRefusal ids reads ownerScope parentRunId writerFence next
  else some none

/-- A row is updated: by the parent's process, which dispatches it, or by the
child, which records a result. `pendingChildRun` is the run of the child that
is being published with the update. -/
def planRelationUpdate (ids : Identities) (reads : TransitionReads)
    (ownerScope parentRunId : String) (writerFence : BitVec 64)
    (expectedRowVersion : Option (BitVec 64)) (next : ProgramChildRecord)
    (pendingChildRun : Option ProgramRunRecord) : Option RelationPlan := do
  let childWrites := relationStateIsTerminal next.state || next.terminalResult.isSome
  let parent ← updateParent ids reads ownerScope parentRunId childWrites
  match reads.relationRow parentRunId next.childRunId, reads.relationHead parentRunId with
  | some row, some head =>
    match updateConflict parent childWrites writerFence expectedRowVersion row next with
    | some refusal => some (relationRefused refusal (some row) (some head))
    | none =>
      if row.child.state = next.state && sameChildResultAndGeneration row.child next then
        some (relationPresent (some row) (some head))
      else if !row.isOpen || !validChildStateTransition row.child.state next.state then
        some (relationRefused .invalidTransition (some row) (some head))
      else do
        let writer ← updateWriter ids reads ownerScope parentRunId writerFence next
          (childWrites && pendingChildRun.isNone)
        match writer.or (dispatchRefusal parent head row next) with
        | some refusal => some (relationRefused refusal (some row) (some head))
        | none =>
          some (planRelationChange ids reads ownerScope parentRunId head row next pendingChildRun)
  | row, head => some (relationRefused .rowMissing row head)

/-- The closed head that a final publication writes; `none` inside if there is
nothing to close. -/
def planRelationClose (reads : TransitionReads) (logicalRunId journalId : String) :
    Option (Option ProgramChildRelationHead) :=
  match reads.relationHead logicalRunId with
  | none => some none
  | some head =>
    if head.closed then some none
    else
      (ProgramChildRelationHead.create
        { head with epoch := head.epoch + 1, closed := true, closedBy := journalId }).map some

/-- The rows and the head of the children that a record of an earlier version
holds. -/
def planLegacyRows (run : ProgramRunRecord) :
    List ProgramChildRecord → ProgramChildRelationHead → List ProgramChildRelation →
      Option (ProgramChildRelationHead × List ProgramChildRelation)
  | [], head, rows => some (head, rows)
  | child :: children, head, rows => do
    let reservation ← childPermanentReservation child.invocation.grantedBudget
    let aggregate ← addPermanentBudget head.committedBudget reservation
    let row ← ProgramChildRelation.create ⟨run.ownerScope, run.logicalRunId, head.count, child, 1⟩
    let head := { head with committedBudget := aggregate, count := head.count + 1 }
    let head :=
      if row.isOpen then
        { head with epoch := head.epoch + 1, openCount := head.openCount + 1 }
      else { head with epoch := head.epoch + 1 + 1 }
    planLegacyRows run children head (rows ++ [row])

/-- The relations of a run from the time before there were any. -/
def planLegacyRelations (run : ProgramRunRecord) (children : List ProgramChildRecord) :
    Option (ProgramChildRelationHead × List ProgramChildRelation) := do
  let (head, rows) ←
    planLegacyRows run children
      { ownerScope := run.ownerScope, parentRunId := run.logicalRunId } []
  let head :=
    if run.continuation.state.isFinal then
      { head with closed := true, closedBy := run.journalHead, epoch := head.epoch + 1 }
    else head
  let head ← head.create
  some (head, rows)

/-- What a record of an earlier version has checked of its children. -/
def validLegacyChildren (run : ProgramRunRecord) (children : List ProgramChildRecord) : Bool :=
  decide (children.map ProgramChildRecord.childRunId).Nodup
    && children.all fun child =>
      isToken child.childRunId && child.childRunId ≠ run.runId
        && child.invocation.parentRunId = run.logicalRunId
        && run.childDepth ≠ BitVec.allOnes 32
        && child.invocation.childDepth = run.childDepth + 1 && validChildShape child

/-! ## Budgets in unbounded arithmetic -/

variable {w : ℕ}

theorem toNat_checkedTotal {a b c : BitVec w} (h : checkedTotal a b = some c) :
    c.toNat = a.toNat + b.toNat := by
  have hs : (BitVec.allOnes w - a).toNat = 2 ^ w - 1 - a.toNat := by
    have ha := a.isLt
    rw [BitVec.toNat_sub_of_le (BitVec.le_def.mpr (by rw [BitVec.toNat_allOnes]; omega)),
      BitVec.toNat_allOnes]
  unfold checkedTotal at h
  split at h
  · cases h
  rename_i hlt
  rw [BitVec.lt_def, hs] at hlt
  have ha := a.isLt
  cases h
  exact toNat_add_of_lt (by omega)

/-- **The permanent reservation of a child is added in every field.** -/
theorem amount_addPermanentBudget {aggregate granted reservation sum : RunBudget}
    (hr : childPermanentReservation granted = some reservation)
    (h : addPermanentBudget aggregate reservation = some sum) (f : BudgetField) :
    sum.amount f = aggregate.amount f + reservation.amount f := by
  unfold addPermanentBudget at h
  simp only [bind_eq_bind, bind_eq_some_iff] at h
  obtain ⟨_, h₁, _, h₂, _, h₃, _, h₄, _, h₅, _, h₆, _, h₇, h⟩ := h
  cases h
  unfold childPermanentReservation at hr
  split at hr
  · cases hr
  cases hr
  revert f
  rw [RunBudget.forall_field]
  exact ⟨toNat_checkedTotal h₁, toNat_checkedTotal h₂, toNat_checkedTotal h₃, rfl,
    toNat_checkedTotal h₄, toNat_checkedTotal h₅, toNat_checkedTotal h₆, rfl,
    toNat_checkedTotal h₇⟩

/-- A request fits into what is left of a bound. -/
theorem fits_iff {bound used requested : BitVec w} :
    fits bound used requested = true ↔ used.toNat + requested.toNat ≤ bound.toNat := by
  unfold fits
  rw [Bool.and_eq_true, decide_eq_true_eq, decide_eq_true_eq, BitVec.le_def, BitVec.le_def]
  constructor
  · rintro ⟨hused, hr⟩
    rw [BitVec.toNat_sub_of_le (BitVec.le_def.mpr hused)] at hr
    omega
  · intro h
    have hused : used.toNat ≤ bound.toNat := by omega
    refine ⟨hused, ?_⟩
    rw [BitVec.toNat_sub_of_le (BitVec.le_def.mpr hused)]
    omega

/-- The fields of a budget that are given away for good. -/
def BudgetField.permanent (f : BudgetField) : Bool :=
  f ≠ .maxConcurrency && f ≠ .maxChildDepth

/-- A child that is admitted fits, with the children before it. -/
theorem childRelationInsertAdmits_eq_some {remaining inflight committed granted sum : RunBudget}
    (h : childRelationInsertAdmits remaining inflight committed granted = some sum) :
    ∃ limit reservation, restoreReservation remaining inflight = some limit
      ∧ childPermanentReservation granted = some reservation
      ∧ (∀ f, sum.amount f = committed.amount f + reservation.amount f)
      ∧ ∀ f, f.permanent = true → sum.amount f ≤ limit.amount f := by
  unfold childRelationInsertAdmits at h
  simp only [bind_eq_bind, bind_eq_some_iff] at h
  obtain ⟨limit, hl, reservation, hr, h⟩ := h
  split at h
  · rename_i hft
    have hsm := amount_addPermanentBudget hr h
    simp only [Bool.and_eq_true, fits_iff] at hft
    obtain ⟨⟨⟨⟨⟨⟨h₁, h₂⟩, h₃⟩, h₄⟩, h₅⟩, h₆⟩, h₇⟩ := hft
    refine ⟨limit, reservation, hl, hr, hsm, ?_⟩
    intro f hf
    rw [hsm]
    revert hf
    cases f with
    | wallTimeMs => exact fun _ => h₁
    | modelTokens => exact fun _ => h₂
    | monetaryMicrounits => exact fun _ => h₃
    | maxConcurrency | maxChildDepth => exact fun hf => by cases hf
    | maxProgramOperations => exact fun _ => h₄
    | maxCoreSteps => exact fun _ => h₅
    | maxDynamicCompiles => exact fun _ => h₆
    | maxTotalChildren => exact fun _ => h₇
  · cases h

/-! ## What an applied plan is -/

theorem create_eq_some {data row : ProgramChildRelation}
    (h : ProgramChildRelation.create data = some row) : row = data ∧ validRelation data = true := by
  unfold ProgramChildRelation.create at h
  split at h
  · rename_i hv
    cases h
    exact ⟨rfl, hv⟩
  · cases h

namespace ProgramChildRelationHead

theorem create_eq_some {data head : ProgramChildRelationHead} (h : create data = some head) :
    head = data ∧ validRelationHead data = true := by
  unfold create at h
  split at h
  · rename_i hv
    cases h
    exact ⟨rfl, hv⟩
  · cases h

end ProgramChildRelationHead

variable {head : ProgramChildRelationHead}

/-- A valid head does not count more rows than changes. -/
theorem count_le_epoch (h : validRelationHead head = true) : head.count ≤ head.epoch := by
  unfold validRelationHead at h
  simp only [Bool.and_eq_true, decide_eq_true_eq] at h
  exact h.1.1.1.1.1.2

variable {storedHead : Option ProgramChildRelationHead}

theorem relationApplied_applied {existing : Option ProgramChildRelation}
    {row : ProgramChildRelation}
    (h : (relationApplied existing storedHead row head).status = .applied) :
    relationApplied existing storedHead row head = ⟨.applied, .none, some row, some head⟩
      ∧ validRelationHead head = true := by
  unfold relationApplied at h ⊢
  cases hr : row.create with
  | none =>
    rw [hr] at h
    cases h
  | some row' =>
    cases hhd : head.create with
    | none =>
      rw [hr, hhd] at h
      cases h
    | some head' =>
      obtain ⟨rfl, -⟩ := create_eq_some hr
      obtain ⟨rfl, hv⟩ := ProgramChildRelationHead.create_eq_some hhd
      exact ⟨rfl, hv⟩

/-- A row that a plan adds, on top of a head. -/
structure RowAdded (ownerScope parentRunId : String) (parent : ProgramRunRecord)
    (journal : ProgramJournalRecord) (head : ProgramChildRelationHead)
    (row : ProgramChildRelation) (newHead : ProgramChildRelationHead) : Prop where
  row_eq : row = ⟨ownerScope, parentRunId, head.count, row.child, 1⟩
  isOpen : row.isOpen = true
  closed : head.closed = false
  count : head.count ≠ BitVec.allOnes 64
  epoch : head.epoch ≠ BitVec.allOnes 64
  parent_eq : row.child.invocation.parentRunId = parent.logicalRunId
  running : parent.continuation.state = .running
  admits : childRelationInsertAdmits parent.remainingBudget journal.inflightReservation
    head.committedBudget row.child.invocation.grantedBudget = some newHead.committedBudget
  head_eq : newHead = { head with
    epoch := head.epoch + 1, count := head.count + 1, openCount := head.openCount + 1
    committedBudget := newHead.committedBudget }

/-- A row that a plan changes. -/
structure RowChanged (head : ProgramChildRelationHead) (old row : ProgramChildRelation)
    (newHead : ProgramChildRelationHead) : Prop where
  row_eq : row = { old with child := row.child, rowVersion := old.rowVersion + 1 }
  metadata : sameChildMetadata old.child row.child = true
  isOpen : old.isOpen = true
  dispatch : head.closed = true →
    ¬(old.child.state = .publishing ∧ row.child.state = .dispatched)
  head_eq : newHead = { head with
    epoch := head.epoch + 1
    openCount := if old.isOpen && !row.isOpen then head.openCount - 1 else head.openCount }
  valid : validRelationHead newHead = true

variable {child : ProgramChildRecord} {ownerScope parentRunId : String} {run : ProgramRunRecord}

theorem planRelationAdd_applied {journal : ProgramJournalRecord}
    (hc : relationChildIsOpen child.state = true)
    (h : (planRelationAdd ownerScope parentRunId run journal head storedHead child).status
      = .applied) :
    ∃ row newHead, planRelationAdd ownerScope parentRunId run journal head storedHead child
        = ⟨.applied, .none, some row, some newHead⟩
      ∧ row.child = child ∧ RowAdded ownerScope parentRunId run journal head row newHead := by
  unfold planRelationAdd at h ⊢
  split at h
  · cases h
  rename_i hcl
  rw [if_neg hcl]
  split at h
  · cases h
  rename_i hr
  rw [if_neg hr]
  split at h
  · cases h
  rename_i hp
  rw [if_neg hp]
  split at h
  · cases h
  rename_i aggregate hadm
  split at h
  · cases h
  rename_i hm
  rw [if_neg hm]
  obtain ⟨heq, -⟩ := relationApplied_applied h
  rw [not_or] at hm
  refine ⟨_, _, heq, rfl, rfl, hc, Bool.eq_false_iff.mpr hcl, hm.1, hm.2, ?_, ?_,
    hadm, rfl⟩
  · rw [not_or, not_not] at hp
    exact hp.1
  · exact not_not.mp hr

variable {old : ProgramChildRelation} {advance : Bool}

/-- What an applied plan does to the row and the head. -/
theorem planRelationAdvance_applied
    (h : (planRelationAdvance run head storedHead old child advance).status = .applied) :
    ∃ row newHead, planRelationAdvance run head storedHead old child advance
        = ⟨.applied, .none, some row, some newHead⟩
      ∧ RowChanged head old row newHead := by
  unfold planRelationAdvance at h ⊢
  split at h
  · cases h
  rename_i hm
  rw [if_neg hm]
  split at h
  · cases h
  rename_i hadvance
  rw [if_neg hadvance]
  split at h
  · cases h
  rename_i hcl
  rw [if_neg hcl]
  split at h
  · cases h
  rename_i hr
  rw [if_neg hr]
  obtain ⟨heq, hv⟩ := relationApplied_applied h
  have hpublishing : old.child.state = .publishing := by
    simp only [Bool.not_eq_true', Bool.not_eq_false, Bool.and_eq_true,
      decide_eq_true_eq] at hadvance
    exact hadvance.1.2
  have hop : old.isOpen = true := by
    unfold ProgramChildRelation.isOpen
    rw [hpublishing]
    rfl
  refine ⟨_, _, heq, rfl, ?_, hop, fun hc => absurd hc hcl, ?_, hv⟩
  · unfold sameChildMetadata
    dsimp only
    rw [decide_eq_true rfl, decide_eq_true rfl, decide_eq_true rfl, decide_eq_true rfl]
    rfl
  · have hn : ({ old with
        child := { old.child with state := .dispatched }
        rowVersion := old.rowVersion + 1 } : ProgramChildRelation).isOpen = true := rfl
    rw [hn]
    simp only [Bool.not_true, Bool.and_false, Bool.false_eq_true, if_false]

variable {ids : Identities} {next : ProgramChildRecord} {reads : TransitionReads}
  {pending : Option ProgramRunRecord}

theorem planRelationChange_applied
    (hmt : sameChildMetadata old.child next = true) (hop : old.isOpen = true)
    (hd : head.closed = true → ¬(old.child.state = .publishing ∧ next.state = .dispatched))
    (h : (planRelationChange ids reads ownerScope parentRunId head old next pending).status
      = .applied) :
    ∃ row newHead, planRelationChange ids reads ownerScope parentRunId head old next pending
        = ⟨.applied, .none, some row, some newHead⟩
      ∧ RowChanged head old row newHead := by
  unfold planRelationChange at h ⊢
  split at h
  · cases h
  rename_i hm
  rw [if_neg hm]
  split at h
  · cases h
  rename_i row hr
  split at h
  · cases h
  · cases h
  · obtain ⟨rfl, -⟩ := create_eq_some hr
    obtain ⟨heq, hv⟩ := relationApplied_applied h
    exact ⟨_, _, heq, rfl, hmt, hop, hd, rfl, hv⟩

variable {parent : Option (ProgramRunRecord × ProgramJournalRecord)}

/-- A refusal of a dispatch covers the closed heads. -/
theorem closed_of_dispatchRefusal
    (h : dispatchRefusal parent head old next = none) (hcl : head.closed = true) :
    ¬(old.child.state = .publishing ∧ next.state = .dispatched) := by
  intro hd
  unfold dispatchRefusal at h
  rw [if_pos hd] at h
  split at h
  · cases h
  · rw [if_pos hcl] at h
    cases h

variable {fence : BitVec 64} {version : Option (BitVec 64)}

theorem metadata_of_updateConflict {childWrites : Bool}
    (h : updateConflict parent childWrites fence version old next = none) :
    sameChildMetadata old.child next = true := by
  unfold updateConflict at h
  split at h
  · cases h
  split at h
  · cases h
  split at h
  · cases h
  rename_i hm
  exact Bool.not_eq_false _ ▸ fun hf => hm (by rw [hf]; rfl)

variable {plan : RelationPlan}

/-- **What an applied insert is**: a row that was added, or dispatched. -/
theorem planRelationInsert_applied
    (h : planRelationInsert ids reads ownerScope parentRunId fence child advance = some plan)
    (happ : plan.status = .applied) :
    ∃ run journal head row newHead,
      activeParentHead ids reads ownerScope parentRunId = some (some (run, journal))
        ∧ relationHeadOrEmpty (reads.relationHead parentRunId) ownerScope parentRunId = some head
        ∧ plan = ⟨.applied, .none, some row, some newHead⟩
        ∧ ((reads.relationRow parentRunId row.child.childRunId = none
            ∧ RowAdded ownerScope parentRunId run journal head row newHead)
          ∨ ∃ old, reads.relationRow parentRunId child.childRunId = some old
            ∧ RowChanged head old row newHead) := by
  unfold planRelationInsert at h
  simp only [Option.bind_eq_bind, Option.bind_eq_some_iff] at h
  obtain ⟨parent, hp, h⟩ := h
  split at h
  · cases h
    cases happ
  rename_i hc
  simp only [Bool.or_eq_true, not_or] at hc
  have hop : relationChildIsOpen child.state = true := by
    cases hst : relationChildIsOpen child.state with
    | true => rfl
    | false => exact absurd (by rw [hst]; rfl) hc.1.1
  split at h
  · cases h
    cases happ
  rename_i run journal
  split at h
  · cases h
    cases happ
  rw [Option.map_eq_some_iff] at h
  obtain ⟨head, hhd, rfl⟩ := h
  split at happ
  · rename_i old hold
    obtain ⟨row, newHead, heq, hchd⟩ := planRelationAdvance_applied happ
    exact ⟨run, journal, head, row, newHead, hp, hhd, heq, .inr ⟨old, hold, hchd⟩⟩
  · rename_i hn
    obtain ⟨row, newHead, heq, rfl, had⟩ := planRelationAdd_applied hop happ
    exact ⟨run, journal, head, row, newHead, hp, hhd, heq, .inl ⟨hn, had⟩⟩

/-- **What an applied update is**: a row that was changed. -/
theorem planRelationUpdate_applied
    (h : planRelationUpdate ids reads ownerScope parentRunId fence version next pending = some plan)
    (happ : plan.status = .applied) :
    ∃ head old row newHead, reads.relationHead parentRunId = some head
      ∧ reads.relationRow parentRunId next.childRunId = some old
      ∧ plan = ⟨.applied, .none, some row, some newHead⟩ ∧ RowChanged head old row newHead := by
  unfold planRelationUpdate at h
  simp only [bind_eq_bind, bind_eq_some_iff] at h
  obtain ⟨parent, -, h⟩ := h
  split at h
  · rename_i old head hold hhd
    split at h
    · cases h
      cases happ
    rename_i hconflict
    split at h
    · cases h
      cases happ
    split at h
    · cases h
      cases happ
    rename_i hinvalid
    rw [bind_eq_some_iff] at h
    obtain ⟨writer, -, h⟩ := h
    split at h
    · cases h
      cases happ
    rename_i hwr
    cases h
    rw [or_eq_none_iff] at hwr
    have hop : old.isOpen = true := by
      cases hst : old.isOpen with
      | true => rfl
      | false => exact absurd (by rw [hst]; rfl) hinvalid
    obtain ⟨row, newHead, heq, hchd⟩ := planRelationChange_applied
      (metadata_of_updateConflict hconflict) hop (closed_of_dispatchRefusal hwr.2) happ
    exact ⟨head, old, row, newHead, hhd, hold, heq, hchd⟩
  · cases h
    cases happ

end NeoGraph.Program
