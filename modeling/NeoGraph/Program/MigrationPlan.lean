import NeoGraph.CanonicalJson.Compare
import NeoGraph.Program.PendingStorage

/-!
# Migration plans

A migration plan says whether the runs of one program version may move to
another: a class of compatibility, the blockers that stand in the way, the
diagnostics behind them and the mappings that were found. A plan is complete:
only a compatible plan has no blockers, and an incompatible one has a
diagnostic, whichever of the two its data left out.

Plans are stored in three versions. The current and the previous one have the
same members, and their id is the hash of these. A legacy record, of version
0 or marked as one, may lack diagnostics and mappings, may name a retired
class, and has the hash of the other members as its id.
-/

namespace NeoGraph.Program.Migration

open CanonicalJson Pending

/-! ## Classes and dimensions -/

/-- What a migration can do with the runs there are. -/
inductive MigrationCompatibility where
  | newRunsOnly
  | forkCompatible
  | drainOnly
  | operatorReconciliation
  | blocked
  | ownerMismatch
  | compilerMismatch
  | registryMismatch
  | materializationMismatch
deriving DecidableEq, Repr

namespace MigrationCompatibility

def text : MigrationCompatibility → Bytes
  | newRunsOnly => ascii "new_runs_only"
  | forkCompatible => ascii "fork_compatible"
  | drainOnly => ascii "drain_only"
  | operatorReconciliation => ascii "operator_reconciliation"
  | blocked => ascii "blocked"
  | ownerMismatch => ascii "owner_mismatch"
  | compilerMismatch => ascii "compiler_mismatch"
  | registryMismatch => ascii "registry_mismatch"
  | materializationMismatch => ascii "materialization_mismatch"

/-- The classes a plan has. -/
def classes : List MigrationCompatibility :=
  [newRunsOnly, forkCompatible, drainOnly, operatorReconciliation, blocked]

/-- The retired classes. They say no more than that a plan is blocked. -/
def aliases : List MigrationCompatibility :=
  [ownerMismatch, compilerMismatch, registryMismatch, materializationMismatch]

/-- The names of old plans for what is blocked now. -/
def foldAlias (c : MigrationCompatibility) : MigrationCompatibility :=
  if c ∈ aliases then blocked else c

end MigrationCompatibility

local instance lawfulBEq_bytes : LawfulBEq Bytes := inferInstance

/-- The value of a name. -/
def compatibilityFromString (value : Bytes) (allowLegacyAliases : Bool) :
    Except Exn MigrationCompatibility :=
  match MigrationCompatibility.classes.find? fun c => c.text = value with
  | some c => .ok c
  | none =>
    if allowLegacyAliases && value ∈ MigrationCompatibility.aliases.map MigrationCompatibility.text
    then .ok .blocked
    else .error (.invalidArgument ("Unknown MigrationPlan compatibility: " ++ bytesText value))

/-- What two versions are compared in. -/
inductive MigrationDimension where
  | channels
  | continuation
  | pendingInput
  | pendingEffect
  | retry
  | cancellation
  | interrupt
  | budget
  | authority
  | checkpoint
  | journal
  | effects
  | caches
  | output
  | compiler
  | registry
  | materialization
  | contract
  | recovery
  | schema
  | reducers
  | barriers
  | pendingWork
  | pendingEvents
  | subscriptions
  | resume
  | nodeLocal
  | reconciliation
  | terminalOutput
  | checkpointLineage
deriving DecidableEq, Repr

namespace MigrationDimension

def text : MigrationDimension → Bytes
  | channels => ascii "channels"
  | continuation => ascii "continuation"
  | pendingInput => ascii "pending_input"
  | pendingEffect => ascii "pending_effect"
  | retry => ascii "retry"
  | cancellation => ascii "cancellation"
  | interrupt => ascii "interrupt"
  | budget => ascii "budget"
  | authority => ascii "authority"
  | checkpoint => ascii "checkpoint"
  | journal => ascii "journal"
  | effects => ascii "effects"
  | caches => ascii "caches"
  | output => ascii "output"
  | compiler => ascii "compiler"
  | registry => ascii "registry"
  | materialization => ascii "materialization"
  | contract => ascii "contract"
  | recovery => ascii "recovery"
  | schema => ascii "schema"
  | reducers => ascii "reducers"
  | barriers => ascii "barriers"
  | pendingWork => ascii "pending_work"
  | pendingEvents => ascii "pending_events"
  | subscriptions => ascii "subscriptions"
  | resume => ascii "resume"
  | nodeLocal => ascii "node_local"
  | reconciliation => ascii "reconciliation"
  | terminalOutput => ascii "terminal_output"
  | checkpointLineage => ascii "checkpoint_lineage"

def all : List MigrationDimension :=
  [channels, continuation, pendingInput, pendingEffect, retry, cancellation, interrupt, budget,
    authority, checkpoint, journal, effects, caches, output, compiler, registry, materialization,
    contract, recovery, schema, reducers, barriers, pendingWork, pendingEvents, subscriptions,
    resume, nodeLocal, reconciliation, terminalOutput, checkpointLineage]

end MigrationDimension

def migrationDimensionFromString (value : Bytes) : Except Exn MigrationDimension :=
  match MigrationDimension.all.find? fun d => d.text = value with
  | some d => .ok d
  | none => .error (.invalidArgument ("Unknown migration dimension: " ++ bytesText value))

/-! ## The data of a plan -/

/-- Why a migration is not compatible. -/
structure MigrationDiagnostic where
  dimension : MigrationDimension
  code : Bytes
  message : Bytes
  source : Json Bytes
  target : Json Bytes

/-- How a part of the source becomes a part of the target. -/
structure MigrationMapping where
  dimension : MigrationDimension
  rule : Bytes
  source : Json Bytes
  target : Json Bytes

/-- The content of a plan. -/
structure MigrationPlanData where
  sourceVersionId : Bytes
  targetVersionId : Bytes
  ownerScope : Bytes
  compatibility : MigrationCompatibility
  blockers : List Bytes
  diagnostics : List MigrationDiagnostic
  mappings : List MigrationMapping

/-- The documents of the parts. -/
def encodeDiagnostic (d : MigrationDiagnostic) : Json Bytes :=
  .obj [(ascii "dimension", .str d.dimension.text), (ascii "code", .str d.code),
    (ascii "message", .str d.message), (ascii "source", d.source), (ascii "target", d.target)]

def encodeMapping (m : MigrationMapping) : Json Bytes :=
  .obj [(ascii "dimension", .str m.dimension.text), (ascii "rule", .str m.rule),
    (ascii "source", m.source), (ascii "target", m.target)]

def planFormat : Bytes := ascii "neograph-program-migration-plan"

def storageSchemaVersion : UInt32 := 2

def previousStorageSchemaVersion : UInt32 := 1

def legacyStorageSchemaVersion : UInt32 := 0

/-- The members every version has, with the class as it is written. -/
def legacyBodyFor (data : MigrationPlanData) (compatibility : Bytes) (version : UInt32) :
    List (Bytes × Json Bytes) :=
  [(ascii "format", .str planFormat), (ascii "storage_schema_version", .uint version.toUInt64),
    (ascii "source_version_id", .str data.sourceVersionId),
    (ascii "target_version_id", .str data.targetVersionId),
    (ascii "owner_scope", .str data.ownerScope), (ascii "compatibility", .str compatibility),
    (ascii "blockers", .arr (data.blockers.map .str))]

/-- The members of the document of a plan. -/
def bodyFor (data : MigrationPlanData) (version : UInt32) : List (Bytes × Json Bytes) :=
  legacyBodyFor data data.compatibility.text version
    ++ [(ascii "diagnostics", .arr (data.diagnostics.map encodeDiagnostic)),
      (ascii "mappings", .arr (data.mappings.map encodeMapping))]

/-- What is stored: the members, and the id behind them. -/
def record (data : MigrationPlanData) (version : UInt32) (id : Bytes) :
    List (Bytes × Json Bytes) :=
  Json.put (bodyFor data version) (ascii "id") (.str id)

/-! ## Complete data -/

/-- The data is in one of the current classes and has its blockers and
diagnostics. -/
structure MigrationPlanData.Complete (data : MigrationPlanData) : Prop where
  compatibility : data.compatibility.foldAlias = data.compatibility
  compatible : data.compatibility = .forkCompatible → data.blockers = []
  explained : data.compatibility ≠ .forkCompatible → data.blockers ≠ [] ∧ data.diagnostics ≠ []

/-- The blockers that are told by diagnostics. -/
def blockersFrom : List MigrationDiagnostic → List Bytes
  | [] => [ascii "compatibility"]
  | diagnostics => diagnostics.map (·.code)

/-- The diagnostic of a blocker that has none. -/
def explicitHandling (blocker : Bytes) : MigrationDiagnostic :=
  ⟨.recovery, blocker, ascii "Migration requires explicit handling", .null, .null⟩

/-- The data with a current class, and blockers and diagnostics made from
each other. -/
def MigrationPlanData.completed (data : MigrationPlanData) : MigrationPlanData :=
  let compatibility := data.compatibility.foldAlias
  if compatibility = .forkCompatible then { data with compatibility }
  else
    let blockers := if data.blockers.isEmpty then blockersFrom data.diagnostics else data.blockers
    let diagnostics :=
      if data.diagnostics.isEmpty then blockers.map explicitHandling else data.diagnostics
    { data with compatibility, blockers, diagnostics }

theorem foldAlias_foldAlias (c : MigrationCompatibility) : c.foldAlias.foldAlias = c.foldAlias := by
  cases c <;> rfl

theorem blockersFrom_ne_nil (diagnostics : List MigrationDiagnostic) :
    blockersFrom diagnostics ≠ [] := by
  cases diagnostics <;> exact List.cons_ne_nil _ _

variable {data : MigrationPlanData}

/-- A plan that is completed says why it is blocked. -/
theorem completed_complete
    (h : data.compatibility.foldAlias = .forkCompatible → data.blockers = []) :
    data.completed.Complete := by
  unfold MigrationPlanData.completed
  by_cases hf : data.compatibility.foldAlias = .forkCompatible
  · rw [if_pos hf]
    exact ⟨foldAlias_foldAlias _, fun _ => h hf, fun hne => absurd hf hne⟩
  rw [if_neg hf]
  have hb : (if data.blockers.isEmpty then blockersFrom data.diagnostics
      else data.blockers) ≠ [] := by
    split
    · exact blockersFrom_ne_nil _
    · rename_i he
      exact fun hn => he (List.isEmpty_iff.mpr hn)
  refine ⟨foldAlias_foldAlias _, fun heq => absurd heq hf, fun _ => ⟨hb, ?_⟩⟩
  dsimp only
  split
  · exact fun hn => hb (List.map_eq_nil_iff.mp hn)
  · rename_i he
    exact fun hn => he (List.isEmpty_iff.mpr hn)

/-- Complete data stays as it is. -/
theorem MigrationPlanData.Complete.completed_eq (h : data.Complete) : data.completed = data := by
  unfold MigrationPlanData.completed
  rw [h.compatibility]
  by_cases hf : data.compatibility = .forkCompatible
  · rw [if_pos hf]
  obtain ⟨hb, hd⟩ := h.explained hf
  rw [if_neg hf]
  dsimp only
  rw [if_neg (by simpa using hb), if_neg (by simpa using hd)]

/-! ## Plans -/

/-- A migration plan. -/
structure MigrationPlan where
  data : MigrationPlanData
  complete : data.Complete
  schemaVersion : UInt32
  id : Bytes

section Plans

variable (appendFloat : UInt64 → Except Exn Bytes)
  (parseText : Bytes → Option (Json Bytes))
  (sha256Identity : String → Bytes → Bytes)

/-- The plan of complete data, under the id of its members. -/
def planOf (data : MigrationPlanData) (complete : data.Complete) (schemaVersion : UInt32) :
    Except Exn MigrationPlan := do
  let body ← canonicalJsonBytes appendFloat (.obj (bodyFor data schemaVersion))
  .ok { data, complete, schemaVersion, id := sha256Identity "program-migration-plan/v1" body }

/-- **A plan is refused** by the first check that fails. -/
def validateData (data : MigrationPlanData) : Except Exn Unit := do
  require (CanonicalJson.isSha256Identity data.sourceVersionId
      && CanonicalJson.isSha256Identity data.targetVersionId)
    "Migration version ids must be sha256 identities"
  validateToken data.ownerScope "Migration owner scope"
  forEach data.blockers fun blocker => validateToken blocker "Migration blocker"
  forEach data.diagnostics fun d => do
    validateToken d.code "Migration diagnostic code"
    validateToken d.message "Migration diagnostic message"
  forEach data.mappings fun m => validateToken m.rule "Migration mapping rule"

/-- **A plan is made** of data that passes the checks. -/
def create (data : MigrationPlanData) : Except Exn MigrationPlan := do
  validateData data
  if h : data.compatibility.foldAlias = .forkCompatible → data.blockers = [] then
    planOf appendFloat sha256Identity data.completed (completed_complete h) storageSchemaVersion
  else .error (.invalidArgument "Compatible MigrationPlan cannot contain blockers")

/-- The text of a plan. -/
def MigrationPlan.serializeCanonical (plan : MigrationPlan) : Except Exn Bytes :=
  canonicalJsonBytes appendFloat (.obj (record plan.data plan.schemaVersion plan.id))

/-! ## Reading -/

/-- The values of fields that are of the right kind. -/
def textOf : Option (Json Bytes) → Option Bytes
  | some (.str s) => some s
  | _ => none

def unsignedOf : Option (Json Bytes) → Option UInt64
  | some (.uint n) => some n
  | _ => none

def arrayOf : Option (Json Bytes) → Option (List (Json Bytes))
  | some (.arr items) => some items
  | _ => none

/-- A part that must be there. -/
def orInvalid {α : Type} (part : Option α) (message : String) : Except Exn α :=
  match part with
  | some a => .ok a
  | none => .error (.invalidArgument message)

def requiredString (value : Json Bytes) (name : String) : Except Exn Bytes :=
  orInvalid ((textOf (value.get? (ascii name))).filter fun s => !s.isEmpty)
    ("MigrationPlan field '" ++ name ++ "' must be a nonempty string")

/-- Readers of the parts. -/
def parseDimension (value : Json Bytes) : Except Exn MigrationDimension := do
  let text ← orInvalid (textOf (some value)) "Migration dimension must be a string"
  migrationDimensionFromString text

/-- A diagnostic as it is read back. -/
def parseDiagnostic (value : Json Bytes) : Except Exn MigrationDiagnostic := do
  require value.isObject "Migration diagnostic must be an object"
  rejectUnknownFields value "Migration diagnostic"
    [ascii "dimension", ascii "code", ascii "message", ascii "source", ascii "target"]
  require (value.contains (ascii "source") && value.contains (ascii "target"))
    "Migration diagnostic requires source and target values"
  let dimension ← atKey value "dimension"
  let dimension ← parseDimension dimension
  let code ← requiredString value "code"
  let message ← requiredString value "message"
  let source ← atKey value "source"
  let target ← atKey value "target"
  .ok ⟨dimension, code, message, source, target⟩

/-- A mapping as it is read back. -/
def parseMapping (value : Json Bytes) : Except Exn MigrationMapping := do
  require value.isObject "Migration mapping must be an object"
  rejectUnknownFields value "Migration mapping"
    [ascii "dimension", ascii "rule", ascii "source", ascii "target"]
  require (value.contains (ascii "source") && value.contains (ascii "target"))
    "Migration mapping requires source and target values"
  let dimension ← atKey value "dimension"
  let dimension ← parseDimension dimension
  let rule ← requiredString value "rule"
  let source ← atKey value "source"
  let target ← atKey value "target"
  .ok ⟨dimension, rule, source, target⟩

def parseBlocker (value : Json Bytes) : Except Exn Bytes :=
  orInvalid ((textOf (some value)).filter fun s => !s.isEmpty)
    "Stored MigrationPlan blocker is not a nonempty string"

def planFields : List Bytes :=
  [ascii "format", ascii "storage_schema_version", ascii "legacy_schema_version",
    ascii "source_version_id", ascii "target_version_id", ascii "owner_scope",
    ascii "compatibility", ascii "blockers", ascii "diagnostics", ascii "mappings", ascii "id"]

/-- The version of a stored plan, cut to 32 bits, and whether it is a legacy
record. -/
structure StoredVersion where
  version : UInt32
  legacy : Bool

/-- The form a document is in. -/
def storedVersion (value : Json Bytes) : Except Exn StoredVersion := do
  require (textOf (value.get? (ascii "format")) = some planFormat)
    "Stored MigrationPlan format is unsupported"
  let number ← orInvalid (unsignedOf (value.get? (ascii "storage_schema_version")))
    "Stored MigrationPlan schema version is missing"
  let version := number.toUInt32
  let marked : Bool := (unsignedOf (value.get? (ascii "legacy_schema_version"))).map
    UInt64.toUInt32 = some legacyStorageSchemaVersion
  let legacy := version = legacyStorageSchemaVersion || marked
  require (legacy || version = previousStorageSchemaVersion || version = storageSchemaVersion)
    "Stored MigrationPlan schema version is unsupported"
  require (!(legacy && value.contains (ascii "legacy_schema_version") && !marked))
    "Stored MigrationPlan legacy schema is unsupported"
  .ok { version, legacy }

/-- A list that may be left out. -/
def storedList {α : Type} (value : Json Bytes) (name : String)
    (parseItem : Json Bytes → Except Exn α) : Except Exn (List α) :=
  match value.get? (ascii name) with
  | none => .ok []
  | some items => do
    let items ← orInvalid (arrayOf (some items))
      ("Stored MigrationPlan " ++ name ++ " must be an array")
    items.mapM parseItem

/-- The data of a stored plan, and its class as it was written. -/
structure StoredData where
  compatibility : Bytes
  data : MigrationPlanData

/-- What a document says, in any form. -/
def storedData (value : Json Bytes) (legacy : Bool) : Except Exn StoredData := do
  let stored ← orInvalid (textOf (value.get? (ascii "compatibility")))
    "Stored MigrationPlan compatibility is missing"
  let items ← orInvalid (arrayOf (value.get? (ascii "blockers")))
    "Stored MigrationPlan blockers must be an array"
  let hasDiagnostics := value.contains (ascii "diagnostics")
  let hasMappings := value.contains (ascii "mappings")
  require (legacy || (hasDiagnostics && hasMappings))
    "Stored MigrationPlan requires diagnostics and mappings"
  require (!legacy || hasDiagnostics = hasMappings)
    "Stored legacy MigrationPlan must omit both diagnostics and mappings"
  let blockers ← items.mapM parseBlocker
  let diagnostics ← storedList value "diagnostics" parseDiagnostic
  let mappings ← storedList value "mappings" parseMapping
  let sourceVersionId ← requiredString value "source_version_id"
  let targetVersionId ← requiredString value "target_version_id"
  let ownerScope ← requiredString value "owner_scope"
  let compatibility ← compatibilityFromString stored legacy
  .ok ⟨stored, ⟨sourceVersionId, targetVersionId, ownerScope, compatibility, blockers,
    diagnostics, mappings⟩⟩

/-- The plan that was stored, in the version it was stored in. -/
def storedPlan (current : MigrationPlan) (version : UInt32) : Except Exn MigrationPlan :=
  if version = storageSchemaVersion then .ok current
  else planOf appendFloat sha256Identity current.data current.complete version

/-- The id a stored plan must have. -/
def expectedId (stored : StoredVersion) (read : StoredData) (plan : MigrationPlan) :
    Except Exn Bytes :=
  if stored.legacy then do
    let body ← canonicalJsonBytes appendFloat
      (.obj (legacyBodyFor read.data read.compatibility stored.version))
    .ok (sha256Identity "program-migration-plan/v1" body)
  else .ok plan.id

/-- **A stored plan is read.** -/
def parse (bytes : Bytes) : Except Exn MigrationPlan := do
  let value ← parseJsonStrict appendFloat parseText bytes
  require value.isObject "Stored MigrationPlan must be an object"
  rejectUnknownFields value "Stored MigrationPlan" planFields
  let stored ← storedVersion value
  let read ← storedData value stored.legacy
  let current ← create appendFloat sha256Identity read.data
  let result ← storedPlan appendFloat sha256Identity current stored.version
  let id ← orInvalid (textOf (value.get? (ascii "id"))) "Stored MigrationPlan identity is missing"
  let expected ← expectedId appendFloat sha256Identity stored read result
  require (id = expected)
    (if stored.legacy then "Stored legacy MigrationPlan identity does not match its content"
      else "Stored MigrationPlan identity does not match its content")
  .ok result

end Plans

end NeoGraph.Program.Migration
