import Mathlib
import NeoGraph.Basic
import NeoGraph.Lib.SortedMap

/-!
# The evidence ledger

Research workers share one ledger file. A worker leases a task for a while,
renews the lease, and publishes one artifact under it; leases that were let
expire are cleared for the next worker. A lease may be charged to a *board*,
which limits how many leases are live at once and what the leased and
published tasks cost together.

Every call is one transaction: it answers and leaves the next state of the
file, or throws and leaves the file as it was. Every call also brings its
own clock reading.
-/

namespace NeoGraph.Research

variable {β : Type}

/-- The largest 64-bit unsigned number. -/
def uint64Max : ℕ := 2 ^ 64 - 1

/-- The largest 32-bit unsigned number. -/
def uint32Max : ℕ := 2 ^ 32 - 1

/-- The largest number of the storage format. -/
def sqliteIntegerMax : ℕ := 2 ^ 63 - 1

/-! ## Records -/

/-- How far a task is. -/
inductive ResearchTaskState where
  | ready
  | leased
  | published
  | cancelled
deriving DecidableEq, Repr

/-- One unit of work. The cost is what `task_cost` reads off the
requirements: a positive number of 64 bits. -/
structure ResearchTaskSpec where
  taskId : String
  sourceId : String
  claimId : String
  ownerScope : String
  leaseDurationMs : ℕ
  costMicrounits : ℕ
  cost_pos : 0 < costMicrounits
  cost_le : costMicrounits ≤ uint64Max
deriving DecidableEq

/-- A task with its current lease or its terminal state. -/
structure ResearchTask where
  spec : ResearchTaskSpec
  state : ResearchTaskState := .ready
  generation : ℕ := 0
  leaseId : String := ""
  leasedBy : String := ""
  leaseExpiresAtUnixMs : ℕ := 0
  boardId : String := ""
  publishedArtifactId : String := ""
deriving DecidableEq

/-- A worker asks for a task. -/
structure ResearchLeaseRequest where
  taskId : String
  leaseId : String
  workerId : String
  ownerScope : String
  nowUnixMs : ℕ
  boardId : String := ""
  boardMaxActiveLeases : UInt32 := 0
  boardMaxCostMicrounits : ℕ := uint64Max
  costMicrounits : ℕ := 0
deriving DecidableEq

/-- The proof that a worker owns a generation of a task. -/
structure ResearchTaskLease where
  taskId : String
  leaseId : String
  workerId : String
  ownerScope : String
  generation : ℕ
  expiresAtUnixMs : ℕ
  boardId : String
deriving DecidableEq

/-- The version of a source that artifacts are bound to. -/
structure SourceIdentity where
  version : String
  contentHash : String
deriving DecidableEq

/-- A typed result. The members that no lease or task is compared with stand
together in `content`. -/
structure EvidenceArtifact (β : Type) where
  schemaVersion : ℕ := 1
  artifactId : String
  taskId : String
  sourceId : String
  claimId : String
  ownerScope : String
  sourceVersion : String
  sourceContentHash : String
  evidenceLocator : String
  observation : String
  searchedScope : String
  workerId : String
  modelId : String
  toolId : String
  programVersionId : String
  programRunId : String
  content : β
deriving DecidableEq

/-- The budget a board was bound to when it was first used. -/
structure BoardBudget where
  maxActiveLeases : ℕ
  maxCostMicrounits : ℕ
deriving DecidableEq

/-- What became of evidence that was to be published. -/
inductive EvidencePublishResult where
  | published
  | duplicate
deriving DecidableEq, Repr

/-- The tables of the file: tasks, artifacts and sources by their ids, boards
by owner scope and id. -/
structure EvidenceLedger (β : Type) where
  tasks : SortedMap String ResearchTask := .empty
  artifacts : SortedMap String (EvidenceArtifact β) := .empty
  sources : SortedMap String SourceIdentity := .empty
  boards : SortedMap (String ×ₗ String) BoardBudget := .empty

/-! ## Checks -/

/-- The precondition check of the ledger. -/
def require (condition : Bool) (message : String) : Except Exn Unit :=
  if condition then .ok () else .error (.invalidArgument message)

def requireNonempty (value name : String) : Except Exn Unit := do
  require (value ≠ "") (name ++ " must not be empty")
  require (value.utf8ByteSize ≤ 4096) (name ++ " exceeds 4096 bytes")

/-- A deadline must fit into 64 bits. -/
def checkedDeadline (now duration : ℕ) : Except Exn ℕ :=
  if duration > uint64Max - now then
    .error (.invalidArgument "research task lease deadline overflows")
  else .ok (now + duration)

/-- Numbers that are stored must fit the storage format. -/
def bindInt64 (value : ℕ) : Except Exn Unit :=
  require (value ≤ sqliteIntegerMax) "integer exceeds SQLite range"

/-- The lease that a task records. -/
def asLease (task : ResearchTask) : ResearchTaskLease where
  taskId := task.spec.taskId
  leaseId := task.leaseId
  workerId := task.leasedBy
  ownerScope := task.spec.ownerScope
  generation := task.generation
  expiresAtUnixMs := task.leaseExpiresAtUnixMs
  boardId := task.boardId

/-- A task whose lease ran out is ready again. -/
def clearExpiredLease (task : ResearchTask) (now : ℕ) : ResearchTask :=
  if task.state = .leased ∧ task.leaseExpiresAtUnixMs ≤ now then
    { task with state := .ready, leaseId := "", leasedBy := "", leaseExpiresAtUnixMs := 0 }
  else task

/-- A request without a limit is stored as the largest number there is. -/
def boardCostLimit (value : ℕ) : Except Exn ℕ :=
  if value = uint64Max then .ok sqliteIntegerMax
  else do
    require (value ≤ sqliteIntegerMax) "board cost limit exceeds SQLite integer range"
    .ok value

/-- A lease names the row of a task and the reading of a clock is before its
deadline: what renewing and publishing ask for. -/
def ownsLiveLease (task : ResearchTask) (lease : ResearchTaskLease) (now : ℕ) : Bool :=
  task.spec.ownerScope = lease.ownerScope ∧ task.state = .leased ∧ task.leaseId = lease.leaseId
    ∧ task.leasedBy = lease.workerId ∧ task.generation = lease.generation
    ∧ task.boardId = lease.boardId ∧ now < task.leaseExpiresAtUnixMs

namespace EvidenceLedger

/-! ## Boards -/

/-- What a board uses: its live leases, and the cost of its leased and
published tasks, each count held at the largest number of its type. -/
structure BoardUsage where
  active : ℕ := 0
  spent : ℕ := 0
deriving DecidableEq

/-- A lease of the task is live at a reading. -/
def isActive (task : ResearchTask) (now : ℕ) : Bool :=
  task.state = .leased ∧ now < task.leaseExpiresAtUnixMs

/-- One row of the board query. -/
def addUsage (ownerScope boardId : String) (now : ℕ) (usage : BoardUsage) (task : ResearchTask) :
    BoardUsage :=
  if task.spec.ownerScope ≠ ownerScope ∨ task.boardId ≠ boardId
      ∨ (task.state ≠ .published ∧ !isActive task now) then usage
  else
    { active := if isActive task now ∧ usage.active ≠ uint32Max then usage.active + 1
        else usage.active
      spent := if uint64Max - usage.spent < task.spec.costMicrounits then uint64Max
        else usage.spent + task.spec.costMicrounits }

/-- What a board has in use now. -/
def boardUsage (s : EvidenceLedger β) (ownerScope boardId : String) (now : ℕ) : BoardUsage :=
  (s.tasks.entries.map Prod.snd).foldl (addUsage ownerScope boardId now) {}

/-- The first use of a board records its budget; every later one must bring
the same. -/
def ensureBoard (s : EvidenceLedger β) (request : ResearchLeaseRequest) :
    Except Exn (EvidenceLedger β) := do
  requireNonempty request.boardId "board_id"
  require (0 < request.boardMaxActiveLeases.toNat) "board max_active_leases must be positive"
  let maxCost ← boardCostLimit request.boardMaxCostMicrounits
  match s.boards.find? (toLex (request.ownerScope, request.boardId)) with
  | some board =>
    if board.maxActiveLeases ≠ request.boardMaxActiveLeases.toNat
        ∨ board.maxCostMicrounits ≠ maxCost then
      .error (.invalidArgument "board_id is already bound to a different durable budget")
    else .ok s
  | none =>
    let board := { maxActiveLeases := request.boardMaxActiveLeases.toNat,
                   maxCostMicrounits := maxCost }
    .ok { s with boards := s.boards.insert (toLex (request.ownerScope, request.boardId)) board }

/-- The checks of a request that names a board. -/
def admitBoard (s : EvidenceLedger β) (request : ResearchLeaseRequest) (task : ResearchTask) :
    Except Exn (EvidenceLedger β) :=
  if request.boardId = "" then .ok s
  else do
    let s ← s.ensureBoard request
    require (request.costMicrounits = task.spec.costMicrounits)
      "board lease cost must match the immutable task cost"
    .ok s

/-- The board of a request has no room for it. -/
def boardIsFull (s : EvidenceLedger β) (request : ResearchLeaseRequest) : Bool :=
  if request.boardId = "" then false
  else
    let usage := s.boardUsage request.ownerScope request.boardId request.nowUnixMs
    usage.active ≥ request.boardMaxActiveLeases.toNat
      ∨ request.costMicrounits > request.boardMaxCostMicrounits
      ∨ usage.spent > request.boardMaxCostMicrounits - request.costMicrounits

/-! ## Calls -/

/-- A row is rewritten. -/
def writeTask (s : EvidenceLedger β) (task : ResearchTask) : Except Exn (EvidenceLedger β) := do
  bindInt64 task.generation
  bindInt64 task.leaseExpiresAtUnixMs
  .ok { s with tasks := s.tasks.insert task.spec.taskId task }

/-- A request takes a task that is free. -/
def grantLease (s : EvidenceLedger β) (request : ResearchLeaseRequest) (task : ResearchTask) :
    Except Exn (Option ResearchTaskLease × EvidenceLedger β) := do
  let deadline ← checkedDeadline request.nowUnixMs task.spec.leaseDurationMs
  let leased := { task with
    state := .leased
    generation := task.generation + 1
    leaseId := request.leaseId
    leasedBy := request.workerId
    leaseExpiresAtUnixMs := deadline
    boardId := request.boardId }
  let s ← s.writeTask leased
  .ok (some (asLease leased), s)

/-- A request for a task of its owner, once its board is admitted. -/
def leaseTask (s : EvidenceLedger β) (request : ResearchLeaseRequest) (task : ResearchTask) :
    Except Exn (Option ResearchTaskLease × EvidenceLedger β) :=
  if isActive task request.nowUnixMs ∧ task.leaseId = request.leaseId
      ∧ task.leasedBy = request.workerId ∧ task.boardId = request.boardId then
    .ok (some (asLease task), s)
  else
    let task := clearExpiredLease task request.nowUnixMs
    if task.state ≠ .ready then .ok (none, s)
    else if s.boardIsFull request then .ok (none, s)
    else s.grantLease request task

/-- **A worker gets a task**, within the limits of its board. -/
def acquireLease (s : EvidenceLedger β) (request : ResearchLeaseRequest) :
    Except Exn (Option ResearchTaskLease × EvidenceLedger β) := do
  requireNonempty request.taskId "lease task_id"
  requireNonempty request.leaseId "lease_id"
  requireNonempty request.workerId "lease worker_id"
  requireNonempty request.ownerScope "lease owner_scope"
  require (0 < request.nowUnixMs) "lease now_unix_ms must be explicit and positive"
  match s.tasks.find? request.taskId with
  | none => .ok (none, s)
  | some task =>
    if task.spec.ownerScope ≠ request.ownerScope then .ok (none, s)
    else do
      let s ← s.admitBoard request task
      s.leaseTask request task

/-- The worker of a lease asks for more time. -/
def renewLease (s : EvidenceLedger β) (lease : ResearchTaskLease) (now : ℕ) :
    Except Exn (Bool × EvidenceLedger β) := do
  requireNonempty lease.taskId "lease task_id"
  requireNonempty lease.leaseId "lease_id"
  requireNonempty lease.workerId "lease worker_id"
  requireNonempty lease.ownerScope "lease owner_scope"
  require (0 < now) "lease now_unix_ms must be explicit and positive"
  match s.tasks.find? lease.taskId with
  | none => .ok (false, s)
  | some task =>
    if ownsLiveLease task lease now then do
      let deadline ← checkedDeadline now task.spec.leaseDurationMs
      let s ← s.writeTask { task with leaseExpiresAtUnixMs := deadline }
      .ok (true, s)
    else .ok (false, s)

/-- The rows `expire_leases` selects. -/
def expiredTasks (s : EvidenceLedger β) (ownerScope : String) (now : ℕ) : List ResearchTask :=
  (s.tasks.entries.map Prod.snd).filter fun task =>
    task.spec.ownerScope = ownerScope ∧ task.state = .leased ∧ task.leaseExpiresAtUnixMs ≤ now

/-- The tasks whose leases ran out. -/
def expireLeases (s : EvidenceLedger β) (ownerScope : String) (now : ℕ) :
    Except Exn (List String × EvidenceLedger β) := do
  requireNonempty ownerScope "lease owner_scope"
  require (0 < now) "lease now_unix_ms must be explicit and positive"
  bindInt64 now
  let expired := s.expiredTasks ownerScope now
  let s ← expired.foldlM (fun s task => s.writeTask (clearExpiredLease task now)) s
  .ok (expired.map fun task => task.spec.taskId, s)

/-- The artifact of a task. -/
def loadTaskArtifact (s : EvidenceLedger β) (taskId : String) : Option (EvidenceArtifact β) :=
  (s.artifacts.entries.map Prod.snd).find? fun artifact => artifact.taskId = taskId

/-- The checks of an artifact against its task, source and lease. The checks
of the members that stand in `content` are `checkContent`. -/
def validateArtifact (checkContent : β → Except Exn Unit) (artifact : EvidenceArtifact β)
    (task : ResearchTask) (source : SourceIdentity) (lease : ResearchTaskLease) :
    Except Exn Unit := do
  require (artifact.schemaVersion = 1) "unsupported evidence artifact schema version"
  requireNonempty artifact.artifactId "artifact_id"
  require (artifact.taskId = task.spec.taskId) "artifact task_id does not match lease task"
  require (artifact.sourceId = task.spec.sourceId) "artifact source_id does not match task"
  require (artifact.claimId = task.spec.claimId) "artifact claim_id does not match task"
  require (artifact.ownerScope = task.spec.ownerScope) "artifact owner_scope does not match task"
  require (artifact.ownerScope = lease.ownerScope) "artifact owner_scope does not match lease"
  require (artifact.sourceVersion = source.version)
    "artifact source_version does not match admitted source"
  require (artifact.sourceContentHash = source.contentHash)
    "artifact source_content_hash does not match admitted source"
  requireNonempty artifact.evidenceLocator "artifact evidence_locator"
  requireNonempty artifact.observation "artifact observation"
  requireNonempty artifact.searchedScope "artifact searched_scope"
  requireNonempty artifact.workerId "artifact worker_id"
  require (artifact.workerId = lease.workerId) "artifact worker_id does not own lease"
  requireNonempty artifact.modelId "artifact model_id"
  requireNonempty artifact.toolId "artifact tool_id"
  requireNonempty artifact.programVersionId "artifact program_version_id"
  requireNonempty artifact.programRunId "artifact program_run_id"
  checkContent artifact.content

/-- The artifact table takes one artifact for each id and one for each
task. -/
def insertArtifact (s : EvidenceLedger β) (artifact : EvidenceArtifact β) :
    Except Exn (EvidenceLedger β) :=
  if (s.loadTaskArtifact artifact.taskId).isSome then
    .error (.runtimeError ("SqliteEvidenceLedger insert evidence artifact failed: "
      ++ "UNIQUE constraint failed: neograph_research_artifact.task_id"))
  else .ok { s with artifacts := s.artifacts.insert artifact.artifactId artifact }

/-- An artifact is published under a lease of its task. -/
def publishTask [DecidableEq β] (s : EvidenceLedger β) (task : ResearchTask)
    (lease : ResearchTaskLease) (artifact : EvidenceArtifact β) (now : ℕ) :
    Except Exn (EvidencePublishResult × EvidenceLedger β) :=
  if task.state = .published then
    if s.loadTaskArtifact task.spec.taskId = some artifact then .ok (.duplicate, s)
    else .error (.logicError "a published research task cannot be overwritten")
  else if !ownsLiveLease task lease now then
    .error (.logicError "evidence publication does not own a live task lease")
  else
    match s.artifacts.find? artifact.artifactId with
    | some existing =>
      if existing = artifact then
        .error (.logicError "artifact exists without its task publication")
      else .error (.invalidArgument "artifact_id is already bound to different evidence")
    | none => do
      let s ← s.insertArtifact artifact
      let s ← s.writeTask { task with
        state := .published
        leaseId := ""
        leasedBy := ""
        leaseExpiresAtUnixMs := 0
        publishedArtifactId := artifact.artifactId }
      .ok (.published, s)

/-- The worker of a lease publishes evidence, and the task is done. -/
def publish [DecidableEq β] (checkContent : β → Except Exn Unit) (s : EvidenceLedger β)
    (lease : ResearchTaskLease) (artifact : EvidenceArtifact β) (now : ℕ) :
    Except Exn (EvidencePublishResult × EvidenceLedger β) := do
  requireNonempty lease.taskId "lease task_id"
  requireNonempty lease.leaseId "lease_id"
  requireNonempty lease.workerId "lease worker_id"
  requireNonempty lease.ownerScope "lease owner_scope"
  require (0 < now) "publish now_unix_ms must be explicit and positive"
  match s.tasks.find? lease.taskId with
  | none => .error (.invalidArgument "cannot publish unknown research task")
  | some task =>
    match s.sources.find? task.spec.sourceId with
    | none => .error (.logicError "research task source disappeared")
    | some source => do
      validateArtifact checkContent artifact task source lease
      s.publishTask task lease artifact now

end EvidenceLedger

end NeoGraph.Research
