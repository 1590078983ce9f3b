import NeoGraph.CanonicalJson.Strict
import NeoGraph.Lib.Bytes

/-!
# Runs of an implementation contract

A contract is run by a worker and judged by others. The run keeps what was
recorded: reports of the worker, results of the acceptance gates and of
independent oracles, and diagnostics. `verify` evaluates what is recorded
for one lineage of a program, and only a run whose verdict is publishable
can be published.

Every call answers and leaves a run behind, also the calls that throw.
-/

namespace NeoGraph.Program.Contract

open ByteOrder CanonicalJson

/-! ## Data -/

/-- Something the result must be shown to meet. -/
structure ContractAcceptance where
  id : Bytes
  required : Bool := true

/-- What a run reads of its frozen manifest. -/
structure ContractManifest where
  acceptance : List ContractAcceptance
  independentOracles : List Bytes
  maxAttempts : ℕ
  contentHash : Bytes

/-- Who says so. -/
inductive ContractEvidenceKind where
  | workerReport
  | deterministicRun
  | independentOracle
deriving DecidableEq

/-- One piece of evidence, about one lineage of the result. -/
structure ContractEvidence where
  evidenceId : Bytes
  acceptanceId : Bytes := []
  kind : ContractEvidenceKind := .workerReport
  manifestHash : Bytes
  programVersionId : Bytes := []
  runId : Bytes := []
  workspaceRevision : Bytes := []
  command : Bytes := []
  toolchain : Bytes := []
  artifactHash : Bytes := []
  executed : Bool := false
  passed : Bool := false
  diagnostics : List Bytes := []
  details : Json Bytes := .obj []

/-- Something found wrong. -/
structure ContractDiagnostic where
  code : Bytes
  message : Bytes
  blocking : Bool := true

/-- How far a run of a contract is. -/
inductive ContractRunStatus where
  | frozen
  | running
  | verified
  | published
  | blocked
  | failed
deriving DecidableEq

def ContractRunStatus.toString : ContractRunStatus → String
  | .frozen => "frozen"
  | .running => "running"
  | .verified => "verified"
  | .published => "published"
  | .blocked => "blocked"
  | .failed => "failed"

/-- The verdict on a run. -/
structure ContractVerification where
  publishable : Bool
  status : ContractRunStatus
  missingAcceptanceIds : List Bytes
  blockingDiagnostics : List Bytes
  failedEvidenceIds : List Bytes

/-- A run of a contract, with all that was recorded. -/
structure ContractRun where
  manifest : ContractManifest
  status : ContractRunStatus := .frozen
  attempt : ℕ := 0
  evidence : List ContractEvidence := []
  diagnostics : List ContractDiagnostic := []
  verification : Option ContractVerification := none

/-- The program version, run and workspace that are verified together. -/
structure Lineage where
  programVersionId : Bytes
  runId : Bytes
  workspaceRevision : Bytes

/-! ## Recording -/

/-- A new attempt voids the verdict on the last. -/
def beginAttempt (run : ContractRun) : Except Exn Unit × ContractRun :=
  if run.status = .published ∨ run.status = .verified then
    (.error (.logicError "Published/verified contract run cannot start another attempt"), run)
  else if run.manifest.maxAttempts ≤ run.attempt then
    (.error (.runtimeError "Contract retry policy exhausted"), { run with status := .blocked })
  else
    (.ok (), { run with attempt := run.attempt + 1, status := .running, verification := none })

/-- An identifier is a token that is not empty. -/
def validateIdentifier (value : Bytes) (field : String) : Except Exn Unit :=
  if value = [] then
    .error (.invalidArgument ("Contract field '" ++ field ++ "' must not be empty"))
  else do
    validateUtf8Impl value
    validateToken value field

/-- A run in this status takes records and can be verified. -/
def ContractRunStatus.isOpen (status : ContractRunStatus) : Bool :=
  status = .running || status = .blocked || status = .failed

/-- What the three recording calls have in common: the run is set back before
the argument is checked. -/
def record (what : String) (check : Except Exn Unit) (evidence : List ContractEvidence)
    (diagnostics : List ContractDiagnostic) (run : ContractRun) : Except Exn Unit × ContractRun :=
  if !run.status.isOpen then
    (.error (.logicError ("Contract run cannot record " ++ what ++ " in status "
      ++ run.status.toString)), run)
  else
    let run := { run with status := .running, verification := none }
    match check with
    | .error e => (.error e, run)
    | .ok () => (.ok (), { run with
        evidence := run.evidence ++ evidence, diagnostics := run.diagnostics ++ diagnostics })

/-- The worker says what it did; this proves nothing. -/
def recordWorkerReport (report : Bytes) (claimsSuccess : Bool) (run : ContractRun) :
    Except Exn Unit × ContractRun :=
  record "a worker report" (validateUtf8Impl report) [{
      evidenceId := ascii "worker-report-" ++ decimalText (run.evidence.length + 1)
      manifestHash := run.manifest.contentHash
      executed := true
      passed := claimsSuccess
      details := .obj [(ascii "report", .str report),
        (ascii "claims_success", .bool claimsSuccess)] }] [] run

/-- The oracle that a record names. -/
def oracleOf (details : Json Bytes) : Option Bytes :=
  match details.get? (ascii "oracle_id") with
  | some (.str oracle) => some oracle
  | _ => none

local instance lawfulBEq_bytes : LawfulBEq Bytes := inferInstance

/-- Evidence comes from an execution, and names its lineage and a gate or
oracle. -/
def checkEvidence (manifest : ContractManifest) (e : ContractEvidence) : Except Exn Unit := do
  validateIdentifier e.evidenceId "evidence_id"
  if e.manifestHash ≠ manifest.contentHash then
    .error (.invalidArgument "Contract evidence is bound to another manifest")
  if e.kind = .workerReport then
    .error (.invalidArgument "Use record_worker_report for worker self-reports")
  if e.programVersionId = [] ∨ e.runId = [] ∨ e.workspaceRevision = [] ∨ e.command = []
      ∨ e.toolchain = [] ∨ e.artifactHash = [] then
    .error (.invalidArgument ("Contract evidence must identify version, run, workspace, command, "
      ++ "toolchain, and artifact"))
  if !e.executed then .error (.invalidArgument "Contract evidence must be marked executed")
  [e.programVersionId, e.runId, e.workspaceRevision, e.command, e.toolchain,
    e.artifactHash].forM validateUtf8Impl
  e.diagnostics.forM validateUtf8Impl
  if e.kind = .independentOracle then
    if e.acceptanceId ≠ [] then
      .error (.invalidArgument "Independent oracle evidence cannot target an acceptance gate")
    match oracleOf e.details with
    | none => .error (.invalidArgument "Independent oracle evidence must identify its oracle")
    | some oracle =>
      if oracle ∉ manifest.independentOracles then
        .error (.invalidArgument "Contract evidence names an unknown independent oracle")
  else
    if e.acceptanceId = [] then
      .error (.invalidArgument "Deterministic evidence must target an acceptance gate")
    if !manifest.acceptance.any (·.id = e.acceptanceId) then
      .error (.invalidArgument "Contract evidence names an unknown acceptance gate")

/-- Evidence is added. -/
def recordEvidence (e : ContractEvidence) (run : ContractRun) : Except Exn Unit × ContractRun :=
  record "evidence" (checkEvidence run.manifest e) [e] [] run

def checkDiagnostic (d : ContractDiagnostic) : Except Exn Unit := do
  validateIdentifier d.code "diagnostic.code"
  if d.message = [] then
    .error (.invalidArgument "Contract diagnostic message must not be empty")
  validateUtf8Impl d.message

/-- A finding is added. -/
def recordDiagnostic (d : ContractDiagnostic) (run : ContractRun) : Except Exn Unit × ContractRun :=
  record "a diagnostic" (checkDiagnostic d) [] [d] run

/-! ## The verdict -/

/-- A record speaks about this manifest and lineage. -/
def ContractEvidence.isBound (e : ContractEvidence) (manifest : ContractManifest) (l : Lineage) :
    Bool :=
  e.manifestHash = manifest.contentHash && e.programVersionId = l.programVersionId
    && e.runId = l.runId && e.workspaceRevision = l.workspaceRevision

/-- The evidence is about the gate, for this lineage. -/
def ContractEvidence.isForGate (manifest : ContractManifest) (l : Lineage)
    (gate : ContractAcceptance) (e : ContractEvidence) : Bool :=
  e.kind ≠ .workerReport && e.acceptanceId = gate.id && e.isBound manifest l

def ContractEvidence.isForOracle (manifest : ContractManifest) (l : Lineage) (oracle : Bytes)
    (e : ContractEvidence) : Bool :=
  e.kind = .independentOracle && e.isBound manifest l && oracleOf e.details = some oracle

/-- The failures among the records that are for a gate or an oracle. -/
def failedIds (isFor : ContractEvidence → Bool) (evidence : List ContractEvidence) : List Bytes :=
  (evidence.filter fun e => isFor e && !e.passed).map (·.evidenceId)

/-- No record has passed, or some failed: a later success does not erase a
failure. -/
def isMissing (isFor : ContractEvidence → Bool) (evidence : List ContractEvidence) : Bool :=
  !(evidence.any fun e => isFor e && e.passed) || evidence.any fun e => isFor e && !e.passed

/-- **The verdict** on the evidence for one lineage. -/
def evaluate (run : ContractRun) (l : Lineage) : ContractVerification :=
  let gates := run.manifest.acceptance.filter (·.required)
  let forGate := ContractEvidence.isForGate run.manifest l
  let forOracle := ContractEvidence.isForOracle run.manifest l
  let failed := gates.flatMap (fun gate => failedIds (forGate gate) run.evidence)
    ++ run.manifest.independentOracles.flatMap fun oracle =>
      failedIds (forOracle oracle) run.evidence
  let missing := (gates.filter fun gate => isMissing (forGate gate) run.evidence).map (·.id)
  let blocking := (run.manifest.independentOracles.filter fun oracle =>
      isMissing (forOracle oracle) run.evidence).map (ascii "missing-independent-oracle:" ++ ·)
    ++ (run.diagnostics.filter (·.blocking)).map fun d => d.code ++ ascii ":" ++ d.message
  let publishable : Bool := failed = [] && (missing = [] && blocking = [])
  { publishable := publishable
    status := if publishable then .verified else if failed ≠ [] then .failed else .blocked
    missingAcceptanceIds := missing
    blockingDiagnostics := blocking
    failedEvidenceIds := failed }

/-- The verdict is kept; once published, it is only repeated. -/
def verify (l : Lineage) (run : ContractRun) : Except Exn ContractVerification × ContractRun :=
  match if run.status = .published then run.verification else none with
  | some verification => (.ok verification, run)
  | none =>
    if !run.status.isOpen then
      (.error (.logicError "Contract run must be running before verification"), run)
    else if l.programVersionId = [] ∨ l.runId = [] ∨ l.workspaceRevision = [] then
      (.error (.invalidArgument
        "Verification requires program version, run identity, and workspace revision"), run)
    else
      let result := evaluate run l
      (.ok result, { run with verification := some result, status := result.status })

/-- Only what the last verdict allows is published. -/
def publish (run : ContractRun) : Except Exn Unit × ContractRun :=
  match run.verification with
  | some v =>
    if run.status = .verified ∧ v.publishable then
      (.ok (), { run with
        status := .published, verification := some { v with status := .published } })
    else (.error (.logicError "Contract run is not independently verified"), run)
  | none => (.error (.logicError "Contract run is not independently verified"), run)

/-! ## Calls -/

/-- A call of the interface. -/
inductive Call where
  | beginAttempt
  | recordWorkerReport (report : Bytes) (claimsSuccess : Bool)
  | recordEvidence (evidence : ContractEvidence)
  | recordDiagnostic (diagnostic : ContractDiagnostic)
  | verify (lineage : Lineage)
  | publish

/-- A call, its answer left out. -/
def perform (run : ContractRun) : Call → Except Exn Unit × ContractRun
  | .beginAttempt => beginAttempt run
  | .recordWorkerReport report claimsSuccess => recordWorkerReport report claimsSuccess run
  | .recordEvidence e => recordEvidence e run
  | .recordDiagnostic d => recordDiagnostic d run
  | .verify l => ((verify l run).1.map fun _ => (), (verify l run).2)
  | .publish => publish run

/-- The run that some calls leave behind, whether they throw or not. -/
def performAll (manifest : ContractManifest) (calls : List Call) : ContractRun :=
  calls.foldl (fun run call => (perform run call).2) { manifest := manifest }

end NeoGraph.Program.Contract
