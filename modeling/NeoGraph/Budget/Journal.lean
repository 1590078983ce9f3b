import Mathlib
import NeoGraph.Basic
import NeoGraph.Lib.Machine
import NeoGraph.Lib.SortedMap

/-!
# The managed budget journal

A managed budget is a *head* – the totals of a bank, who owns it, and which
provider effects it has ever admitted – together with one record for every
admitted effect. A lease holder reserves currency for an effect before it
is dispatched (`begin`), settles it with the outcome that came back
(`settle`), publishes the bank with a checkpoint (`publish`) and gives the
head back (`release`).

Every operation checks the whole head first (`validateHead`), then its own
preconditions, and only then writes; an operation that throws leaves head
and effects as they were. The journal does not trust its callers: a lease
or a receipt is a record of claims that is compared with the head, so the
model lets every operation come with an arbitrary one.

What the journal takes from outside is passed in. The clock and the
entropy of an operation are arguments of it. `ProviderCodec` stands for
the provider SDK: whether a usage report decodes, how an outcome is
encoded, whether a failure proves that nothing was accepted, and the
digest of a checkpoint.
-/

namespace NeoGraph.Budget

/-! ## Checks and counters -/

/-- A failed requirement throws. -/
def require (condition : Bool) (message : String) : Except Exn Unit :=
  if condition then .ok () else .error (.runtimeError message)

theorem require_eq_ok {condition : Bool} {message : String} :
    require condition message = .ok () ↔ condition = true := by
  unfold require
  cases condition <;> simp

/-- Addition of 64-bit counters, which throws on overflow. -/
def add (left right : ℕ) : Except Exn ℕ :=
  if left + right < 2 ^ 64 then .ok (left + right)
  else .error (.runtimeError "Managed budget journal counter overflow")

theorem add_eq_ok {left right sum : ℕ} :
    add left right = .ok sum ↔ left + right < 2 ^ 64 ∧ sum = left + right := by
  unfold add
  split_ifs with h
  · rw [Except.ok.injEq]
    exact ⟨fun heq => ⟨h, heq.symm⟩, fun heq => heq.2.symm⟩
  · exact iff_of_false (fun heq => by cases heq) (fun heq => h heq.1)

/-- A lower case hexadecimal digit. -/
def isHexDigit (ch : Char) : Bool :=
  ('0' ≤ ch && ch ≤ '9') || ('a' ≤ ch && ch ≤ 'f')

/-- The hexadecimal digit of a value below sixteen. -/
def hexDigit (n : Fin 16) : Char :=
  "0123456789abcdef".toList.get (n.cast (by decide))

/-- Thirty-two bytes, the size of a nonce and of a digest. -/
def Bytes32 : Type := { bytes : List UInt8 // bytes.length = 32 }

/-- Two hexadecimal digits for each byte. -/
def hex (bytes : List UInt8) : List Char :=
  bytes.flatMap fun b =>
    [hexDigit ⟨b.toNat / 16, by have := b.toNat_lt; omega⟩,
      hexDigit ⟨b.toNat % 16, Nat.mod_lt _ (by decide)⟩]

/-- A nonce made from the bytes of the entropy source, if it delivers. -/
def nonce (entropy : Option Bytes32) : Except Exn String :=
  match entropy with
  | some bytes => .ok (String.ofList (hex bytes.1))
  | none => .error (.runtimeError
      "Managed budget journal requires platform cryptographic entropy")

/-- The shape of a nonce: sixty-four hexadecimal digits. -/
def isNonce (value : String) : Bool :=
  value.toList.length = 64 && value.toList.all isHexDigit

/-- The shape of a content identity. -/
def isSha256Identity (value : String) : Bool :=
  value.toList.length = 71 && value.toList.take 7 = "sha256:".toList
    && (value.toList.drop 7).all isHexDigit

/-- The content identity of a digest. -/
def sha256Identity (digest : Bytes32) : String :=
  String.ofList ("sha256:".toList ++ hex digest.1)

/-! ## Records -/

/-- The immutable scope of a bank. -/
structure LeaseScope where
  ownerScope : String
  threadId : String
  storageThreadId : String
  graphIdentity : String
  originalCeiling : UInt64
  originalDeadlineTicks : Option ℤ
  deadlineClockIdentity : String
deriving DecidableEq

/-- Who may work on a head. -/
inductive OwnershipState where
  | owned
  | available
  | blocked
deriving DecidableEq

/-- The head of a journal. `effectDedup` holds the tombstones of all
effects ever admitted. -/
structure Head (Report : Type) where
  scope : LeaseScope
  bankGeneration : String
  headCheckpointId : String
  headCommitment : String
  revision : ℕ
  actor : String
  state : OwnershipState
  charged : ℕ
  reserved : ℕ
  pendingCount : ℕ
  effectDedup : Finset String
  providerEffects : List String
  reports : Report
  reportEffects : List String
  hasReport : Bool
  sourceConsumed : Bool
  publicationCount : ℕ

/-- A snapshot of the bank taken when an outcome was accounted. -/
structure AuthoritySnapshot (Report : Type) where
  charged : ℕ
  reserved : ℕ
  providerEffects : List String
  reports : Report
  hasReport : Bool

/-- How far an effect has come. -/
inductive EffectState where
  | pending
  | charged
  | held
  | released
deriving DecidableEq

/-- The record of an admitted effect. -/
structure Effect (Report Evidence : Type) where
  bankGeneration : String
  actor : String
  effectId : String
  claimAmount : ℕ
  requestDigest : String
  beginRevision : ℕ
  state : EffectState
  charged : ℕ
  held : ℕ
  outcome : Option Evidence
  authority : Option (AuthoritySnapshot Report)

/-- An ownership claim. -/
structure Lease where
  scope : LeaseScope
  executionThread : String
  executionStorageThread : String
  actor : String
  generation : String
  revision : ℕ
  checkpointId : String
  commitment : String
  nativeArchive : Bool
  cppNativeRetention : Bool

/-- A write-ahead claim on an effect. -/
structure Receipt where
  storage : String
  actor : String
  generation : String
  id : String
  amount : ℕ
  digest : String
  beginRevision : ℕ

/-- What the journal reads of the token usage of a completion. -/
structure Usage where
  stageFinal : Bool
  qualityConsistent : Bool
  inputTotal : Option ℕ
  outputTotal : Option ℕ
  total : Option ℕ
  providerReportedTotal : Option ℕ

/-- What a provider call returned; failures are the SDK's own. -/
inductive Outcome (Failure : Type) where
  | completion (priorUsageUnknown : Bool) (transportInternalResends : ℕ) (usage : Usage)
  | failure (f : Failure)

/-- The bank state inside a checkpoint. -/
structure Bank (Report : Type) where
  schema : String
  charged : ℕ
  reserved : ℕ
  providerEffects : List String
  reports : Report
  hasReport : Bool
  ceiling : UInt64
  ownerScope : String
  threadId : String
  graphIdentity : String

/-- The bank channel of a checkpoint, as far as it is there. -/
inductive BankEnvelope (Report : Type) where
  | stripped
  | noData
  | malformed
  | data (bank : Bank Report)

/-- The part of a checkpoint that a publication reads. -/
structure BankCheckpoint (Report : Type) where
  id : String
  threadId : String
  parentId : String
  envelope : BankEnvelope Report

/-- The clock of the platform at an operation: its identity, which may be
unavailable, and the time. -/
structure Clock where
  identity : Except Exn String
  now : ℤ

/-- **The provider SDK**, as far as the journal uses it. An encoded usage
report may fail to decode; the encoding of a usage without any report
decodes. -/
structure ProviderCodec (Report Evidence Failure : Type) where
  decodeUsage : Report → Bool
  noUsage : Report
  decodeUsage_noUsage : decodeUsage noUsage = true
  encodeOutcome : Lease → Receipt → Outcome Failure → AuthoritySnapshot Report →
    Except Exn Evidence
  provesNotAccepted : Failure → Bool
  checkpointDigest : BankCheckpoint Report → Except Exn Bytes32

variable {Report Evidence Failure : Type}

/-! ## Scopes and clocks -/

/-- The storage namespace of a scope. -/
def storageKey (scope : LeaseScope) : Except Exn String := do
  let key := if scope.storageThreadId = "" then scope.threadId else scope.storageThreadId
  require (key ≠ "") "Managed budget requires its original storage namespace"
  .ok key

/-- The stored form of a scope: its storage namespace is made explicit. -/
def scopeJson (scope : LeaseScope) : Except Exn LeaseScope := do
  let key ← storageKey scope
  .ok { scope with storageThreadId := key }

/-- The check of a stored scope. -/
def parseScope (scope : LeaseScope) : Except Exn Unit := do
  require (scope.threadId ≠ "") "Empty managed budget journal identity"
  require (scope.storageThreadId ≠ "") "Empty managed budget journal identity"
  require (scope.graphIdentity ≠ "") "Empty managed budget journal identity"
  require (scope.originalCeiling ≠ 0)
    "Observation-only source has no finite managed budget currency"
  require (scope.originalDeadlineTicks.all (0 ≤ ·)) "Corrupt managed budget deadline"
  require (if scope.originalDeadlineTicks.isSome then scope.deadlineClockIdentity ≠ ""
      else scope.deadlineClockIdentity = "")
    "Managed budget deadline has no verifiable clock origin"

/-- The check of a deadline against the platform clock. -/
def clockScope (clock : Clock) (scope : LeaseScope) (spending : Bool) : Except Exn Unit :=
  match scope.originalDeadlineTicks with
  | none => .ok ()
  | some deadline => do
    let identity ← clock.identity
    require (scope.deadlineClockIdentity = identity)
      "Managed budget deadline clock origin cannot be recovered"
    if spending then
      require (clock.now < deadline) "Original managed budget deadline has expired"

/-! ## Checks of whole records -/

/-- Effect identities are not empty and differ from each other and from
those already seen. -/
def uniqueEffectsFrom (seen : List String) : List String → Except Exn Unit
  | [] => .ok ()
  | id :: effects => do
    require (id ≠ "") "Corrupt managed budget effect identity"
    require (id ∉ seen) "Duplicate managed budget effect identity"
    uniqueEffectsFrom (id :: seen) effects

/-- Effect identities are unique and not empty. -/
def uniqueEffects (effects : List String) : Except Exn Unit :=
  uniqueEffectsFrom [] effects

/-- The check of an authority snapshot. -/
def validateAuthority (codec : ProviderCodec Report Evidence Failure)
    (authority : AuthoritySnapshot Report) : Except Exn Unit := do
  let _ ← add authority.charged authority.reserved
  uniqueEffects authority.providerEffects
  require (codec.decodeUsage authority.reports) "Invalid provider usage encoding"

/-- The part of the check of a head that depends on its ownership. -/
def validateOwnership (head : Head Report) : Except Exn Unit :=
  match head.state with
  | .owned => require (isNonce head.actor) "Corrupt managed budget journal nonce"
  | .available =>
    require (head.actor = "" && !head.sourceConsumed && head.pendingCount = 0)
      "Corrupt available managed budget head"
  | .blocked =>
    require (head.actor = "" && head.sourceConsumed) "Corrupt blocked managed budget head"

/-- The check of a head, in the order of the source. -/
def validateHead (codec : ProviderCodec Report Evidence Failure) (head : Head Report) :
    Except Exn Unit := do
  parseScope head.scope
  require (isNonce head.bankGeneration) "Corrupt managed budget journal nonce"
  require (if head.headCheckpointId = "" then head.headCommitment = ""
      else isSha256Identity head.headCommitment) "Corrupt managed budget head commitment"
  require (head.revision ≠ 0) "Corrupt managed budget head revision"
  let _ ← add head.charged head.reserved
  require (head.pendingCount ≤ head.effectDedup.card) "Corrupt managed budget pending effects"
  require ("" ∉ head.effectDedup) "Corrupt managed budget effect tombstone"
  uniqueEffects head.providerEffects
  require (head.providerEffects.all (· ∈ head.effectDedup))
    "Managed budget effect tombstone is missing"
  uniqueEffects head.reportEffects
  require (head.reportEffects.all (· ∈ head.effectDedup))
    "Managed budget report has no admitted effect"
  require (codec.decodeUsage head.reports) "Invalid provider usage encoding"
  require (decide (head.publicationCount = 0) = decide (head.headCheckpointId = ""))
    "Corrupt managed budget publication identity"
  validateOwnership head
  require (head.pendingCount = 0 || head.sourceConsumed)
    "Corrupt managed budget unconsumed pending source"

/-- The check that a lease owns the head. -/
def owned (codec : ProviderCodec Report Evidence Failure) (clock : Clock)
    (head : Head Report) (lease : Lease) : Except Exn Unit := do
  validateHead codec head
  let scope ← scopeJson lease.scope
  require (head.scope = scope && head.bankGeneration = lease.generation
      && head.actor = lease.actor && head.state = .owned)
    "Managed budget lease does not own the current source head"
  clockScope clock lease.scope false

/-- The check of the settled part of an effect record. -/
def validateSettled (codec : ProviderCodec Report Evidence Failure)
    (effect : Effect Report Evidence) : Except Exn Unit := do
  require effect.outcome.isSome "Managed budget effect lost its genuine outcome evidence"
  match effect.authority with
  | none => .error (.runtimeError "Corrupt managed budget journal object")
  | some authority =>
    validateAuthority codec authority
    require (if effect.state = .held then effect.charged = 0 && effect.held = effect.claimAmount
        else effect.held = 0) "Corrupt managed budget settled claim"
    require (effect.state ≠ .released || effect.charged = 0)
      "Corrupt managed budget released claim"

/-- The check of an effect record. -/
def validateEffect (codec : ProviderCodec Report Evidence Failure)
    (effect : Effect Report Evidence) : Except Exn Unit := do
  require (isNonce effect.bankGeneration) "Corrupt managed budget journal nonce"
  require (isNonce effect.actor) "Corrupt managed budget journal nonce"
  require (effect.effectId ≠ "") "Empty managed budget journal identity"
  require (effect.claimAmount ≠ 0 && effect.beginRevision ≠ 0)
    "Corrupt managed budget effect claim"
  require (isSha256Identity effect.requestDigest) "Corrupt managed budget request digest"
  if effect.state = .pending then
    require (effect.charged = 0 && effect.held = effect.claimAmount
        && effect.outcome.isNone && effect.authority.isNone)
      "Corrupt managed budget pending effect"
  else validateSettled codec effect

variable [DecidableEq Report]

/-- The check of the bank inside a published checkpoint. -/
def validateBankPublication (head : Head Report) (bank : Bank Report) (scope : LeaseScope)
    (executionThread : String) : Except Exn Unit := do
  require (bank.schema = "neograph.graph-managed-bank/v1"
      && bank.ceiling = scope.originalCeiling && bank.ownerScope = scope.ownerScope
      && bank.threadId = executionThread && bank.graphIdentity = scope.graphIdentity)
    "Managed budget publication changed its immutable original bank scope"
  let _ ← add bank.charged bank.reserved
  require (head.charged ≤ bank.charged && head.reserved ≤ bank.reserved)
    "Managed budget publication weakens durable charged or held currency"
  uniqueEffects bank.providerEffects
  require (head.providerEffects.all (· ∈ bank.providerEffects))
    "Managed budget publication removed accounted provider effects"
  require (bank.providerEffects.length = head.reportEffects.length)
    "Managed budget publication changed its real atomic report frontier"
  require (head.reportEffects.all (· ∈ bank.providerEffects))
    "Managed budget publication removed genuine report evidence"
  require (bank.hasReport = head.hasReport && bank.reports = head.reports)
    "Managed budget publication changed genuine provider usage reports"

/-! ## Operations

Every operation returns the head it leaves – and the effect record and the
lease or receipt, where it makes one – or throws. -/

/-- Selection of an authenticated branch head before an acquisition. Only
the coordinates of the source change. -/
def selectBranchHead (codec : ProviderCodec Report Evidence Failure) (head : Head Report)
    (checkpointId commitment : String) : Except Exn (Head Report) := do
  validateHead codec head
  require (head.state = .available && !head.sourceConsumed && head.pendingCount = 0)
    "Managed budget shared bank is owned, consumed, or awaiting genuine reconciliation"
  require (checkpointId ≠ "" && isSha256Identity commitment && head.publicationCount ≠ 0)
    "Managed budget branch has no authenticated publication"
  .ok { head with headCheckpointId := checkpointId, headCommitment := commitment }

/-- The arguments of an acquisition, the entropy for a new generation and
for the actor included. -/
structure AcquireArgs where
  priorObligation : Bool
  requestedScope : LeaseScope
  expectedId : String
  expectedCommitment : String
  executionThread : String
  executionStorageThread : String
  generationEntropy : Option Bytes32
  actorEntropy : Option Bytes32

/-- Acquisition of a head that is not owned, or of a new one when there is
none yet. -/
def acquireBranch (codec : ProviderCodec Report Evidence Failure) (clock : Clock)
    (head : Option (Head Report)) (args : AcquireArgs) : Except Exn (Head Report × Lease) := do
  require (args.executionThread ≠ "" && args.executionStorageThread ≠ "")
    "Managed budget branch lacks its trusted execution namespace"
  let scope ← scopeJson args.requestedScope
  parseScope scope
  clockScope clock scope true
  let lease (generation actor : String) (revision : ℕ) : Lease :=
    { scope, executionThread := args.executionThread,
      executionStorageThread := args.executionStorageThread, actor, generation, revision,
      checkpointId := args.expectedId, commitment := args.expectedCommitment,
      nativeArchive := false, cppNativeRetention := false }
  match head with
  | none =>
    require (!args.priorObligation)
      "Managed budget obligation has no recoverable source journal"
    require (args.expectedId = "" && args.expectedCommitment = "")
      "Archived managed budget source has no authenticated current source journal"
    let generation ← nonce args.generationEntropy
    let actor ← nonce args.actorEntropy
    .ok ({ scope, bankGeneration := generation, headCheckpointId := "", headCommitment := "",
           revision := 1, actor, state := .owned, charged := 0, reserved := 0,
           pendingCount := 0, effectDedup := ∅, providerEffects := [],
           reports := codec.noUsage, reportEffects := [], hasReport := false,
           sourceConsumed := false, publicationCount := 0 },
         lease generation actor 1)
  | some head =>
    validateHead codec head
    require (head.scope = scope) "Managed budget original source scope cannot be replaced"
    require (head.headCheckpointId = args.expectedId
        && head.headCommitment = args.expectedCommitment)
      "Managed budget checkpoint is not the exact current source head"
    require (head.state = .available && !head.sourceConsumed && head.pendingCount = 0)
      "Managed budget source is owned, consumed, or requires genuine outcome reconciliation"
    let revision ← add head.revision 1
    let actor ← nonce args.actorEntropy
    .ok ({ head with actor, state := .owned, revision },
         lease head.bankGeneration actor revision)

/-- Admission of an effect: its amount is reserved, its slot is burned, and
the source counts as consumed. -/
def begin (codec : ProviderCodec Report Evidence Failure) (clock : Clock) (head : Head Report)
    (effect : Option (Effect Report Evidence)) (lease : Lease) (id : String) (amount : ℕ)
    (digest : String) : Except Exn (Head Report × Effect Report Evidence × Receipt) := do
  owned codec clock head lease
  clockScope clock lease.scope true
  require (lease.nativeArchive || lease.cppNativeRetention)
    ("Managed budget effect requires actual archive activation or "
      ++ "backend-owned C++ native retention")
  require (id ≠ "" && amount ≠ 0) "Managed budget effect requires an exact positive prepared claim"
  require (isSha256Identity digest) "Managed budget effect requires its prepared request digest"
  require (effect.isNone && id ∉ head.effectDedup)
    "Managed budget effect slot is permanently consumed"
  let committed ← add head.charged head.reserved
  require (committed ≤ lease.scope.originalCeiling.toNat
      && amount ≤ lease.scope.originalCeiling.toNat - committed)
    "Managed budget claim exceeds remaining original source currency"
  let revision ← add head.revision 1
  let pending ← add head.pendingCount 1
  let storage ← storageKey lease.scope
  let reserved ← add head.reserved amount
  .ok ({ head with
           reserved, pendingCount := pending, effectDedup := insert id head.effectDedup,
           sourceConsumed := true, revision },
       { bankGeneration := lease.generation, actor := lease.actor, effectId := id,
         claimAmount := amount, requestDigest := digest, beginRevision := revision,
         state := .pending, charged := 0, held := amount, outcome := none, authority := none },
       { storage, actor := lease.actor, generation := lease.generation, id, amount, digest,
         beginRevision := revision })

/-- The charge a final usage report proves: the largest of its totals, when
they are consistent with each other. -/
def conservativeFinalCharge (usage : Usage) : Option ℕ :=
  match usage.inputTotal, usage.outputTotal with
  | some input, some output =>
    let total := input + output
    if !usage.stageFinal || !usage.qualityConsistent || 2 ^ 64 ≤ total then none
    else if usage.total.any (· < total) || usage.providerReportedTotal.any (· < total) then none
    else some (max total (max (usage.total.getD total) (usage.providerReportedTotal.getD total)))
  | _, _ => none

/-- How an outcome settles a claim: what it charges, what stays held, and
the state of the effect. -/
def settlement (codec : ProviderCodec Report Evidence Failure) (outcome : Outcome Failure)
    (amount : ℕ) : ℕ × ℕ × EffectState :=
  match outcome with
  | .completion priorUsageUnknown transportInternalResends usage =>
    if !priorUsageUnknown && transportInternalResends = 0 then
      match conservativeFinalCharge usage with
      | some charge => (charge, 0, .charged)
      | none => (0, amount, .held)
    else (0, amount, .held)
  | .failure f => if codec.provesNotAccepted f then (0, 0, .released) else (0, amount, .held)

/-- Settlement of a pending effect with the outcome that came back. -/
def settle (codec : ProviderCodec Report Evidence Failure) (clock : Clock) (head : Head Report)
    (stored : Effect Report Evidence) (lease : Lease) (claim : Receipt) (outcome : Outcome Failure)
    (authority : AuthoritySnapshot Report) : Except Exn (Head Report × Effect Report Evidence) := do
  owned codec clock head lease
  validateEffect codec stored
  let storage ← storageKey lease.scope
  require (claim.storage = storage && claim.actor = lease.actor
      && claim.generation = lease.generation && stored.actor = claim.actor
      && stored.bankGeneration = claim.generation && stored.effectId = claim.id
      && stored.claimAmount = claim.amount && stored.requestDigest = claim.digest
      && stored.beginRevision = claim.beginRevision && stored.state = .pending
      && claim.id ∈ head.effectDedup)
    "Managed budget effect is not this actor's pending claim"
  require (head.pendingCount ≠ 0 && claim.amount ≤ head.reserved)
    "Managed budget pending claim lost its exact durable reservation"
  validateAuthority codec authority
  require (authority.hasReport && claim.id ∈ authority.providerEffects)
    "Managed budget settlement lacks the real atomic accounted effect snapshot"
  let evidence ← codec.encodeOutcome lease claim outcome authority
  let (charged, held, state) := settlement codec outcome claim.amount
  let nextCharged ← add head.charged charged
  let nextReserved ← add (head.reserved - claim.amount) held
  let _ ← add nextCharged nextReserved
  require (charged ≤ authority.charged && held ≤ authority.reserved)
    "Managed budget outcome disagrees with its atomic authority snapshot"
  require (authority.providerEffects.all (· ∈ head.effectDedup))
    "Managed budget atomic snapshot includes an unadmitted provider effect"
  let newerReport := head.reportEffects.all (· ∈ authority.providerEffects)
  require (newerReport || authority.providerEffects.all (· ∈ head.reportEffects))
    "Managed budget atomic report snapshot changed bank lineage"
  require (!(newerReport && authority.providerEffects.length = head.reportEffects.length)
      || (head.reports = authority.reports && head.hasReport = authority.hasReport))
    "Managed budget atomic snapshot changed an unchanged report frontier"
  let revision ← add head.revision 1
  .ok ({ head with
           charged := nextCharged, reserved := nextReserved,
           pendingCount := head.pendingCount - 1,
           providerEffects := head.providerEffects ++ [claim.id],
           reports := if newerReport then authority.reports else head.reports,
           reportEffects := if newerReport then authority.providerEffects else head.reportEffects,
           hasReport := if newerReport then authority.hasReport else head.hasReport,
           revision },
       { stored with state, charged, held, outcome := some evidence,
                     authority := some authority })

/-- Publication of the bank with a checkpoint: the head takes the totals of
the bank and the source is no longer consumed. -/
def publish (codec : ProviderCodec Report Evidence Failure) (clock : Clock) (head : Head Report)
    (lease : Lease) (checkpoint : BankCheckpoint Report) : Except Exn (Head Report) := do
  owned codec clock head lease
  require (head.pendingCount = 0) "Managed budget publication has pending provider effects"
  require (checkpoint.id ≠ "" && checkpoint.threadId = lease.executionStorageThread)
    "Managed budget publication differs from its trusted execution storage namespace"
  require (checkpoint.parentId = head.headCheckpointId && checkpoint.id ≠ head.headCheckpointId)
    "Managed budget publication is not a fresh successor of the current source head"
  match checkpoint.envelope with
  | .stripped => .error (.runtimeError
      "Managed budget publication stripped its original currency custody")
  | .noData => .error (.runtimeError "Managed budget publication lacks its bank state")
  | .malformed => .error (.runtimeError "Corrupt managed budget journal object")
  | .data bank =>
    validateBankPublication head bank lease.scope lease.executionThread
    let digest ← codec.checkpointDigest checkpoint
    let revision ← add head.revision 1
    let publications ← add head.publicationCount 1
    .ok { head with
            headCheckpointId := checkpoint.id, headCommitment := sha256Identity digest,
            charged := bank.charged, reserved := bank.reserved, sourceConsumed := false,
            publicationCount := publications, revision }

/-- Release of an owned head. Work begun and not published since blocks it
for good. -/
def release (codec : ProviderCodec Report Evidence Failure) (clock : Clock)
    (head : Head Report) (lease : Lease) : Except Exn (Head Report) := do
  owned codec clock head lease
  let revision ← add head.revision 1
  .ok { head with
          state := if head.sourceConsumed then .blocked else .available, actor := "", revision }

/-! ## The journal as a state machine -/

/-- A journal: the head, if there is one yet, and the effect records by
generation and identity. -/
structure Journal (Report Evidence : Type) where
  head : Option (Head Report)
  effects : SortedMap (String ×ₗ String) (Effect Report Evidence)

/-- A journal without a head. -/
def Journal.empty : Journal Report Evidence := ⟨none, ∅⟩

/-- An operation with its arguments and the clock it sees. -/
inductive Op (Report Failure : Type) where
  | acquire (clock : Clock) (args : AcquireArgs)
  | selectBranch (checkpointId commitment : String)
  | begin (clock : Clock) (lease : Lease) (id : String) (amount : ℕ) (digest : String)
  | settle (clock : Clock) (lease : Lease) (claim : Receipt) (outcome : Outcome Failure)
      (authority : AuthoritySnapshot Report)
  | publish (clock : Clock) (lease : Lease) (checkpoint : BankCheckpoint Report)
  | release (clock : Clock) (lease : Lease)

/-- The head of a journal, or the exception of a backend without one. -/
def Journal.requireHead (journal : Journal Report Evidence) : Except Exn (Head Report) :=
  match journal.head with
  | some head => .ok head
  | none => .error (.invalidArgument "Managed-bank journal is missing")

/-- **One operation on a journal.** The backend looks up the effect record
by the generation of the lease and the identity of the effect. -/
def Journal.step (codec : ProviderCodec Report Evidence Failure)
    (journal : Journal Report Evidence) : Op Report Failure → Except Exn (Journal Report Evidence)
  | .acquire clock args => do
    let (head, _) ← acquireBranch codec clock journal.head args
    .ok { journal with head := some head }
  | .selectBranch checkpointId commitment => do
    let head ← journal.requireHead
    let head ← selectBranchHead codec head checkpointId commitment
    .ok { journal with head := some head }
  | .begin clock lease id amount digest => do
    let head ← journal.requireHead
    let key := toLex (lease.generation, id)
    let (head, effect, _) ←
      Budget.begin codec clock head (journal.effects.find? key) lease id amount digest
    .ok ⟨some head, journal.effects.insert key effect⟩
  | .settle clock lease claim outcome authority => do
    let head ← journal.requireHead
    let key := toLex (lease.generation, claim.id)
    match journal.effects.find? key with
    | none => .error (.invalidArgument "Managed-bank settlement lacks its original journal effect")
    | some stored =>
      let (head, effect) ←
        Budget.settle codec clock head stored lease claim outcome authority
      .ok ⟨some head, journal.effects.insert key effect⟩
  | .publish clock lease checkpoint => do
    let head ← journal.requireHead
    let head ← Budget.publish codec clock head lease checkpoint
    .ok { journal with head := some head }
  | .release clock lease => do
    let head ← journal.requireHead
    let head ← Budget.release codec clock head lease
    .ok { journal with head := some head }

/-- The journal after a sequence of operations, of which those that throw
change nothing. -/
def Journal.run (codec : ProviderCodec Report Evidence Failure) (journal : Journal Report Evidence)
    (ops : List (Op Report Failure)) : Journal Report Evidence :=
  runOps (Journal.step codec) journal ops

end NeoGraph.Budget
