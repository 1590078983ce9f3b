import NeoGraph.Basic
import NeoGraph.Lib.JsonObject
import NeoGraph.Lib.SortedMap

/-!
# Collaboration between owners

A link joins two agents of different owners. It is proposed, then accepted with
a token of consent, and may be revoked; while it is accepted and has not
expired it permits what its lists allow. An envelope is one message under a
link, and a mailbox keeps the links of one agent and the messages that it
accepted.

Texts are Unicode texts. The hash, the writer of documents, and what Program
says of an invocation are parameters (`Codec`). Every reading of the clock is
its own: an operation gets the readings in the order in which it makes them.
-/

namespace NeoGraph.A2A

/-- A field must not be empty. -/
def requireNonempty (value field : String) : Except String Unit :=
  if value = "" then .error ("Collaboration field '" ++ field ++ "' must not be empty")
  else .ok ()

/-- The values are not empty and all different; `seen` are those before. -/
def requireUniqueStrings (field : String) : List String → List String → Except String Unit
  | [], _ => .ok ()
  | value :: values, seen => do
    requireNonempty value field
    if value ∈ seen then
      .error ("Collaboration field '" ++ field ++ "' contains a duplicate")
    else requireUniqueStrings field values (value :: seen)

/-! ## Links -/

/-- How far the two sides have come with a link. -/
inductive CollaborationLinkState where
  | proposed
  | accepted
  | revoked
deriving DecidableEq

/-- An invitation, and what it allows. -/
structure CollaborationLinkSpec where
  schemaVersion : UInt32 := 2
  linkId : String
  senderOwnerScope : String
  receiverOwnerScope : String
  senderAgentId : String
  receiverAgentId : String
  taskScope : String
  capabilityAllowlist : List String
  effectAllowlist : List String
  artifactAllowlist : List String
  cancellationRights : List String
  messageKindAllowlist : List String
  expiresAtUnixMs : UInt64
  maxRetries : UInt32
  acknowledgementTimeoutMs : UInt64
deriving DecidableEq

/-- **A link is refused** with a text, by the first check that fails. -/
def validateLinkSpec (spec : CollaborationLinkSpec) : Except String Unit := do
  if spec.schemaVersion ≠ 2 then .error "Unsupported collaboration link schema version"
  requireNonempty spec.linkId "link_id"
  requireNonempty spec.senderOwnerScope "sender_owner_scope"
  requireNonempty spec.receiverOwnerScope "receiver_owner_scope"
  requireNonempty spec.senderAgentId "sender_agent_id"
  requireNonempty spec.receiverAgentId "receiver_agent_id"
  requireNonempty spec.taskScope "task_scope"
  if spec.senderOwnerScope = spec.receiverOwnerScope then
    .error "Collaboration link must cross owner scopes"
  if spec.senderAgentId = spec.receiverAgentId then
    .error "Collaboration link requires distinct agent identities"
  requireUniqueStrings "capability_allowlist" spec.capabilityAllowlist []
  requireUniqueStrings "effect_allowlist" spec.effectAllowlist []
  requireUniqueStrings "artifact_allowlist" spec.artifactAllowlist []
  requireUniqueStrings "cancellation_rights" spec.cancellationRights []
  requireUniqueStrings "message_kind_allowlist" spec.messageKindAllowlist []
  if spec.messageKindAllowlist = [] then
    .error "Collaboration link requires an explicit message-kind allowlist"
  if spec.expiresAtUnixMs = 0 ∨ spec.acknowledgementTimeoutMs = 0 then
    .error "Collaboration link expiry and acknowledgement timeout are required"
  if 1000 < spec.maxRetries then .error "Collaboration link retry limit is unreasonable"
  if spec.cancellationRights.any fun right => right ≠ "sender" ∧ right ≠ "receiver" then
    .error "Unknown collaboration cancellation right"

/-- A link whose invitation was checked. -/
structure CollaborationLink where
  spec : CollaborationLinkSpec
  state : CollaborationLinkState
  consentFingerprint : String
  valid : validateLinkSpec spec = .ok ()

namespace CollaborationLink

/-- The link has run out. -/
def isExpired (link : CollaborationLink) (now : UInt64) : Bool := link.spec.expiresAtUnixMs ≤ now

/-- The receiver accepts a proposed link with the token the sender gave it. -/
def accept (sha256 : String → String) (link : CollaborationLink) (now : UInt64)
    (receiverAgentId consentToken : String) : Except String CollaborationLink := do
  if link.state ≠ .proposed then
    .error "Only a proposed collaboration link may be accepted"
  if receiverAgentId ≠ link.spec.receiverAgentId then
    .error "Collaboration consent identity does not match receiver"
  requireNonempty consentToken "consent_token"
  if link.isExpired now then .error "Collaboration link invitation has expired"
  .ok { link with state := .accepted, consentFingerprint := sha256 consentToken }

/-- Either side may end the link, and it stays ended. -/
def revoke (link : CollaborationLink) (actorAgentId : String) : Except String CollaborationLink :=
  if link.state = .revoked then .ok link
  else if actorAgentId ≠ link.spec.senderAgentId ∧ actorAgentId ≠ link.spec.receiverAgentId then
    .error "Only link participants may revoke collaboration"
  else .ok { link with state := .revoked }

/-- A link that is accepted and has not expired. -/
def isLive (link : CollaborationLink) (now : UInt64) : Bool :=
  link.state = .accepted && !link.isExpired now

/-- Each list of a link permits what it contains while the link is live. -/
def permitsCapability (link : CollaborationLink) (now : UInt64) (capability : String) : Bool :=
  link.isLive now && link.spec.capabilityAllowlist.contains capability

def permitsEffect (link : CollaborationLink) (now : UInt64) (effect : String) : Bool :=
  link.isLive now && link.spec.effectAllowlist.contains effect

def permitsArtifact (link : CollaborationLink) (now : UInt64) (artifactIdentity : String) : Bool :=
  link.isLive now && link.spec.artifactAllowlist.contains artifactIdentity

def permitsMessageKind (link : CollaborationLink) (now : UInt64) (kind : String) : Bool :=
  link.isLive now && link.spec.messageKindAllowlist.contains kind

/-- Who may cancel what was sent under the link. -/
def permitsCancellation (link : CollaborationLink) (now : UInt64) (actorAgentId : String) : Bool :=
  link.isLive now &&
    if actorAgentId = link.spec.senderAgentId then link.spec.cancellationRights.contains "sender"
    else if actorAgentId = link.spec.receiverAgentId then
      link.spec.cancellationRights.contains "receiver"
    else false

end CollaborationLink

/-! ## Envelopes -/

/-- What a message says of an artifact: its digest and where it is found. -/
structure CollaborationArtifactReference where
  artifactIdentity : String
  uri : String
  mediaType : String
  sizeBytes : UInt64
deriving DecidableEq

/-- One message under a link. -/
structure CollaborationEnvelope where
  linkId : String
  senderOwnerScope : String
  receiverOwnerScope : String
  senderAgentId : String
  receiverAgentId : String
  senderProgramRunId : String
  receiverProgramRunId : String
  /-- Empty if no version was admitted. -/
  programVersionId : String := ""
  a2aTaskId : String
  a2aContextId : String
  messageId : String
  correlationId : String
  sequence : UInt64
  kind : String
  idempotencyKey : String
  payload : Json String
  artifacts : List CollaborationArtifactReference := []

/-- The document of a reference. -/
def artifactToJson (artifact : CollaborationArtifactReference) : Json String :=
  .obj [("artifact_identity", .str artifact.artifactIdentity), ("uri", .str artifact.uri),
    ("media_type", .str artifact.mediaType), ("size_bytes", .uint artifact.sizeBytes)]

/-- The document of a message, without its hash. -/
def envelopeToJson (envelope : CollaborationEnvelope) : Json String :=
  .obj [("storage_schema_version", .uint 1),
    ("link_id", .str envelope.linkId),
    ("sender_owner_scope", .str envelope.senderOwnerScope),
    ("receiver_owner_scope", .str envelope.receiverOwnerScope),
    ("sender_agent_id", .str envelope.senderAgentId),
    ("receiver_agent_id", .str envelope.receiverAgentId),
    ("sender_program_run_id", .str envelope.senderProgramRunId),
    ("receiver_program_run_id", .str envelope.receiverProgramRunId),
    ("program_version_id", .str envelope.programVersionId),
    ("a2a_task_id", .str envelope.a2aTaskId),
    ("a2a_context_id", .str envelope.a2aContextId),
    ("message_id", .str envelope.messageId),
    ("correlation_id", .str envelope.correlationId),
    ("sequence", .uint envelope.sequence),
    ("kind", .str envelope.kind),
    ("idempotency_key", .str envelope.idempotencyKey),
    ("payload", envelope.payload),
    ("artifacts", .arr (envelope.artifacts.map artifactToJson))]

/-- The artifacts of an envelope have different identities; `seen` are those
before. -/
def validateArtifacts : List CollaborationArtifactReference → List String → Except String Unit
  | [], _ => .ok ()
  | artifact :: artifacts, seen => do
    requireNonempty artifact.artifactIdentity "artifact_identity"
    requireNonempty artifact.uri "uri"
    requireNonempty artifact.mediaType "media_type"
    if artifact.artifactIdentity ∈ seen then
      .error "Collaboration envelope contains duplicate artifact identity"
    else validateArtifacts artifacts (artifact.artifactIdentity :: seen)

/-- The texts of an envelope that must not be empty, with their names. -/
def CollaborationEnvelope.requiredFields (envelope : CollaborationEnvelope) :
    List (String × String) :=
  [(envelope.linkId, "link_id"),
    (envelope.senderOwnerScope, "sender_owner_scope"),
    (envelope.receiverOwnerScope, "receiver_owner_scope"),
    (envelope.senderAgentId, "sender_agent_id"),
    (envelope.receiverAgentId, "receiver_agent_id"),
    (envelope.senderProgramRunId, "sender_program_run_id"),
    (envelope.receiverProgramRunId, "receiver_program_run_id"),
    (envelope.a2aTaskId, "a2a_task_id"),
    (envelope.a2aContextId, "a2a_context_id"),
    (envelope.messageId, "message_id"),
    (envelope.correlationId, "correlation_id"),
    (envelope.kind, "kind"),
    (envelope.idempotencyKey, "idempotency_key")]

/-- What a message must have before it is compared with a link. -/
def validateEnvelopeShape (envelope : CollaborationEnvelope) : Except String Unit := do
  envelope.requiredFields.forM fun field => requireNonempty field.1 field.2
  if envelope.sequence = 0 then .error "Collaboration sequence must start at one"
  if !envelope.payload.isObject && !envelope.payload.isArray then
    .error "Collaboration payload must be structured JSON"
  validateArtifacts envelope.artifacts []

/-! ## Program requests -/

/-- A version that was admitted; `canonicalBytes` is its canonical form, of
which the id is the hash. -/
structure ProgramVersion where
  id : String
  id_ne_empty : id ≠ ""
  ownershipScope : String
  allowedCapabilities : List String
  allowedEffects : List String
  canonicalBytes : String

/-- A request to Program. `ι` stands for the fields that a mailbox does not
read. -/
structure RunInvocation (ι : Type) where
  ownerScope : String
  agentId : String
  programVersionId : String
  runId : String
  parentRunId : String
  messageSequence : UInt64
  idempotencyKey : String
  correlationId : String
  input : Json String
  artifact : Option CollaborationArtifactReference
  rest : ι

/-- What a mailbox takes from elsewhere: a hash, the writer of documents, and
the checks and the canonical form of an invocation. -/
structure Codec (ι : Type) where
  sha256 : String → String
  dump : Json String → String
  validates : RunInvocation ι → Bool
  canonicalPayload : RunInvocation ι → String

/-- What a message is to one that came before it. -/
inductive InvocationIdempotencyResult where
  | distinct
  | duplicate
  | conflict
deriving DecidableEq

variable {ι : Type}

/-- Two invocations with one key are the same work or a conflict. -/
def compareInvocations (codec : Codec ι) (existing incoming : RunInvocation ι) :
    InvocationIdempotencyResult :=
  if existing.idempotencyKey = "" ∨ incoming.idempotencyKey = ""
      ∨ existing.idempotencyKey ≠ incoming.idempotencyKey then .distinct
  else if codec.canonicalPayload existing = codec.canonicalPayload incoming then .duplicate
  else .conflict

/-- An invocation is the one that an envelope asks for. -/
def invocationMatchesEnvelope (codec : Codec ι) (invocation : RunInvocation ι)
    (envelope : CollaborationEnvelope) : Bool :=
  codec.validates invocation &&
    invocation.ownerScope = envelope.receiverOwnerScope &&
    invocation.agentId = envelope.receiverAgentId &&
    invocation.programVersionId = envelope.programVersionId &&
    invocation.runId = envelope.receiverProgramRunId &&
    invocation.parentRunId = "" &&
    invocation.messageSequence = envelope.sequence &&
    invocation.idempotencyKey = envelope.idempotencyKey &&
    invocation.correlationId = envelope.correlationId &&
    invocation.input.equals envelope.payload &&
    match envelope.artifacts with
    | [] => invocation.artifact.isNone
    | [expected] => invocation.artifact = some expected
    | _ => false

/-- The text of an envelope. -/
def CollaborationEnvelope.serializeCanonical (codec : Codec ι)
    (envelope : CollaborationEnvelope) : String :=
  codec.dump (envelopeToJson envelope)

/-- The digest of the canonical document. -/
def CollaborationEnvelope.contentHash (codec : Codec ι) (envelope : CollaborationEnvelope) :
    String :=
  codec.sha256 (envelope.serializeCanonical codec)

end NeoGraph.A2A
