import NeoGraph.A2A.Mailbox

/-!
# A mailbox as a document

A mailbox is stored as one document, with its links in the order of their ids
and its records in the order of correlation and sequence. It is read back
record by record, and what a record says is checked against its link.

The text of documents, links, versions and invocations is a parameter
(`Documents`).
-/

namespace NeoGraph.A2A

/-- What a mailbox takes from elsewhere to be stored: the reader of documents,
and the texts of links, versions and invocations. -/
structure Documents (ι : Type) extends Codec ι where
  parse : String → Option (Json String)
  linkBytes : CollaborationLink → String
  parseLink : String → Except String CollaborationLink
  parseVersion : String → Except String ProgramVersion
  invocationBytes : RunInvocation ι → String
  parseInvocation : String → Except String (RunInvocation ι)

/-! ## Fields -/

/-- A field that must be there, as a string; so the next ones. -/
def requiredString (object : Json String) (field : String) : Except String String :=
  match object.get? field with
  | some (.str s) => .ok s
  | _ => .error ("Collaboration field '" ++ field ++ "' must be a string")

def requiredUnsigned (object : Json String) (field : String) : Except String UInt64 :=
  match object.get? field with
  | some (.uint n) => .ok n
  | _ => .error ("Collaboration field '" ++ field ++ "' must be unsigned")

def requiredObject (object : Json String) (field : String) : Except String (Json String) :=
  match object.get? field with
  | some (.obj members) => .ok (.obj members)
  | _ => .error ("Collaboration field '" ++ field ++ "' must be an object")

def requiredArray (object : Json String) (field : String) : Except String (List (Json String)) :=
  match object.get? field with
  | some (.arr items) => .ok items
  | _ => .error ("Collaboration field '" ++ field ++ "' must be an array")

/-! ## Envelopes -/

/-- Reads `artifactToJson`. -/
def artifactFromJson (value : Json String) : Except String CollaborationArtifactReference := do
  let artifactIdentity ← requiredString value "artifact_identity"
  let uri ← requiredString value "uri"
  let mediaType ← requiredString value "media_type"
  let sizeBytes ← requiredUnsigned value "size_bytes"
  .ok { artifactIdentity, uri, mediaType, sizeBytes }

/-- The version of an envelope, which older envelopes do not have. -/
def programVersionIdFromJson (value : Json String) : Except String String :=
  if value.contains "program_version_id" then requiredString value "program_version_id"
  else .ok ""

/-- The payload must be there, of any kind. -/
def payloadFromJson (value : Json String) : Except String (Json String) :=
  match value.get? "payload" with
  | some payload => .ok payload
  | none => .error "Collaboration payload is required"

/-- Reads `envelopeToJson`. -/
def envelopeFromJson (value : Json String) : Except String CollaborationEnvelope := do
  let version ← requiredUnsigned value "storage_schema_version"
  if version ≠ 1 then .error "Unsupported collaboration envelope schema version"
  let linkId ← requiredString value "link_id"
  let senderOwnerScope ← requiredString value "sender_owner_scope"
  let receiverOwnerScope ← requiredString value "receiver_owner_scope"
  let senderAgentId ← requiredString value "sender_agent_id"
  let receiverAgentId ← requiredString value "receiver_agent_id"
  let senderProgramRunId ← requiredString value "sender_program_run_id"
  let receiverProgramRunId ← requiredString value "receiver_program_run_id"
  let programVersionId ← programVersionIdFromJson value
  let a2aTaskId ← requiredString value "a2a_task_id"
  let a2aContextId ← requiredString value "a2a_context_id"
  let messageId ← requiredString value "message_id"
  let correlationId ← requiredString value "correlation_id"
  let sequence ← requiredUnsigned value "sequence"
  let kind ← requiredString value "kind"
  let idempotencyKey ← requiredString value "idempotency_key"
  let payload ← payloadFromJson value
  let artifacts ← (← requiredArray value "artifacts").mapM artifactFromJson
  let envelope : CollaborationEnvelope := {
    linkId, senderOwnerScope, receiverOwnerScope, senderAgentId, receiverAgentId
    senderProgramRunId, receiverProgramRunId, programVersionId, a2aTaskId, a2aContextId
    messageId, correlationId, sequence, kind, idempotencyKey, payload, artifacts }
  validateEnvelopeShape envelope
  .ok envelope

/-! ## Records -/

namespace CollaborationRecordState

def text : CollaborationRecordState → String
  | .accepted => "accepted"
  | .acknowledged => "acknowledged"
  | .canceled => "canceled"

def ofText (value : String) : Except String CollaborationRecordState :=
  if value = "accepted" then .ok .accepted
  else if value = "acknowledged" then .ok .acknowledged
  else if value = "canceled" then .ok .canceled
  else .error "Unknown collaboration record state"

theorem ofText_text (state : CollaborationRecordState) : ofText state.text = .ok state := by
  cases state <;> rfl

end CollaborationRecordState

variable {ι : Type} (docs : Documents ι)

/-- A text that is embedded as a document. -/
def Documents.embed (bytes : String) : Except String (Json String) :=
  match docs.parse bytes with
  | some value => .ok value
  | none => .error "json::parse"

/-- A request is stored as the documents of its two parts. -/
def programRequestToJson : Option (ProgramRequest ι) → Except String (Json String)
  | none => .ok .null
  | some request => do
    let version ← docs.embed request.version.canonicalBytes
    let invocation ← docs.embed (docs.invocationBytes request.invocation)
    .ok (.obj [("version", version), ("invocation", invocation)])

/-- The document of a record. -/
def recordToJson (record : CollaborationRecord ι) : Except String (Json String) := do
  let programRequest ← programRequestToJson docs record.programRequest
  .ok (.obj [("envelope", envelopeToJson record.envelope), ("state", .str record.state.text),
    ("diagnostic", .str record.diagnostic), ("program_request", programRequest)])

/-- The request, if there is one; its version is the one the message names. -/
def programRequestFromJson (envelope : CollaborationEnvelope) (value : Json String) :
    Except String (Option (ProgramRequest ι)) :=
  match value.get? "program_request" with
  | none | some .null => .ok none
  | some _ => do
    let request ← requiredObject value "program_request"
    let version ← docs.parseVersion (docs.dump (← requiredObject request "version"))
    if envelope.programVersionId ≠ "" ∧ envelope.programVersionId ≠ version.id then
      .error "Collaboration ProgramVersion identity mismatch"
    let invocation ← docs.parseInvocation (docs.dump (← requiredObject request "invocation"))
    .ok (some ⟨version, invocation⟩)

/-- Reads `recordToJson`. -/
def recordFromJson (value : Json String) : Except String (CollaborationRecord ι) := do
  let envelope ← envelopeFromJson (← requiredObject value "envelope")
  let state ← CollaborationRecordState.ofText (← requiredString value "state")
  let diagnostic ← requiredString value "diagnostic"
  let programRequest ← programRequestFromJson docs envelope value
  .ok { envelope, state, diagnostic, programRequest }

/-! ## Mailboxes -/

namespace CollaborationMailbox

/-- Records in the order of correlation and sequence. -/
def recordLe (r r' : CollaborationRecord ι) : Bool :=
  if r.envelope.correlationId ≠ r'.envelope.correlationId then
    r.envelope.correlationId < r'.envelope.correlationId
  else r.envelope.sequence ≤ r'.envelope.sequence

/-- The records in the order in which they are stored. -/
def snapshot (m : CollaborationMailbox ι) : List (CollaborationRecord ι) :=
  (m.records.entries.map Prod.snd).mergeSort recordLe

/-- The document of a mailbox. -/
def toJson (m : CollaborationMailbox ι) : Except String (Json String) := do
  let links ← (m.links.entries.map Prod.snd).mapM fun link => docs.embed (docs.linkBytes link)
  let records ← m.snapshot.mapM (recordToJson docs)
  .ok (.obj [("storage_schema_version", .uint 2), ("owner_scope", .str m.ownerScope),
    ("agent_id", .str m.agentId), ("links", .arr links), ("records", .arr records)])

/-- The text of a mailbox. -/
def serializeCanonical (m : CollaborationMailbox ι) : Except String String :=
  (m.toJson docs).map docs.dump

/-- One link is read back. -/
def restoreLink (m : CollaborationMailbox ι) (item : Json String) :
    Except String (CollaborationMailbox ι) := do
  let link ← docs.parseLink (docs.dump item)
  if link.spec.receiverOwnerScope ≠ m.ownerScope ∨ link.spec.receiverAgentId ≠ m.agentId then
    .error "Collaboration mailbox link owner mismatch"
  if (m.links.find? link.spec.linkId).isSome then
    .error "Collaboration mailbox contains duplicate link identity"
  .ok { m with links := m.links.insert link.spec.linkId link }

/-- The request of a record is the one that its envelope asks for. -/
def typedRequestMatches (m : CollaborationMailbox ι) (record : CollaborationRecord ι) : Bool :=
  match record.programRequest with
  | none => record.envelope.programVersionId = ""
  | some request =>
    record.envelope.programVersionId ≠ "" &&
      request.version.id = record.envelope.programVersionId &&
      request.version.ownershipScope = m.ownerScope &&
      invocationMatchesEnvelope docs.toCodec request.invocation record.envelope

/-- What the mailbox must know of a record's link. -/
def checkLink (m : CollaborationMailbox ι) (envelope : CollaborationEnvelope) :
    Except String Unit :=
  match m.links.find? envelope.linkId with
  | none => .error "Collaboration mailbox record references an unknown link"
  | some link =>
    if envelope.senderOwnerScope ≠ link.spec.senderOwnerScope
        ∨ envelope.senderAgentId ≠ link.spec.senderAgentId
        ∨ envelope.receiverOwnerScope ≠ link.spec.receiverOwnerScope
        ∨ envelope.receiverAgentId ≠ link.spec.receiverAgentId then
      .error "Collaboration mailbox record/link identity mismatch"
    else if link.state = .proposed then
      .error "Collaboration mailbox record references an unaccepted link"
    else .ok ()

/-- The sequences that were read, with their correlations. -/
abbrev Seen := List (String × UInt64)

/-- One record is read back. -/
def restoreRecord (state : CollaborationMailbox ι × Seen) (item : Json String) :
    Except String (CollaborationMailbox ι × Seen) := do
  let m := state.1
  let record ← recordFromJson docs item
  let envelope := record.envelope
  if envelope.receiverOwnerScope ≠ m.ownerScope ∨ envelope.receiverAgentId ≠ m.agentId then
    .error "Collaboration mailbox record owner mismatch"
  m.checkLink envelope
  if (envelope.correlationId, envelope.sequence) ∈ state.2 then
    .error "Collaboration mailbox contains duplicate sequence identity"
  if !m.typedRequestMatches docs record then
    if record.programRequest.isSome then
      .error "Collaboration mailbox typed Program request mismatch"
    else .error "Collaboration mailbox lost its typed Program request"
  if (m.records.find? envelope.idempotencyKey).isSome then
    .error "Collaboration mailbox contains duplicate idempotency key"
  let highest := max (m.highestSequence.getD envelope.correlationId 0) envelope.sequence
  .ok ({ m with
    records := m.records.insert envelope.idempotencyKey record
    highestSequence := m.highestSequence.insert envelope.correlationId highest },
    state.2 ++ [(envelope.correlationId, envelope.sequence)])

/-- Sequences in ascending order are `expected` and the numbers that follow. -/
def hasGap : UInt64 → List UInt64 → Bool
  | _, [] => false
  | expected, sequence :: sequences =>
    sequence ≠ expected ||
      hasGap (if expected = UInt64.ofNat (2 ^ 64 - 1) then expected else expected + 1) sequences

/-- The sequences of a correlation that were seen, in order. -/
def sequencesOf (seen : Seen) (correlationId : String) : List UInt64 :=
  ((seen.filter fun s => s.1 = correlationId).map Prod.snd).mergeSort fun a b => a ≤ b

/-- The sequences of every correlation count from one. -/
def checkGaps (seen : Seen) : Except String Unit :=
  match seen.find? fun s => hasGap 1 (sequencesOf seen s.1) with
  | some s => .error
      ("Collaboration mailbox contains a sequence gap in correlation '" ++ s.1 ++ "'")
  | none => .ok ()

/-- **The mailbox of a text.** Its records are checked one by one and then
together. -/
def restore (text : String) : Except String (CollaborationMailbox ι) := do
  let value ← docs.embed text
  let version ← requiredUnsigned value "storage_schema_version"
  if version ≠ 2 then .error "Unsupported collaboration mailbox storage schema version"
  let ownerScope ← requiredString value "owner_scope"
  let agentId ← requiredString value "agent_id"
  let linked ← (← requiredArray value "links").foldlM (restoreLink docs) { ownerScope, agentId }
  let restored ← (← requiredArray value "records").foldlM (restoreRecord docs) (linked, [])
  checkGaps restored.2
  .ok restored.1

end CollaborationMailbox

end NeoGraph.A2A
