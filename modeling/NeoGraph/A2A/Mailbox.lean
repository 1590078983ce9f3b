import NeoGraph.A2A.Collaboration

/-!
# The mailbox of one agent

A mailbox keeps the links that its agent accepted and the messages that came
under them, one for each idempotency key, with the highest sequence of each
correlation. A request to Program comes with its version and its invocation.

Every operation gets the readings of the clock that it makes, and answers; an
operation that throws answers with the error.
-/

namespace NeoGraph.A2A

variable {ι : Type}

/-- What became of a message that was taken in. -/
inductive CollaborationRecordState where
  | accepted
  | acknowledged
  | canceled
deriving DecidableEq

/-- The request to Program that came with a message. -/
structure ProgramRequest (ι : Type) where
  version : ProgramVersion
  invocation : RunInvocation ι

/-- A message that was taken in, with what became of it. -/
structure CollaborationRecord (ι : Type) where
  envelope : CollaborationEnvelope
  state : CollaborationRecordState := .accepted
  diagnostic : String := ""
  programRequest : Option (ProgramRequest ι) := none

/-- What the sender of a message is told. -/
inductive CollaborationSubmitResult where
  | accepted
  | duplicate
  | conflict
  | rejected
deriving DecidableEq

/-- The mailbox of one agent of one owner. -/
structure CollaborationMailbox (ι : Type) where
  ownerScope : String
  agentId : String
  links : SortedMap String CollaborationLink := ∅
  records : SortedMap String (CollaborationRecord ι) := ∅
  highestSequence : SortedMap String UInt64 := ∅

namespace CollaborationMailbox

variable (codec : Codec ι)

/-! ## Links -/

/-- The link as the mailbox keeps it: a proposal is accepted. -/
def admitLink (m : CollaborationMailbox ι) (now : UInt64) (link : CollaborationLink)
    (consentToken : String) : Except String CollaborationLink :=
  if link.spec.receiverOwnerScope ≠ m.ownerScope ∨ link.spec.receiverAgentId ≠ m.agentId then
    .error "Collaboration link is not addressed to this mailbox"
  else match link.state with
    | .proposed => link.accept codec.sha256 now m.agentId consentToken
    | .accepted =>
      if link.consentFingerprint ≠ codec.sha256 consentToken then
        .error "Collaboration consent proof mismatch"
      else .ok link
    | .revoked => .ok link

/-- A link is added that was accepted here or is accepted now. -/
def acceptLink (m : CollaborationMailbox ι) (now : UInt64) (link : CollaborationLink)
    (consentToken : String) : CollaborationMailbox ι × Except String Unit :=
  match m.admitLink codec now link consentToken with
  | .error error => (m, .error error)
  | .ok link => ({ m with links := m.links.insert link.spec.linkId link }, .ok ())

/-- A message of a revoked link that was accepted is canceled. -/
def revokeRecord (linkId : String) (record : CollaborationRecord ι) : CollaborationRecord ι :=
  if record.envelope.linkId = linkId ∧ record.state = .accepted then
    { record with state := .canceled, diagnostic := "collaboration link revoked" }
  else record

/-- A link of this mailbox is revoked. -/
def revokeLink (m : CollaborationMailbox ι) (linkId actorAgentId : String) :
    CollaborationMailbox ι × Except String Unit :=
  match m.links.find? linkId with
  | none => (m, .ok ())
  | some link =>
    match link.revoke actorAgentId with
    | .error error => (m, .error error)
    | .ok link =>
      ({ m with
        links := m.links.insert linkId link
        records := m.records.filterMap fun _ record => some (revokeRecord linkId record) }, .ok ())

/-! ## Messages -/

/-- The link of an envelope, if it is live and joins the two agents. -/
def addressedLink (m : CollaborationMailbox ι) (now : UInt64) (envelope : CollaborationEnvelope) :
    Option CollaborationLink :=
  (m.links.find? envelope.linkId).filter fun link =>
    link.isLive now &&
      envelope.receiverOwnerScope = m.ownerScope &&
      envelope.receiverAgentId = m.agentId &&
      envelope.senderOwnerScope = link.spec.senderOwnerScope &&
      envelope.senderAgentId = link.spec.senderAgentId

/-- Every value is permitted, each at its own reading of the clock. -/
def permitsEach (permits : UInt64 → String → Bool) (now : ℕ → UInt64) : ℕ → List String → Bool
  | _, [] => true
  | i, value :: values => permits (now i) value && permitsEach permits now (i + 1) values

/-- A message is accepted if it is the next of its correlation. -/
def append (m : CollaborationMailbox ι) (record : CollaborationRecord ι) :
    CollaborationMailbox ι × CollaborationSubmitResult :=
  let correlationId := record.envelope.correlationId
  if record.envelope.sequence ≠ m.highestSequence.getD correlationId 0 + 1 then
    ({ m with highestSequence := m.highestSequence.tryEmplace correlationId 0 }, .rejected)
  else
    ({ m with
      highestSequence := m.highestSequence.insert correlationId record.envelope.sequence
      records := m.records.tryEmplace record.envelope.idempotencyKey record }, .accepted)

/-- The identities of the artifacts of an envelope. -/
def artifactIdentities (envelope : CollaborationEnvelope) : List String :=
  envelope.artifacts.map (·.artifactIdentity)

/-- **A message comes in.** It is checked against its link before its key is
looked up. -/
def submit (m : CollaborationMailbox ι) (now : ℕ → UInt64) (envelope : CollaborationEnvelope) :
    CollaborationMailbox ι × Except String CollaborationSubmitResult :=
  match validateEnvelopeShape envelope with
  | .error error => (m, .error error)
  | .ok () =>
    match m.addressedLink (now 0) envelope with
    | none => (m, .ok .rejected)
    | some link =>
      if !link.permitsMessageKind (now 1) envelope.kind then (m, .ok .rejected)
      else if !permitsEach link.permitsArtifact now 2 (artifactIdentities envelope) then
        (m, .ok .rejected)
      else match m.records.find? envelope.idempotencyKey with
        | some existing =>
          if existing.envelope.contentHash codec = envelope.contentHash codec then
            (m, .ok .duplicate)
          else (m, .ok .conflict)
        | none => ((m.append { envelope }).1, .ok (m.append { envelope }).2)

/-- A record holds the same request. -/
def sameRequest (existing : CollaborationRecord ι) (envelope : CollaborationEnvelope)
    (version : ProgramVersion) (invocation : RunInvocation ι) : Bool :=
  existing.envelope.contentHash codec = envelope.contentHash codec &&
    match existing.programRequest with
    | none => false
    | some request =>
      request.version.canonicalBytes = version.canonicalBytes &&
        compareInvocations codec request.invocation invocation = .duplicate

/-- What a link must permit for a request, at the readings of the clock that
follow the first. -/
def permitsRequest (link : CollaborationLink) (now : ℕ → UInt64)
    (envelope : CollaborationEnvelope) (version : ProgramVersion) : Bool :=
  let effects := 1 + version.allowedCapabilities.length
  let kind := effects + version.allowedEffects.length
  permitsEach link.permitsCapability now 1 version.allowedCapabilities &&
    permitsEach link.permitsEffect now effects version.allowedEffects &&
    link.permitsMessageKind (now kind) envelope.kind &&
    permitsEach link.permitsArtifact now (kind + 1) (artifactIdentities envelope)

/-- A message comes in with a request to Program. -/
def submitProgram (m : CollaborationMailbox ι) (now : ℕ → UInt64)
    (envelope : CollaborationEnvelope) (version : ProgramVersion) (invocation : RunInvocation ι) :
    CollaborationMailbox ι × Except String CollaborationSubmitResult :=
  if version.ownershipScope ≠ envelope.receiverOwnerScope
      ∨ envelope.receiverOwnerScope ≠ m.ownerScope ∨ envelope.receiverAgentId ≠ m.agentId then
    (m, .ok .rejected)
  else if envelope.programVersionId ≠ "" ∧ envelope.programVersionId ≠ version.id then
    (m, .ok .conflict)
  else
    let envelope := { envelope with programVersionId := version.id }
    if !invocationMatchesEnvelope codec invocation envelope then (m, .ok .rejected)
    else match m.addressedLink (now 0) envelope with
      | none => (m, .ok .rejected)
      | some link =>
        if !permitsRequest link now envelope version then (m, .ok .rejected)
        else match validateEnvelopeShape envelope with
          | .error error => (m, .error error)
          | .ok () =>
            match m.records.find? envelope.idempotencyKey with
            | some existing =>
              if sameRequest codec existing envelope version invocation then (m, .ok .duplicate)
              else (m, .ok .conflict)
            | none =>
              let record : CollaborationRecord ι :=
                { envelope, programRequest := some ⟨version, invocation⟩ }
              ((m.append record).1, .ok (m.append record).2)

/-- The request of a message that is still accepted, under a live link. -/
def getProgramRequest (m : CollaborationMailbox ι) (now : UInt64) (idempotencyKey : String) :
    Option (ProgramRequest ι) :=
  match m.records.find? idempotencyKey with
  | none => none
  | some record =>
    if record.state ≠ .accepted then none
    else match record.programRequest, m.links.find? record.envelope.linkId with
      | some request, some link => if link.isLive now then some request else none
      | _, _ => none

/-- The agent has seen the message. -/
def acknowledge (m : CollaborationMailbox ι) (idempotencyKey : String) :
    CollaborationMailbox ι × Bool :=
  match m.records.find? idempotencyKey with
  | none => (m, false)
  | some record =>
    if record.state = .canceled then (m, false)
    else
      ({ m with
        records := m.records.insert idempotencyKey { record with state := .acknowledged } }, true)

/-- A message that a cancellation reaches. -/
def isCanceledBy (linkId correlationId : String) (record : CollaborationRecord ι) : Bool :=
  record.envelope.linkId = linkId && record.envelope.correlationId = correlationId &&
    record.state ≠ .canceled

/-- A participant cancels the messages of a correlation. -/
def cancel (m : CollaborationMailbox ι) (now : UInt64)
    (linkId correlationId actorAgentId : String) : CollaborationMailbox ι × Bool :=
  match m.links.find? linkId with
  | none => (m, false)
  | some link =>
    if !link.permitsCancellation now actorAgentId then (m, false)
    else
      ({ m with
        records := m.records.filterMap fun _ record =>
          some (if isCanceledBy linkId correlationId record then
            { record with state := .canceled } else record) },
        m.records.entries.any fun entry => isCanceledBy linkId correlationId entry.2)

/-! ## Operations -/

/-- An operation on a mailbox. -/
inductive Operation (ι : Type) where
  | acceptLink (link : CollaborationLink) (consentToken : String)
  | revokeLink (linkId actorAgentId : String)
  | submit (envelope : CollaborationEnvelope)
  | submitProgram (envelope : CollaborationEnvelope) (version : ProgramVersion)
      (invocation : RunInvocation ι)
  | acknowledge (idempotencyKey : String)
  | cancel (linkId correlationId actorAgentId : String)

/-- What an operation answers. -/
inductive Answer where
  | done
  | result (result : CollaborationSubmitResult)
  | flag (changed : Bool)
  | threw (error : String)
deriving DecidableEq

/-- One operation, with the readings of the clock that it makes. -/
def step : Operation ι × (ℕ → UInt64) → CollaborationMailbox ι → CollaborationMailbox ι × Answer
  | (.acceptLink link consentToken, now), m =>
    let result := m.acceptLink codec (now 0) link consentToken
    (result.1, match result.2 with
      | .ok () => .done
      | .error error => .threw error)
  | (.revokeLink linkId actorAgentId, _), m =>
    let result := m.revokeLink linkId actorAgentId
    (result.1, match result.2 with
      | .ok () => .done
      | .error error => .threw error)
  | (.submit envelope, now), m =>
    let result := m.submit codec now envelope
    (result.1, match result.2 with
      | .ok answer => .result answer
      | .error error => .threw error)
  | (.submitProgram envelope version invocation, now), m =>
    let result := m.submitProgram codec now envelope version invocation
    (result.1, match result.2 with
      | .ok answer => .result answer
      | .error error => .threw error)
  | (.acknowledge idempotencyKey, _), m =>
    let result := m.acknowledge idempotencyKey
    (result.1, .flag result.2)
  | (.cancel linkId correlationId actorAgentId, now), m =>
    let result := m.cancel (now 0) linkId correlationId actorAgentId
    (result.1, .flag result.2)

end CollaborationMailbox

end NeoGraph.A2A
