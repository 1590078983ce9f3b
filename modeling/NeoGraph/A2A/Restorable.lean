import NeoGraph.A2A.Equivalence

/-!
# Mailboxes that can be read back

What is written of an envelope reads as the envelope, and what is written of a
record reads as the same record, if the version and the invocation of its
request are read back from their own texts (`ReadsBack`).

What reading back checks of a record is that its link joins the same agents,
that a record of a version has its request, and that the document is not nested
too deep (`Restorable`). An operation keeps this if it does not bring a record
that breaks it, and no link in the place of another sender's (`Storable`).
-/

namespace NeoGraph.A2A

variable {ι : Type}

/-! ## Envelopes -/

theorem artifactFromJson_artifactToJson (a : CollaborationArtifactReference) :
    artifactFromJson (artifactToJson a) = .ok a := rfl

theorem mapM_artifactFromJson (artifacts : List CollaborationArtifactReference) :
    (artifacts.map artifactToJson).mapM artifactFromJson = .ok artifacts := by
  induction artifacts with
  | nil => rfl
  | cons a artifacts ih =>
    rw [List.map_cons, List.mapM_cons, artifactFromJson_artifactToJson, ih]
    rfl

theorem validateEnvelopeShape_unsigned (e : CollaborationEnvelope) :
    validateEnvelopeShape e.unsigned = validateEnvelopeShape e := by
  unfold validateEnvelopeShape
  rw [show e.unsigned.payload = e.payload.unsigned from rfl, Json.isObject_unsigned,
    Json.isArray_unsigned]
  rfl

variable {field : String} {object : Json String}

theorem requiredString_of_get? {value : String} (h : object.get? field = some (.str value)) :
    requiredString object field = .ok value := by
  unfold requiredString
  rw [h]

theorem requiredUnsigned_of_get? {n : UInt64} (h : object.get? field = some (.uint n)) :
    requiredUnsigned object field = .ok n := by
  unfold requiredUnsigned
  rw [h]

theorem requiredArray_of_get? {items : List (Json String)}
    (h : object.get? field = some (.arr items)) : requiredArray object field = .ok items := by
  unfold requiredArray
  rw [h]

theorem requiredObject_of_get? {v : Json String} (h : object.get? field = some v)
    (hv : v.isObject = true) : requiredObject object field = .ok v := by
  unfold requiredObject
  rw [h]
  cases v with
  | obj members => rfl
  | _ => cases hv

variable {e : CollaborationEnvelope}

/-- **An envelope** is read back. -/
theorem envelopeFromJson_envelopeToJson
    (h : validateEnvelopeShape e = .ok ()) : envelopeFromJson (envelopeToJson e) = .ok e := by
  have hv : programVersionIdFromJson (envelopeToJson e) = .ok e.programVersionId := by
    unfold programVersionIdFromJson
    rw [if_pos (show (envelopeToJson e).contains "program_version_id" = true from rfl)]
    exact requiredString_of_get? rfl
  have hpay : payloadFromJson (envelopeToJson e) = .ok e.payload := rfl
  unfold envelopeFromJson
  rw [hv, hpay,
    requiredUnsigned_of_get? (show (envelopeToJson e).get? "storage_schema_version" = _ from rfl),
    requiredString_of_get? (show (envelopeToJson e).get? "link_id" = _ from rfl),
    requiredString_of_get? (show (envelopeToJson e).get? "sender_owner_scope" = _ from rfl),
    requiredString_of_get? (show (envelopeToJson e).get? "receiver_owner_scope" = _ from rfl),
    requiredString_of_get? (show (envelopeToJson e).get? "sender_agent_id" = _ from rfl),
    requiredString_of_get? (show (envelopeToJson e).get? "receiver_agent_id" = _ from rfl),
    requiredString_of_get? (show (envelopeToJson e).get? "sender_program_run_id" = _ from rfl),
    requiredString_of_get? (show (envelopeToJson e).get? "receiver_program_run_id" = _ from rfl),
    requiredString_of_get? (show (envelopeToJson e).get? "a2a_task_id" = _ from rfl),
    requiredString_of_get? (show (envelopeToJson e).get? "a2a_context_id" = _ from rfl),
    requiredString_of_get? (show (envelopeToJson e).get? "message_id" = _ from rfl),
    requiredString_of_get? (show (envelopeToJson e).get? "correlation_id" = _ from rfl),
    requiredUnsigned_of_get? (show (envelopeToJson e).get? "sequence" = _ from rfl),
    requiredString_of_get? (show (envelopeToJson e).get? "kind" = _ from rfl),
    requiredString_of_get? (show (envelopeToJson e).get? "idempotency_key" = _ from rfl),
    requiredArray_of_get? (show (envelopeToJson e).get? "artifacts" = _ from rfl)]
  show (do
    let artifacts ← (e.artifacts.map artifactToJson).mapM artifactFromJson
    validateEnvelopeShape { e with artifacts := artifacts }
    Except.ok { e with artifacts := artifacts }) = .ok e
  rw [mapM_artifactFromJson]
  show (do
    validateEnvelopeShape e
    Except.ok e) = .ok e
  rw [h]
  rfl

/-! ## Requests and records -/

variable {docs : Documents ι}

/-- A version is read back from its own text. -/
def VersionReadsBack (docs : Documents ι) (version : ProgramVersion) : Prop :=
  ∃ value, docs.parse version.canonicalBytes = some value ∧ value.isObject = true
    ∧ docs.parseVersion (docs.dump value.unsigned) = .ok version

/-- An invocation is read back from its own text. -/
def InvocationReadsBack (docs : Documents ι) (invocation : RunInvocation ι) : Prop :=
  ∃ value read, docs.parse (docs.invocationBytes invocation) = some value
    ∧ value.isObject = true ∧ docs.parseInvocation (docs.dump value.unsigned) = .ok read
    ∧ SameInvocation docs invocation read

/-- A request to Program that is read back from its own document. -/
structure RequestReadsBack (docs : Documents ι) (request : ProgramRequest ι) : Prop where
  version : VersionReadsBack docs request.version
  invocation : InvocationReadsBack docs request.invocation

/-- The document of a request. -/
def requestItem (docs : Documents ι) : Option (ProgramRequest ι) → Json String
  | none => .null
  | some request =>
    .obj [("version", (docs.parse request.version.canonicalBytes).getD .null),
      ("invocation", (docs.parse (docs.invocationBytes request.invocation)).getD .null)]

/-- The document of a record. -/
def recordItem (docs : Documents ι) (record : CollaborationRecord ι) : Json String :=
  .obj [("envelope", envelopeToJson record.envelope), ("state", .str record.state.text),
    ("diagnostic", .str record.diagnostic),
    ("program_request", requestItem docs record.programRequest)]

variable {request : Option (ProgramRequest ι)}

theorem programRequestToJson_eq (h : ∀ q ∈ request, RequestReadsBack docs q) :
    programRequestToJson docs request = .ok (requestItem docs request) := by
  cases request with
  | none => rfl
  | some q =>
    obtain ⟨⟨value, hv, -⟩, ⟨value', read, hv', -⟩⟩ := h q rfl
    unfold programRequestToJson requestItem Documents.embed
    dsimp only
    rw [hv, hv']
    rfl

theorem recordToJson_eq {record : CollaborationRecord ι}
    (h : ∀ q ∈ record.programRequest, RequestReadsBack docs q) :
    recordToJson docs record = .ok (recordItem docs record) := by
  unfold recordToJson
  rw [programRequestToJson_eq h]
  rfl

/-- **A request** is read back, under the version of its envelope. -/
theorem programRequestFromJson_requestItem {value : Json String}
    (h : ∀ q ∈ request, RequestReadsBack docs q ∧ q.version.id = e.programVersionId)
    (hg : value.get? "program_request" = some (requestItem docs request).unsigned) :
    ∃ read, programRequestFromJson docs e value = .ok read
      ∧ Option.Rel (SameProgramRequest docs) request read := by
  cases request with
  | none =>
    refine ⟨none, ?_, .none⟩
    unfold programRequestFromJson
    rw [hg]
    rfl
  | some q =>
    obtain ⟨⟨⟨version, hv, ho, hp⟩, ⟨invocation, read, hinv, ho',
      hp', hsm⟩⟩, hid⟩ := h q rfl
    have hi : (requestItem docs (some q)).unsigned
        = .obj [("version", version.unsigned), ("invocation", invocation.unsigned)] := by
      unfold requestItem
      dsimp only
      rw [hv, hinv]
      rfl
    rw [hi] at hg
    refine ⟨some ⟨q.version, read⟩, ?_, .some ⟨rfl, hsm⟩⟩
    have hsameId : ¬(e.programVersionId ≠ "" ∧ e.programVersionId ≠ q.version.id) :=
      fun hne => hne.2 hid.symm
    have hversionField : requiredObject (.obj [("version", version.unsigned),
        ("invocation", invocation.unsigned)]) "version" = .ok version.unsigned :=
      requiredObject_of_get? rfl (by rw [Json.isObject_unsigned, ho])
    have hinvocationField : requiredObject (.obj [("version", version.unsigned),
        ("invocation", invocation.unsigned)]) "invocation" = .ok invocation.unsigned :=
      requiredObject_of_get? rfl (by rw [Json.isObject_unsigned, ho'])
    unfold programRequestFromJson
    rw [hg]
    rw [requiredObject_of_get? hg rfl]
    dsimp only [bind, Except.bind]
    rw [hversionField]
    dsimp only
    rw [hp]
    dsimp only
    rw [if_neg hsameId, hinvocationField]
    dsimp only [pure, Except.pure]
    rw [hp']

/-- **A record** is read back. -/
theorem recordFromJson_recordItem {r : CollaborationRecord ι}
    (hsh : validateEnvelopeShape r.envelope = .ok ())
    (h : ∀ q ∈ r.programRequest, RequestReadsBack docs q
      ∧ q.version.id = r.envelope.programVersionId) :
    ∃ read, recordFromJson docs (recordItem docs r).unsigned = .ok read
      ∧ SameRecord docs r read := by
  have hi : (recordItem docs r).unsigned
      = .obj [("envelope", envelopeToJson r.envelope.unsigned), ("state", .str r.state.text),
        ("diagnostic", .str r.diagnostic),
        ("program_request", (requestItem docs r.programRequest).unsigned)] := by
    unfold recordItem
    rw [Json.unsigned_obj, ← unsigned_envelopeToJson]
    rfl
  have hv : ∀ q ∈ r.programRequest, RequestReadsBack docs q
      ∧ q.version.id = r.envelope.unsigned.programVersionId := h
  have hg : (recordItem docs r).unsigned.get? "program_request"
      = some (requestItem docs r.programRequest).unsigned := by
    rw [hi]
    rfl
  obtain ⟨request, hreq, hsm⟩ := programRequestFromJson_requestItem hv hg
  refine ⟨⟨r.envelope.unsigned, r.state, r.diagnostic, request⟩, ?_, ?_, rfl, rfl, hsm⟩
  · unfold recordFromJson
    rw [requiredObject_of_get? (v := envelopeToJson r.envelope.unsigned) (by rw [hi]; rfl) rfl,
      requiredString_of_get? (show (recordItem docs r).unsigned.get? "state"
        = some (.str r.state.text) from by rw [hi]; rfl),
      requiredString_of_get? (show (recordItem docs r).unsigned.get? "diagnostic"
        = some (.str r.diagnostic) from by rw [hi]; rfl)]
    dsimp only [bind, Except.bind]
    rw [envelopeFromJson_envelopeToJson (by rw [validateEnvelopeShape_unsigned, hsh]),
      CollaborationRecordState.ofText_text]
    dsimp only
    rw [hreq]
  · unfold CollaborationEnvelope.unsigned
    rw [Json.unsigned_unsigned]

end NeoGraph.A2A

namespace NeoGraph.A2A.CollaborationMailbox

variable {ι : Type} {docs : Documents ι}

/-- The documents of a message are not nested too deep for their place in the
document of a mailbox. -/
structure Shallow (docs : Documents ι) (request : Request ι) : Prop where
  payload : request.1.payload.nesting ≤ 252
  version : ∀ q ∈ request.2, ∀ v, docs.parse q.version.canonicalBytes = some v → v.nesting ≤ 252
  invocation : ∀ q ∈ request.2, ∀ v, docs.parse (docs.invocationBytes q.invocation) = some v →
    v.nesting ≤ 252

/-- What reading back checks of a message alone. -/
structure Content (docs : Documents ι) (ownerScope agentId : String) (request : Request ι) :
    Prop where
  shape : validateEnvelopeShape request.1 = .ok ()
  receiver : request.1.receiverOwnerScope = ownerScope ∧ request.1.receiverAgentId = agentId
  typed : ∀ q ∈ request.2, q.version.id = request.1.programVersionId
    ∧ q.version.ownershipScope = ownerScope
    ∧ invocationMatchesEnvelope docs.toCodec q.invocation request.1 = true
  untyped : request.2 = none → request.1.programVersionId = ""
  shallow : Shallow docs request

/-- The link of a message joins its agents. -/
def Linked (m : CollaborationMailbox ι) (envelope : CollaborationEnvelope) : Prop :=
  ∃ link, m.links.find? envelope.linkId = some link
    ∧ envelope.senderOwnerScope = link.spec.senderOwnerScope
    ∧ envelope.senderAgentId = link.spec.senderAgentId

/-- The message of a record. -/
def requestOf (r : CollaborationRecord ι) : Request ι := (r.envelope, r.programRequest)

/-- **A mailbox that can be read back.** -/
structure Restorable (docs : Documents ι) (m : CollaborationMailbox ι) : Prop where
  inOrder : ∃ requests, InOrder requests m
  links : ∀ id link, m.links.find? id = some link → link.spec.linkId = id
    ∧ link.spec.receiverOwnerScope = m.ownerScope ∧ link.spec.receiverAgentId = m.agentId
    ∧ link.state ≠ .proposed
  content : ∀ key r, m.records.find? key = some r →
    Content docs m.ownerScope m.agentId (requestOf r)
  linked : ∀ key r, m.records.find? key = some r → m.Linked r.envelope

/-- **An operation that does no harm**: a message that it accepts without a
request names no version, its documents are not nested too deep, and a link
that it accepts keeps the sender of the messages under its id. -/
structure Storable (docs : Documents ι) (op : Operation ι × (ℕ → UInt64))
    (m : CollaborationMailbox ι) : Prop where
  message : ∀ request, op.1.request = some request →
    (step docs.toCodec op m).2 = .result .accepted →
    (request.2 = none → request.1.programVersionId = "") ∧ Shallow docs request
  link : ∀ link token, op.1 = .acceptLink link token → (step docs.toCodec op m).2 = .done →
    ∀ key r, m.records.find? key = some r → r.envelope.linkId = link.spec.linkId →
      r.envelope.senderOwnerScope = link.spec.senderOwnerScope
        ∧ r.envelope.senderAgentId = link.spec.senderAgentId

/-- Every operation of a run does no harm. -/
def StorableRun (docs : Documents ι) : CollaborationMailbox ι →
    List (Operation ι × (ℕ → UInt64)) → Prop
  | _, [] => True
  | m, op :: ops => Storable docs op m ∧ StorableRun docs (step docs.toCodec op m).1 ops

/-! ## Links and owners -/

theorem append_frame (m : CollaborationMailbox ι) (r : CollaborationRecord ι) :
    (m.append r).1.links = m.links ∧ (m.append r).1.ownerScope = m.ownerScope
      ∧ (m.append r).1.agentId = m.agentId := by
  unfold append
  dsimp only
  split <;> exact ⟨rfl, rfl, rfl⟩

variable (codec : Codec ι)

/-- A message changes neither the links nor whose mailbox it is. -/
theorem submit_frame (m : CollaborationMailbox ι) (now : ℕ → UInt64)
    (envelope : CollaborationEnvelope) : (m.submit codec now envelope).1.links = m.links
      ∧ (m.submit codec now envelope).1.ownerScope = m.ownerScope
      ∧ (m.submit codec now envelope).1.agentId = m.agentId := by
  unfold submit
  split
  · exact ⟨rfl, rfl, rfl⟩
  split
  · exact ⟨rfl, rfl, rfl⟩
  split
  · exact ⟨rfl, rfl, rfl⟩
  split
  · exact ⟨rfl, rfl, rfl⟩
  split
  · split <;> exact ⟨rfl, rfl, rfl⟩
  · exact append_frame m _

theorem submitProgram_frame (m : CollaborationMailbox ι) (now : ℕ → UInt64)
    (envelope : CollaborationEnvelope) (version : ProgramVersion) (invocation : RunInvocation ι) :
    (m.submitProgram codec now envelope version invocation).1.links = m.links
      ∧ (m.submitProgram codec now envelope version invocation).1.ownerScope = m.ownerScope
      ∧ (m.submitProgram codec now envelope version invocation).1.agentId = m.agentId := by
  unfold submitProgram
  dsimp only
  split
  · exact ⟨rfl, rfl, rfl⟩
  split
  · exact ⟨rfl, rfl, rfl⟩
  split
  · exact ⟨rfl, rfl, rfl⟩
  split
  · exact ⟨rfl, rfl, rfl⟩
  split
  · exact ⟨rfl, rfl, rfl⟩
  split
  · exact ⟨rfl, rfl, rfl⟩
  split
  · split <;> exact ⟨rfl, rfl, rfl⟩
  · exact append_frame m _

/-- **What an operation does to the links.** -/
inductive LinkEffect (op : Operation ι × (ℕ → UInt64)) (m m' : CollaborationMailbox ι)
    (answer : Answer) : Prop
  | same (hlinks : m'.links = m.links)
  | accepts (link : CollaborationLink) (token : String) (admitted : CollaborationLink)
      (hop : op.1 = .acceptLink link token) (hanswer : answer = .done)
      (hspec : admitted.spec = link.spec) (hstate : admitted.state ≠ .proposed)
      (hreceiver : link.spec.receiverOwnerScope = m.ownerScope
        ∧ link.spec.receiverAgentId = m.agentId)
      (hlinks : m'.links = m.links.insert link.spec.linkId admitted)
  | revokes (id : String) (link : CollaborationLink) (hfound : m.links.find? id = some link)
      (hlinks : m'.links = m.links.insert id { link with state := .revoked })

variable {link : CollaborationLink} {now : UInt64}

theorem accept_eq_ok {sha256 : String → String} {accepted : CollaborationLink}
    {receiver token : String} (h : link.accept sha256 now receiver token = .ok accepted) :
    accepted = { link with state := .accepted, consentFingerprint := sha256 token } := by
  unfold CollaborationLink.accept at h
  dsimp only [bind, Except.bind] at h
  split at h
  · cases h
  split at h
  · cases h
  split at h
  · cases h
  split at h
  · cases h
  · cases h
    rfl

theorem revoke_eq_ok {revoked : CollaborationLink} {actorAgentId : String}
    (h : link.revoke actorAgentId = .ok revoked) : revoked = { link with state := .revoked } := by
  obtain ⟨spec, state, fingerprint, valid⟩ := link
  unfold CollaborationLink.revoke at h
  split at h
  · rename_i hst
    cases h
    obtain rfl : state = .revoked := hst
    rfl
  · split at h
    · cases h
    · cases h
      rfl

variable {m : CollaborationMailbox ι}

/-- A link that the mailbox keeps was accepted, or revoked. -/
theorem admitLink_spec {codec : Codec ι} {admitted : CollaborationLink}
    {token : String} (h : m.admitLink codec now link token = .ok admitted) :
    admitted.spec = link.spec ∧ admitted.state ≠ .proposed
      ∧ link.spec.receiverOwnerScope = m.ownerScope ∧ link.spec.receiverAgentId = m.agentId := by
  unfold admitLink at h
  split at h
  · cases h
  rename_i hrcv
  push Not at hrcv
  split at h
  · rw [accept_eq_ok h]
    exact ⟨rfl, nofun, hrcv.1, hrcv.2⟩
  · rename_i ha
    split at h
    · cases h
    · cases h
      rw [ha]
      exact ⟨rfl, nofun, hrcv.1, hrcv.2⟩
  · rename_i hrevoked
    cases h
    rw [hrevoked]
    exact ⟨rfl, nofun, hrcv.1, hrcv.2⟩

/-- What an operation does to the links. -/
theorem step_links (op : Operation ι × (ℕ → UInt64)) (m : CollaborationMailbox ι) :
    LinkEffect op m (step codec op m).1 (step codec op m).2 := by
  obtain ⟨op, now⟩ := op
  cases op with
  | acceptLink link token =>
    rw [step]
    unfold acceptLink
    dsimp only
    split
    · exact .same rfl
    rename_i admitted hadm
    obtain ⟨hs, hst, hrcv⟩ := admitLink_spec hadm
    refine .accepts link token admitted rfl rfl hs hst hrcv ?_
    dsimp only
    rw [hs]
  | revokeLink linkId actorAgentId =>
    rw [step]
    unfold revokeLink
    dsimp only
    split
    · exact .same rfl
    rename_i link hl
    split
    · exact .same rfl
    · rename_i revoked hrevoked
      rw [revoke_eq_ok hrevoked]
      exact .revokes linkId link hl rfl
  | submit envelope => exact .same (submit_frame codec m now envelope).1
  | submitProgram envelope version invocation =>
    exact .same (submitProgram_frame codec m now envelope version invocation).1
  | acknowledge key =>
    rw [step]
    unfold acknowledge
    split
    · exact .same rfl
    · split <;> exact .same rfl
  | cancel linkId correlationId actorAgentId =>
    rw [step]
    unfold cancel
    split
    · exact .same rfl
    · split <;> exact .same rfl

/-- The owner of a mailbox stays. -/
theorem step_owner (op : Operation ι × (ℕ → UInt64)) (m : CollaborationMailbox ι) :
    (step codec op m).1.ownerScope = m.ownerScope
      ∧ (step codec op m).1.agentId = m.agentId := by
  obtain ⟨op, now⟩ := op
  cases op with
  | acceptLink link token =>
    rw [step]
    unfold acceptLink
    dsimp only
    split <;> exact ⟨rfl, rfl⟩
  | revokeLink linkId actorAgentId =>
    rw [step]
    unfold revokeLink
    dsimp only
    split
    · exact ⟨rfl, rfl⟩
    · split <;> exact ⟨rfl, rfl⟩
  | submit envelope => exact (submit_frame codec m now envelope).2
  | submitProgram envelope version invocation =>
    exact (submitProgram_frame codec m now envelope version invocation).2
  | acknowledge key =>
    rw [step]
    unfold acknowledge
    split
    · exact ⟨rfl, rfl⟩
    · split <;> exact ⟨rfl, rfl⟩
  | cancel linkId correlationId actorAgentId =>
    rw [step]
    unfold cancel
    split
    · exact ⟨rfl, rfl⟩
    · split <;> exact ⟨rfl, rfl⟩

/-! ## Runs -/

variable {op : Operation ι × (ℕ → UInt64)}

/-- A record after an operation is a record from before, or the message that
was accepted. -/
theorem record_cases {key : String} {r' : CollaborationRecord ι}
    (hr' : (step docs.toCodec op m).1.records.find? key = some r') :
    (∃ r, m.records.find? key = some r ∧ requestOf r' = requestOf r)
    ∨ ∃ request, op.1.request = some request ∧ (step docs.toCodec op m).2 = .result .accepted
      ∧ Accepts docs.toCodec (op.2 0) request m (step docs.toCodec op m).1
      ∧ requestOf r' = request := by
  cases step_effect docs.toCodec op m with
  | nothing hsm ha =>
    rw [hsm.records] at hr'
    exact .inl ⟨r', hr', rfl⟩
  | accepts request hreq hacc ha =>
    rw [hacc.records] at hr'
    obtain ⟨-, rfl⟩ | hr' := SortedMap.find?_insert_cases hr'
    · exact .inr ⟨request, hreq, ha, hacc, rfl⟩
    · exact .inl ⟨r', hr', rfl⟩
  | changes hrc hhi hlks ha =>
    obtain ⟨-, hn⟩ | ⟨r, s', hr, hs', hk⟩ := rel_cases (hrc key)
    · rw [hr'] at hn
      cases hn
    · obtain rfl := Option.some.inj (hr'.symm.trans hs')
      exact .inl ⟨r, hr, Prod.ext hk.envelope hk.programRequest⟩

/-- Every operation leaves a mailbox that can be restored. -/
theorem Restorable.step (h : Restorable docs m) (hop : Storable docs op m) :
    Restorable docs (CollaborationMailbox.step docs.toCodec op m).1 := by
  obtain ⟨how, hag⟩ := step_owner docs.toCodec op m
  constructor
  · obtain ⟨requests, hrq⟩ := h.inOrder
    exact ⟨_, hrq.step op⟩
  · intro id link hl
    rw [how, hag]
    cases step_links docs.toCodec op m with
    | same hlks =>
      rw [hlks] at hl
      exact h.links id link hl
    | accepts link' token admitted hop' ha hs hst hrcv hlks =>
      rw [hlks] at hl
      obtain ⟨hid, rfl⟩ | hl := SortedMap.find?_insert_cases hl
      · rw [hs]
        exact ⟨hid.symm, hrcv.1, hrcv.2, hst⟩
      · exact h.links id link hl
    | revokes id' link' hf hlks =>
      rw [hlks] at hl
      obtain ⟨hid, rfl⟩ | hl := SortedMap.find?_insert_cases hl
      · obtain ⟨hlinkId, hsc, hrcv, -⟩ := h.links id' link' hf
        exact ⟨hlinkId.trans hid.symm, hsc, hrcv, nofun⟩
      · exact h.links id link hl
  · intro key r' hr'
    rw [how, hag]
    obtain ⟨r, hr, hsm⟩ | ⟨request, hreq, ha, hacc, hsm⟩ := record_cases hr'
    · rw [hsm]
      exact h.content key r hr
    obtain ⟨huntyped, hshallow⟩ := hop.message request hreq ha
    obtain ⟨link, hp⟩ := hacc.permitted
    rw [hsm]
    exact ⟨hacc.shape, hp.receiver, hacc.typed, huntyped, hshallow⟩
  · intro key r' hr'
    obtain ⟨r, hr, hsm⟩ | ⟨request, hreq, ha, hacc, hsm⟩ := record_cases hr'
    · rw [show r'.envelope = r.envelope from congrArg Prod.fst hsm]
      obtain ⟨link, hf, hsn⟩ := h.linked key r hr
      unfold Linked
      cases step_links docs.toCodec op m with
      | same hlks =>
        rw [hlks]
        exact ⟨link, hf, hsn⟩
      | accepts link' token admitted hop' ha hs hst hrcv hlks =>
        rw [hlks, SortedMap.find?_insert]
        split_ifs with hid
        · refine ⟨admitted, rfl, ?_⟩
          rw [hs]
          exact hop.link link' token hop' ha key r hr hid
        · exact ⟨link, hf, hsn⟩
      | revokes id link' hf' hlks =>
        rw [hlks, SortedMap.find?_insert]
        split_ifs with hid
        · rw [hid, hf'] at hf
          obtain rfl := Option.some.inj hf
          exact ⟨_, rfl, hsn⟩
        · exact ⟨link, hf, hsn⟩
    · obtain ⟨link, hp⟩ := hacc.permitted
      refine ⟨link, ?_, ?_⟩
      · rw [hacc.links, show r'.envelope = request.1 from congrArg Prod.fst hsm]
        exact hp.found
      · rw [show r'.envelope = request.1 from congrArg Prod.fst hsm]
        exact hp.sender

theorem restorable_empty (ownerScope agentId : String) :
    Restorable docs ({ ownerScope, agentId } : CollaborationMailbox ι) :=
  ⟨⟨[], inOrder_empty ownerScope agentId⟩, fun _ _ h => (nomatch h), fun _ _ h => (nomatch h),
    fun _ _ h => (nomatch h)⟩

/-- **Every mailbox that is reached** without harm can be read back. -/
theorem restorable_run (h : Restorable docs m) {ops : List (Operation ι × (ℕ → UInt64))}
    (ho : StorableRun docs m ops) :
    Restorable docs (runSteps (CollaborationMailbox.step docs.toCodec) m ops) := by
  induction ops generalizing m with
  | nil => exact h
  | cons op ops ih => exact ih (h.step ho.1) ho.2

end NeoGraph.A2A.CollaborationMailbox
