import NeoGraph.A2A.Reliability
import NeoGraph.A2A.Storage
import NeoGraph.Lib.JsonIntegers

/-!
# Mailboxes that answer alike

A document that was read back is the same up to the sign of integers that are
not negative, and an invocation that was read back is the same for every check
of a mailbox. Mailboxes whose records are the same in this sense answer every
operation alike (`step_equivalent`).
-/

namespace NeoGraph.A2A

open Option CollaborationEnvelope SortedMap

variable {ι : Type}

/-- An envelope as it is read back. -/
def CollaborationEnvelope.unsigned (envelope : CollaborationEnvelope) : CollaborationEnvelope :=
  { envelope with payload := envelope.payload.unsigned }

/-- The same invocation, for all that a mailbox asks of it. -/
structure SameInvocation (docs : Documents ι) (i i' : RunInvocation ι) : Prop where
  ownerScope : i'.ownerScope = i.ownerScope
  agentId : i'.agentId = i.agentId
  programVersionId : i'.programVersionId = i.programVersionId
  runId : i'.runId = i.runId
  parentRunId : i'.parentRunId = i.parentRunId
  messageSequence : i'.messageSequence = i.messageSequence
  idempotencyKey : i'.idempotencyKey = i.idempotencyKey
  correlationId : i'.correlationId = i.correlationId
  artifact : i'.artifact = i.artifact
  input : ∀ v, i'.input.equals v = i.input.equals v
  validates : docs.validates i' = docs.validates i
  canonicalPayload : docs.canonicalPayload i' = docs.canonicalPayload i
  bytes : docs.invocationBytes i' = docs.invocationBytes i

/-- A request to Program and the one it is read back as. -/
structure SameProgramRequest (docs : Documents ι) (q q' : ProgramRequest ι) : Prop where
  version : q'.version = q.version
  invocation : SameInvocation docs q.invocation q'.invocation

/-- Two records that differ at most in the signs of the integers they hold. -/
structure SameRecord (docs : Documents ι) (r r' : CollaborationRecord ι) : Prop where
  envelope : r'.envelope.unsigned = r.envelope.unsigned
  state : r'.state = r.state
  diagnostic : r'.diagnostic = r.diagnostic
  programRequest : Rel (SameProgramRequest docs) r.programRequest r'.programRequest

namespace SameInvocation

variable {docs : Documents ι}

theorem refl (i : RunInvocation ι) : SameInvocation docs i i :=
  ⟨rfl, rfl, rfl, rfl, rfl, rfl, rfl, rfl, rfl, fun _ => rfl, rfl, rfl, rfl⟩

variable {i i' : RunInvocation ι}

theorem compareInvocations_eq (h : SameInvocation docs i i')
    (incoming : RunInvocation ι) : compareInvocations docs.toCodec i' incoming
      = compareInvocations docs.toCodec i incoming := by
  unfold compareInvocations
  rw [h.idempotencyKey, h.canonicalPayload]

/-- An invocation that was read back asks for what the envelope that was read
back asks for. -/
theorem matches_eq (h : SameInvocation docs i i')
    {e e' : CollaborationEnvelope} (he : e'.unsigned = e.unsigned) :
    invocationMatchesEnvelope docs.toCodec i' e' = invocationMatchesEnvelope docs.toCodec i e := by
  have hinput : i'.input.equals e'.payload = i.input.equals e.payload := by
    rw [h.input, ← Json.equals_unsigned, ← Json.equals_unsigned i.input e.payload]
    exact congrArg i.input.equals (congrArg payload he)
  have hfld : ∀ {α : Type} (f : CollaborationEnvelope → α),
      (∀ e : CollaborationEnvelope, f e.unsigned = f e) → f e' = f e := by
    intro α f hf
    rw [← hf e', he, hf e]
  unfold invocationMatchesEnvelope
  rw [h.validates, h.ownerScope, h.agentId, h.programVersionId, h.runId, h.parentRunId,
    h.messageSequence, h.idempotencyKey, h.correlationId, h.artifact, hinput,
    hfld (·.receiverOwnerScope) fun _ => rfl, hfld (·.receiverAgentId) fun _ => rfl,
    hfld (·.programVersionId) fun _ => rfl, hfld (·.receiverProgramRunId) fun _ => rfl,
    hfld (·.sequence) fun _ => rfl, hfld (·.idempotencyKey) fun _ => rfl,
    hfld (·.correlationId) fun _ => rfl, hfld (·.artifacts) fun _ => rfl]

end SameInvocation

namespace SameRecord

variable {docs : Documents ι}

theorem refl (r : CollaborationRecord ι) : SameRecord docs r r := by
  refine ⟨rfl, rfl, rfl, ?_⟩
  cases r.programRequest with
  | none => exact .none
  | some q => exact .some ⟨rfl, .refl _⟩

/-- A field of the envelope that is not the payload. -/
theorem field {α : Type} (f : CollaborationEnvelope → α)
    (hf : ∀ e : CollaborationEnvelope, f e.unsigned = f e) {r r' : CollaborationRecord ι}
    (h : SameRecord docs r r') : f r'.envelope = f r.envelope := by
  rw [← hf r'.envelope, h.envelope, hf r.envelope]

end SameRecord

/-! ## Texts -/

theorem unsigned_envelopeToJson (e : CollaborationEnvelope) :
    (envelopeToJson e).unsigned = envelopeToJson e.unsigned := by
  have ha : e.artifacts.map (fun a => (artifactToJson a).unsigned)
      = e.artifacts.map artifactToJson := List.map_congr_left fun a _ => rfl
  unfold envelopeToJson
  simp [List.map_map, Function.comp_def, ha, unsigned]

variable {docs : Documents ι}

/-- **The text of an envelope** that was read back. -/
theorem contentHash_unsigned (hdump : ∀ v, docs.dump v.unsigned = docs.dump v)
    {e e' : CollaborationEnvelope} (he : e'.unsigned = e.unsigned) :
    e'.contentHash docs.toCodec = e.contentHash docs.toCodec := by
  unfold contentHash CollaborationEnvelope.serializeCanonical
  rw [← hdump (envelopeToJson e'), ← hdump (envelopeToJson e), unsigned_envelopeToJson,
    unsigned_envelopeToJson, he]

namespace CollaborationMailbox

/-- **Mailboxes that cannot be told apart.** -/
structure Equivalent (docs : Documents ι) (m m' : CollaborationMailbox ι) : Prop where
  ownerScope : m'.ownerScope = m.ownerScope
  agentId : m'.agentId = m.agentId
  links : m'.links = m.links
  records : ∀ key, Rel (SameRecord docs) (m.records.find? key) (m'.records.find? key)
  highest : ∀ c, m'.highest c = m.highest c

theorem rel_map {α β γ δ : Type} {R : α → β → Prop} {S : γ → δ → Prop} {f : α → γ} {g : β → δ}
    (hf : ∀ a b, R a b → S (f a) (g b)) {o : Option α} {o' : Option β} (h : Rel R o o') :
    Rel S (o.map f) (o'.map g) := by
  cases h with
  | none => exact .none
  | some h => exact .some (hf _ _ h)

theorem rel_cases {α β : Type} {R : α → β → Prop} {o : Option α} {o' : Option β}
    (h : Rel R o o') : (o = none ∧ o' = none) ∨ ∃ a b, o = some a ∧ o' = some b ∧ R a b := by
  cases h with
  | none => exact .inl ⟨rfl, rfl⟩
  | some h => exact .inr ⟨_, _, rfl, rfl, h⟩

theorem find?_map_records (records : SortedMap String (CollaborationRecord ι))
    (f : CollaborationRecord ι → CollaborationRecord ι) (key : String) :
    (records.filterMap fun _ r => some (f r)).find? key = (records.find? key).map f := by
  rw [find?_filterMap]
  cases records.find? key with
  | none | some r => rfl

/-- Records that are related hold of a property alike. -/
theorem any_entries_eq {records records' : SortedMap String (CollaborationRecord ι)}
    {p : CollaborationRecord ι → Bool} (hp : ∀ r r', SameRecord docs r r' → p r' = p r)
    (h : ∀ key, Rel (SameRecord docs) (records.find? key) (records'.find? key)) :
    (records'.entries.any fun e => p e.2) = records.entries.any fun e => p e.2 := by
  rw [Bool.eq_iff_iff, List.any_eq_true, List.any_eq_true]
  constructor
  · rintro ⟨⟨key, r'⟩, hm, hr'⟩
    have hf' := (records'.mem_entries_iff key r').mp hm
    obtain ⟨-, hn⟩ | ⟨r, s', hf, hs, hsm⟩ := rel_cases (h key)
    · rw [hf'] at hn
      cases hn
    · obtain rfl := Option.some.inj (hf'.symm.trans hs)
      exact ⟨(key, r), (records.mem_entries_iff key r).mpr hf, (hp r r' hsm) ▸ hr'⟩
  · rintro ⟨⟨key, r⟩, hm, hr⟩
    have hf := (records.mem_entries_iff key r).mp hm
    obtain ⟨hn, -⟩ | ⟨s, r', hs, hf', hsm⟩ := rel_cases (h key)
    · rw [hf] at hn
      cases hn
    · obtain rfl := Option.some.inj (hf.symm.trans hs)
      exact ⟨(key, r'), (records'.mem_entries_iff key r').mpr hf', (hp r r' hsm).trans hr⟩

namespace Equivalent

theorem of_map (h : Equivalent docs m m') {f : CollaborationRecord ι → CollaborationRecord ι}
    (hf : ∀ r r', SameRecord docs r r' → SameRecord docs (f r) (f r'))
    (links : SortedMap String CollaborationLink) : Equivalent docs
      { m with links := links, records := m.records.filterMap fun _ r => some (f r) }
      { m' with links := links, records := m'.records.filterMap fun _ r => some (f r) } := by
  refine ⟨h.ownerScope, h.agentId, rfl, fun key => ?_, h.highest⟩
  rw [find?_map_records, find?_map_records]
  exact rel_map hf (h.records key)

theorem acceptLink (h : Equivalent docs m m') (now : UInt64) (link : CollaborationLink)
    (consentToken : String) : Equivalent docs (m.acceptLink docs.toCodec now link consentToken).1
        (m'.acceptLink docs.toCodec now link consentToken).1
      ∧ (m'.acceptLink docs.toCodec now link consentToken).2
        = (m.acceptLink docs.toCodec now link consentToken).2 := by
  have hadm : m'.admitLink docs.toCodec now link consentToken
      = m.admitLink docs.toCodec now link consentToken := by
    unfold admitLink
    rw [h.ownerScope, h.agentId]
  unfold CollaborationMailbox.acceptLink
  rw [hadm]
  split
  · exact ⟨h, rfl⟩
  · refine ⟨⟨h.ownerScope, h.agentId, ?_, h.records, h.highest⟩, rfl⟩
    dsimp only
    rw [h.links]

theorem revokeLink (h : Equivalent docs m m') (linkId actorAgentId : String) :
    Equivalent docs (m.revokeLink linkId actorAgentId).1 (m'.revokeLink linkId actorAgentId).1
      ∧ (m'.revokeLink linkId actorAgentId).2 = (m.revokeLink linkId actorAgentId).2 := by
  have hrevoke : ∀ r r', SameRecord docs r r' →
      SameRecord docs (revokeRecord linkId r) (revokeRecord linkId r') := by
    intro r r' hsm
    unfold revokeRecord
    rw [hsm.field (·.linkId) fun _ => rfl, hsm.state]
    split
    · exact ⟨hsm.envelope, rfl, rfl, hsm.programRequest⟩
    · exact hsm
  unfold CollaborationMailbox.revokeLink
  rw [h.links]
  split
  · exact ⟨h, rfl⟩
  · split
    · exact ⟨h, rfl⟩
    · exact ⟨h.of_map hrevoke _, rfl⟩

theorem addressedLink_eq (h : Equivalent docs m m') (now : UInt64)
    (envelope : CollaborationEnvelope) :
    m'.addressedLink now envelope = m.addressedLink now envelope := by
  unfold addressedLink
  rw [h.links, h.ownerScope, h.agentId]

/-- Mailboxes that are the same take in a record alike. -/
theorem append (h : Equivalent docs m m') (record : CollaborationRecord ι) :
    Equivalent docs (m.append record).1 (m'.append record).1
      ∧ (m'.append record).2 = (m.append record).2 := by
  have hhi : m'.highestSequence.getD record.envelope.correlationId 0
      = m.highestSequence.getD record.envelope.correlationId 0 := h.highest _
  unfold CollaborationMailbox.append
  dsimp only
  rw [hhi]
  split
  · refine ⟨⟨h.ownerScope, h.agentId, h.links, h.records, fun c => ?_⟩, rfl⟩
    exact (getD_tryEmplace_zero _ _ c).trans ((h.highest c).trans (getD_tryEmplace_zero _ _ c).symm)
  · refine ⟨⟨h.ownerScope, h.agentId, h.links, fun key => ?_, fun c => ?_⟩, rfl⟩
    · rw [find?_tryEmplace, find?_tryEmplace]
      obtain ⟨hn, hn'⟩ | ⟨r, r', hf, hf', hsm⟩ := rel_cases (h.records key)
      · rw [hn, hn']
        split
        · exact .some (.refl record)
        · exact .none
      · rw [hf, hf']
        exact .some hsm
    · have hc := h.highest c
      unfold CollaborationMailbox.highest SortedMap.getD at hc ⊢
      rw [find?_insert, find?_insert]
      split
      · rfl
      · exact hc

section Steps

variable (hdump : ∀ v, docs.dump v.unsigned = docs.dump v)
include hdump

variable {m m' : CollaborationMailbox ι}

theorem submit (h : Equivalent docs m m') (now : ℕ → UInt64) (envelope : CollaborationEnvelope) :
    Equivalent docs (m.submit docs.toCodec now envelope).1 (m'.submit docs.toCodec now envelope).1
      ∧ (m'.submit docs.toCodec now envelope).2 = (m.submit docs.toCodec now envelope).2 := by
  unfold CollaborationMailbox.submit
  rw [h.addressedLink_eq]
  split
  · exact ⟨h, rfl⟩
  split
  · exact ⟨h, rfl⟩
  split
  · exact ⟨h, rfl⟩
  split
  · exact ⟨h, rfl⟩
  obtain ⟨hn, hn'⟩ | ⟨r, r', hf, hf', hsm⟩ :=
    rel_cases (h.records envelope.idempotencyKey)
  · rw [hn, hn']
    obtain ⟨heq, hr⟩ := h.append { envelope := envelope }
    exact ⟨heq, congrArg Except.ok hr⟩
  · rw [hf, hf']
    dsimp only
    rw [contentHash_unsigned hdump hsm.envelope]
    split <;> exact ⟨h, rfl⟩

theorem sameRequest_eq {r r' : CollaborationRecord ι} (h : SameRecord docs r r')
    (envelope : CollaborationEnvelope) (version : ProgramVersion) (invocation : RunInvocation ι) :
    sameRequest docs.toCodec r' envelope version invocation
      = sameRequest docs.toCodec r envelope version invocation := by
  unfold sameRequest
  rw [contentHash_unsigned hdump h.envelope]
  obtain ⟨hn, hn'⟩ | ⟨q, q', hq, hq', hsm⟩ := rel_cases h.programRequest
  · rw [hn, hn']
  · rw [hq, hq']
    dsimp only
    rw [hsm.version, hsm.invocation.compareInvocations_eq]

/-- So does every operation. -/
theorem submitProgram (h : Equivalent docs m m') (now : ℕ → UInt64)
    (envelope : CollaborationEnvelope) (version : ProgramVersion) (invocation : RunInvocation ι) :
    Equivalent docs (m.submitProgram docs.toCodec now envelope version invocation).1
        (m'.submitProgram docs.toCodec now envelope version invocation).1
      ∧ (m'.submitProgram docs.toCodec now envelope version invocation).2
        = (m.submitProgram docs.toCodec now envelope version invocation).2 := by
  unfold CollaborationMailbox.submitProgram
  dsimp only
  rw [h.addressedLink_eq, h.ownerScope, h.agentId]
  split
  · exact ⟨h, rfl⟩
  split
  · exact ⟨h, rfl⟩
  split
  · exact ⟨h, rfl⟩
  split
  · exact ⟨h, rfl⟩
  split
  · exact ⟨h, rfl⟩
  split
  · exact ⟨h, rfl⟩
  obtain ⟨hn, hn'⟩ | ⟨r, r', hf, hf', hsm⟩ :=
    rel_cases (h.records envelope.idempotencyKey)
  · rw [hn, hn']
    obtain ⟨heq, hr⟩ := h.append ⟨{ envelope with programVersionId := version.id },
      .accepted, "", some ⟨version, invocation⟩⟩
    exact ⟨heq, congrArg Except.ok hr⟩
  · rw [hf, hf']
    dsimp only
    rw [sameRequest_eq hdump hsm]
    split <;> exact ⟨h, rfl⟩

omit hdump in
theorem acknowledge (h : Equivalent docs m m') (key : String) :
    Equivalent docs (m.acknowledge key).1 (m'.acknowledge key).1
      ∧ (m'.acknowledge key).2 = (m.acknowledge key).2 := by
  unfold CollaborationMailbox.acknowledge
  obtain ⟨hn, hn'⟩ | ⟨r, r', hf, hf', hsm⟩ := rel_cases (h.records key)
  · rw [hn, hn']
    exact ⟨h, rfl⟩
  rw [hf, hf']
  dsimp only
  rw [hsm.state]
  split
  · exact ⟨h, rfl⟩
  refine ⟨⟨h.ownerScope, h.agentId, h.links, fun key' => ?_, h.highest⟩, rfl⟩
  rw [find?_insert, find?_insert]
  split
  · exact .some ⟨hsm.envelope, rfl, hsm.diagnostic, hsm.programRequest⟩
  · exact h.records key'

omit hdump in
theorem isCanceledBy_eq (linkId correlationId : String) (r r' : CollaborationRecord ι)
    (h : SameRecord docs r r') :
    isCanceledBy linkId correlationId r' = isCanceledBy linkId correlationId r := by
  unfold isCanceledBy
  rw [h.field (·.linkId) fun _ => rfl, h.field (·.correlationId) fun _ => rfl, h.state]

omit hdump in
theorem cancel (h : Equivalent docs m m') (now : UInt64)
    (linkId correlationId actorAgentId : String) :
    Equivalent docs (m.cancel now linkId correlationId actorAgentId).1
        (m'.cancel now linkId correlationId actorAgentId).1
      ∧ (m'.cancel now linkId correlationId actorAgentId).2
        = (m.cancel now linkId correlationId actorAgentId).2 := by
  have hcancel : ∀ r r', SameRecord docs r r' → SameRecord docs
      (if isCanceledBy linkId correlationId r then { r with state := .canceled } else r)
      (if isCanceledBy linkId correlationId r' then { r' with state := .canceled } else r') := by
    intro r r' hsm
    rw [isCanceledBy_eq linkId correlationId r r' hsm]
    split
    · exact ⟨hsm.envelope, rfl, hsm.diagnostic, hsm.programRequest⟩
    · exact hsm
  unfold CollaborationMailbox.cancel
  rw [h.links]
  split
  · exact ⟨h, rfl⟩
  split
  · exact ⟨h, rfl⟩
  · refine ⟨?_, any_entries_eq (isCanceledBy_eq linkId correlationId) h.records⟩
    have hm := h.of_map hcancel m.links
    exact ⟨hm.ownerScope, hm.agentId, rfl, hm.records, hm.highest⟩

/-- **Mailboxes that cannot be told apart** answer every operation alike. -/
theorem step (h : Equivalent docs m m') (op : Operation ι × (ℕ → UInt64)) :
    Equivalent docs (CollaborationMailbox.step docs.toCodec op m).1
        (CollaborationMailbox.step docs.toCodec op m').1
      ∧ (CollaborationMailbox.step docs.toCodec op m').2
        = (CollaborationMailbox.step docs.toCodec op m).2 := by
  obtain ⟨op, now⟩ := op
  cases op with
  | acceptLink link consentToken =>
    obtain ⟨heq, hr⟩ := h.acceptLink (now 0) link consentToken
    rw [CollaborationMailbox.step, CollaborationMailbox.step]
    dsimp only
    rw [hr]
    exact ⟨heq, rfl⟩
  | revokeLink linkId actorAgentId =>
    obtain ⟨heq, hr⟩ := h.revokeLink linkId actorAgentId
    rw [CollaborationMailbox.step, CollaborationMailbox.step]
    rw [hr]
    exact ⟨heq, rfl⟩
  | submit envelope =>
    obtain ⟨heq, hr⟩ := h.submit hdump now envelope
    rw [CollaborationMailbox.step, CollaborationMailbox.step]
    rw [hr]
    exact ⟨heq, rfl⟩
  | submitProgram envelope version invocation =>
    obtain ⟨heq, hr⟩ := h.submitProgram hdump now envelope version invocation
    rw [CollaborationMailbox.step, CollaborationMailbox.step]
    rw [hr]
    exact ⟨heq, rfl⟩
  | acknowledge idempotencyKey =>
    obtain ⟨heq, hr⟩ := h.acknowledge idempotencyKey
    exact ⟨heq, congrArg Answer.flag hr⟩
  | cancel linkId correlationId actorAgentId =>
    obtain ⟨heq, hr⟩ := h.cancel (now 0) linkId correlationId actorAgentId
    exact ⟨heq, congrArg Answer.flag hr⟩

theorem run (h : Equivalent docs m m') (ops : List (Operation ι × (ℕ → UInt64))) :
    Equivalent docs (runSteps (CollaborationMailbox.step docs.toCodec) m ops)
      (runSteps (CollaborationMailbox.step docs.toCodec) m' ops) := by
  induction ops generalizing m m' with
  | nil => exact h
  | cons op ops ih => exact ih (h.step hdump op).1

end Steps

/-- The same requests are handed out. -/
theorem getProgramRequest (h : Equivalent docs m m') (now : UInt64) (key : String) :
    Rel (SameProgramRequest docs) (m.getProgramRequest now key) (m'.getProgramRequest now key) := by
  unfold CollaborationMailbox.getProgramRequest
  obtain ⟨hn, hn'⟩ | ⟨r, r', hf, hf', hsm⟩ := rel_cases (h.records key)
  · rw [hn, hn']
    exact .none
  rw [hf, hf']
  dsimp only
  rw [hsm.state, hsm.field (·.linkId) fun _ => rfl, h.links]
  split
  · exact .none
  obtain ⟨hn, hn'⟩ | ⟨q, q', hq, hq', hsm'⟩ := rel_cases hsm.programRequest
  · rw [hn, hn']
    exact .none
  rw [hq, hq']
  cases m.links.find? r.envelope.linkId with
  | none => exact .none
  | some link =>
    dsimp only
    split
    · exact .some hsm'
    · exact .none

end Equivalent

end CollaborationMailbox

end NeoGraph.A2A
