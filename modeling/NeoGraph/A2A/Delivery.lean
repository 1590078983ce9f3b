import NeoGraph.A2A.Mailbox
import NeoGraph.Lib.Noninterference

/-!
# Messages are accepted once and in order

An operation on a mailbox changes nothing, or accepts one message, or changes
links, or moves the states of records forward (`Effect`). Everything about runs
follows from this: the accepted messages of a correlation are numbered from one
(`InOrder`), their requests never change, and a message whose link was revoked
is never handed to Program again.
-/

namespace NeoGraph.A2A

open SortedMap Bool

variable {ι : Type}

namespace CollaborationRecordState

/-- A record is acknowledged or canceled, and an acknowledged one is
canceled. -/
def MayBecome (s t : CollaborationRecordState) : Prop := s = t ∨ s = .accepted ∨ t = .canceled

theorem MayBecome.trans {s t u : CollaborationRecordState} (hst : s.MayBecome t)
    (htu : t.MayBecome u) : s.MayBecome u := by
  obtain rfl | rfl | rfl := hst
  · exact htu
  · exact .inr (.inl rfl)
  obtain rfl | htu | rfl := htu
  · exact .inr (.inr rfl)
  · cases htu
  · exact .inr (.inr rfl)

end CollaborationRecordState

namespace CollaborationMailbox

variable {codec : Codec ι}

/-- A message, with the request to Program that came with it. -/
abbrev Request (ι : Type) := CollaborationEnvelope × Option (ProgramRequest ι)

namespace Operation

/-- The message that an operation submits, as it is recorded. -/
def request : Operation ι → Option (Request ι)
  | .submit envelope => some (envelope, none)
  | .submitProgram envelope version invocation =>
    some ({ envelope with programVersionId := version.id }, some ⟨version, invocation⟩)
  | _ => none

end Operation

/-- The highest sequence that was accepted of a correlation. -/
def highest (m : CollaborationMailbox ι) (correlationId : String) : UInt64 :=
  m.highestSequence.getD correlationId 0

/-- Nothing that a mailbox answers with has changed. -/
structure SameMailbox (m m' : CollaborationMailbox ι) : Prop where
  records : m'.records = m.records
  links : m'.links = m.links
  highest : ∀ c, m'.highest c = m.highest c

/-- A record after an operation. -/
structure RecordKept (r r' : CollaborationRecord ι) : Prop where
  envelope : r'.envelope = r.envelope
  programRequest : r'.programRequest = r.programRequest
  state : r.state.MayBecome r'.state

theorem RecordKept.refl (r : CollaborationRecord ι) : RecordKept r r := ⟨rfl, rfl, .inl rfl⟩

/-- Records are kept, and no others are there. -/
def RecordsKept (m m' : CollaborationMailbox ι) : Prop :=
  ∀ key, Option.Rel RecordKept (m.records.find? key) (m'.records.find? key)

/-- A link permits a message. -/
structure Permits (m : CollaborationMailbox ι) (now : UInt64) (request : Request ι)
    (link : CollaborationLink) : Prop where
  found : m.links.find? request.1.linkId = some link
  live : link.isLive now = true
  receiver : request.1.receiverOwnerScope = m.ownerScope ∧ request.1.receiverAgentId = m.agentId
  sender : request.1.senderOwnerScope = link.spec.senderOwnerScope
    ∧ request.1.senderAgentId = link.spec.senderAgentId
  kind : request.1.kind ∈ link.spec.messageKindAllowlist
  artifacts : ∀ artifact ∈ request.1.artifacts,
    artifact.artifactIdentity ∈ link.spec.artifactAllowlist
  capabilities : ∀ program ∈ request.2, ∀ capability ∈ program.version.allowedCapabilities,
    capability ∈ link.spec.capabilityAllowlist
  effects : ∀ program ∈ request.2, ∀ effect ∈ program.version.allowedEffects,
    effect ∈ link.spec.effectAllowlist

/-- What a Program request must be for its message. -/
def Typed (codec : Codec ι) (m : CollaborationMailbox ι) (request : Request ι) : Prop :=
  ∀ program ∈ request.2, program.version.id = request.1.programVersionId
    ∧ program.version.ownershipScope = m.ownerScope
    ∧ invocationMatchesEnvelope codec program.invocation request.1 = true

/-- A message is accepted. -/
structure Accepts (codec : Codec ι) (now : UInt64) (request : Request ι)
    (m m' : CollaborationMailbox ι) : Prop where
  shape : validateEnvelopeShape request.1 = .ok ()
  permitted : ∃ link, Permits m now request link
  typed : Typed codec m request
  fresh : m.records.find? request.1.idempotencyKey = none
  next : request.1.sequence = m.highest request.1.correlationId + 1
  records : m'.records = m.records.insert request.1.idempotencyKey
    { envelope := request.1, programRequest := request.2 }
  links : m'.links = m.links
  highest : ∀ c, m'.highest c =
    if c = request.1.correlationId then request.1.sequence else m.highest c

/-- **What an operation does.** -/
inductive Effect (codec : Codec ι) (op : Operation ι × (ℕ → UInt64))
    (m m' : CollaborationMailbox ι) (answer : Answer) : Prop
  | nothing (hsame : SameMailbox m m') (hanswer : answer ≠ .result .accepted)
  | accepts (request : Request ι) (hrequest : op.1.request = some request)
      (haccepts : Accepts codec (op.2 0) request m m') (hanswer : answer = .result .accepted)
  | changes (hrecords : RecordsKept m m') (hhighest : ∀ c, m'.highest c = m.highest c)
      (hlinks : ∀ id, (m.links.find? id).isSome → (m'.links.find? id).isSome)
      (hanswer : answer = .done ∨ answer = .flag true)

/-! ## Each operation -/

theorem SameMailbox.refl (m : CollaborationMailbox ι) : SameMailbox m m :=
  ⟨rfl, rfl, fun _ => rfl⟩

theorem RecordsKept.refl (m : CollaborationMailbox ι) : RecordsKept m m := by
  intro key
  cases m.records.find? key with
  | none => exact .none
  | some r => exact .some (.refl r)

variable {m : CollaborationMailbox ι} {m' : CollaborationMailbox ι}

theorem RecordsKept.of_records (h : m'.records = m.records) : RecordsKept m m' := by
  intro key
  rw [h]
  exact RecordsKept.refl m key

/-- Records that are rewritten one by one are kept. -/
theorem RecordsKept.of_map
    {f : CollaborationRecord ι → CollaborationRecord ι} (hf : ∀ r, RecordKept r (f r))
    (h : m'.records = m.records.filterMap fun _ r => some (f r)) : RecordsKept m m' := by
  intro key
  rw [h, find?_filterMap]
  cases m.records.find? key with
  | none => exact .none
  | some r => exact .some (hf r)

variable {now : ℕ → UInt64} {i : ℕ}

theorem mem_of_permitsEach {permits : UInt64 → String → Bool}
    {values : List String} (h : permitsEach permits now i values = true) :
    ∀ value ∈ values, ∃ t, permits t value = true := by
  induction values generalizing i with
  | nil => exact fun value hv => absurd hv List.not_mem_nil
  | cons v values ih =>
    rw [permitsEach, and_eq_true] at h
    intro value hv
    obtain rfl | hv := List.mem_cons.mp hv
    · exact ⟨now i, h.1⟩
    · exact ih h.2 value hv

/-- A value that a list permits is in it. -/
theorem mem_of_permits {live : UInt64 → Bool} {allowlist : List String} {t : UInt64}
    {value : String} (h : (live t && allowlist.contains value) = true) : value ∈ allowlist :=
  List.contains_iff_mem.mp (and_eq_true_iff.mp h).2

variable {link : CollaborationLink} {envelope : CollaborationEnvelope}

theorem mem_artifactAllowlist
    (h : permitsEach link.permitsArtifact now i (artifactIdentities envelope) = true) :
    ∀ artifact ∈ envelope.artifacts, artifact.artifactIdentity ∈ link.spec.artifactAllowlist := by
  intro artifact hart
  obtain ⟨t, ht⟩ := mem_of_permitsEach h _ (List.mem_map_of_mem hart)
  exact mem_of_permits ht

theorem addressedLink_spec {now : UInt64} (h : m.addressedLink now envelope = some link) :
    m.links.find? envelope.linkId = some link ∧ link.isLive now = true
      ∧ (envelope.receiverOwnerScope = m.ownerScope ∧ envelope.receiverAgentId = m.agentId)
      ∧ envelope.senderOwnerScope = link.spec.senderOwnerScope
      ∧ envelope.senderAgentId = link.spec.senderAgentId := by
  obtain ⟨hf, hjs⟩ := Option.filter_eq_some_iff.mp h
  simp only [and_eq_true, decide_eq_true_eq] at hjs
  obtain ⟨⟨⟨⟨hlv, how⟩, ha⟩, hsc⟩, hs⟩ := hjs
  exact ⟨hf, hlv, ⟨how, ha⟩, hsc, hs⟩

/-- A correlation that was only looked at has the highest sequence zero. -/
theorem getD_tryEmplace_zero (highest : SortedMap String UInt64) (k c : String) :
    (highest.tryEmplace k 0).getD c 0 = highest.getD c 0 := by
  unfold getD
  rw [find?_tryEmplace]
  cases highest.find? c with
  | none =>
    rw [Option.none_or]
    split <;> rfl
  | some n => rfl

/-- A message whose key is new is the next of its correlation, or it is
rejected. -/
theorem append_spec (record : CollaborationRecord ι)
    (hfr : m.records.find? record.envelope.idempotencyKey = none) :
    (SameMailbox m (m.append record).1 ∧ (m.append record).2 = .rejected)
    ∨ (record.envelope.sequence = m.highest record.envelope.correlationId + 1
      ∧ (m.append record).1.records = m.records.insert record.envelope.idempotencyKey record
      ∧ (m.append record).1.links = m.links
      ∧ (∀ c, (m.append record).1.highest c =
          if c = record.envelope.correlationId then record.envelope.sequence else m.highest c)
      ∧ (m.append record).2 = .accepted) := by
  unfold append
  dsimp only
  by_cases hnx : record.envelope.sequence
      ≠ m.highestSequence.getD record.envelope.correlationId 0 + 1
  · rw [if_pos hnx]
    exact .inl ⟨⟨rfl, rfl, fun c => getD_tryEmplace_zero _ _ c⟩, rfl⟩
  · rw [if_neg hnx]
    refine .inr ⟨not_not.mp hnx, ?_, rfl, fun c => ?_, rfl⟩
    · show m.records.tryEmplace _ _ = _
      unfold tryEmplace contains
      rw [hfr]
      rfl
    · show (find? _ _).getD 0 = _
      by_cases hc : c = record.envelope.correlationId
      · rw [hc, find?_insert_self, if_pos rfl]
        rfl
      · rw [find?_insert_of_ne _ hc, if_neg hc]
        rfl

variable (codec : Codec ι)

theorem submit_effect (m : CollaborationMailbox ι) (envelope : CollaborationEnvelope)
    (now : ℕ → UInt64) :
    Effect codec (.submit envelope, now) m (step codec (.submit envelope, now) m).1
      (step codec (.submit envelope, now) m).2 := by
  rw [step]
  unfold submit
  dsimp only
  split
  · exact .nothing (.refl m) nofun
  rename_i hsh
  split
  · exact .nothing (.refl m) nofun
  rename_i link hl
  obtain ⟨hf, hlv, hrcv, hs⟩ := addressedLink_spec hl
  split
  · exact .nothing (.refl m) nofun
  rename_i hkd
  split
  · exact .nothing (.refl m) nofun
  rename_i har
  rw [not_eq_true', not_eq_false] at hkd har
  split
  · split <;> exact .nothing (.refl m) nofun
  rename_i hfr
  obtain ⟨hsm, hrej⟩ | ⟨hnx, hr, hlks, hhi, ha⟩ :=
    append_spec { envelope := envelope } hfr
  · rw [hrej]
    exact .nothing hsm nofun
  · rw [ha]
    refine .accepts (envelope, none) rfl ⟨hsh, ?_, nofun, hfr, hnx, hr,
      hlks, hhi⟩ rfl
    exact ⟨link, hf, hlv, hrcv, hs, mem_of_permits hkd,
      mem_artifactAllowlist har, nofun, nofun⟩

/-- Each operation has an effect that the delivery allows. -/
theorem submitProgram_effect (m : CollaborationMailbox ι) (envelope : CollaborationEnvelope)
    (version : ProgramVersion) (invocation : RunInvocation ι) (now : ℕ → UInt64) :
    Effect codec (.submitProgram envelope version invocation, now) m
      (step codec (.submitProgram envelope version invocation, now) m).1
      (step codec (.submitProgram envelope version invocation, now) m).2 := by
  rw [step]
  unfold submitProgram
  dsimp only
  split
  · exact .nothing (.refl m) nofun
  rename_i how
  split
  · exact .nothing (.refl m) nofun
  split
  · exact .nothing (.refl m) nofun
  rename_i hm
  rw [not_eq_true', not_eq_false] at hm
  split
  · exact .nothing (.refl m) nofun
  rename_i link hl
  obtain ⟨hf, hlv, hrcv, hs⟩ := addressedLink_spec hl
  split
  · exact .nothing (.refl m) nofun
  rename_i hp
  rw [not_eq_true', not_eq_false] at hp
  split
  · exact .nothing (.refl m) nofun
  rename_i hsh
  split
  · split <;> exact .nothing (.refl m) nofun
  rename_i hfr
  obtain ⟨hsm, hrej⟩ | ⟨hnx, hr, hlks, hhi, ha⟩ :=
    append_spec ⟨{ envelope with programVersionId := version.id }, .accepted, "",
      some ⟨version, invocation⟩⟩ hfr
  · rw [hrej]
    exact .nothing hsm nofun
  · rw [ha]
    unfold permitsRequest at hp
    simp only [and_eq_true] at hp
    obtain ⟨⟨⟨hcapabilities, he⟩, hkd⟩, har⟩ := hp
    refine .accepts ({ envelope with programVersionId := version.id }, some ⟨version, invocation⟩)
      rfl ⟨hsh, ?_, ?_, hfr, hnx, hr, hlks, hhi⟩ rfl
    · refine ⟨link, hf, hlv, hrcv, hs, mem_of_permits hkd,
        mem_artifactAllowlist har, ?_, ?_⟩
      · rintro _ ⟨⟩ capability hcapability
        obtain ⟨t, ht⟩ := mem_of_permitsEach hcapabilities capability hcapability
        exact mem_of_permits ht
      · rintro _ ⟨⟩ effect heff
        obtain ⟨t, ht⟩ := mem_of_permitsEach he effect heff
        exact mem_of_permits ht
    · rintro _ ⟨⟩
      refine ⟨rfl, ?_, hm⟩
      by_contra hsc
      exact how (.inl fun heq => hsc (heq.trans hrcv.1))

theorem acceptLink_effect (m : CollaborationMailbox ι) (link : CollaborationLink)
    (consentToken : String) (now : ℕ → UInt64) : Effect codec (.acceptLink link consentToken, now) m
      (step codec (.acceptLink link consentToken, now) m).1
      (step codec (.acceptLink link consentToken, now) m).2 := by
  rw [step]
  unfold acceptLink
  dsimp only
  split
  · exact .nothing (.refl m) nofun
  rename_i link hl
  refine .changes (.of_records rfl) (fun _ => rfl) (fun id hid => ?_) (.inl rfl)
  rw [find?_insert]
  split
  · rfl
  · exact hid

theorem recordKept_revokeRecord (linkId : String) (r : CollaborationRecord ι) :
    RecordKept r (revokeRecord linkId r) := by
  unfold revokeRecord
  split
  · exact ⟨rfl, rfl, .inr (.inr rfl)⟩
  · exact .refl r

theorem revokeLink_effect (m : CollaborationMailbox ι) (linkId actorAgentId : String)
    (now : ℕ → UInt64) : Effect codec (.revokeLink linkId actorAgentId, now) m
      (step codec (.revokeLink linkId actorAgentId, now) m).1
      (step codec (.revokeLink linkId actorAgentId, now) m).2 := by
  rw [step]
  unfold revokeLink
  dsimp only
  split
  · exact .nothing (.refl m) nofun
  split
  · exact .nothing (.refl m) nofun
  refine .changes (.of_map (recordKept_revokeRecord linkId) rfl) (fun _ => rfl)
    (fun id hid => ?_) (.inl rfl)
  rw [find?_insert]
  split
  · rfl
  · exact hid

theorem acknowledge_effect (m : CollaborationMailbox ι) (idempotencyKey : String) (now : ℕ → UInt64)
    : Effect codec (.acknowledge idempotencyKey, now) m
      (step codec (.acknowledge idempotencyKey, now) m).1
      (step codec (.acknowledge idempotencyKey, now) m).2 := by
  rw [step]
  unfold acknowledge
  dsimp only
  split
  · exact .nothing (.refl m) nofun
  rename_i record hr
  split_ifs with hst
  · exact .nothing (.refl m) nofun
  refine .changes (fun key => ?_) (fun _ => rfl) (fun _ hid => hid) (.inr rfl)
  rw [find?_insert]
  split_ifs with hk
  · rw [hk, hr]
    refine .some ⟨rfl, rfl, ?_⟩
    -- an accepted record becomes acknowledged, an acknowledged one stays so
    cases hs : record.state with
    | accepted => exact .inr (.inl rfl)
    | acknowledged => exact .inl rfl
    | canceled => exact absurd hs hst
  · exact RecordsKept.refl m key

theorem recordKept_cancel (linkId correlationId : String) (r : CollaborationRecord ι) :
    RecordKept r (if isCanceledBy linkId correlationId r then { r with state := .canceled }
      else r) := by
  split
  · exact ⟨rfl, rfl, .inr (.inr rfl)⟩
  · exact .refl r

theorem cancel_effect (m : CollaborationMailbox ι) (linkId correlationId actorAgentId : String)
    (now : ℕ → UInt64) : Effect codec (.cancel linkId correlationId actorAgentId, now) m
      (step codec (.cancel linkId correlationId actorAgentId, now) m).1
      (step codec (.cancel linkId correlationId actorAgentId, now) m).2 := by
  rw [step]
  unfold cancel
  dsimp only
  split
  · exact .nothing (.refl m) nofun
  split
  · exact .nothing (.refl m) nofun
  cases hany : m.records.entries.any fun entry => isCanceledBy linkId correlationId entry.2 with
  | true =>
    exact .changes (.of_map (recordKept_cancel linkId correlationId) rfl) (fun _ => rfl)
      (fun _ hid => hid) (.inr rfl)
  | false =>
    refine .nothing ⟨ext_find? fun key => ?_, rfl, fun _ => rfl⟩ nofun
    rw [find?_filterMap]
    cases hr : m.records.find? key with
    | none => rfl
    | some record =>
      have hm := (m.records.mem_entries_iff key record).mpr hr
      have hk := List.any_eq_false.mp hany _ hm
      rw [Option.bind_some, if_neg hk]

/-- **Every operation** has one of the effects. -/
theorem step_effect (op : Operation ι × (ℕ → UInt64)) (m : CollaborationMailbox ι) :
    Effect codec op m (step codec op m).1 (step codec op m).2 := by
  obtain ⟨op, now⟩ := op
  cases op with
  | acceptLink link consentToken => exact acceptLink_effect codec m link consentToken now
  | revokeLink linkId actorAgentId => exact revokeLink_effect codec m linkId actorAgentId now
  | submit envelope => exact submit_effect codec m envelope now
  | submitProgram envelope version invocation =>
    exact submitProgram_effect codec m envelope version invocation now
  | acknowledge idempotencyKey => exact acknowledge_effect codec m idempotencyKey now
  | cancel linkId correlationId actorAgentId =>
    exact cancel_effect codec m linkId correlationId actorAgentId now

end CollaborationMailbox

end NeoGraph.A2A
