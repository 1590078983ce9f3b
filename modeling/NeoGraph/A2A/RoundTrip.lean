import NeoGraph.A2A.Restoration

/-!
# A stored mailbox

What is written of a mailbox reads as a mailbox that cannot be told from it
(`restored`), for every mailbox that is reached by operations that do no harm.
Two kinds of operations that the mailbox allows do harm: a message that names
a version and comes without a request, and a link in the place of another
sender's.
-/

namespace NeoGraph.A2A.CollaborationMailbox

open List Json Documents

variable {ι : Type} {docs : Documents ι} {m : CollaborationMailbox ι}

/-! ## Its document -/

/-- **What was written of a mailbox is read back**: its document by the reader
of documents, its links and requests by their own readers. -/
structure ReadsBack (docs : Documents ι) (m : CollaborationMailbox ι) : Prop where
  document : ∀ value, m.toJson docs = .ok value → value.nesting ≤ 256 →
    docs.parse (docs.dump value) = some value.unsigned
  links : ∀ id link, m.links.find? id = some link → LinkReadsBack docs link
  requests : ∀ key r, m.records.find? key = some r →
    ∀ q ∈ r.programRequest, RequestReadsBack docs q

/-- The document of a mailbox. -/
def mailboxItem (docs : Documents ι) (m : CollaborationMailbox ι) : Json String :=
  .obj [("storage_schema_version", .uint 2), ("owner_scope", .str m.ownerScope),
    ("agent_id", .str m.agentId),
    ("links", .arr (m.links.entries.map fun e => linkItem docs e.2)),
    ("records", .arr (m.snapshot.map (recordItem docs)))]

/-- The document of a mailbox whose parts have documents. -/
theorem toJson_eq (hlks : ∀ id link, m.links.find? id = some link → LinkReadsBack docs link)
    (hr : ∀ r ∈ m.snapshot, recordToJson docs r = .ok (recordItem docs r)) :
    m.toJson docs = .ok (mailboxItem docs m) := by
  have hlinkItems : (m.links.entries.map Prod.snd).mapM
      (fun link => docs.embed (docs.linkBytes link))
      = .ok ((m.links.entries.map Prod.snd).map (linkItem docs)) := by
    refine mapM_eq_ok_map fun link hl => ?_
    obtain ⟨⟨id, link⟩, hm, rfl⟩ := mem_map.mp hl
    obtain ⟨value, hv, -⟩ := hlks id link ((m.links.mem_entries_iff id link).mp hm)
    unfold embed linkItem
    rw [hv]
    rfl
  unfold toJson
  rw [hlinkItems, mapM_eq_ok_map hr, map_map]
  rfl

theorem nesting_envelopeToJson {e : CollaborationEnvelope} (h : e.payload.nesting ≤ 252) :
    (envelopeToJson e).nesting ≤ 253 := by
  have ha : ∀ v ∈ e.artifacts.map artifactToJson, v.nesting ≤ 251 := by
    intro v hv
    obtain ⟨a, -, rfl⟩ := mem_map.mp hv
    simp [artifactToJson, nesting, nestingMembers]
  have his := (nestingItems_le_iff _ 251).mpr ha
  unfold envelopeToJson
  rw [nesting_obj_le_iff]
  simp [nesting, h]
  omega

variable {r : CollaborationRecord ι}

/-- A record of shallow parts is not nested too deep for its text. -/
theorem nesting_recordItem (h : Shallow docs (requestOf r))
    (hr : ∀ q ∈ r.programRequest, RequestReadsBack docs q) :
    (recordItem docs r).nesting ≤ 254 := by
  have hreq : (requestItem docs r.programRequest).nesting ≤ 253 := by
    cases hq : r.programRequest with
    | none => exact Nat.zero_le _
    | some q =>
      obtain ⟨⟨version, hv, -⟩, ⟨invocation, -, hi, -⟩⟩ := hr q hq
      have hdp := h.version q hq version hv
      have hdp' := h.invocation q hq invocation hi
      unfold requestItem
      dsimp only
      rw [hv, hi, nesting_obj_le_iff]
      simp [hdp, hdp']
  have henv := nesting_envelopeToJson h.payload
  unfold recordItem
  rw [nesting_obj_le_iff]
  simp [nesting, hreq]
  exact henv

/-- The document of a mailbox is not nested too deep. -/
theorem nesting_mailboxItem (h : Restorable docs m) (hrd : ReadsBack docs m) :
    (mailboxItem docs m).nesting ≤ 256 := by
  obtain ⟨requests, ho⟩ := h.inOrder
  have hrc : ∀ v ∈ m.snapshot.map (recordItem docs), v.nesting ≤ 254 := by
    intro v hv
    obtain ⟨r, hr, rfl⟩ := mem_map.mp hv
    have hf := (ho.mem_snapshot_iff r).mp hr
    exact nesting_recordItem (h.content _ r hf).shallow (hrd.requests _ r hf)
  have hlks : ∀ v ∈ m.links.entries.map fun e => linkItem docs e.2, v.nesting ≤ 254 := by
    intro v hv
    obtain ⟨⟨id, link⟩, hm, rfl⟩ := mem_map.mp hv
    obtain ⟨value, hval, hdp, -⟩ := hrd.links id link
      ((m.links.mem_entries_iff id link).mp hm)
    unfold linkItem
    rw [hval]
    exact hdp.trans (by decide)
  have hrc := (nesting_arr_le_iff _ 254).mpr hrc
  have hlks := (nesting_arr_le_iff _ 254).mpr hlks
  unfold mailboxItem
  rw [nesting_obj_le_iff]
  simp only [mem_cons, not_mem_nil, or_false, forall_eq_or_imp, forall_eq]
  exact ⟨Nat.zero_le _, Nat.zero_le _, Nat.zero_le _, hlks, hrc⟩

/-! ## It is read back -/

/-- **A mailbox is read back** from its own text. -/
theorem restore_serializeCanonical (h : Restorable docs m) (hrd : ReadsBack docs m) :
    ∃ m', restore docs (docs.dump (mailboxItem docs m)) = .ok m' ∧ Equivalent docs m m' := by
  obtain ⟨requests, ho⟩ := h.inOrder
  have hrc : ∀ r ∈ m.snapshot, recordToJson docs r = .ok (recordItem docs r) := fun r hr =>
    recordToJson_eq (hrd.requests _ r ((ho.mem_snapshot_iff r).mp hr))
  have hp := hrd.document _ (toJson_eq hrd.links hrc) (nesting_mailboxItem h hrd)
  have hi : (mailboxItem docs m).unsigned
      = .obj [("storage_schema_version", .uint 2), ("owner_scope", .str m.ownerScope),
        ("agent_id", .str m.agentId),
        ("links", .arr (m.links.entries.map fun e => (linkItem docs e.2).unsigned)),
        ("records", .arr (m.snapshot.map fun r => (recordItem docs r).unsigned))] := by
    unfold mailboxItem
    simp only [unsigned_obj, unsigned_arr, map_cons, map_nil, map_map, unsigned_uint, unsigned_str]
    rfl
  obtain ⟨state, hst, hre⟩ := foldlM_restoreRecord h hrd.requests
  refine ⟨state.1, ?_, hre.equivalent ho⟩
  have hembed : docs.embed (docs.dump (mailboxItem docs m))
      = .ok (mailboxItem docs m).unsigned := by
    unfold embed
    rw [hp]
  unfold restore
  rw [hembed, hi]
  dsimp only [bind, Except.bind]
  rw [requiredUnsigned_of_get? (n := 2) rfl]
  dsimp only
  rw [if_neg (by decide), requiredString_of_get? (show get? _ "owner_scope"
    = some (.str m.ownerScope) from rfl)]
  rw [requiredString_of_get? (show get? _ "agent_id" = some (.str m.agentId) from rfl)]
  rw [requiredArray_of_get? (show get? _ "links" = _ from rfl)]
  dsimp only
  rw [foldlM_restoreLink h hrd.links]
  rw [requiredArray_of_get? (show get? _ "records" = _ from rfl)]
  dsimp only
  rw [hst]
  dsimp only
  rw [hre.seen, ho.checkGaps_snapshot]

/-! ## What is read back is written alike -/

theorem requestItem_congr {q q' : Option (ProgramRequest ι)}
    (h : Option.Rel (SameProgramRequest docs) q q') : requestItem docs q' = requestItem docs q
      ∧ programRequestToJson docs q' = programRequestToJson docs q := by
  cases h with
  | none => exact ⟨rfl, rfl⟩
  | some h =>
    unfold requestItem programRequestToJson
    dsimp only
    rw [h.version, h.invocation.bytes]
    exact ⟨rfl, rfl⟩

variable {r' : CollaborationRecord ι}

theorem unsigned_recordItem (h : SameRecord docs r r') :
    (recordItem docs r').unsigned = (recordItem docs r).unsigned := by
  have henv : (envelopeToJson r'.envelope).unsigned
      = (envelopeToJson r.envelope).unsigned := by
    rw [unsigned_envelopeToJson, unsigned_envelopeToJson, h.envelope]
  unfold recordItem
  simp only [unsigned_obj, map_cons, map_nil, henv,
    (requestItem_congr h.programRequest).1, h.state, h.diagnostic]

/-- A record that was read back can be written. -/
theorem recordToJson_congr (h : SameRecord docs r r')
    (hr : ∀ q ∈ r.programRequest, RequestReadsBack docs q) :
    recordToJson docs r' = .ok (recordItem docs r') := by
  obtain ⟨hi, hjson⟩ := requestItem_congr h.programRequest
  unfold recordToJson recordItem
  rw [hjson, programRequestToJson_eq hr, hi]
  rfl

/-- The order of records that are the same. -/
theorem recordLe_congr {s s' : CollaborationRecord ι} (hr : SameRecord docs r r')
    (hs : SameRecord docs s s') : recordLe r' s' = recordLe r s := by
  unfold recordLe
  rw [hr.field (·.correlationId) fun _ => rfl, hs.field (·.correlationId) fun _ => rfl,
    hr.field (·.sequence) fun _ => rfl, hs.field (·.sequence) fun _ => rfl]

variable {m' : CollaborationMailbox ι}

theorem Equivalent.snapshot_pairs (h : Equivalent docs m m') :
    ∃ pairs : List (CollaborationRecord ι × CollaborationRecord ι),
      (∀ p ∈ pairs, SameRecord docs p.1 p.2)
        ∧ m.snapshot = pairs.map Prod.fst ∧ m'.snapshot = pairs.map Prod.snd := by
  obtain ⟨pairs, hpr, hfst, hsnd⟩ := SortedMap.exists_pairs h.records
  have hle : ∀ p ∈ pairs, ∀ q ∈ pairs, recordLe p.1 q.1 = recordLe p.2 q.2 :=
    fun p hp q hq => (recordLe_congr (hpr p hp) (hpr q hq)).symm
  refine ⟨pairs.mergeSort fun p q => recordLe p.1 q.1,
    fun p hp => hpr p (mem_mergeSort.mp hp), ?_, ?_⟩
  · rw [snapshot, hfst]
    exact (map_mergeSort (s := recordLe) (f := Prod.fst) fun _ _ _ _ => rfl).symm
  · rw [snapshot, hsnd]
    exact (map_mergeSort hle).symm

/-- **Equal snapshots**, record by record. -/
theorem Equivalent.snapshots (h : Equivalent docs m m') :
    Forall₂ (SameRecord docs) m.snapshot m'.snapshot := by
  obtain ⟨pairs, hp, hfst, hsnd⟩ := h.snapshot_pairs
  rw [hfst, hsnd, forall₂_map_left_iff, forall₂_map_right_iff, forall₂_same]
  exact hp

/-- **The same text** is written of a mailbox that was read back. -/
theorem Equivalent.serializeCanonical (hd : ∀ v, docs.dump v.unsigned = docs.dump v)
    (h : Restorable docs m) (hrd : ReadsBack docs m) (heq : Equivalent docs m m') :
    m.serializeCanonical docs = .ok (docs.dump (mailboxItem docs m))
      ∧ m'.serializeCanonical docs = .ok (docs.dump (mailboxItem docs m)) := by
  obtain ⟨requests, ho⟩ := h.inOrder
  have hrq : ∀ r ∈ m.snapshot, ∀ q ∈ r.programRequest, RequestReadsBack docs q :=
    fun r hr => hrd.requests _ r ((ho.mem_snapshot_iff r).mp hr)
  obtain ⟨pairs, hpr, hfst, hsnd⟩ := heq.snapshot_pairs
  have hwr : m.toJson docs = .ok (mailboxItem docs m) :=
    toJson_eq hrd.links fun r hr => recordToJson_eq (hrq r hr)
  have hwr' : m'.toJson docs = .ok (mailboxItem docs m') := by
    refine toJson_eq (fun id link hl => hrd.links id link (heq.links ▸ hl)) ?_
    intro r' hr'
    rw [hsnd] at hr'
    obtain ⟨p, hp, rfl⟩ := mem_map.mp hr'
    refine recordToJson_congr (hpr p hp) (hrq p.1 ?_)
    rw [hfst]
    exact mem_map_of_mem hp
  have his : (mailboxItem docs m').unsigned = (mailboxItem docs m).unsigned := by
    have hrc : (m'.snapshot.map (recordItem docs)).map unsigned
        = (m.snapshot.map (recordItem docs)).map unsigned := by
      rw [hfst, hsnd]
      simp only [map_map]
      exact map_congr_left fun p hp => unsigned_recordItem (hpr p hp)
    unfold mailboxItem
    simp only [unsigned_obj, unsigned_arr, map_cons, map_nil, hrc,
      heq.ownerScope, heq.agentId, heq.links]
  unfold CollaborationMailbox.serializeCanonical
  rw [hwr, hwr']
  refine ⟨rfl, ?_⟩
  show Except.ok (docs.dump (mailboxItem docs m')) = _
  rw [← hd (mailboxItem docs m'), his, hd]

/-! ## Every mailbox that is reached -/

/-- **A mailbox is stored and read back**: with the same links, equal records
and the same text, and it answers every later call as before. -/
def RoundTrips (docs : Documents ι) (m : CollaborationMailbox ι) : Prop :=
  ∃ text m', m.serializeCanonical docs = .ok text ∧ restore docs text = .ok m'
    ∧ m'.ownerScope = m.ownerScope ∧ m'.agentId = m.agentId ∧ m'.links = m.links
    ∧ Forall₂ (SameRecord docs) m.snapshot m'.snapshot
    ∧ m'.serializeCanonical docs = .ok text
    ∧ ∀ ops, (∀ op, (step docs.toCodec op (runSteps (step docs.toCodec) m' ops)).2
          = (step docs.toCodec op (runSteps (step docs.toCodec) m ops)).2)
      ∧ (runSteps (step docs.toCodec) m' ops).links = (runSteps (step docs.toCodec) m ops).links
      ∧ Forall₂ (SameRecord docs) (runSteps (step docs.toCodec) m ops).snapshot
          (runSteps (step docs.toCodec) m' ops).snapshot
      ∧ ∀ now key, Option.Rel (SameProgramRequest docs)
          ((runSteps (step docs.toCodec) m ops).getProgramRequest now key)
          ((runSteps (step docs.toCodec) m' ops).getProgramRequest now key)

/-- **Every mailbox that is reached without harm is stored and read back.** -/
theorem stored_and_read_back (docs : Documents ι) (hd : ∀ v, docs.dump v.unsigned = docs.dump v)
    (ownerScope agentId : String) (ops : List (Operation ι × (ℕ → UInt64)))
    (ho : StorableRun docs { ownerScope, agentId } ops)
    (hrd : ReadsBack docs (runSteps (step docs.toCodec) { ownerScope, agentId } ops)) :
    RoundTrips docs (runSteps (step docs.toCodec) { ownerScope, agentId } ops) := by
  have hr := restorable_run (restorable_empty ownerScope agentId) ho
  obtain ⟨m', hm', heq⟩ := restore_serializeCanonical hr hrd
  obtain ⟨hwr, hwr'⟩ := heq.serializeCanonical hd hr hrd
  refine ⟨_, m', hwr, hm', heq.ownerScope, heq.agentId, heq.links,
    heq.snapshots, hwr', fun later => ?_⟩
  have hlt := heq.run hd later
  exact ⟨fun op => (hlt.step hd op).2, hlt.links, hlt.snapshots,
    fun now key => hlt.getProgramRequest now key⟩

/-! ## A sample -/

mutual

/-- The text of a document without anything to escape. -/
def compact : Json String → String
  | .null => "null"
  | .bool b => toString b
  | .uint n => toString n
  | .sint n => toString n
  | .real bits => toString bits
  | .str s => "\"" ++ s ++ "\""
  | .arr items => "[" ++ ",".intercalate (compactItems items) ++ "]"
  | .obj members => "\x7b" ++ ",".intercalate (compactMembers members) ++ "\x7d"

def compactItems : List (Json String) → List String
  | [] => []
  | v :: items => compact v :: compactItems items

def compactMembers : List (String × Json String) → List String
  | [] => []
  | (name, v) :: members => ("\"" ++ name ++ "\":" ++ compact v) :: compactMembers members

end

attribute [irreducible] compact

def sampleSpec : CollaborationLinkSpec :=
  { linkId := "l", senderOwnerScope := "a", receiverOwnerScope := "b", senderAgentId := "alice",
    receiverAgentId := "bob", taskScope := "t", capabilityAllowlist := [],
    effectAllowlist := [], artifactAllowlist := [], cancellationRights := [],
    messageKindAllowlist := ["request"], expiresAtUnixMs := 2000, maxRetries := 3,
    acknowledgementTimeoutMs := 1000 }

theorem sampleSpec_valid : validateLinkSpec sampleSpec = .ok () := rfl

/-- The hash of the token `consent`. -/
def sampleFingerprint : String :=
  "sha256:12423e0482f3e81cb1d23230664e95bb3d11b9f34f06fc199e588d4cdab6e4d4"

def sampleLink (state : CollaborationLinkState) (fingerprint : String) : CollaborationLink :=
  ⟨sampleSpec, state, fingerprint, sampleSpec_valid⟩

def sampleEnvelope (programVersionId : String) : CollaborationEnvelope :=
  { linkId := "l", senderOwnerScope := "a", receiverOwnerScope := "b", senderAgentId := "alice",
    receiverAgentId := "bob", senderProgramRunId := "r", receiverProgramRunId := "q",
    programVersionId := programVersionId, a2aTaskId := "k", a2aContextId := "x",
    messageId := "i", correlationId := "c", sequence := 1, kind := "request",
    idempotencyKey := "n", payload := .obj [] }

/-- The document of the link that was accepted. -/
def sampleLinkItem : Json String :=
  .obj [("format", .str "neograph-a2a-collaboration-v1"), ("state", .str "accepted"),
    ("spec", .obj [("schema_version", .uint 2), ("link_id", .str "l"),
      ("sender_owner_scope", .str "a"), ("receiver_owner_scope", .str "b"),
      ("sender_agent_id", .str "alice"), ("receiver_agent_id", .str "bob"),
      ("task_scope", .str "t"), ("capability_allowlist", .arr []), ("effect_allowlist", .arr []),
      ("artifact_allowlist", .arr []), ("cancellation_rights", .arr []),
      ("message_kind_allowlist", .arr [.str "request"]), ("expires_at_unix_ms", .uint 2000),
      ("max_retries", .uint 3), ("acknowledgement_timeout_ms", .uint 1000)]),
    ("consent_fingerprint", .str sampleFingerprint), ("storage_schema_version", .uint 2),
    ("content_hash",
      .str "sha256:2a8e4fd250e3a5b86ce2de64d8bff9699759e4346ede72e77b008e93c930be09")]

/-- The document of the mailbox that accepted the message. -/
def sampleMailboxItem (programVersionId : String) : Json String :=
  .obj [("storage_schema_version", .uint 2), ("owner_scope", .str "b"), ("agent_id", .str "bob"),
    ("links", .arr [sampleLinkItem]),
    ("records", .arr [.obj [("envelope", envelopeToJson (sampleEnvelope programVersionId)),
      ("state", .str "accepted"), ("diagnostic", .str ""), ("program_request", .null)]])]

/-- Writers and readers for the sample. -/
def sampleDocuments (programVersionId : String) : Documents Unit where
  sha256 _ := sampleFingerprint
  dump v := compact v.unsigned
  validates _ := true
  canonicalPayload _ := ""
  parse text :=
    if text = compact sampleLinkItem then some sampleLinkItem
    else if text = compact (sampleMailboxItem programVersionId) then
      some (sampleMailboxItem programVersionId)
    else none
  linkBytes _ := compact sampleLinkItem
  parseLink text :=
    if text = compact sampleLinkItem then .ok (sampleLink .accepted sampleFingerprint)
    else .error "Unknown collaboration link format"
  parseVersion _ := .error "Unknown ProgramVersion format"
  invocationBytes _ := ""
  parseInvocation _ := .error "Unknown RunInvocation format"

/-- The link is accepted, then the message. -/
def sampleRun (programVersionId : String) : List (Operation Unit × (ℕ → UInt64)) :=
  [(.acceptLink (sampleLink .proposed "") "consent", fun _ => 1000),
    (.submit (sampleEnvelope programVersionId), fun _ => 1000)]

/-- The mailbox that is reached. -/
def sampleMailbox (programVersionId : String) : CollaborationMailbox Unit :=
  runSteps (step (sampleDocuments programVersionId).toCodec) { ownerScope := "b", agentId := "bob" }
    (sampleRun programVersionId)

variable (programVersionId : String)

theorem sample_parse_link :
    (sampleDocuments programVersionId).parse (compact sampleLinkItem) = some sampleLinkItem :=
  if_pos rfl

theorem sample_parseLink : (sampleDocuments programVersionId).parseLink
        ((sampleDocuments programVersionId).dump sampleLinkItem)
      = .ok (sampleLink .accepted sampleFingerprint) :=
  if_pos rfl

variable {docs : Documents ι}

theorem embed_of_parse {text : String} {value : Json String} (h : docs.parse text = some value) :
    docs.embed text = .ok value := by
  unfold embed
  rw [h]

variable {m : CollaborationMailbox ι} {linkItem : Json String} {link : CollaborationLink}

theorem toJson_of_contents
    {record : CollaborationRecord ι} (hlks : m.links.entries.map Prod.snd = [link])
    (hs : m.snapshot = [record]) (hl : docs.parse (docs.linkBytes link) = some linkItem)
    (hr : record.programRequest = none) :
    m.toJson docs = .ok (.obj [("storage_schema_version", .uint 2),
      ("owner_scope", .str m.ownerScope), ("agent_id", .str m.agentId), ("links", .arr [linkItem]),
      ("records", .arr [recordItem docs record])]) := by
  have hi : recordToJson docs record = .ok (recordItem docs record) := by
    unfold recordToJson recordItem
    rw [hr]
    rfl
  unfold toJson
  rw [hlks, hs, mapM_cons, embed_of_parse hl, mapM_cons, hi]
  rfl

theorem sampleMailbox_toJson :
    (sampleMailbox programVersionId).toJson (sampleDocuments programVersionId)
      = .ok (sampleMailboxItem programVersionId) := by
  have hs : (sampleMailbox programVersionId).snapshot
      = [{ envelope := sampleEnvelope programVersionId }] := mergeSort_singleton _
  exact toJson_of_contents rfl hs (sample_parse_link programVersionId) rfl

theorem compact_sampleMailboxItem_ne {programVersionId : String}
    (h : programVersionId = "" ∨ programVersionId = "v") :
    compact (sampleMailboxItem programVersionId) ≠ compact sampleLinkItem := by
  obtain rfl | rfl := h <;> decide +kernel

theorem embed_sampleMailboxItem {programVersionId : String}
    (h : programVersionId = "" ∨ programVersionId = "v") : (sampleDocuments programVersionId).parse
        ((sampleDocuments programVersionId).dump (sampleMailboxItem programVersionId))
      = some (sampleMailboxItem programVersionId) :=
  (if_neg (compact_sampleMailboxItem_ne h)).trans (if_pos rfl)

theorem sample_readsBack {programVersionId : String}
    (h : programVersionId = "" ∨ programVersionId = "v") :
    ReadsBack (sampleDocuments programVersionId) (sampleMailbox programVersionId) where
  document value hv _ := by
    obtain rfl := Except.ok.inj ((sampleMailbox_toJson programVersionId).symm.trans hv)
    exact embed_sampleMailboxItem h
  links id link hl := by
    have hm := ((sampleMailbox programVersionId).links.mem_entries_iff id link).mpr hl
    have hens : (sampleMailbox programVersionId).links.entries
        = [("l", sampleLink .accepted sampleFingerprint)] := rfl
    rw [hens, mem_singleton] at hm
    cases hm
    exact ⟨sampleLinkItem, sample_parse_link _, by decide, sample_parseLink _⟩
  requests key r hr q hq := by
    have hm := ((sampleMailbox programVersionId).records.mem_entries_iff key r).mpr hr
    have hens : (sampleMailbox programVersionId).records.entries
        = [("n", { envelope := sampleEnvelope programVersionId })] := rfl
    rw [hens, mem_singleton] at hm
    cases hm
    cases hq

theorem sample_storableRun :
    StorableRun (sampleDocuments "") { ownerScope := "b", agentId := "bob" } (sampleRun "") := by
  refine ⟨⟨nofun, fun _ _ _ _ key r hr => (nomatch hr)⟩, ⟨fun request hreq _ => ?_, nofun⟩,
    trivial⟩
  cases hreq
  exact ⟨fun _ => rfl, by decide, nofun, nofun⟩

theorem sample_dump (v : Json String) : (sampleDocuments programVersionId).dump v.unsigned
      = (sampleDocuments programVersionId).dump v := by
  show compact v.unsigned.unsigned = compact v.unsigned
  rw [unsigned_unsigned]

/-- The sample is stored and read back. -/
theorem stored_and_read_back_sample :
    RoundTrips (sampleDocuments "") (runSteps (step (sampleDocuments "").toCodec)
      { ownerScope := "b", agentId := "bob" } (sampleRun "")) :=
  stored_and_read_back (sampleDocuments "") (sample_dump "") "b" "bob" (sampleRun "")
    sample_storableRun (sample_readsBack (.inl rfl))

variable {item : Json String}

theorem restoreLink_of_parse (hp : docs.parseLink (docs.dump item) = .ok link)
    (how : link.spec.receiverOwnerScope = m.ownerScope)
    (ha : link.spec.receiverAgentId = m.agentId) (hn : m.links.find? link.spec.linkId = none) :
    restoreLink docs m item = .ok { m with links := m.links.insert link.spec.linkId link } := by
  unfold restoreLink
  rw [hp]
  simp [how, ha, hn, bind, Except.bind]

/-- A record that names a version and has no request is not read back. -/
theorem restoreRecord_lost {seen : Seen} {read : CollaborationRecord ι}
    (hrd : recordFromJson docs item = .ok read)
    (how : read.envelope.receiverOwnerScope = m.ownerScope)
    (ha : read.envelope.receiverAgentId = m.agentId)
    (hl : m.checkLink read.envelope = .ok ())
    (hs : (read.envelope.correlationId, read.envelope.sequence) ∉ seen)
    (hreq : read.programRequest = none) (hv : read.envelope.programVersionId ≠ "") :
    restoreRecord docs (m, seen) item
      = .error "Collaboration mailbox lost its typed Program request" := by
  have htyped : m.typedRequestMatches docs read = false := by
    unfold typedRequestMatches
    rw [hreq]
    exact decide_eq_false hv
  unfold restoreRecord
  rw [hrd]
  simp [how, ha, hl, hs, htyped, hreq, bind, Except.bind]

/-- What the restoring of a record fails with, the mailbox fails with. -/
theorem restore_of_item {text ownerScope agentId error : String} {linked : CollaborationMailbox ι}
    (hp : docs.parse text = some (.obj [("storage_schema_version", .uint 2),
      ("owner_scope", .str ownerScope), ("agent_id", .str agentId), ("links", .arr [linkItem]),
    ("records", .arr [item])]))
    (hl : restoreLink docs { ownerScope, agentId } linkItem = .ok linked)
    (hr : restoreRecord docs (linked, []) item = .error error) :
    restore docs text = .error error := by
  unfold restore
  rw [embed_of_parse hp]
  show (do
    let linked ← [linkItem].foldlM (restoreLink docs) { ownerScope, agentId }
    let restored ← [item].foldlM (restoreRecord docs) (linked, [])
    checkGaps restored.2
    Except.ok restored.1) = _
  rw [foldlM_cons, hl]
  show (do
    let restored ← [item].foldlM (restoreRecord docs) (linked, [])
    checkGaps restored.2
    Except.ok restored.1) = _
  rw [foldlM_cons, hr]
  rfl

/-- The mailbox that accepted a message with a version cannot be read back. -/
theorem restore_sample :
    restore (sampleDocuments "v") ((sampleDocuments "v").dump (sampleMailboxItem "v"))
      = .error "Collaboration mailbox lost its typed Program request" := by
  have hsh : validateEnvelopeShape (sampleEnvelope "v") = .ok () := rfl
  obtain ⟨read, hrd, hsm⟩ := @recordFromJson_recordItem _ (sampleDocuments "v")
    { envelope := sampleEnvelope "v" } hsh nofun
  have hreq : read.programRequest = none := by
    have hr := hsm.programRequest
    cases hn : read.programRequest with
    | none => rfl
    | some q =>
      rw [hn] at hr
      cases hr
  have henv : read.envelope.unsigned = sampleEnvelope "v" := hsm.envelope.trans rfl
  refine restore_of_item (embed_sampleMailboxItem (.inr rfl))
    (restoreLink_of_parse (sample_parseLink "v") rfl rfl rfl)
    (restoreRecord_lost hrd (congrArg CollaborationEnvelope.receiverOwnerScope henv)
      (congrArg CollaborationEnvelope.receiverAgentId henv) ?_ not_mem_nil hreq ?_)
  · show checkLink _ read.envelope.unsigned = .ok ()
    rw [henv]
    rfl
  · show read.envelope.unsigned.programVersionId ≠ ""
    rw [henv]
    decide

/-- **A message that names a version** and comes without a request is accepted,
and the mailbox cannot be read back. -/
theorem accepted_and_not_read_back :
    ¬ ∀ (docs : Documents Unit) (_ : ∀ v, docs.dump v.unsigned = docs.dump v)
      (ownerScope agentId : String) (ops : List (Operation Unit × (ℕ → UInt64))),
      ReadsBack docs (runSteps (step docs.toCodec) { ownerScope, agentId } ops) →
        RoundTrips docs (runSteps (step docs.toCodec) { ownerScope, agentId } ops) := by
  intro ha
  obtain ⟨text, m', ht, hm', -⟩ := ha (sampleDocuments "v") (sample_dump "v") "b" "bob"
    (sampleRun "v") (sample_readsBack (.inr rfl))
  have hwr : (sampleMailbox "v").serializeCanonical (sampleDocuments "v")
      = .ok ((sampleDocuments "v").dump (sampleMailboxItem "v")) := by
    unfold serializeCanonical
    rw [sampleMailbox_toJson]
    rfl
  obtain rfl := Except.ok.inj (hwr.symm.trans ht)
  rw [restore_sample] at hm'
  cases hm'

end NeoGraph.A2A.CollaborationMailbox
