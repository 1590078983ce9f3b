import NeoGraph.A2A.Restorable

/-!
# A mailbox is read back

A snapshot holds the messages that were accepted, each once, and those of one
correlation are numbered from one in the order of the snapshot.

The links and then the records of a document are read one by one. After some
of them the mailbox holds these and no others (`linksRead`, `RecordsRead`), so
that none is refused as a duplicate; at the end it cannot be told from the
mailbox that was written.
-/

namespace NeoGraph.A2A.CollaborationMailbox

open List UInt64

variable {ι : Type} {docs : Documents ι} {m : CollaborationMailbox ι}
variable {requests : List (Request ι)}

/-! ## Its records -/

theorem snapshot_perm (m : CollaborationMailbox ι) :
    m.snapshot.Perm (m.records.entries.map Prod.snd) := mergeSort_perm _ _

/-- A record is filed under its own key. -/
theorem InOrder.key_eq (h : InOrder requests m) {key : String} {r : CollaborationRecord ι}
    (hr : m.records.find? key = some r) : r.envelope.idempotencyKey = key := by
  have hf := h.records key
  rw [hr, Option.map_some] at hf
  have hk := find?_some hf.symm
  exact of_decide_eq_true hk

theorem InOrder.mem_snapshot_iff (h : InOrder requests m) (r : CollaborationRecord ι) :
    r ∈ m.snapshot ↔ m.records.find? r.envelope.idempotencyKey = some r := by
  rw [m.snapshot_perm.mem_iff, mem_map]
  constructor
  · rintro ⟨⟨key, r'⟩, hm, rfl⟩
    have hr := (m.records.mem_entries_iff key r').mp hm
    rw [h.key_eq hr]
    exact hr
  · intro hr
    exact ⟨_, (m.records.mem_entries_iff _ r).mpr hr, rfl⟩

/-- No key occurs twice. -/
theorem InOrder.snapshot_keys (h : InOrder requests m) :
    (m.snapshot.map fun r => r.envelope.idempotencyKey).Nodup := by
  have hk : (m.records.entries.map Prod.snd).map (fun r => r.envelope.idempotencyKey)
      = m.records.entries.map Prod.fst := by
    rw [map_map]
    refine map_congr_left fun e he => ?_
    exact h.key_eq ((m.records.mem_entries_iff e.1 e.2).mp he)
  rw [(m.snapshot_perm.map _).nodup_iff, hk]
  exact (pairwise_map.mpr m.records.sorted).imp fun hlt => hlt.ne

/-- A record is found in the snapshot by its key. -/
theorem InOrder.find?_snapshot (h : InOrder requests m) (key : String) :
    m.snapshot.find? (fun r => r.envelope.idempotencyKey = key) = m.records.find? key := by
  cases hf : m.records.find? key with
  | none =>
    rw [find?_eq_none]
    intro r hr heq
    rw [h.mem_snapshot_iff, of_decide_eq_true heq, hf] at hr
    cases hr
  | some r =>
    have hk := h.key_eq hf
    have hm : r ∈ m.snapshot := by
      rw [h.mem_snapshot_iff, hk]
      exact hf
    cases hfd : m.snapshot.find? fun r => r.envelope.idempotencyKey = key with
    | none => exact absurd (decide_eq_true hk) (find?_eq_none.mp hfd r hm)
    | some r' =>
      have hr' := (h.mem_snapshot_iff r').mp (mem_of_find?_eq_some hfd)
      have hk' := find?_some hfd
      rw [of_decide_eq_true hk', hf] at hr'
      exact hr'.symm

/-! ## Its sequences -/

/-- The sequences of one correlation. -/
def sequencesIn (records : List (CollaborationRecord ι)) (c : String) : List UInt64 :=
  (records.filter fun r => r.envelope.correlationId = c).map fun r => r.envelope.sequence

/-- The snapshot holds the messages that were accepted. -/
theorem InOrder.snapshot_requests (h : InOrder requests m) :
    (m.snapshot.map requestOf).Perm requests := by
  have hk : ∀ l : List (Request ι), (l.map fun q => q.1.idempotencyKey).Nodup → l.Nodup :=
    fun l hl => hl.of_map _
  have hs : (m.snapshot.map requestOf).Nodup := by
    refine hk _ ?_
    rw [map_map]
    exact h.snapshot_keys
  rw [perm_ext_iff_of_nodup hs (hk _ h.keys)]
  intro q
  rw [mem_map]
  constructor
  · rintro ⟨r, hr, rfl⟩
    have hf := h.records r.envelope.idempotencyKey
    rw [(h.mem_snapshot_iff r).mp hr, Option.map_some] at hf
    exact mem_of_find?_eq_some hf.symm
  · intro hq
    have hf := h.records q.1.idempotencyKey
    cases hr : m.records.find? q.1.idempotencyKey with
    | none =>
      rw [hr, Option.map_none] at hf
      exact absurd (decide_eq_true rfl) (find?_eq_none.mp hf.symm q hq)
    | some r =>
      rw [hr, Option.map_some] at hf
      have hq' := mem_of_find?_eq_some hf.symm
      have hsm : q = requestOf r :=
        inj_on_of_nodup_map h.keys hq hq' (h.key_eq hr).symm
      refine ⟨r, ?_, hsm.symm⟩
      rw [h.mem_snapshot_iff, h.key_eq hr]
      exact hr

/-- The order in which records are stored. -/
theorem recordLe_trans (a b c : CollaborationRecord ι) (hab : recordLe a b = true)
    (hbc : recordLe b c = true) : recordLe a c = true := by
  unfold recordLe at hab hbc ⊢
  split_ifs at hab with heq
  · have hab := of_decide_eq_true hab
    split_ifs at hbc with heq
    · have hlt := hab.trans (of_decide_eq_true hbc)
      rw [if_pos hlt.ne]
      exact decide_eq_true hlt
    · rw [not_not.mp heq] at hab
      rw [if_pos hab.ne]
      exact decide_eq_true hab
  · rw [not_not.mp heq]
    split_ifs at hbc with hne
    · rw [if_pos hne]
      exact hbc
    · rw [if_neg hne]
      exact decide_eq_true (UInt64.le_trans (of_decide_eq_true hab) (of_decide_eq_true hbc))

theorem recordLe_total (a b : CollaborationRecord ι) : (recordLe a b || recordLe b a) = true := by
  rw [Bool.or_eq_true]
  unfold recordLe
  by_cases heq : a.envelope.correlationId = b.envelope.correlationId
  · rw [if_neg (not_not.mpr heq), if_neg (not_not.mpr heq.symm)]
    exact (UInt64.le_total a.envelope.sequence b.envelope.sequence).imp decide_eq_true
      decide_eq_true
  · rw [if_pos heq, if_pos (Ne.symm heq)]
    exact (lt_or_gt_of_ne heq).imp decide_eq_true decide_eq_true

/-- **The sequences of one correlation** stand in the snapshot in their order,
from one. -/
theorem InOrder.sequencesIn_snapshot (h : InOrder requests m) (c : String) :
    (sequencesIn m.snapshot c).map toNat = range' 1 (m.highest c).toNat := by
  have hp : ((sequencesIn m.snapshot c).map toNat).Perm (range' 1 (m.highest c).toNat) := by
    have hr := ((h.snapshot_requests.filter fun q => q.1.correlationId = c).map
      fun q => q.1.sequence.toNat)
    rw [h.sequences, filter_map, map_map] at hr
    unfold sequencesIn
    rw [map_map]
    exact hr
  have hs : ((sequencesIn m.snapshot c).map toNat).Pairwise (· ≤ ·) := by
    have hall := pairwise_mergeSort recordLe_trans recordLe_total (m.records.entries.map Prod.snd)
    unfold sequencesIn
    rw [map_map, pairwise_map]
    refine (hall.filter _).imp_of_mem fun {a b} ha hb hab => ?_
    have hac := of_decide_eq_true (mem_filter.mp ha).2
    have hbc := of_decide_eq_true (mem_filter.mp hb).2
    unfold recordLe at hab
    rw [if_neg (not_not.mpr (hac.trans hbc.symm))] at hab
    exact le_iff_toNat_le.mp (of_decide_eq_true hab)
  exact hp.eq_of_pairwise (fun _ _ _ _ hab hba => le_antisymm hab hba) hs pairwise_le_range'

/-- No sequence occurs twice in a correlation. -/
theorem InOrder.snapshot_sequences (h : InOrder requests m) :
    (m.snapshot.map fun r => (r.envelope.correlationId, r.envelope.sequence)).Nodup := by
  refine (nodup_map_iff_inj_on (h.snapshot_keys.of_map _)).mpr fun r hr r' hr' heq => ?_
  obtain ⟨hc, hs⟩ := Prod.mk.inj heq
  have hnd : (sequencesIn m.snapshot r.envelope.correlationId).Nodup := by
    refine List.Nodup.of_map toNat ?_
    rw [h.sequencesIn_snapshot]
    exact nodup_range'
  exact inj_on_of_nodup_map hnd (mem_filter.mpr ⟨hr, decide_eq_true rfl⟩)
    (mem_filter.mpr ⟨hr', decide_eq_true hc.symm⟩) hs

/-! ## No gap -/

/-- Sequences that count on from the expected one have no gap. -/
theorem hasGap_eq_false {sequences : List UInt64} {expected : UInt64}
    (h : sequences.map toNat = range' expected.toNat sequences.length) :
    hasGap expected sequences = false := by
  induction sequences generalizing expected with
  | nil => rfl
  | cons sequence sequences ih =>
    rw [map_cons, length_cons, range'_succ] at h
    obtain ⟨hhd, ht⟩ := List.cons.inj h
    obtain rfl : sequence = expected := UInt64.toNat_inj.mp hhd
    rw [hasGap, Bool.or_eq_false_iff]
    refine ⟨decide_eq_false (not_not.mpr rfl), ih ?_⟩
    split_ifs with hm
    · -- nothing follows the last sequence
      cases sequences with
      | nil => rfl
      | cons next sequences =>
        rw [map_cons, length_cons, range'_succ] at ht
        have hnx := (List.cons.inj ht).1
        have hlt := next.toNat_lt
        rw [hm] at hnx
        exact absurd hnx (by rw [toNat_ofNat']; omega)
    · rw [ht]
      congr 1
      have hlt := sequence.toNat_lt
      have hne : sequence.toNat ≠ 2 ^ 64 - 1 := fun heq => hm (UInt64.toNat_inj.mp (by
        rw [heq, toNat_ofNat']
        rfl))
      rw [UInt64.toNat_add, show (1 : UInt64).toNat = 1 from rfl]
      omega

/-- **The sequences of a snapshot** have no gap. -/
theorem InOrder.checkGaps_snapshot (h : InOrder requests m) :
    checkGaps (m.snapshot.map fun r => (r.envelope.correlationId, r.envelope.sequence))
      = .ok () := by
  have hsequences : ∀ c,
      sequencesOf (m.snapshot.map fun r => (r.envelope.correlationId, r.envelope.sequence)) c
        = sequencesIn m.snapshot c := by
    intro c
    have hflt : ((m.snapshot.map fun r => (r.envelope.correlationId, r.envelope.sequence)).filter
        fun s => s.1 = c).map Prod.snd = sequencesIn m.snapshot c := by
      rw [filter_map, map_map]
      rfl
    have hs : (sequencesIn m.snapshot c).Pairwise (· ≤ ·) := by
      have hrg : (range' 1 (m.highest c).toNat).Pairwise (· ≤ ·) :=
        pairwise_le_range'
      rw [← h.sequencesIn_snapshot, pairwise_map] at hrg
      exact hrg.imp fun hle => le_iff_toNat_le.mpr hle
    unfold sequencesOf
    rw [hflt]
    exact mergeSort_of_pairwise (hs.imp decide_eq_true)
  unfold checkGaps
  rw [find?_eq_none.mpr]
  intro s _
  rw [hsequences, Bool.not_eq_true]
  refine hasGap_eq_false ?_
  have hl := congrArg length (h.sequencesIn_snapshot s.1)
  rw [length_map, length_range'] at hl
  rw [h.sequencesIn_snapshot, hl]
  rfl

end NeoGraph.A2A.CollaborationMailbox

namespace NeoGraph.A2A.CollaborationMailbox

open List SortedMap

variable {ι : Type} {docs : Documents ι} {m : CollaborationMailbox ι}

/-! ## Links -/

/-- A link is read back from its own text. -/
def LinkReadsBack (docs : Documents ι) (link : CollaborationLink) : Prop :=
  ∃ value, docs.parse (docs.linkBytes link) = some value ∧ value.nesting ≤ 252
    ∧ docs.parseLink (docs.dump value.unsigned) = .ok link

/-- The document of a link. -/
def linkItem (docs : Documents ι) (link : CollaborationLink) : Json String :=
  (docs.parse (docs.linkBytes link)).getD .null

/-- The mailbox when some links of a mailbox were read. -/
def linksRead (m : CollaborationMailbox ι) (done : List (String × CollaborationLink))
    (read : CollaborationMailbox ι) : Prop :=
  ∃ links, read = { ownerScope := m.ownerScope, agentId := m.agentId, links := links }
    ∧ ∀ id, links.find? id = lookupEntry id done

theorem lookupEntry_append {κ ν : Type} [LinearOrder κ] (k : κ) (l l' : List (κ × ν)) :
    lookupEntry k (l ++ l') = (lookupEntry k l).or (lookupEntry k l') := by
  induction l with
  | nil => rfl
  | cons e l ih =>
    rw [cons_append, lookupEntry, lookupEntry, ih]
    split <;> rfl

/-- One more link is read. -/
theorem restoreLink_linksRead (h : Restorable docs m)
    (hlks : ∀ id link, m.links.find? id = some link → LinkReadsBack docs link)
    (done : List (String × CollaborationLink)) (e : String × CollaborationLink)
    (rest : List (String × CollaborationLink)) (read : CollaborationMailbox ι)
    (hens : m.links.entries = done ++ e :: rest) (hrd : linksRead m done read) :
    ∃ read', restoreLink docs read (linkItem docs e.2).unsigned = .ok read'
      ∧ linksRead m (done ++ [e]) read' := by
  obtain ⟨id, link⟩ := e
  obtain ⟨links, rfl, hf⟩ := hrd
  have hl : m.links.find? id = some link := by
    rw [← m.links.mem_entries_iff, hens]
    exact mem_append_right _ mem_cons_self
  obtain ⟨value, hv, -, hp⟩ := hlks id link hl
  obtain ⟨hid, hsc, ha, -⟩ := h.links id link hl
  have hs := m.links.sorted
  rw [hens, pairwise_append] at hs
  have hfr : links.find? id = none := by
    rw [hf]
    cases hlk : lookupEntry id done with
    | none => rfl
    | some other =>
      have hdn := (lookupEntry_eq_some_iff hs.1 id other).mp hlk
      exact absurd (hs.2.2 _ hdn _ mem_cons_self) (lt_irrefl id)
  have hi : linkItem docs link = value := by
    unfold linkItem
    rw [hv]
    rfl
  refine ⟨_, ?_, links.insert id link, rfl, fun id' => ?_⟩
  · unfold restoreLink
    dsimp only [bind, Except.bind]
    rw [hi, hp]
    dsimp only
    rw [if_neg (not_or.mpr ⟨not_not.mpr hsc, not_not.mpr ha⟩), hid, hfr]
    rfl
  · rw [find?_insert, hf, lookupEntry_append, lookupEntry, lookupEntry]
    by_cases hid' : id' = id
    · rw [if_pos hid', if_pos hid', hid', ← hf, hfr]
      rfl
    · rw [if_neg hid', if_neg hid', Option.or_none]

/-- **The links** are read back. -/
theorem foldlM_restoreLink (h : Restorable docs m)
    (hlks : ∀ id link, m.links.find? id = some link → LinkReadsBack docs link) :
    ((m.links.entries.map fun e => (linkItem docs e.2).unsigned).foldlM (restoreLink docs)
        { ownerScope := m.ownerScope, agentId := m.agentId })
      = .ok { ownerScope := m.ownerScope, agentId := m.agentId, links := m.links } := by
  obtain ⟨read, hrd, links, rfl, hf⟩ := foldlM_eq_ok (P := linksRead m)
    (restoreLink_linksRead h hlks)
    (s := { ownerScope := m.ownerScope, agentId := m.agentId }) ⟨∅, rfl, fun _ => rfl⟩
  obtain rfl : links = m.links := ext_find? hf
  exact hrd

/-! ## Records -/

/-- **The mailbox when some records of a mailbox were read**, with the sequences
that were seen. -/
structure RecordsRead (docs : Documents ι) (m : CollaborationMailbox ι)
    (done : List (CollaborationRecord ι)) (state : CollaborationMailbox ι × Seen) : Prop where
  ownerScope : state.1.ownerScope = m.ownerScope
  agentId : state.1.agentId = m.agentId
  links : state.1.links = m.links
  records : ∀ key, Option.Rel (SameRecord docs)
    (done.find? fun r => r.envelope.idempotencyKey = key) (state.1.records.find? key)
  highest : ∀ c, (state.1.highest c).toNat
    = ((sequencesIn done c).map UInt64.toNat).foldl max 0
  seen : state.2 = done.map fun r => (r.envelope.correlationId, r.envelope.sequence)

variable {read : CollaborationMailbox ι}

/-- A record fits its link in the mailbox that is read. -/
theorem checkLink_eq_ok (h : Restorable docs m) (hlks : read.links = m.links) {key : String}
    {r : CollaborationRecord ι} (hr : m.records.find? key = some r) {e : CollaborationEnvelope}
    (he : e.unsigned = r.envelope.unsigned) : read.checkLink e = .ok () := by
  obtain ⟨link, hl, hsenderScope, hs⟩ := h.linked key r hr
  obtain ⟨-, hsc, ha, hst⟩ := h.links _ link hl
  obtain ⟨hreceiverScope, hrcv⟩ := (h.content key r hr).receiver
  have hfld : ∀ {α : Type} (f : CollaborationEnvelope → α),
      (∀ e : CollaborationEnvelope, f e.unsigned = f e) → f e = f r.envelope := by
    intro α f hf
    rw [← hf e, he, hf r.envelope]
  unfold checkLink
  rw [hlks, hfld (·.linkId) fun _ => rfl, hl]
  dsimp only
  rw [hfld (·.senderOwnerScope) fun _ => rfl, hfld (·.senderAgentId) fun _ => rfl,
    hfld (·.receiverOwnerScope) fun _ => rfl, hfld (·.receiverAgentId) fun _ => rfl,
    if_neg, if_neg hst]
  rintro (hne | hne | hne | hne)
  · exact hne hsenderScope
  · exact hne hs
  · exact hne (hreceiverScope.trans hsc.symm)
  · exact hne (hrcv.trans ha.symm)

/-- A record has the request that it must have. -/
theorem typedRequestMatches_eq {r r' : CollaborationRecord ι} (hsm : SameRecord docs r r')
    (hc : Content docs m.ownerScope m.agentId (requestOf r))
    (how : read.ownerScope = m.ownerScope) : read.typedRequestMatches docs r' = true := by
  unfold typedRequestMatches
  obtain ⟨hn, hn'⟩ | ⟨q, q', hq, hq', hreq⟩ := rel_cases hsm.programRequest
  · rw [hn', hsm.field (·.programVersionId) fun _ => rfl]
    exact decide_eq_true (hc.untyped hn)
  obtain ⟨hid, hsc, hm⟩ := hc.typed q hq
  have hid : q.version.id = r.envelope.programVersionId := hid
  have hne : r.envelope.programVersionId ≠ "" := hid ▸ q.version.id_ne_empty
  rw [hq', hsm.field (·.programVersionId) fun _ => rfl]
  dsimp only
  rw [hreq.version, hreq.invocation.matches_eq hsm.envelope, how,
    decide_eq_true hne, decide_eq_true hid, decide_eq_true hsc]
  exact hm

/-- One more record is read. -/
theorem restoreRecord_recordsRead (h : Restorable docs m)
    (hrq : ∀ key r, m.records.find? key = some r →
      ∀ q ∈ r.programRequest, RequestReadsBack docs q)
    (done : List (CollaborationRecord ι)) (r : CollaborationRecord ι)
    (rest : List (CollaborationRecord ι)) (state : CollaborationMailbox ι × Seen)
    (hsn : m.snapshot = done ++ r :: rest) (hst : RecordsRead docs m done state) :
    ∃ state', restoreRecord docs state (recordItem docs r).unsigned = .ok state'
      ∧ RecordsRead docs m (done ++ [r]) state' := by
  obtain ⟨requests, ho⟩ := h.inOrder
  have hr : m.records.find? r.envelope.idempotencyKey = some r := by
    rw [← ho.mem_snapshot_iff, hsn]
    exact mem_append_right _ mem_cons_self
  have hc := h.content _ r hr
  obtain ⟨read, hrd, hsm⟩ := recordFromJson_recordItem hc.shape
    fun q hq => ⟨hrq _ r hr q hq, (hc.typed q hq).1⟩
  have hk := hsm.field (·.idempotencyKey) fun _ => rfl
  have hcorrelation := hsm.field (·.correlationId) fun _ => rfl
  have hs := hsm.field (·.sequence) fun _ => rfl
  have hfreshSequence : (r.envelope.correlationId, r.envelope.sequence) ∉ state.2 := by
    have hnd := ho.snapshot_sequences
    rw [hsn, map_append, map_cons, nodup_append] at hnd
    rw [hst.seen]
    exact fun hm => hnd.2.2 _ hm _ mem_cons_self rfl
  have hdn : done.find? (fun r' => r'.envelope.idempotencyKey = r.envelope.idempotencyKey)
      = none := by
    have hnd := ho.snapshot_keys
    rw [hsn, map_append, map_cons, nodup_append] at hnd
    rw [find?_eq_none]
    exact fun r' hr' heq => hnd.2.2 _ (mem_map_of_mem hr') _ mem_cons_self
      (of_decide_eq_true heq)
  have hfreshKey : state.1.records.find? r.envelope.idempotencyKey = none := by
    have hrel := hst.records r.envelope.idempotencyKey
    rw [hdn] at hrel
    cases hf : state.1.records.find? r.envelope.idempotencyKey with
    | none => rfl
    | some other =>
      rw [hf] at hrel
      cases hrel
  have hrcv : ¬(r.envelope.receiverOwnerScope ≠ m.ownerScope
      ∨ r.envelope.receiverAgentId ≠ m.agentId) :=
    not_or.mpr ⟨not_not.mpr hc.receiver.1, not_not.mpr hc.receiver.2⟩
  refine ⟨({ state.1 with
    records := state.1.records.insert r.envelope.idempotencyKey read
    highestSequence := state.1.highestSequence.insert r.envelope.correlationId
      (max (state.1.highestSequence.getD r.envelope.correlationId 0) r.envelope.sequence) },
    state.2 ++ [(r.envelope.correlationId, r.envelope.sequence)]), ?_, ?_⟩
  · unfold restoreRecord
    dsimp only [bind, Except.bind]
    rw [hrd]
    dsimp only
    rw [hst.ownerScope, hst.agentId, hsm.field (·.receiverOwnerScope) fun _ => rfl,
      hsm.field (·.receiverAgentId) fun _ => rfl, hk, hcorrelation, hs,
      if_neg hrcv, checkLink_eq_ok h hst.links hr hsm.envelope]
    dsimp only
    rw [if_neg hfreshSequence, typedRequestMatches_eq hsm hc hst.ownerScope, hfreshKey]
    rfl
  · refine ⟨hst.ownerScope, hst.agentId, hst.links, fun key => ?_, fun c => ?_, ?_⟩
    · rw [find?_append, find?_insert]
      by_cases heq : key = r.envelope.idempotencyKey
      · rw [if_pos heq, heq, hdn, Option.none_or, find?_singleton, if_pos (decide_eq_true rfl)]
        exact .some hsm
      · rw [if_neg heq, find?_cons_of_neg (by simpa using Ne.symm heq), find?_nil, Option.or_none]
        exact hst.records key
    · have hold := hst.highest c
      unfold highest SortedMap.getD sequencesIn at hold ⊢
      dsimp only
      rw [find?_insert, filter_append, map_append, map_append, foldl_append]
      by_cases heq : c = r.envelope.correlationId
      · rw [if_pos heq, filter_cons_of_pos (by simpa using heq.symm), ← hold, heq]
        show (max _ _ : UInt64).toNat = max _ _
        rw [UInt64.toNat_max]
      · rw [if_neg heq, filter_cons_of_neg (by simpa using Ne.symm heq)]
        exact hold
    · rw [hst.seen, map_append, map_singleton]

/-- **The records** are read back. -/
theorem foldlM_restoreRecord (h : Restorable docs m)
    (hr : ∀ key r, m.records.find? key = some r →
      ∀ q ∈ r.programRequest, RequestReadsBack docs q) :
    ∃ state, (m.snapshot.map fun r => (recordItem docs r).unsigned).foldlM (restoreRecord docs)
        ({ ownerScope := m.ownerScope, agentId := m.agentId, links := m.links }, []) = .ok state
      ∧ RecordsRead docs m m.snapshot state :=
  foldlM_eq_ok (restoreRecord_recordsRead h hr)
    ⟨rfl, rfl, rfl, fun _ => .none, fun _ => rfl, rfl⟩

theorem foldl_max_range' (n : ℕ) : (range' 1 n).foldl max 0 = n := by
  induction n with
  | zero => rfl
  | succ n ih =>
    rw [range'_concat, foldl_append, ih, foldl_cons, foldl_nil]
    omega

/-- **When all records are read** the mailbox is as it was. -/
theorem RecordsRead.equivalent {requests : List (Request ι)} (ho : InOrder requests m)
    {state : CollaborationMailbox ι × Seen} (h : RecordsRead docs m m.snapshot state) :
    Equivalent docs m state.1 := by
  refine ⟨h.ownerScope, h.agentId, h.links, fun key => ?_, fun c => ?_⟩
  · rw [← ho.find?_snapshot]
    exact h.records key
  · have hhi := h.highest c
    rw [ho.sequencesIn_snapshot, foldl_max_range'] at hhi
    exact UInt64.toNat_inj.mp hhi

end NeoGraph.A2A.CollaborationMailbox
