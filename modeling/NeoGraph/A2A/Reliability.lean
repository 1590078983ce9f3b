import NeoGraph.A2A.Delivery

/-!
# What a mailbox guarantees

For every sequence of operations on a mailbox: the messages that it accepted
are numbered from one in each correlation, one for each key (`InOrder`); the
answers are those of a mailbox that takes each message once (`Answers`); records
remain, and their states move forward only (`RecordsRemain`); and revocation is
final (`Revoked`).
-/

namespace NeoGraph.A2A.CollaborationMailbox

open List

variable {ι : Type} {codec : Codec ι}

/-- The messages accepted in the course of some operations, in their order. -/
def acceptedRequests (codec : Codec ι) :
    CollaborationMailbox ι → List (Operation ι × (ℕ → UInt64)) → List (Request ι)
  | _, [] => []
  | m, op :: ops =>
    (if (step codec op m).2 = .result .accepted then op.1.request.toList else [])
      ++ acceptedRequests codec (step codec op m).1 ops

/-- **The records of a mailbox** are those of the accepted messages, which are
numbered from one in every correlation. -/
structure InOrder (requests : List (Request ι)) (m : CollaborationMailbox ι) : Prop where
  sequences : ∀ c,
    (requests.filter fun r => r.1.correlationId = c).map (fun r => r.1.sequence.toNat)
      = range' 1 (m.highest c).toNat
  keys : (requests.map fun r => r.1.idempotencyKey).Nodup
  records : ∀ key, (m.records.find? key).map (fun r => (r.envelope, r.programRequest))
    = requests.find? fun r => r.1.idempotencyKey = key
  linked : ∀ r ∈ requests, (m.links.find? r.1.linkId).isSome

/-- Records stay, with their requests, and their states move forward. -/
def RecordsRemain (m m' : CollaborationMailbox ι) : Prop :=
  ∀ key r, m.records.find? key = some r → ∃ r', m'.records.find? key = some r' ∧ RecordKept r r'

theorem inOrder_empty (ownerScope agentId : String) :
    InOrder ([] : List (Request ι)) { ownerScope, agentId } :=
  ⟨fun _ => rfl, nodup_nil, fun _ => rfl, nofun⟩

variable {m m' : CollaborationMailbox ι} {requests : List (Request ι)}

theorem InOrder.same (h : InOrder requests m) (hsm : SameMailbox m m') : InOrder requests m' where
  sequences c := by rw [hsm.highest, h.sequences]
  keys := h.keys
  records key := by rw [hsm.records, h.records]
  linked r hr := by
    rw [hsm.links]
    exact h.linked r hr

/-- A record that is kept holds the same request. -/
theorem request_eq_of_kept {r r' : Option (CollaborationRecord ι)}
    (h : Option.Rel RecordKept r r') : r'.map (fun r => (r.envelope, r.programRequest))
      = r.map fun r => (r.envelope, r.programRequest) := by
  cases h with
  | none => rfl
  | some hk => rw [Option.map_some, Option.map_some, hk.envelope, hk.programRequest]

theorem InOrder.changes (h : InOrder requests m) (hrc : RecordsKept m m')
    (hhi : ∀ c, m'.highest c = m.highest c)
    (hlks : ∀ id, (m.links.find? id).isSome → (m'.links.find? id).isSome) :
    InOrder requests m' where
  sequences c := by rw [hhi, h.sequences]
  keys := h.keys
  records key := by
    rw [← h.records]
    exact request_eq_of_kept (hrc key)
  linked r hr := hlks _ (h.linked r hr)

variable {envelope : CollaborationEnvelope}

theorem sequence_ne_zero (h : validateEnvelopeShape envelope = .ok ()) : envelope.sequence ≠ 0 := by
  intro hz
  unfold validateEnvelopeShape at h
  obtain ⟨_, -, h⟩ := bind_eq_ok.mp h
  rw [if_pos hz] at h
  obtain ⟨_, h, -⟩ := bind_eq_ok.mp h
  cases h

/-- **An accepted message** is the next of its correlation. -/
theorem InOrder.accepts (h : InOrder requests m) {now : UInt64} {request : Request ι}
    (ha : Accepts codec now request m m') : InOrder (requests ++ [request]) m' where
  sequences c := by
    rw [ha.highest, filter_append, map_append, h.sequences]
    by_cases hc : c = request.1.correlationId
    · have hnx : request.1.sequence.toNat = (m.highest c).toNat + 1 := by
        have hne : request.1.sequence.toNat ≠ 0 := fun hz =>
          sequence_ne_zero ha.shape (UInt64.toNat_inj.mp hz)
        rw [ha.next, ← hc, UInt64.toNat_add] at hne ⊢
        have hlt := (m.highest c).toNat_lt
        have ho : (1 : UInt64).toNat = 1 := rfl
        omega
      rw [if_pos hc, hnx, range'_concat, filter_cons,
        if_pos (decide_eq_true hc.symm), filter_nil, map_singleton, hnx]
      congr 2
      omega
    · rw [if_neg hc, filter_cons, if_neg, filter_nil, map_nil, append_nil]
      rw [decide_eq_true_eq]
      exact fun heq => hc heq.symm
  keys := by
    rw [map_append, nodup_append]
    refine ⟨h.keys, nodup_singleton _, ?_⟩
    intro key hk key' hk' heq
    obtain rfl : key' = request.1.idempotencyKey := mem_singleton.mp hk'
    obtain ⟨r, hr, rfl⟩ := mem_map.mp hk
    have hn := h.records request.1.idempotencyKey
    rw [ha.fresh] at hn
    exact find?_eq_none.mp hn.symm r hr (decide_eq_true heq)
  records key := by
    rw [ha.records, SortedMap.find?_insert, find?_append]
    by_cases hk : key = request.1.idempotencyKey
    · have hn := h.records key
      rw [hk, ha.fresh] at hn
      rw [if_pos hk, hk, ← hn]
      simp
    · rw [if_neg hk, h.records, find?_cons_of_neg, find?_nil, Option.or_none]
      rw [decide_eq_true_eq]
      exact fun heq => hk heq.symm
  linked r hr := by
    rw [ha.links]
    obtain hr | hr := mem_append.mp hr
    · exact h.linked r hr
    rw [mem_singleton.mp hr]
    obtain ⟨link, hl⟩ := ha.permitted
    rw [hl.found]
    rfl

/-- **Every operation** keeps the messages in order. -/
theorem InOrder.step (h : InOrder requests m) (op : Operation ι × (ℕ → UInt64)) :
    InOrder (requests ++
        if (step codec op m).2 = .result .accepted then op.1.request.toList else [])
      (CollaborationMailbox.step codec op m).1 := by
  cases step_effect codec op m with
  | nothing hsm ha =>
    rw [if_neg ha, append_nil]
    exact h.same hsm
  | accepts request hreq hacc ha =>
    rw [if_pos ha, hreq]
    exact h.accepts hacc
  | changes hr hhi hlks ha =>
    rw [if_neg, append_nil]
    · exact h.changes hr hhi hlks
    obtain ha | ha := ha
    · rw [ha]
      nofun
    · rw [ha]
      nofun

theorem inOrder_run (h : InOrder requests m) (ops : List (Operation ι × (ℕ → UInt64))) :
    InOrder (requests ++ acceptedRequests codec m ops) (runSteps (step codec) m ops) := by
  induction ops generalizing requests m with
  | nil =>
    rw [acceptedRequests, append_nil]
    exact h
  | cons op ops ih =>
    rw [acceptedRequests, ← append_assoc]
    exact ih (h.step op)

/-! ## Records -/

/-- No step forgets a record. -/
theorem recordsRemain_step (codec : Codec ι) (op : Operation ι × (ℕ → UInt64))
    (m : CollaborationMailbox ι) : RecordsRemain m (step codec op m).1 := by
  intro key r hr
  cases step_effect codec op m with
  | nothing hsm ha =>
    rw [hsm.records]
    exact ⟨r, hr, .refl r⟩
  | accepts request hreq hacc ha =>
    rw [hacc.records, SortedMap.find?_insert_of_ne]
    · exact ⟨r, hr, .refl r⟩
    · rintro rfl
      rw [hacc.fresh] at hr
      cases hr
  | changes hrc hhi hlks ha =>
    have hk := hrc key
    rw [hr] at hk
    cases hr' : (step codec op m).1.records.find? key with
    | none =>
      rw [hr'] at hk
      cases hk
    | some r' =>
      rw [hr'] at hk
      cases hk with
      | some hk => exact ⟨r', rfl, hk⟩

theorem recordsRemain_run (codec : Codec ι) (m : CollaborationMailbox ι)
    (ops : List (Operation ι × (ℕ → UInt64))) : RecordsRemain m (runSteps (step codec) m ops) := by
  induction ops generalizing m with
  | nil => exact fun key r hr => ⟨r, hr, .refl r⟩
  | cons op ops ih =>
    intro key r hr
    obtain ⟨r', hr', hk⟩ := recordsRemain_step codec op m key r hr
    obtain ⟨r'', hr'', hk'⟩ := ih _ key r' hr'
    exact ⟨r'', hr'', hk'.envelope.trans hk.envelope,
      hk'.programRequest.trans hk.programRequest, hk.state.trans hk'.state⟩

/-! ## Duplicates -/

/-- Two texts that a hash does not tell apart. -/
def Collision (hash : String → String) (a b : String) : Prop := a ≠ b ∧ hash a = hash b

/-- The same text, unless the hash fails. -/
def SameText (codec : Codec ι) (a b : CollaborationEnvelope) : Prop :=
  a.serializeCanonical codec = b.serializeCanonical codec
    ∨ Collision codec.sha256 (a.serializeCanonical codec) (b.serializeCanonical codec)

theorem sameText_of_contentHash {a b : CollaborationEnvelope}
    (h : a.contentHash codec = b.contentHash codec) : SameText codec a b := by
  by_cases heq : a.serializeCanonical codec = b.serializeCanonical codec
  · exact .inl heq
  · exact .inr ⟨heq, h⟩

/-- A record holds a request with the same content. -/
structure SameContent (codec : Codec ι) (existing : CollaborationRecord ι) (request : Request ι) :
    Prop where
  text : SameText codec existing.envelope request.1
  program : ∀ program ∈ request.2, ∃ program', existing.programRequest = some program'
    ∧ program'.version.canonicalBytes = program.version.canonicalBytes
    ∧ program'.invocation.idempotencyKey = program.invocation.idempotencyKey
    ∧ codec.canonicalPayload program'.invocation = codec.canonicalPayload program.invocation

theorem append_ne_duplicate (m : CollaborationMailbox ι) (record : CollaborationRecord ι) :
    (m.append record).2 ≠ .duplicate := by
  unfold append
  dsimp only
  split <;> nofun

variable {now : ℕ → UInt64}

theorem submit_duplicate (h : (m.submit codec now envelope).2 = .ok .duplicate) :
    ∃ existing, m.records.find? envelope.idempotencyKey = some existing
      ∧ SameContent codec existing (envelope, none) := by
  unfold submit at h
  split at h
  · cases h
  split at h
  · cases h
  split at h
  · cases h
  split at h
  · cases h
  split at h
  · rename_i existing hex
    split_ifs at h with hhash
    · exact ⟨existing, hex, sameText_of_contentHash hhash, nofun⟩
    · cases h
  · exact absurd (Except.ok.inj h) (append_ne_duplicate m _)

variable {version : ProgramVersion} {invocation : RunInvocation ι}

theorem sameContent_of_sameRequest {existing : CollaborationRecord ι}
    (h : sameRequest codec existing envelope version invocation = true) :
    SameContent codec existing (envelope, some ⟨version, invocation⟩) := by
  unfold sameRequest at h
  rw [Bool.and_eq_true, decide_eq_true_eq] at h
  refine ⟨sameText_of_contentHash h.1, ?_⟩
  rintro _ ⟨⟩
  have hp := h.2
  split at hp
  · cases hp
  rename_i program' hp'
  simp only [Bool.and_eq_true, decide_eq_true_eq] at hp
  obtain ⟨hbs, hcmp⟩ := hp
  unfold compareInvocations at hcmp
  split at hcmp
  · cases hcmp
  rename_i hk
  split at hcmp
  · rename_i hpay
    push Not at hk
    exact ⟨program', hp', hbs, hk.2.2, hpay⟩
  · cases hcmp

/-- Only what has the content of a record is called its duplicate. -/
theorem submitProgram_duplicate
    (h : (m.submitProgram codec now envelope version invocation).2 = .ok .duplicate) :
    ∃ existing, m.records.find? envelope.idempotencyKey = some existing
      ∧ SameContent codec existing
        ({ envelope with programVersionId := version.id }, some ⟨version, invocation⟩) := by
  unfold submitProgram at h
  split at h
  · cases h
  split at h
  · cases h
  dsimp only at h
  split at h
  · cases h
  split at h
  · cases h
  split at h
  · cases h
  split at h
  · cases h
  split at h
  · rename_i existing hex
    split_ifs at h with hsm
    · exact ⟨existing, hex, sameContent_of_sameRequest hsm⟩
    · cases h
  · exact absurd (Except.ok.inj h) (append_ne_duplicate m _)

theorem eq_ok_duplicate_of_answer {result : Except String CollaborationSubmitResult}
    (ha : (match result with
      | .ok answer => Answer.result answer
      | .error error => .threw error) = .result .duplicate) : result = .ok .duplicate := by
  cases result with
  | ok answer =>
    cases ha
    rfl
  | error error => cases ha

/-- **A duplicate** has the content of the record with its key. -/
theorem step_duplicate {op : Operation ι × (ℕ → UInt64)}
    (h : (step codec op m).2 = .result .duplicate) :
    ∃ request existing, op.1.request = some request
      ∧ m.records.find? request.1.idempotencyKey = some existing
      ∧ SameContent codec existing request := by
  obtain ⟨op, now⟩ := op
  cases op with
  | acceptLink link consentToken | revokeLink linkId actorAgentId =>
    rw [step] at h
    dsimp only at h
    split at h <;> cases h
  | submit envelope =>
    obtain ⟨existing, hex, hsm⟩ := submit_duplicate (eq_ok_duplicate_of_answer h)
    exact ⟨_, existing, rfl, hex, hsm⟩
  | submitProgram envelope version invocation =>
    obtain ⟨existing, hex, hsm⟩ := submitProgram_duplicate (eq_ok_duplicate_of_answer h)
    exact ⟨_, existing, rfl, hex, hsm⟩
  | acknowledge idempotencyKey | cancel linkId correlationId actorAgentId => cases h

/-! ## Revocation -/

variable {key : String}

/-- A request is handed out while its record is open and its link is live. -/
theorem getProgramRequest_spec {now : UInt64} {program : ProgramRequest ι}
    (h : m.getProgramRequest now key = some program) :
    ∃ r link, m.records.find? key = some r ∧ r.state = .accepted
      ∧ r.programRequest = some program ∧ m.links.find? r.envelope.linkId = some link
      ∧ link.isLive now = true := by
  unfold getProgramRequest at h
  split at h
  · cases h
  rename_i r hr
  split at h
  · cases h
  rename_i hst
  split at h
  · rename_i request link hreq hl
    split at h
    · rename_i hlv
      cases h
      exact ⟨r, link, hr, not_not.mp hst, hreq, hl, hlv⟩
    · cases h
  · cases h

variable {r : CollaborationRecord ι}

theorem InOrder.link_of_record (h : InOrder requests m) (hr : m.records.find? key = some r) :
    (m.links.find? r.envelope.linkId).isSome := by
  have hreq := h.records key
  rw [hr] at hreq
  exact h.linked _ (mem_of_find?_eq_some hreq.symm)

/-- **A revocation** leaves no message of its link accepted. -/
theorem revokeLink_cancels (h : InOrder requests m) {linkId actorAgentId : String}
    (hdn : (m.revokeLink linkId actorAgentId).2 = .ok ()) (hr : m.records.find? key = some r)
    (hl : r.envelope.linkId = linkId) :
    ∃ r', (m.revokeLink linkId actorAgentId).1.records.find? key = some r'
      ∧ r'.state ≠ .accepted := by
  have hf := h.link_of_record hr
  rw [hl] at hf
  obtain ⟨link, hf⟩ := Option.isSome_iff_exists.mp hf
  unfold revokeLink at hdn ⊢
  rw [hf] at hdn ⊢
  dsimp only at hdn ⊢
  split at hdn
  · cases hdn
  refine ⟨revokeRecord linkId r, ?_, ?_⟩
  · dsimp only
    rw [SortedMap.find?_filterMap, hr]
    rfl
  · unfold revokeRecord
    split_ifs with hst
    · nofun
    · exact fun ha => hst ⟨hl, ha⟩

/-- A message that is no longer accepted is never handed out. -/
theorem getProgramRequest_run (hr : m.records.find? key = some r) (hst : r.state ≠ .accepted)
    (ops : List (Operation ι × (ℕ → UInt64))) (now : UInt64) :
    (runSteps (step codec) m ops).getProgramRequest now key = none := by
  by_contra hs
  obtain ⟨program, hp⟩ := Option.ne_none_iff_exists'.mp hs
  obtain ⟨r', -, hr', ha, -⟩ := getProgramRequest_spec hp
  obtain ⟨r'', hr'', hk⟩ := recordsRemain_run codec m ops key r hr
  obtain rfl : r'' = r' := Option.some.inj (hr''.symm.trans hr')
  obtain hsm | hwas | hcanceled := hk.state
  · exact hst (hsm.trans ha)
  · exact hst hwas
  · rw [ha] at hcanceled
    cases hcanceled

/-! ## All guarantees -/

/-- **What holds of a mailbox** that accepted some messages, now and after any
further operations. -/
structure Guarantees (codec : Codec ι) (requests : List (Request ι)) (m : CollaborationMailbox ι) :
    Prop where
  inOrder : InOrder requests m
  /-- An operation that fails, is refused, or finds a duplicate changes nothing. -/
  refused : ∀ op, (step codec op m).2 ≠ .result .accepted → (step codec op m).2 ≠ .done →
    (step codec op m).2 ≠ .flag true → SameMailbox m (step codec op m).1
  /-- A message is accepted under a link that permits it. -/
  accepted : ∀ op, (step codec op m).2 = .result .accepted →
    ∃ request, op.1.request = some request
      ∧ Accepts codec (op.2 0) request m (step codec op m).1
  duplicate : ∀ op, (step codec op m).2 = .result .duplicate →
    ∃ request existing, op.1.request = some request
      ∧ m.records.find? request.1.idempotencyKey = some existing
      ∧ SameContent codec existing request
  /-- Requests never change, and states move forward. -/
  remain : ∀ ops, RecordsRemain m (runSteps (step codec) m ops)
  /-- A request is handed out while its message is accepted and its link live. -/
  handed : ∀ now key program, m.getProgramRequest now key = some program →
    ∃ r link, m.records.find? key = some r ∧ r.state = .accepted
      ∧ r.programRequest = some program ∧ m.links.find? r.envelope.linkId = some link
      ∧ link.isLive now = true
  /-- A message that was acknowledged or canceled is never handed out again. -/
  settled : ∀ key r, m.records.find? key = some r → r.state ≠ .accepted → ∀ ops now,
    (runSteps (step codec) m ops).getProgramRequest now key = none
  /-- After a revocation, no message of the link is ever handed out. -/
  revoked : ∀ linkId actorAgentId, (m.revokeLink linkId actorAgentId).2 = .ok () →
    ∀ key r, m.records.find? key = some r → r.envelope.linkId = linkId → ∀ ops now,
      (runSteps (step codec) (m.revokeLink linkId actorAgentId).1 ops).getProgramRequest now key
        = none

/-- **A mailbox accepts each message once and in order**, and revocation is
final, for every sequence of operations. -/
theorem accepts_once_in_order (codec : Codec ι) (ownerScope agentId : String)
    (ops : List (Operation ι × (ℕ → UInt64))) :
    Guarantees codec (acceptedRequests codec { ownerScope, agentId } ops)
      (runSteps (step codec) { ownerScope, agentId } ops) where
  inOrder := inOrder_run (inOrder_empty ownerScope agentId) ops
  refused op hacc hdn hf := by
    cases step_effect codec op (runSteps (step codec) { ownerScope, agentId } ops) with
    | nothing hsm ha => exact hsm
    | accepts request hreq haccepts ha => exact absurd ha hacc
    | changes hrc hhi hlks ha =>
      obtain ha | ha := ha
      · exact absurd ha hdn
      · exact absurd ha hf
  accepted op hacc := by
    cases step_effect codec op (runSteps (step codec) { ownerScope, agentId } ops) with
    | nothing hsm ha => exact absurd hacc ha
    | accepts request hreq haccepts ha => exact ⟨request, hreq, haccepts⟩
    | changes hrc hhi hlks ha =>
      rw [hacc] at ha
      obtain ha | ha := ha <;> cases ha
  duplicate op hduplicate := step_duplicate hduplicate
  remain := recordsRemain_run codec _
  handed now key program := getProgramRequest_spec
  settled key r hr hst ops' now := getProgramRequest_run hr hst ops' now
  revoked linkId actorAgentId hdn key r hr hl ops' now := by
    have ho : InOrder ([] ++ acceptedRequests codec { ownerScope, agentId } ops)
        (runSteps (step codec) { ownerScope, agentId } ops) :=
      inOrder_run (inOrder_empty ownerScope agentId) ops
    obtain ⟨r', hr', hst⟩ := revokeLink_cancels ho hdn hr hl
    exact getProgramRequest_run hr' hst ops' now

end NeoGraph.A2A.CollaborationMailbox
