import NeoGraph.Budget.Journal

/-!
# Valid heads

`validateHead` ties all fields of a head together. `HeadValid` states what
it accepts, with one name for each of its checks, and `validateHead_eq_ok`
says that it accepts exactly that. The second half of the module says, for
each operation, what is known when it did not throw: what it checked and
which head and effect record it leaves. Everything later about the journal
is derived from these statements.
-/

namespace NeoGraph.Budget

open List Bool

variable {Report Evidence Failure : Type}

/-! ## Shapes of identities -/

theorem isHexDigit_hexDigit (n : Fin 16) : isHexDigit (hexDigit n) = true := by
  revert n
  decide

theorem length_hex (bytes : List UInt8) : (hex bytes).length = 2 * bytes.length := by
  induction bytes with
  | nil => rfl
  | cons b bytes ih =>
    show (hex bytes).length + 1 + 1 = _
    rw [ih, length_cons]
    omega

theorem all_isHexDigit_hex (bytes : List UInt8) : (hex bytes).all isHexDigit = true := by
  induction bytes with
  | nil => rfl
  | cons b bytes ih =>
    show (isHexDigit _ && (isHexDigit _ && (hex bytes).all isHexDigit)) = true
    rw [isHexDigit_hexDigit, isHexDigit_hexDigit, ih]
    rfl

/-- A nonce has the shape of a nonce. -/
theorem isNonce_of_nonce {entropy : Option Bytes32} {value : String}
    (h : nonce entropy = .ok value) : isNonce value = true := by
  cases entropy with
  | none => cases h
  | some bytes =>
    cases h
    unfold isNonce
    rw [String.toList_ofList, length_hex, bytes.2, all_isHexDigit_hex]
    rfl

/-- A content identity has the shape of one. -/
theorem isSha256Identity_sha256Identity (digest : Bytes32) :
    isSha256Identity (sha256Identity digest) = true := by
  unfold isSha256Identity sha256Identity
  rw [String.toList_ofList, length_append, length_hex, digest.2,
    show (7 : ℕ) = "sha256:".toList.length from rfl, take_left, drop_left,
    all_isHexDigit_hex]
  rfl

/-! ## Valid heads -/

/-- A list of effect identities: unique and not empty. -/
structure EffectIds (effects : List String) : Prop where
  nodup : effects.Nodup
  nonempty : "" ∉ effects

/-- The check of the effects: they are ids, in order, and no id is there twice.
-/
theorem uniqueEffectsFrom_eq_ok (seen effects : List String) :
    uniqueEffectsFrom seen effects = .ok ()
      ↔ EffectIds effects ∧ ∀ id ∈ effects, id ∉ seen := by
  induction effects generalizing seen with
  | nil => exact iff_of_true rfl ⟨⟨nodup_nil, not_mem_nil⟩, by simp⟩
  | cons id effects ih =>
    unfold uniqueEffectsFrom
    simp only [bind_unit_eq_ok, require_eq_ok, ih, decide_eq_true_eq]
    constructor
    · rintro ⟨hne, hs, ⟨hnd, he⟩, hr⟩
      refine ⟨⟨nodup_cons.mpr ⟨fun hid => hr id hid mem_cons_self, hnd⟩, ?_⟩, ?_⟩
      · exact fun h => (mem_cons.mp h).elim (fun h => hne h.symm) he
      intro id' hid'
      obtain rfl | hid' := mem_cons.mp hid'
      · exact hs
      · exact fun h => hr id' hid' (mem_cons_of_mem id h)
    · rintro ⟨⟨hnd, he⟩, hr⟩
      obtain ⟨hid, hnd⟩ := nodup_cons.mp hnd
      refine ⟨fun h => he (h ▸ mem_cons_self), hr id mem_cons_self,
        ⟨hnd, fun h => he (mem_cons_of_mem id h)⟩, fun id' hid' h => ?_⟩
      obtain rfl | h := mem_cons.mp h
      · exact hid hid'
      · exact hr id' (mem_cons_of_mem id hid') h

theorem uniqueEffects_eq_ok (effects : List String) :
    uniqueEffects effects = .ok () ↔ EffectIds effects := by
  unfold uniqueEffects
  rw [uniqueEffectsFrom_eq_ok]
  simp

/-- **What a valid head satisfies**, check by check. -/
structure HeadValid (codec : ProviderCodec Report Evidence Failure) (head : Head Report) :
    Prop where
  scope : parseScope head.scope = .ok ()
  generation : isNonce head.bankGeneration = true
  commitment : (if head.headCheckpointId = "" then decide (head.headCommitment = "")
    else isSha256Identity head.headCommitment) = true
  revision : head.revision ≠ 0
  total : head.charged + head.reserved < 2 ^ 64
  pending : head.pendingCount ≤ head.effectDedup.card
  tombstones : "" ∉ head.effectDedup
  providerEffects : EffectIds head.providerEffects
  providerAdmitted : ∀ id ∈ head.providerEffects, id ∈ head.effectDedup
  reportEffects : EffectIds head.reportEffects
  reportAdmitted : ∀ id ∈ head.reportEffects, id ∈ head.effectDedup
  reports : codec.decodeUsage head.reports = true
  publication : head.publicationCount = 0 ↔ head.headCheckpointId = ""
  ownership : validateOwnership head = .ok ()
  consumed : head.pendingCount = 0 ∨ head.sourceConsumed = true

/-- **`validateHead` accepts exactly the valid heads.** -/
theorem validateHead_eq_ok (codec : ProviderCodec Report Evidence Failure) (head : Head Report) :
    validateHead codec head = .ok () ↔ HeadValid codec head := by
  unfold validateHead
  simp only [↓bind_unit_eq_ok, bind_eq_ok, require_eq_ok, add_eq_ok, uniqueEffects_eq_ok,
    all_eq_true, decide_eq_true_eq, decide_eq_decide, or_eq_true]
  constructor
  · rintro ⟨h₁, h₂, h₃, h₄, -, ⟨h₅, -⟩, h₆, h₇, h₈, h₉, h₁₀, h₁₁, h₁₂, h₁₃, h₁₄, h₁₅⟩
    exact ⟨h₁, h₂, h₃, h₄, h₅, h₆, h₇, h₈, h₉, h₁₀, h₁₁, h₁₂, h₁₃, h₁₄, h₁₅⟩
  · rintro ⟨h₁, h₂, h₃, h₄, h₅, h₆, h₇, h₈, h₉, h₁₀, h₁₁, h₁₂, h₁₃, h₁₄, h₁₅⟩
    exact ⟨h₁, h₂, h₃, h₄, _, ⟨h₅, rfl⟩, h₆, h₇, h₈, h₉, h₁₀, h₁₁, h₁₂, h₁₃, h₁₄, h₁₅⟩

/-! ## What the operations do when they do not throw -/

/-- **The lease owns the head**: what `owned` checks. -/
structure Owns (codec : ProviderCodec Report Evidence Failure) (head : Head Report)
    (lease : Lease) : Prop where
  valid : HeadValid codec head
  scope : scopeJson lease.scope = .ok head.scope
  generation : head.bankGeneration = lease.generation
  actor : head.actor = lease.actor
  state : head.state = .owned

variable {head : Head Report} {clock : Clock} {codec : ProviderCodec Report Evidence Failure}
  {lease : Lease}

theorem owns_of_owned (h : owned codec clock head lease = .ok ()) : Owns codec head lease := by
  unfold owned at h
  simp only [↓bind_unit_eq_ok, bind_eq_ok, require_eq_ok, validateHead_eq_ok,
    and_eq_true, decide_eq_true_eq] at h
  obtain ⟨hv, scope, hsc, ⟨⟨⟨rfl, hgen⟩, ha⟩, hst⟩, -⟩ := h
  exact ⟨hv, hsc, hgen, ha, hst⟩

/-- The owner of a head passes its check whenever the clock of the deadline is
the original one. -/
theorem owned_of_owns (h : Owns codec head lease)
    (hclk : clockScope clock lease.scope false = .ok ()) :
    owned codec clock head lease = .ok () := by
  unfold owned
  simp only [↓bind_unit_eq_ok, bind_eq_ok, require_eq_ok, validateHead_eq_ok,
    and_eq_true, decide_eq_true_eq]
  exact ⟨h.valid, head.scope, h.scope, ⟨⟨⟨rfl, h.generation⟩, h.actor⟩, h.state⟩, hclk⟩

theorem originalCeiling_of_scopeJson {scope scope' : LeaseScope}
    (h : scopeJson scope = .ok scope') : scope'.originalCeiling = scope.originalCeiling := by
  obtain ⟨key, -, h⟩ := bind_eq_ok.mp h
  cases h
  rfl

variable {head' : Head Report}

/-- What a head must be for a branch to be selected, and what it becomes. -/
theorem selectBranchHead_spec {id commitment : String}
    (h : selectBranchHead codec head id commitment = .ok head') :
    HeadValid codec head ∧ head.state = .available ∧ id ≠ ""
      ∧ isSha256Identity commitment = true ∧ head.publicationCount ≠ 0
      ∧ head' = { head with headCheckpointId := id, headCommitment := commitment } := by
  unfold selectBranchHead at h
  simp only [bind_unit_eq_ok, require_eq_ok, validateHead_eq_ok,
    and_eq_true, decide_eq_true_eq, Except.ok.injEq] at h
  obtain ⟨hv, ⟨⟨hst, -⟩, -⟩, ⟨⟨hid, hcommit⟩, hpub⟩, rfl⟩ := h
  exact ⟨hv, hst, hid, hcommit, hpub, rfl⟩

/-- A first acquisition makes a fresh head, a later one takes over an
available head. -/
theorem acquireBranch_spec {head : Option (Head Report)} {args : AcquireArgs}
    (h : acquireBranch codec clock head args = .ok (head', lease)) :
    isNonce head'.actor = true ∧ head'.state = .owned ∧ lease.actor = head'.actor
      ∧ ((head = none ∧ parseScope head'.scope = .ok () ∧ isNonce head'.bankGeneration = true
          ∧ head' = { scope := head'.scope, bankGeneration := head'.bankGeneration,
                      headCheckpointId := "", headCommitment := "", revision := 1,
                      actor := head'.actor, state := .owned, charged := 0, reserved := 0,
                      pendingCount := 0, effectDedup := ∅, providerEffects := [],
                      reports := codec.noUsage, reportEffects := [], hasReport := false,
                      sourceConsumed := false, publicationCount := 0 })
        ∨ ∃ old, head = some old ∧ HeadValid codec old ∧ old.state = .available
            ∧ head' = { old with actor := head'.actor, state := .owned,
                                 revision := old.revision + 1 }) := by
  unfold acquireBranch at h
  cases head with
  | none =>
    simp only [↓bind_unit_eq_ok, bind_eq_ok, Except.ok.injEq, Prod.mk.injEq] at h
    obtain ⟨-, scope, -, hsc, -, -, -, generation, hgen, actor, ha, rfl, rfl⟩ := h
    exact ⟨isNonce_of_nonce ha, rfl, rfl, .inl ⟨rfl, hsc, isNonce_of_nonce hgen, rfl⟩⟩
  | some old =>
    simp only [↓bind_unit_eq_ok, bind_eq_ok, require_eq_ok, validateHead_eq_ok, add_eq_ok,
      and_eq_true, decide_eq_true_eq, Except.ok.injEq, Prod.mk.injEq] at h
    obtain ⟨-, scope, -, -, -, hv, -, -, ⟨⟨hst, -⟩, -⟩, revision, ⟨-, rfl⟩, actor,
      ha, rfl, rfl⟩ := h
    exact ⟨isNonce_of_nonce ha, rfl, rfl, .inr ⟨old, rfl, hv, hst, rfl⟩⟩

/-- An admitted effect fits under the ceiling and burns a fresh slot. -/
theorem begin_spec {effect : Option (Effect Report Evidence)} {id : String} {amount : ℕ}
    {digest : String} {effect' : Effect Report Evidence} {receipt : Receipt}
    (h : begin codec clock head effect lease id amount digest = .ok (head', effect', receipt)) :
    Owns codec head lease ∧ id ≠ "" ∧ effect = none ∧ id ∉ head.effectDedup
      ∧ head.charged + (head.reserved + amount) ≤ head.scope.originalCeiling.toNat
      ∧ head' = { head with
          reserved := head.reserved + amount, pendingCount := head.pendingCount + 1,
          effectDedup := insert id head.effectDedup, sourceConsumed := true,
          revision := head.revision + 1 }
      ∧ effect' = { bankGeneration := lease.generation, actor := lease.actor, effectId := id,
                    claimAmount := amount, requestDigest := digest,
                    beginRevision := head.revision + 1, state := .pending, charged := 0,
                    held := amount, outcome := none, authority := none } := by
  unfold begin at h
  simp only [↓bind_unit_eq_ok, bind_eq_ok, require_eq_ok, add_eq_ok,
    and_eq_true, decide_eq_true_eq, Except.ok.injEq, Prod.mk.injEq] at h
  obtain ⟨howned, -, -, ⟨hid, -⟩, -, ⟨heff, hfr⟩, committed, ⟨-, rfl⟩, ⟨hle, hamt⟩,
    revision, ⟨-, rfl⟩, pending, ⟨-, rfl⟩, storage, -, reserved, ⟨-, rfl⟩, rfl, rfl, -⟩ := h
  have how := owns_of_owned howned
  refine ⟨how, hid, Option.isNone_iff_eq_none.mp heff, hfr, ?_, rfl, rfl⟩
  rw [originalCeiling_of_scopeJson how.scope]
  omega

/-- An outcome settles a claim for good and keeps at most what was held. -/
theorem settlement_spec (codec : ProviderCodec Report Evidence Failure)
    (outcome : Outcome Failure) (amount : ℕ) : (settlement codec outcome amount).2.1 ≤ amount
      ∧ (settlement codec outcome amount).2.2 ≠ .pending := by
  unfold settlement
  cases outcome with
  | completion priorUsageUnknown resends usage =>
    dsimp only
    split
    · split <;> simp
    · simp
  | failure f =>
    dsimp only
    split <;> simp

/-- A pending effect record holds its whole claim and has charged
nothing. -/
theorem pending_of_validateEffect {effect : Effect Report Evidence}
    (h : validateEffect codec effect = .ok ()) (hst : effect.state = .pending) :
    effect.charged = 0 ∧ effect.held = effect.claimAmount := by
  unfold validateEffect at h
  rw [if_pos hst] at h
  simp only [bind_unit_eq_ok, require_eq_ok, and_eq_true, decide_eq_true_eq] at h
  obtain ⟨-, -, -, -, -, ⟨⟨hc, hh⟩, -⟩, -⟩ := h
  exact ⟨hc, hh⟩

/-- A settled effect was pending, and its own hold – nothing else – is
replaced by what the outcome charges and keeps. -/
theorem settle_spec [DecidableEq Report] {stored effect' : Effect Report Evidence} {claim : Receipt}
    {outcome : Outcome Failure} {authority : AuthoritySnapshot Report}
    (h : settle codec clock head stored lease claim outcome authority = .ok (head', effect')) :
    ∃ charged held state evidence, ∃ newerReport : Bool,
      Owns codec head lease ∧ stored.state = .pending ∧ stored.charged = 0
      ∧ stored.held = claim.amount ∧ claim.id ∈ head.effectDedup ∧ head.pendingCount ≠ 0
      ∧ claim.amount ≤ head.reserved ∧ state ≠ .pending
      ∧ EffectIds authority.providerEffects
      ∧ (∀ id ∈ authority.providerEffects, id ∈ head.effectDedup)
      ∧ codec.decodeUsage authority.reports = true
      ∧ head.charged + charged + (head.reserved - claim.amount + held) < 2 ^ 64
      ∧ held ≤ claim.amount
      ∧ head' = { head with
          charged := head.charged + charged,
          reserved := head.reserved - claim.amount + held,
          pendingCount := head.pendingCount - 1,
          providerEffects := head.providerEffects ++ [claim.id],
          reports := if newerReport then authority.reports else head.reports,
          reportEffects := if newerReport then authority.providerEffects else head.reportEffects,
          hasReport := if newerReport then authority.hasReport else head.hasReport,
          revision := head.revision + 1 }
      ∧ effect' = { stored with
          state := state, charged := charged, held := held, outcome := some evidence,
          authority := some authority } := by
  unfold settle validateAuthority at h
  simp only [↓bind_unit_eq_ok, bind_eq_ok, require_eq_ok, add_eq_ok, uniqueEffects_eq_ok,
    all_eq_true, and_eq_true, decide_eq_true_eq, Except.ok.injEq, Prod.mk.injEq] at h
  obtain ⟨how, heff, storage, -, ⟨⟨⟨⟨⟨⟨⟨⟨⟨⟨-, -⟩, -⟩, -⟩, -⟩, -⟩, hamt⟩, -⟩, -⟩, hst⟩,
    hadm⟩, ⟨hp, hr⟩, ⟨-, -, hids, husage⟩, -, evidence, -, nextCharged,
    ⟨-, rfl⟩, nextReserved, ⟨-, rfl⟩, total, ⟨ht, -⟩, -, hfr, -, -, revision,
    ⟨-, rfl⟩, rfl, rfl⟩ := h
  obtain ⟨hc, hh⟩ := pending_of_validateEffect heff hst
  obtain ⟨hle, hne⟩ := settlement_spec codec outcome claim.amount
  exact ⟨_, _, _, evidence, decide (∀ x ∈ head.reportEffects, x ∈ authority.providerEffects),
    owns_of_owned how, hst, hc, hh.trans hamt, hadm, hp, hr,
    hne, hids, hfr, husage, ht, hle, by simp only [decide_eq_true_eq], rfl⟩

/-- A publication never lowers the totals. -/
theorem publish_spec [DecidableEq Report] {checkpoint : BankCheckpoint Report}
    (h : publish codec clock head lease checkpoint = .ok head') :
    ∃ charged reserved digest, Owns codec head lease ∧ head.pendingCount = 0
      ∧ checkpoint.id ≠ "" ∧ charged + reserved < 2 ^ 64
      ∧ head.charged ≤ charged ∧ head.reserved ≤ reserved
      ∧ head' = { head with
          headCheckpointId := checkpoint.id, headCommitment := sha256Identity digest,
          charged := charged, reserved := reserved, sourceConsumed := false,
          publicationCount := head.publicationCount + 1, revision := head.revision + 1 } := by
  unfold publish at h
  simp only [bind_unit_eq_ok, require_eq_ok, and_eq_true, decide_eq_true_eq] at h
  obtain ⟨how, hp, ⟨hid, -⟩, -, h⟩ := h
  cases henv : checkpoint.envelope with
  | stripped | noData | malformed => rw [henv] at h; cases h
  | data bank =>
    rw [henv] at h
    unfold validateBankPublication at h
    simp only [↓bind_unit_eq_ok, bind_eq_ok, require_eq_ok, add_eq_ok,
      and_eq_true, decide_eq_true_eq, Except.ok.injEq] at h
    obtain ⟨⟨-, -, ⟨ht, -⟩, ⟨hc, hr⟩, -⟩, digest, -, revision, ⟨-, rfl⟩,
      publications, ⟨-, rfl⟩, rfl⟩ := h
    exact ⟨bank.charged, bank.reserved, digest, owns_of_owned how, hp, hid, ht,
      hc, hr, rfl⟩

theorem release_spec (h : release codec clock head lease = .ok head') : Owns codec head lease
      ∧ head' = { head with
          state := if head.sourceConsumed then .blocked else .available, actor := "",
          revision := head.revision + 1 } := by
  unfold release at h
  simp only [↓bind_unit_eq_ok, bind_eq_ok, add_eq_ok, Except.ok.injEq] at h
  obtain ⟨how, revision, ⟨-, rfl⟩, rfl⟩ := h
  exact ⟨owns_of_owned how, rfl⟩

end NeoGraph.Budget
