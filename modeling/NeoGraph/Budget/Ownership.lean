import NeoGraph.Budget.HeadValid

/-!
# Single ownership, and the irreversibility of consumption

Every reachable head is accepted by `validateHead`, and every operation
leaves one that is accepted again. The one check that a single head cannot
guarantee by itself is that `settle` appends a new identity to the settled
effects: that needs the effect records. `Journal.Consistent` adds what is
known about them – every record belongs to the generation of the head and
to an admitted identity, and the record of a settled identity is not
pending – and is preserved by every operation.

While a head is owned its actor changes only by a release, so no lease of
another actor passes `owned`. A head released with unpublished work is
blocked, and no operation accepts a blocked head.
-/

namespace NeoGraph.Budget

open Journal Finset List Nat SortedMap

variable {Report Evidence Failure : Type} [DecidableEq Report]
  {codec : ProviderCodec Report Evidence Failure}

/-! ## The cases of one operation -/

variable {head : Head Report} {journal : Journal Report Evidence}

omit [DecidableEq Report] in
theorem Journal.requireHead_eq_ok : journal.requireHead = .ok head ↔ journal.head = some head := by
  unfold requireHead
  cases journal.head <;> simp

/-- **What one operation does**, as a relation: the operation on the head,
and the effect record it replaces. -/
inductive Journal.Step (codec : ProviderCodec Report Evidence Failure)
    (journal : Journal Report Evidence) :
    Op Report Failure → Head Report → Journal Report Evidence → Prop where
  | acquire {clock args head' lease}
      (h : acquireBranch codec clock journal.head args = .ok (head', lease)) :
      Step codec journal (.acquire clock args) head' { journal with head := some head' }
  | selectBranch {id commitment head head'} (hhead : journal.head = some head)
      (h : selectBranchHead codec head id commitment = .ok head') :
      Step codec journal (.selectBranch id commitment) head' { journal with head := some head' }
  | begin {clock lease id amount digest head head' effect receipt}
      (hhead : journal.head = some head)
      (h : Budget.begin codec clock head (journal.effects.find? (toLex (lease.generation, id)))
        lease id amount digest = .ok (head', effect, receipt)) :
      Step codec journal (.begin clock lease id amount digest) head'
        ⟨some head', journal.effects.insert (toLex (lease.generation, id)) effect⟩
  | settle {clock lease claim outcome authority head head' stored effect}
      (hhead : journal.head = some head)
      (hstored : journal.effects.find? (toLex (lease.generation, claim.id)) = some stored)
      (h : Budget.settle codec clock head stored lease claim outcome authority
        = .ok (head', effect)) :
      Step codec journal (.settle clock lease claim outcome authority) head'
        ⟨some head', journal.effects.insert (toLex (lease.generation, claim.id)) effect⟩
  | publish {clock lease checkpoint head head'} (hhead : journal.head = some head)
      (h : Budget.publish codec clock head lease checkpoint = .ok head') :
      Step codec journal (.publish clock lease checkpoint) head'
        { journal with head := some head' }
  | release {clock lease head head'} (hhead : journal.head = some head)
      (h : Budget.release codec clock head lease = .ok head') :
      Step codec journal (.release clock lease) head' { journal with head := some head' }

variable {op : Op Report Failure} {journal' : Journal Report Evidence}

/-- An operation that does not throw is one of these steps. -/
theorem Journal.step_of_eq_ok (h : journal.step codec op = .ok journal') :
    ∃ head', journal'.head = some head' ∧ Step codec journal op head' journal' := by
  unfold step at h
  cases op with
  | acquire clock args =>
    obtain ⟨⟨head', lease⟩, hop, h⟩ := bind_eq_ok.mp h
    cases h
    exact ⟨head', rfl, .acquire hop⟩
  | selectBranch id commitment =>
    simp only [bind_eq_ok] at h
    obtain ⟨head, hhd, head', hop, h⟩ := h
    cases h
    exact ⟨head', rfl, .selectBranch (requireHead_eq_ok.mp hhd) hop⟩
  | begin clock lease id amount digest =>
    simp only [bind_eq_ok] at h
    obtain ⟨head, hhd, ⟨head', effect, receipt⟩, hop, h⟩ := h
    cases h
    exact ⟨head', rfl, .begin (requireHead_eq_ok.mp hhd) hop⟩
  | settle clock lease claim outcome authority =>
    obtain ⟨head, hhd, h⟩ := bind_eq_ok.mp h
    dsimp only at h
    cases hst : journal.effects.find? (toLex (lease.generation, claim.id)) with
    | none =>
      rw [hst] at h
      cases h
    | some stored =>
      rw [hst] at h
      obtain ⟨⟨head', effect⟩, hop, h⟩ := bind_eq_ok.mp h
      cases h
      exact ⟨head', rfl, .settle (requireHead_eq_ok.mp hhd) hst hop⟩
  | publish clock lease checkpoint =>
    simp only [bind_eq_ok] at h
    obtain ⟨head, hhd, head', hop, h⟩ := h
    cases h
    exact ⟨head', rfl, .publish (requireHead_eq_ok.mp hhd) hop⟩
  | release clock lease =>
    simp only [bind_eq_ok] at h
    obtain ⟨head, hhd, head', hop, h⟩ := h
    cases h
    exact ⟨head', rfl, .release (requireHead_eq_ok.mp hhd) hop⟩

/-! ## Every operation keeps the head valid -/

omit [DecidableEq Report] in
/-- The ownership check of an owned head reads the actor alone. -/
theorem validateOwnership_of_owned (h : head.state = .owned) :
    validateOwnership head = .ok () ↔ isNonce head.actor = true := by
  unfold validateOwnership
  rw [h]
  exact require_eq_ok

variable {lease : Lease}

omit [DecidableEq Report] in
theorem Owns.isNonce_actor (h : Owns codec head lease) : isNonce head.actor = true :=
  (validateOwnership_of_owned h.state).mp h.valid.ownership

namespace HeadValid

variable {head head' : Head Report}

omit [DecidableEq Report] in
theorem selectBranchHead {id commitment : String}
    (h : Budget.selectBranchHead codec head id commitment = .ok head') : HeadValid codec head' := by
  obtain ⟨hv, hst, hid, hcommit, hpub, rfl⟩ := selectBranchHead_spec h
  exact { hv with
    commitment := by rw [if_neg hid]; exact hcommit
    publication := iff_of_false hpub hid }

variable {clock : Clock} {lease : Lease}

omit [DecidableEq Report] in
theorem acquireBranch {head : Option (Head Report)} {args : AcquireArgs}
    (h : Budget.acquireBranch codec clock head args = .ok (head', lease)) :
    HeadValid codec head' := by
  obtain ⟨ha, hst, -, ⟨-, hsc, hgen, heq⟩ | ⟨old, -, hv, -, heq⟩⟩ :=
    acquireBranch_spec h
  · rw [heq]
    exact {
      scope := hsc
      generation := hgen
      commitment := rfl
      revision := one_ne_zero
      total := by
        show 0 + 0 < 2 ^ 64
        decide
      pending := zero_le _
      tombstones := notMem_empty _
      providerEffects := ⟨nodup_nil, not_mem_nil⟩
      providerAdmitted := by simp
      reportEffects := ⟨nodup_nil, not_mem_nil⟩
      reportAdmitted := by simp
      reports := codec.decodeUsage_noUsage
      publication := iff_of_true rfl rfl
      ownership := (validateOwnership_of_owned rfl).mpr ha
      consumed := .inl rfl }
  · rw [heq]
    exact { hv with
      revision := succ_ne_zero _
      ownership := (validateOwnership_of_owned rfl).mpr ha }

omit [DecidableEq Report] in
/-- Every operation leaves a valid head. -/
theorem begin {effect : Option (Effect Report Evidence)} {id : String} {amount : ℕ}
    {digest : String} {effect' : Effect Report Evidence} {receipt : Receipt}
    (h : Budget.begin codec clock head effect lease id amount digest
      = .ok (head', effect', receipt)) :
    HeadValid codec head' := by
  obtain ⟨how, hid, -, hfr, hc, rfl, -⟩ := begin_spec h
  have hv := how.valid
  have hbd := head.scope.originalCeiling.toNat_lt
  exact { hv with
    revision := succ_ne_zero _
    total := by
      show head.charged + (head.reserved + amount) < 2 ^ 64
      omega
    pending := by
      show head.pendingCount + 1 ≤ (insert id head.effectDedup).card
      rw [card_insert_of_notMem hfr]
      exact succ_le_succ hv.pending
    tombstones := fun h => (mem_insert.mp h).elim (fun h => hid h.symm) hv.tombstones
    providerAdmitted := fun id' h => mem_insert_of_mem (hv.providerAdmitted id' h)
    reportAdmitted := fun id' h => mem_insert_of_mem (hv.reportAdmitted id' h)
    ownership := (validateOwnership_of_owned (by exact how.state)).mpr how.isNonce_actor
    consumed := .inr rfl }

/-- A settlement keeps the head valid when the effect was not settled
before. -/
theorem settle {stored effect' : Effect Report Evidence} {claim : Receipt}
    {outcome : Outcome Failure} {authority : AuthoritySnapshot Report}
    (hn : claim.id ∉ head.providerEffects)
    (h : Budget.settle codec clock head stored lease claim outcome authority = .ok (head', effect'))
    : HeadValid codec head' := by
  obtain ⟨charged, held, state, evidence, newerReport, how, -, -, -, hadm, hp, -,
    -, hids, hfr, husage, ht, -, rfl, -⟩ := settle_spec h
  have hv := how.valid
  have hid : claim.id ≠ "" := fun h => hv.tombstones (h ▸ hadm)
  exact { hv with
    revision := succ_ne_zero _
    total := ht
    pending := (sub_le _ _).trans hv.pending
    providerEffects := by
      refine ⟨nodup_append.mpr ⟨hv.providerEffects.nodup, nodup_singleton _, ?_⟩, ?_⟩
      · intro id hm id' hid' heq
        rw [List.mem_singleton.mp hid'] at heq
        exact hn (heq ▸ hm)
      · intro hm
        obtain hm | hm := mem_append.mp hm
        · exact hv.providerEffects.nonempty hm
        · exact hid (List.mem_singleton.mp hm).symm
    providerAdmitted := fun id hm => (mem_append.mp hm).elim (hv.providerAdmitted id)
      fun hm => List.mem_singleton.mp hm ▸ hadm
    reportEffects := by
      show EffectIds (if newerReport then authority.providerEffects else head.reportEffects)
      split
      · exact hids
      · exact hv.reportEffects
    reportAdmitted := by
      split
      · exact hfr
      · exact hv.reportAdmitted
    reports := by
      split
      · exact husage
      · exact hv.reports
    ownership := (validateOwnership_of_owned (by exact how.state)).mpr how.isNonce_actor
    consumed := .inr (hv.consumed.resolve_left hp) }

theorem publish {checkpoint : BankCheckpoint Report}
    (h : Budget.publish codec clock head lease checkpoint = .ok head') : HeadValid codec head' := by
  obtain ⟨charged, reserved, digest, how, hp, hid, ht, -, -, rfl⟩ := publish_spec h
  have hv := how.valid
  exact { hv with
    commitment := by rw [if_neg hid]; exact isSha256Identity_sha256Identity digest
    revision := succ_ne_zero _
    total := ht
    publication := iff_of_false (succ_ne_zero _) hid
    ownership := (validateOwnership_of_owned (by exact how.state)).mpr how.isNonce_actor
    consumed := .inl hp }

omit [DecidableEq Report] in
theorem release (h : Budget.release codec clock head lease = .ok head') :
    HeadValid codec head' := by
  obtain ⟨how, rfl⟩ := release_spec h
  have hv := how.valid
  exact { hv with
    revision := succ_ne_zero _
    ownership := by
      unfold validateOwnership
      cases hco : head.sourceConsumed with
      | true =>
        refine require_eq_ok.mpr ?_
        rfl
      | false =>
        have hp : head.pendingCount = 0 := hv.consumed.resolve_right (by simp [hco])
        refine require_eq_ok.mpr ?_
        simp [hp] }

end HeadValid

/-! ## Consistent journals -/

/-- **The invariant of a journal**: its head is valid, and the record of an
identity that the head counts as settled is not pending. -/
structure Journal.Consistent (codec : ProviderCodec Report Evidence Failure)
    (journal : Journal Report Evidence) : Prop where
  valid : ∀ head, journal.head = some head → HeadValid codec head
  settled : ∀ head id effect, journal.head = some head → id ∈ head.providerEffects →
    journal.effects.find? (toLex (head.bankGeneration, id)) = some effect →
    effect.state ≠ .pending

omit [DecidableEq Report] in
theorem Journal.consistent_empty : (Journal.empty : Journal Report Evidence).Consistent codec := by
  constructor
  · intro head h
    cases h
  · intro head id effect h
    cases h

variable {head' : Head Report}

omit [DecidableEq Report] in
/-- A new head over the same records is consistent when it is valid and
settles no more than an old one of the same generation. -/
theorem Journal.Consistent.of_head (hc : journal.Consistent codec)
    (hhd : journal.head = some head) (hv : HeadValid codec head')
    (hgen : head'.bankGeneration = head.bankGeneration)
    (hs : head'.providerEffects = head.providerEffects) :
    Consistent codec { journal with head := some head' } := by
  refine ⟨fun _ h => ?_, fun _ id effect h hid heff => ?_⟩
  · cases h
    exact hv
  · cases h
    rw [hgen] at heff
    exact hc.settled head id effect hhd (hs ▸ hid) heff

variable {clock : Clock}

/-- The identity of a pending effect is not among the settled ones. -/
theorem Journal.Consistent.not_mem_of_settle {stored effect' : Effect Report Evidence}
    {claim : Receipt} {outcome : Outcome Failure} {authority : AuthoritySnapshot Report}
    (hc : journal.Consistent codec) (hhd : journal.head = some head)
    (hst : journal.effects.find? (toLex (lease.generation, claim.id)) = some stored)
    (h : settle codec clock head stored lease claim outcome authority = .ok (head', effect')) :
    claim.id ∉ head.providerEffects := by
  obtain ⟨charged, held, state, evidence, newerReport, how, hp, -⟩ := settle_spec h
  intro hid
  rw [← how.generation] at hst
  exact hc.settled head claim.id stored hhd hid hst hp

/-- **Every operation keeps the journal consistent.** -/
theorem Journal.Step.consistent (hc : journal.Consistent codec)
    (h : Step codec journal op head' journal') : journal'.Consistent codec := by
  cases h with
  | acquire h =>
    obtain ⟨-, -, -, ⟨-, -, -, heq⟩ | ⟨old, hold, -, -, heq⟩⟩ := acquireBranch_spec h
    · refine ⟨fun _ hh => ?_, fun _ id effect hh hid => ?_⟩
      · cases hh
        exact .acquireBranch h
      · cases hh
        rw [heq] at hid
        exact absurd hid not_mem_nil
    · exact hc.of_head hold (.acquireBranch h) (by rw [heq]) (by rw [heq])
  | selectBranch hhd h =>
    obtain ⟨-, -, -, -, -, heq⟩ := selectBranchHead_spec h
    exact hc.of_head hhd (.selectBranchHead h) (by rw [heq]) (by rw [heq])
  | @begin clock lease id amount digest head _ effect receipt hhd h =>
    obtain ⟨how, -, -, hfr, -, heq, -⟩ := begin_spec h
    refine ⟨fun _ hh => ?_, fun _ id' effect' hh hid' heff => ?_⟩
    · cases hh
      exact .begin h
    cases hh
    rw [heq] at hid' heff
    -- the admitted identity is new, so its record is not that of a settled one
    have hne : toLex (head.bankGeneration, id') ≠ toLex (lease.generation, id) := by
      intro hk
      have hid : id' = id := congrArg Prod.snd (toLex_inj.mp hk)
      exact hfr (hid ▸ how.valid.providerAdmitted id' hid')
    rw [find?_insert_of_ne _ hne] at heff
    exact hc.settled head id' effect' hhd hid' heff
  | @settle clock lease claim outcome authority head _ stored effect hhd hstr h =>
    have hn := hc.not_mem_of_settle hhd hstr h
    obtain ⟨charged, held, state, evidence, newerReport, how, -, -, -, -, -, -, hst, -, -, -,
      -, -, heq, heff⟩ := settle_spec h
    refine ⟨fun _ hh => ?_, fun _ id' effect' hh hid' hr => ?_⟩
    · cases hh
      exact .settle hn h
    cases hh
    rw [heq] at hid' hr
    have hr : (journal.effects.insert (toLex (lease.generation, claim.id)) effect).find?
        (toLex (head.bankGeneration, id')) = some effect' := hr
    by_cases hid : id' = claim.id
    · rw [hid, how.generation, find?_insert_self] at hr
      cases hr
      rw [heff]
      exact hst
    · have hne : toLex (head.bankGeneration, id') ≠ toLex (lease.generation, claim.id) :=
        fun hk => hid (congrArg Prod.snd (toLex_inj.mp hk))
      rw [find?_insert_of_ne _ hne] at hr
      have hold : id' ∈ head.providerEffects :=
        (List.mem_append.mp hid').resolve_right fun hm => hid (List.mem_singleton.mp hm)
      exact hc.settled head id' effect' hhd hold hr
  | publish hhd h =>
    obtain ⟨charged, reserved, digest, -, -, -, -, -, -, heq⟩ := publish_spec h
    exact hc.of_head hhd (.publish h) (by rw [heq]) (by rw [heq])
  | release hhd h =>
    obtain ⟨-, heq⟩ := release_spec h
    exact hc.of_head hhd (.release h) (by rw [heq]) (by rw [heq])

/-- Every reachable journal is consistent. -/
theorem Journal.consistent_run (ops : List (Op Report Failure)) :
    ((Journal.empty : Journal Report Evidence).run codec ops).Consistent codec :=
  runOps_invariant (fun _ _ _ hc h => by
    obtain ⟨_, -, hs⟩ := step_of_eq_ok h
    exact hs.consistent hc) consistent_empty ops

/-! ## Who may work on a head -/

/-- The lease an operation is made with, if it is made with one. -/
def Op.lease? : Op Report Failure → Option Lease
  | .begin _ lease _ _ _ => some lease
  | .settle _ lease _ _ _ => some lease
  | .publish _ lease _ => some lease
  | .release _ lease => some lease
  | .acquire _ _ => none
  | .selectBranch _ _ => none

/-- The operation is a release. -/
def Op.IsRelease : Op Report Failure → Prop
  | .release _ _ => True
  | _ => False

/-- The operation is a selection, the only one that leaves the revision
alone. -/
def Op.IsSelection : Op Report Failure → Prop
  | .selectBranch _ _ => True
  | _ => False

/-- **One head later than another**: same generation, no tombstone lost,
no charge given back. -/
structure Head.Before (head head' : Head Report) : Prop where
  generation : head'.bankGeneration = head.bankGeneration
  tombstones : head.effectDedup ⊆ head'.effectDedup
  charged : head.charged ≤ head'.charged

/-- What an operation does to a head. One made with a lease is made by the owner
of the head, one made without needs an available head. -/
structure HeadChange (codec : ProviderCodec Report Evidence Failure) (op : Op Report Failure)
    (head head' : Head Report) : Prop where
  before : head.Before head'
  revision_lt : ¬op.IsSelection → head.revision < head'.revision
  owns : ∀ lease, op.lease? = some lease → Owns codec head lease
  available : op.lease? = none → head.state = .available
  keeps_owner : op.lease? ≠ none → ¬op.IsRelease →
    head'.state = head.state ∧ head'.actor = head.actor

/-- What a step of the journal can do to the head. -/
theorem Journal.Step.headChange (h : Step codec journal op head' journal')
    (hhd : journal.head = some head) : HeadChange codec op head head' := by
  cases h with
  | acquire h =>
    obtain ⟨-, -, -, ⟨hn, -⟩ | ⟨old, hold, -, hst, heq⟩⟩ := acquireBranch_spec h
    · cases hn.symm.trans hhd
    cases hold.symm.trans hhd
    rw [heq]
    exact ⟨⟨rfl, subset_rfl, le_rfl⟩, fun _ => lt_succ_self _, nofun, fun _ => hst,
      fun hne => absurd rfl hne⟩
  | selectBranch hhd' h =>
    cases hhd'.symm.trans hhd
    obtain ⟨-, hst, -, -, -, rfl⟩ := selectBranchHead_spec h
    exact ⟨⟨rfl, subset_rfl, le_rfl⟩, fun hop => absurd trivial hop, nofun, fun _ => hst,
      fun hne => absurd rfl hne⟩
  | begin hhd' h =>
    cases hhd'.symm.trans hhd
    obtain ⟨how, -, -, -, -, rfl, -⟩ := begin_spec h
    exact ⟨⟨rfl, subset_insert _ _, le_rfl⟩, fun _ => lt_succ_self _,
      by rintro _ ⟨⟩; exact how, nofun, fun _ _ => ⟨rfl, rfl⟩⟩
  | settle hhd' hstr h =>
    cases hhd'.symm.trans hhd
    obtain ⟨charged, held, state, evidence, newerReport, how, -, -, -, -, -, -, -, -, -, -, -, -,
      rfl, -⟩ := settle_spec h
    exact ⟨⟨rfl, subset_rfl, le_add_right _ _⟩, fun _ => lt_succ_self _,
      by rintro _ ⟨⟩; exact how, nofun, fun _ _ => ⟨rfl, rfl⟩⟩
  | publish hhd' h =>
    cases hhd'.symm.trans hhd
    obtain ⟨charged, reserved, digest, how, -, -, -, hc, -, rfl⟩ := publish_spec h
    exact ⟨⟨rfl, subset_rfl, hc⟩, fun _ => lt_succ_self _,
      by rintro _ ⟨⟩; exact how, nofun, fun _ _ => ⟨rfl, rfl⟩⟩
  | release hhd' h =>
    cases hhd'.symm.trans hhd
    obtain ⟨how, rfl⟩ := release_spec h
    exact ⟨⟨rfl, subset_rfl, le_rfl⟩, fun _ => lt_succ_self _,
      by rintro _ ⟨⟩; exact how, nofun, fun _ hop => absurd trivial hop⟩

omit [DecidableEq Report] in
/-- No operation accepts a blocked head. -/
theorem HeadChange.not_blocked (h : HeadChange codec op head head') : head.state ≠ .blocked := by
  cases hls : op.lease? with
  | none =>
    rw [h.available hls]
    exact nofun
  | some lease =>
    rw [(h.owns lease hls).state]
    exact nofun

/-- An operation on a blocked journal throws. -/
theorem Journal.step_blocked (hhd : journal.head = some head) (hst : head.state = .blocked)
    (op : Op Report Failure) : ∃ e, journal.step codec op = .error e := by
  cases h : journal.step codec op with
  | error e => exact ⟨e, rfl⟩
  | ok journal' =>
    obtain ⟨head', -, hs⟩ := step_of_eq_ok h
    exact absurd hst (hs.headChange hhd).not_blocked

/-- The journal is owned by an actor. -/
def Journal.OwnedBy (actor : String) (journal : Journal Report Evidence) : Prop :=
  ∃ head, journal.head = some head ∧ head.state = .owned ∧ head.actor = actor

/-- Operations without a release keep the owner. -/
theorem Journal.ownedBy_run {actor : String} (h : journal.OwnedBy actor)
    {ops : List (Op Report Failure)}
    (ho : ∀ p ∈ succeeded (step codec) journal ops, ¬ p.2.IsRelease) :
    (journal.run codec ops).OwnedBy actor := by
  refine runOps_invariant_of_succeeded (Q := fun op => ¬ op.IsRelease) ?_ h ho
  rintro journal op journal' ⟨head, hhd, hst, ha⟩ hop hs
  obtain ⟨head', hhd', hs⟩ := step_of_eq_ok hs
  have hc := hs.headChange hhd
  obtain ⟨hst', ha'⟩ := hc.keeps_owner (fun hn => by
    cases hst.symm.trans (hc.available hn)) hop
  exact ⟨head', hhd', hst'.trans hst, ha'.trans ha⟩

/-- **Single ownership, and irreversibility of consumption.** For every
reachable journal: its head is valid; every operation throws or leaves a
valid head, with a larger revision unless it is a selection; after a
successful acquisition, and as long as no release succeeds, every
operation with a lease of another actor throws; a head released while its
source is consumed is blocked; and from a blocked head no sequence of
operations leads to a head that is not blocked. -/
theorem journal_ownership (codec : ProviderCodec Report Evidence Failure)
    (ops : List (Op Report Failure)) (journal : Journal Report Evidence)
    (hrc : journal = Journal.empty.run codec ops) :
    (∀ head, journal.head = some head → validateHead codec head = .ok ())
    ∧ (∀ op journal', journal.step codec op = .ok journal' →
        ∃ head', journal'.head = some head' ∧ validateHead codec head' = .ok ()
          ∧ (¬ op.IsSelection → ∀ head, journal.head = some head →
              head.revision < head'.revision))
    ∧ (∀ clock args journal₁ head₁, journal.step codec (.acquire clock args) = .ok journal₁ →
        journal₁.head = some head₁ →
        ∀ ops', (∀ p ∈ succeeded (step codec) journal₁ ops', ¬ p.2.IsRelease) →
        ∀ (op : Op Report Failure) lease, op.lease? = some lease → lease.actor ≠ head₁.actor →
          ∃ e, (journal₁.run codec ops').step codec op = .error e)
    ∧ (∀ clock lease head journal', journal.head = some head → head.sourceConsumed = true →
        journal.step codec (.release clock lease) = .ok journal' →
        ∃ head', journal'.head = some head' ∧ head'.state = .blocked)
    ∧ (∀ head, journal.head = some head → head.state = .blocked →
        ∀ ops' head', (journal.run codec ops').head = some head' → head'.state ≠ .owned) := by
  have hc : journal.Consistent codec := hrc ▸ consistent_run ops
  refine ⟨fun head hhd => ?_, fun op journal' h => ?_, ?_, ?_, ?_⟩
  · exact (validateHead_eq_ok codec head).mpr (hc.valid head hhd)
  · obtain ⟨head', hhd', hs⟩ := step_of_eq_ok h
    refine ⟨head', hhd', ?_, fun hop head hhd => (hs.headChange hhd).revision_lt hop⟩
    exact (validateHead_eq_ok codec head').mpr ((hs.consistent hc).valid head' hhd')
  · intro clock args journal₁ head₁ h hhd₁ ops' ho op lease hls hne
    -- the acquisition makes its actor the owner, and the owner stays until a release
    have how : journal₁.OwnedBy head₁.actor := by
      obtain ⟨head', hhd', hs⟩ := step_of_eq_ok h
      cases hhd'.symm.trans hhd₁
      cases hs with
      | acquire hacquire =>
        obtain ⟨-, hst, -⟩ := acquireBranch_spec hacquire
        exact ⟨_, rfl, hst, rfl⟩
    obtain ⟨head, hhd, -, ha⟩ := ownedBy_run how ho
    cases hop : (journal₁.run codec ops').step codec op with
    | error e => exact ⟨e, rfl⟩
    | ok journal' =>
      obtain ⟨head', -, hs⟩ := step_of_eq_ok hop
      exact absurd (((hs.headChange hhd).owns lease hls).actor.symm.trans ha) hne
  · intro clock lease head journal' hhd hco h
    obtain ⟨head', hhd', hs⟩ := step_of_eq_ok h
    cases hs with
    | release hhd₀ hrel =>
      cases hhd₀.symm.trans hhd
      obtain ⟨-, rfl⟩ := release_spec hrel
      exact ⟨_, rfl, if_pos hco⟩
  · intro head hhd hst ops' head' hhd'
    have hr : (journal.run codec ops').head = some head := by
      refine runOps_invariant (P := fun j : Journal Report Evidence => j.head = some head) ?_ hhd
        ops'
      intro j op j' hj h
      obtain ⟨e, herr⟩ := step_blocked hj hst op
      rw [herr] at h
      cases h
    cases hr.symm.trans hhd'
    rw [hst]
    exact fun h => by cases h

/-- A codec whose reports, evidence and failures carry nothing. -/
def unitCodec : ProviderCodec Unit Unit Unit where
  decodeUsage _ := true
  noUsage := ()
  decodeUsage_noUsage := rfl
  encodeOutcome _ _ _ _ := .ok ()
  provesNotAccepted _ := true
  checkpointDigest _ := .ok ⟨replicate 32 0, by decide⟩

/-- A scope without a deadline. -/
def demoScope : LeaseScope where
  ownerScope := ""
  threadId := "t"
  storageThreadId := "t"
  graphIdentity := "g"
  originalCeiling := 100
  originalDeadlineTicks := none
  deadlineClockIdentity := ""

/-- The lease of the acquisition in `abandonedOps`. -/
def demoLease : Lease where
  scope := demoScope
  executionThread := "t"
  executionStorageThread := "t"
  actor := String.ofList (hex (replicate 32 7))
  generation := String.ofList (hex (replicate 32 5))
  revision := 1
  checkpointId := ""
  commitment := ""
  nativeArchive := false
  cppNativeRetention := true

/-- An actor acquires a new bank, begins an effect and gives up. -/
def abandonedOps : List (Op Unit Unit) :=
  [.acquire ⟨.ok "", 0⟩
      { priorObligation := false, requestedScope := demoScope, expectedId := "",
        expectedCommitment := "", executionThread := "t", executionStorageThread := "t",
        generationEntropy := some ⟨replicate 32 5, by decide⟩,
        actorEntropy := some ⟨replicate 32 7, by decide⟩ },
    .begin ⟨.ok "", 0⟩ demoLease "call-1" 60
      (sha256Identity ⟨replicate 32 1, by decide⟩),
    .release ⟨.ok "", 0⟩ demoLease]

/-- The head after an admission. -/
def Head.enter (head : Head Report) (id : String) (amount : ℕ) : Head Report :=
  { head with
      reserved := head.reserved + amount
      pendingCount := head.pendingCount + 1
      effectDedup := insert id head.effectDedup
      sourceConsumed := true
      revision := head.revision + 1 }

/-- The record of an effect of the lease admitted at a revision. -/
def Lease.pendingEffect (lease : Lease) (id : String) (amount : ℕ) (digest : String)
    (beginRevision : ℕ) : Effect Report Evidence where
  bankGeneration := lease.generation
  actor := lease.actor
  effectId := id
  claimAmount := amount
  requestDigest := digest
  beginRevision := beginRevision
  state := .pending
  charged := 0
  held := amount
  outcome := none
  authority := none

variable {amount : ℕ}

/-- **An admission by the owner** goes through when its slot is fresh and
there is room for its amount. -/
theorem Journal.step_begin {id digest : String} (hhd : journal.head = some head)
    (how : Owns codec head lease)
    (hclk : ∀ spending, clockScope clock lease.scope spending = .ok ())
    (hr : (lease.nativeArchive || lease.cppNativeRetention) = true) (hid : id ≠ "")
    (hamt : amount ≠ 0) (hdg : isSha256Identity digest = true)
    (hn : journal.effects.find? (toLex (lease.generation, id)) = none)
    (hfr : id ∉ head.effectDedup)
    (hrm : head.charged + (head.reserved + amount) ≤ lease.scope.originalCeiling.toNat)
    (hrev : head.revision + 1 < 2 ^ 64) (hp : head.pendingCount + 1 < 2 ^ 64) :
    journal.step codec (.begin clock lease id amount digest)
      = .ok ⟨some (head.enter id amount), journal.effects.insert (toLex (lease.generation, id))
            (lease.pendingEffect id amount digest (head.revision + 1))⟩ := by
  have hc := lease.scope.originalCeiling.toNat_lt
  obtain ⟨storage, hstor, -⟩ := bind_eq_ok.mp how.scope
  have hbeg : begin codec clock head none lease id amount digest
      = .ok (head.enter id amount, lease.pendingEffect id amount digest (head.revision + 1),
          ⟨storage, lease.actor, lease.generation, id, amount, digest, head.revision + 1⟩) := by
    unfold begin
    simp only [↓bind_unit_eq_ok, bind_eq_ok, require_eq_ok, add_eq_ok, Bool.and_eq_true,
      decide_eq_true_eq, Except.ok.injEq, Prod.mk.injEq]
    refine ⟨owned_of_owns how (hclk false), hclk true, hr, ⟨hid, hamt⟩, hdg,
      ⟨rfl, hfr⟩, _, ⟨?_, rfl⟩, ⟨?_, ?_⟩, _, ⟨hrev, rfl⟩, _, ⟨hp, rfl⟩, storage,
      hstor, _, ⟨?_, rfl⟩, ⟨rfl, rfl, rfl⟩⟩
    all_goals omega
  unfold step
  rw [requireHead_eq_ok.mpr hhd]
  show (begin codec clock head (journal.effects.find? _) lease id amount digest >>= _) = _
  rw [hn, hbeg]
  rfl

/-- A release by the owner. -/
theorem Journal.step_release (hhd : journal.head = some head) (how : Owns codec head lease)
    (hclk : clockScope clock lease.scope false = .ok ()) (hrev : head.revision + 1 < 2 ^ 64) :
    journal.step codec (.release clock lease)
      = .ok { journal with
          head := some { head with
            state := if head.sourceConsumed then .blocked else .available, actor := "",
            revision := head.revision + 1 } } := by
  unfold step
  rw [requireHead_eq_ok.mpr hhd]
  show (release codec clock head lease >>= _) = _
  unfold release
  rw [owned_of_owns how hclk, add_eq_ok.mpr ⟨hrev, rfl⟩]
  rfl

/-- The head that the acquisition in `abandonedOps` leaves. -/
def demoHead : Head Unit where
  scope := demoScope
  bankGeneration := demoLease.generation
  headCheckpointId := ""
  headCommitment := ""
  revision := 1
  actor := demoLease.actor
  state := .owned
  charged := 0
  reserved := 0
  pendingCount := 0
  effectDedup := ∅
  providerEffects := []
  reports := ()
  reportEffects := []
  hasReport := false
  sourceConsumed := false
  publicationCount := 0

theorem run_acquire : Journal.empty.run unitCodec (abandonedOps.take 1) = ⟨some demoHead, ∅⟩ := rfl

variable {ops : List (Op Unit Unit)}

/-- What is owned by the lease in a run. -/
theorem owns_run {head : Head Unit} (hhd : (Journal.empty.run unitCodec ops).head = some head)
    (hsc : head.scope = demoScope) (hgen : head.bankGeneration = demoLease.generation)
    (ha : head.actor = demoLease.actor) (hst : head.state = .owned) :
    Owns unitCodec head demoLease :=
  ⟨(consistent_run ops).valid head hhd, by rw [hsc]; rfl, hgen, ha, hst⟩

/-- An admission of the actor at the end of a run. -/
theorem run_begin {head : Head Unit} {id : String}
    {effects : SortedMap (String ×ₗ String) (Effect Unit Unit)}
    (hr : Journal.empty.run unitCodec ops = ⟨some head, effects⟩)
    (how : Owns unitCodec head demoLease) (hid : id ≠ "") (hamt : amount ≠ 0)
    (hn : effects.find? (toLex (demoLease.generation, id)) = none)
    (hfr : id ∉ head.effectDedup) (hrm : head.charged + (head.reserved + amount) ≤ 100)
    (hrev : head.revision + 1 < 2 ^ 64) (hp : head.pendingCount + 1 < 2 ^ 64) :
    Journal.empty.run unitCodec (ops ++ [.begin ⟨.ok "", 0⟩ demoLease id amount
        (sha256Identity ⟨replicate 32 1, by decide⟩)])
      = ⟨some (head.enter id amount), effects.insert (toLex (demoLease.generation, id))
          (demoLease.pendingEffect id amount (sha256Identity ⟨replicate 32 1, by decide⟩)
            (head.revision + 1))⟩ := by
  refine runOps_concat ?_
  have hr : runOps (step unitCodec) Journal.empty ops = _ := hr
  rw [hr]
  exact step_begin rfl how (fun _ => rfl) rfl hid hamt
    (isSha256Identity_sha256Identity ⟨replicate 32 1, by decide⟩) hn hfr hrm
    hrev hp

/-- The head after `abandonedOps` is blocked and still reserves the claim. -/
theorem head_abandonedOps :
    (Journal.empty.run unitCodec abandonedOps).head.map (fun h => (h.state, h.reserved))
      = some (.blocked, 60) := by
  have hbeg := run_begin run_acquire (owns_run (by rw [run_acquire]) rfl rfl rfl rfl)
    (show "call-1" ≠ "" by decide) (show 60 ≠ 0 by decide) rfl (notMem_empty _)
    (by decide) (by decide) (by decide)
  have how := owns_run (by rw [hbeg]) rfl rfl rfl rfl
  have hrel := step_release (congrArg head hbeg) how
    (show clockScope ⟨.ok "", 0⟩ _ _ = _ from rfl) (by decide)
  have hr : Journal.empty.run unitCodec abandonedOps = _ := runOps_concat hrel
  rw [hr]
  rfl

theorem journal_ownership_abandoned :
    ∃ head, (Journal.empty.run unitCodec abandonedOps).head = some head
      ∧ head.state = .blocked
      ∧ ∀ ops' head', ((Journal.empty.run unitCodec abandonedOps).run unitCodec ops').head
          = some head' → head'.state ≠ .owned := by
  obtain ⟨head, hhd, hst⟩ := Option.map_eq_some_iff.mp head_abandonedOps
  have hb : head.state = .blocked := congrArg Prod.fst hst
  exact ⟨head, hhd, hb,
    (journal_ownership unitCodec abandonedOps _ rfl).2.2.2.2 head hhd hb⟩

end NeoGraph.Budget
