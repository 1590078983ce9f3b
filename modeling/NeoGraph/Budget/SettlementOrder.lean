import NeoGraph.Budget.Solvency

/-!
# The order of settlements

Several effects of one lease may be pending, and their outcomes come back in
any order. A settlement folds what its outcome charges and keeps into the totals
of the head. It also carries a report – a snapshot of the bank, with the effects
it accounts for – which replaces the report of the head only if it accounts for
at least as many of them.

Reports that are pairwise comparable, the one of the head included, are merged
to the greatest of them, in whatever order they arrive. So the settlements of
pending effects commute (`settleAll_order_independent`), as long as their
reports belong to one lineage of the bank.
-/

namespace NeoGraph.Budget

open Effect Journal SortedMap Option List Nat

variable {Report Evidence Failure : Type}

/-! ## Settlements -/

/-- A settlement of an effect: its receipt, the outcome that came back, the
snapshot of the bank, and the clock at that time. -/
structure Settlement (Report Failure : Type) where
  clock : Clock
  claim : Receipt
  outcome : Outcome Failure
  authority : AuthoritySnapshot Report

/-- A report of a bank, with the effects it accounts for. -/
structure Frontier (Report : Type) where
  effects : List String
  reports : Report
  hasReport : Bool

/-- **Reports of one lineage**: one accounts for the effects of the other, and
reports that account for the same effects are the same. -/
def Frontier.Comparable (f g : Frontier Report) : Prop :=
  (f.effects ⊆ g.effects ∨ g.effects ⊆ f.effects)
    ∧ (f.effects ⊆ g.effects → g.effects ⊆ f.effects →
      f.reports = g.reports ∧ f.hasReport = g.hasReport)

/-- What the head knows of the usage. -/
def Head.frontier (head : Head Report) : Frontier Report :=
  ⟨head.reportEffects, head.reports, head.hasReport⟩

/-- The receipt of an admitted effect. -/
def Effect.receipt (effect : Effect Report Evidence) (storage : String) : Receipt :=
  { storage, actor := effect.actor, generation := effect.bankGeneration, id := effect.effectId,
    amount := effect.claimAmount, digest := effect.requestDigest,
    beginRevision := effect.beginRevision }

namespace Settlement

variable (codec : ProviderCodec Report Evidence Failure) (lease : Lease)
  (s : Settlement Report Failure)

/-- The operation of the journal that settles. -/
def op : Op Report Failure := .settle s.clock lease s.claim s.outcome s.authority

/-- What the outcome charges. -/
def charge : ℕ := (settlement codec s.outcome s.claim.amount).1

/-- What the outcome keeps. -/
def held : ℕ := (settlement codec s.outcome s.claim.amount).2.1

/-- What the settlement says of the usage. -/
def frontier : Frontier Report :=
  ⟨s.authority.providerEffects, s.authority.reports, s.authority.hasReport⟩

/-- What the settlement adds to the reservations of the head. -/
def released : ℤ := s.held codec - s.claim.amount

end Settlement

/-- **A settlement of a pending effect of the lease**, with a snapshot that
accounts for it. -/
structure Settleable (codec : ProviderCodec Report Evidence Failure)
    (journal : Journal Report Evidence) (head : Head Report) (lease : Lease)
    (s : Settlement Report Failure) : Prop where
  clock : clockScope s.clock lease.scope false = .ok ()
  pending : ∃ stored storage,
    journal.effects.find? (toLex (lease.generation, s.claim.id)) = some stored
      ∧ stored.state = .pending ∧ stored.bankGeneration = lease.generation
      ∧ stored.actor = lease.actor ∧ storageKey lease.scope = .ok storage
      ∧ s.claim = stored.receipt storage
  authority : validateAuthority codec s.authority = .ok ()
  hasReport : s.authority.hasReport = true
  accounted : s.claim.id ∈ s.authority.providerEffects
  admitted : ∀ id ∈ s.authority.providerEffects, id ∈ head.effectDedup
  charged : s.charge codec ≤ s.authority.charged
  reserved : s.held codec ≤ s.authority.reserved
  /-- The provider SDK encodes the outcome. -/
  evidence : ∃ evidence, codec.encodeOutcome lease s.claim s.outcome s.authority = .ok evidence

/-- **Pending effects of one lease, each with its settlement.** The reports are
of one lineage, and no total overflows, whichever of the effects are settled. -/
structure PendingSettlements (codec : ProviderCodec Report Evidence Failure)
    (journal : Journal Report Evidence) (head : Head Report) (lease : Lease)
    (settlements : List (Settlement Report Failure)) : Prop where
  current : journal.head = some head
  owns : Owns codec head lease
  settleable : ∀ s ∈ settlements, Settleable codec journal head lease s
  distinct : (settlements.map fun s => s.claim.id).Nodup
  lineage : ∀ s ∈ settlements, ∀ t ∈ settlements, s.frontier.Comparable t.frontier
  totals : ∀ settled : List (Settlement Report Failure), settled.Subperm settlements →
    (head.charged + head.reserved : ℤ)
      + (settled.map fun s => (s.charge codec : ℤ) + s.released codec).sum < 2 ^ 64
  revision : head.revision + settlements.length < 2 ^ 64

variable [DecidableEq Report]

/-- Settlements, one after the other. -/
def Journal.settleAll (codec : ProviderCodec Report Evidence Failure) (lease : Lease)
    (journal : Journal Report Evidence) (settlements : List (Settlement Report Failure)) :
    Except Exn (Journal Report Evidence) :=
  settlements.foldlM (fun journal s => journal.step codec (s.op lease)) journal

variable {codec : ProviderCodec Report Evidence Failure}

/-! ## Pending records -/

/-- A pending record counts one. -/
def Effect.pendingUnit (effect : Effect Report Evidence) : ℕ :=
  if effect.state = .pending then 1 else 0

/-- **The head counts its pending records**, and these are valid. -/
structure Journal.Counted (codec : ProviderCodec Report Evidence Failure)
    (journal : Journal Report Evidence) : Prop where
  pending : ∀ head, journal.head = some head →
    total journal.effects pendingUnit head.bankGeneration ≤ head.pendingCount
  valid : ∀ key effect, journal.effects.find? key = some effect → effect.state = .pending →
    validateEffect codec effect = .ok ()

variable {id : String} {head head' : Head Report} {lease : Lease}

omit [DecidableEq Report] in
/-- The record of an admitted effect is valid. -/
theorem validateEffect_of_begin {clock : Clock} {effect : Option (Effect Report Evidence)}
    {amount : ℕ} {digest : String} {effect' : Effect Report Evidence} {receipt : Receipt}
    (h : begin codec clock head effect lease id amount digest = .ok (head', effect', receipt)) :
    validateEffect codec effect' = .ok () := by
  have how := (begin_spec h).1
  unfold begin at h
  simp only [↓bind_unit_eq_ok, bind_eq_ok, require_eq_ok, add_eq_ok,
    Bool.and_eq_true, decide_eq_true_eq, Except.ok.injEq, Prod.mk.injEq] at h
  obtain ⟨-, -, -, ⟨hid, hamt⟩, hdg, -, committed, -, -, revision, ⟨-, rfl⟩, pending, -,
    storage, -, reserved, -, -, rfl, -⟩ := h
  unfold validateEffect
  simp only [bind_unit_eq_ok, require_eq_ok, if_true, Bool.and_eq_true, decide_eq_true_eq]
  have ha := how.isNonce_actor
  rw [how.actor] at ha
  exact ⟨how.generation ▸ how.valid.generation, ha, hid, ⟨hamt, succ_ne_zero _⟩,
    hdg, by simp⟩

variable {journal : Journal Report Evidence}

omit [DecidableEq Report] in
/-- A new head over the same records counts them when it counts as many. -/
theorem Journal.Counted.of_head (hc : journal.Counted codec) (hhd : journal.head = some head)
    (hgen : head'.bankGeneration = head.bankGeneration)
    (hp : head'.pendingCount = head.pendingCount) :
    Counted codec { journal with head := some head' } := by
  refine ⟨fun _ h => ?_, hc.valid⟩
  cases h
  rw [hgen, hp]
  exact hc.pending head hhd

variable {effect : Effect Report Evidence}

omit [DecidableEq Report] in
/-- A new head with a new record of its own generation counts its records when
it follows what the record adds and removes. -/
theorem Journal.Counted.of_record (hc : journal.Counted codec) (hhd : journal.head = some head)
    (hgen : head'.bankGeneration = head.bankGeneration)
    (hp : head.pendingCount + effect.pendingUnit
      ≤ head'.pendingCount
        + (journal.effects.find? (toLex (head.bankGeneration, id))).elim 0 pendingUnit)
    (hv : effect.state = .pending → validateEffect codec effect = .ok ()) : Counted codec
      ⟨some head', journal.effects.insert (toLex (head.bankGeneration, id)) effect⟩ := by
  have hsm := total_insert journal.effects pendingUnit head.bankGeneration id effect
  refine ⟨fun _ h => ?_, fun key effect' h hst => ?_⟩
  · cases h
    have := hc.pending head hhd
    rw [hgen]
    dsimp only
    omega
  · obtain ⟨-, rfl⟩ | h := find?_insert_cases h
    · exact hv hst
    · exact hc.valid key effect' h hst

variable {journal' : Journal Report Evidence} {op : Op Report Failure}

/-- **Every operation keeps the pending records counted.** -/
theorem Journal.Step.counted (hs : journal.Solvent) (hc : journal.Counted codec)
    (h : Step codec journal op head' journal') : journal'.Counted codec := by
  cases h with
  | acquire h =>
    obtain ⟨-, -, -, ⟨hn, -, -, heq⟩ | ⟨old, hold, -, -, heq⟩⟩ := acquireBranch_spec h
    · refine ⟨fun _ hh => ?_, hc.valid⟩
      cases hh
      rw [hs.unopened hn]
      exact zero_le _
    · exact hc.of_head hold (by rw [heq]) (by rw [heq])
  | selectBranch hhd h =>
    obtain ⟨-, -, -, -, -, rfl⟩ := selectBranchHead_spec h
    exact hc.of_head hhd rfl rfl
  | @begin clock lease id amount digest head _ effect receipt hhd h =>
    obtain ⟨how, -, hn, -, -, heq, heff⟩ := begin_spec h
    have hv := validateEffect_of_begin h
    rw [← how.generation] at hn ⊢
    refine hc.of_record hhd (by rw [heq]) ?_ fun _ => hv
    rw [hn, heq, heff]
    exact le_rfl
  | @settle clock lease claim outcome authority head _ stored effect hhd hstr h =>
    obtain ⟨charged, held, state, evidence, newerReport, how, hp, -, -, -, hcnt, -,
      hst, -, -, -, -, -, heq, heff⟩ := settle_spec h
    have hnotPending : effect.state ≠ .pending := by
      rw [heff]
      exact hst
    rw [← how.generation] at hstr ⊢
    refine hc.of_record hhd (by rw [heq]) ?_ fun h => absurd h hnotPending
    rw [hstr, heq, elim_some]
    unfold pendingUnit
    rw [if_neg hnotPending, if_pos hp]
    dsimp only
    omega
  | publish hhd h =>
    obtain ⟨charged, reserved, digest, -, -, -, -, -, -, rfl⟩ := publish_spec h
    exact hc.of_head hhd rfl rfl
  | release hhd h =>
    obtain ⟨-, rfl⟩ := release_spec h
    exact hc.of_head hhd rfl rfl

/-- What is known of a reachable journal. -/
structure Journal.Sound (codec : ProviderCodec Report Evidence Failure)
    (journal : Journal Report Evidence) : Prop where
  consistent : journal.Consistent codec
  solvent : journal.Solvent
  counted : journal.Counted codec

theorem Journal.Sound.step (hs : journal.Sound codec)
    (h : journal.step codec op = .ok journal') : journal'.Sound codec := by
  obtain ⟨head', -, hst⟩ := step_of_eq_ok h
  exact ⟨hst.consistent hs.consistent, hst.solvent hs.solvent,
    hst.counted hs.solvent hs.counted⟩

/-- Every reachable journal is sound. -/
theorem Journal.sound_run (ops : List (Op Report Failure)) :
    ((Journal.empty : Journal Report Evidence).run codec ops).Sound codec :=
  runOps_invariant (fun _ _ _ hs h => hs.step h)
    ⟨consistent_empty, solvent_empty, ⟨nofun, nofun⟩⟩ ops

omit [DecidableEq Report] in
/-- A measure of a record is at most its sum over the records. -/
theorem le_total {effects : SortedMap (String ×ₗ String) (Effect Report Evidence)}
    {generation : String} (h : effects.find? (toLex (generation, id)) = some effect)
    (measure : Effect Report Evidence → ℕ) : measure effect ≤ total effects measure generation := by
  have hsm := effects.sumBy_erase (toLex (generation, id))
    fun key effect => if (ofLex key).1 = generation then measure effect else 0
  rw [h, elim_some, ofLex_toLex, if_pos rfl] at hsm
  unfold total
  omega

/-! ## One settlement -/

/-- The report accounts for every effect of another one. -/
def Frontier.newer (f g : Frontier Report) : Bool := f.effects.all (· ∈ g.effects)

/-- The report a head has after a settlement. -/
def Frontier.merge (f g : Frontier Report) : Frontier Report := if f.newer g then g else f

/-- The head after a settlement. -/
def Head.settled (codec : ProviderCodec Report Evidence Failure) (head : Head Report)
    (s : Settlement Report Failure) : Head Report :=
  let merged := head.frontier.merge s.frontier
  { head with
      charged := head.charged + s.charge codec
      reserved := head.reserved - s.claim.amount + s.held codec
      pendingCount := head.pendingCount - 1
      providerEffects := head.providerEffects ++ [s.claim.id]
      reports := merged.reports
      reportEffects := merged.effects
      hasReport := merged.hasReport
      revision := head.revision + 1 }

variable {f g : Frontier Report}

omit [DecidableEq Report] in
/-- What is newer knows of all the effects. -/
theorem Frontier.newer_iff : f.newer g = true ↔ f.effects ⊆ g.effects := by
  unfold newer
  rw [List.all_eq_true]
  simp only [decide_eq_true_eq]
  rfl

omit [DecidableEq Report] in
theorem nodup_of_validateAuthority {authority : AuthoritySnapshot Report}
    (h : validateAuthority codec authority = .ok ()) : authority.providerEffects.Nodup := by
  unfold validateAuthority at h
  simp only [↓bind_unit_eq_ok, bind_eq_ok, uniqueEffects_eq_ok] at h
  obtain ⟨-, -, hids, -⟩ := h
  exact hids.nodup

variable {s : Settlement Report Failure}

omit [DecidableEq Report] in
/-- The claim of a pending effect is reserved, and its effect is counted. -/
theorem Settleable.reserves (hs : journal.Sound codec) (hhd : journal.head = some head)
    (how : Owns codec head lease) (h : Settleable codec journal head lease s) :
    s.claim.amount ≤ head.reserved ∧ head.pendingCount ≠ 0 := by
  obtain ⟨stored, storage, hst, hp, -, -, -, hcl⟩ := h.pending
  rw [← how.generation] at hst
  have hh := (le_total hst Effect.held).trans (hs.solvent.held head hhd)
  have hc := (le_total hst pendingUnit).trans (hs.counted.pending head hhd)
  rw [(pending_of_validateEffect (hs.counted.valid _ _ hst hp) hp).2] at hh
  unfold pendingUnit at hc
  rw [if_pos hp] at hc
  exact ⟨hcl ▸ hh, ne_of_gt hc⟩

/-- **A settleable effect is settled.** -/
theorem settle_of_settleable (hs : journal.Sound codec) (hhd : journal.head = some head)
    (how : Owns codec head lease) (h : Settleable codec journal head lease s)
    (hl : head.frontier.Comparable s.frontier)
    (ht : head.charged + s.charge codec + (head.reserved - s.claim.amount + s.held codec)
      < 2 ^ 64)
    (hrev : head.revision + 1 < 2 ^ 64) :
    ∃ effect, journal.step codec (s.op lease)
      = .ok ⟨some (head.settled codec s),
          journal.effects.insert (toLex (lease.generation, s.claim.id)) effect⟩ := by
  obtain ⟨stored, storage, hst, hpn, hgen, ha, hstor, hcl⟩ := h.pending
  obtain ⟨evidence, hevidence⟩ := h.evidence
  have hv := hs.counted.valid _ _ hst hpn
  obtain ⟨hr, hc⟩ := h.reserves hs hhd how
  have hnd := nodup_of_validateAuthority h.authority
  obtain ⟨effect, hset⟩ : ∃ effect, settle codec s.clock head stored lease s.claim s.outcome
      s.authority = .ok (head.settled codec s, effect) := by
    refine ⟨{ stored with
                state := (settlement codec s.outcome s.claim.amount).2.2
                charged := s.charge codec
                held := s.held codec
                outcome := some evidence
                authority := some s.authority }, ?_⟩
    unfold settle
    simp only [↓bind_unit_eq_ok, bind_eq_ok, require_eq_ok, add_eq_ok,
      List.all_eq_true, Bool.and_eq_true, Bool.or_eq_true, decide_eq_true_eq, Except.ok.injEq,
      Prod.mk.injEq]
    refine ⟨owned_of_owns how h.clock, hv, storage, hstor, ?_, ⟨hc, hr⟩,
      h.authority, ⟨h.hasReport, h.accounted⟩, evidence, hevidence, _, ⟨?_, rfl⟩, _, ⟨?_, rfl⟩, _,
      ⟨ht, rfl⟩, ⟨h.charged, h.reserved⟩, h.admitted, ?_, ?_, _, ⟨hrev, rfl⟩, ?_, ?_⟩
    · rw [hcl]
      exact ⟨⟨⟨⟨⟨⟨⟨⟨⟨⟨rfl, ha⟩, hgen⟩, rfl⟩, rfl⟩, rfl⟩, rfl⟩, rfl⟩, rfl⟩, hpn⟩,
        hcl ▸ h.admitted _ h.accounted⟩
    · exact (le_add_right _ _).trans_lt ht
    · exact (le_add_left _ _).trans_lt ht
    · exact hl.1.imp (fun hsb x hx => hsb hx) fun hsb x hx => hsb hx
    · -- as many effects as the head's, all of them included: the same effects
      by_cases hsm : (head.reportEffects.all fun x => decide (x ∈ s.authority.providerEffects))
          && decide (s.authority.providerEffects.length = head.reportEffects.length)
      · rw [Bool.and_eq_true, decide_eq_true_eq] at hsm
        have hsb := Frontier.newer_iff.mp (show head.frontier.newer s.frontier from hsm.1)
        have hp := (how.valid.reportEffects.nodup.subperm hsb).perm_of_length_le
          (le_of_eq hsm.2)
        exact .inr (hl.2 hsb hp.symm.subset)
      · rw [Bool.not_eq_true] at hsm
        exact .inl (by rw [hsm]; rfl)
    · unfold Head.settled Frontier.merge
      by_cases hn : ∀ x ∈ head.reportEffects, x ∈ s.authority.providerEffects
      · rw [if_pos (Frontier.newer_iff.mpr fun x hx => hn x hx)]
        simp only [if_pos hn]
        rfl
      · rw [if_neg fun h => hn fun x hx => Frontier.newer_iff.mp h hx]
        simp only [if_neg hn]
        rfl
    · rfl
  refine ⟨effect, ?_⟩
  unfold Journal.step Settlement.op
  dsimp only
  rw [Journal.requireHead_eq_ok.mpr hhd]
  dsimp only [bind, Except.bind]
  rw [hst]
  dsimp only
  rw [hset]

/-- **A settlement that does not throw is of the lineage of the head.** -/
theorem subset_of_settle (hhd : journal.head = some head)
    (h : journal.step codec (s.op lease) = .ok journal') :
    head.frontier.effects ⊆ s.frontier.effects ∨ s.frontier.effects ⊆ head.frontier.effects := by
  obtain ⟨head', -, hs⟩ := Journal.step_of_eq_ok h
  unfold Settlement.op at hs
  cases hs with
  | settle hhd' _ hset =>
    cases hhd.symm.trans hhd'
    unfold settle at hset
    simp only [↓bind_unit_eq_ok, bind_eq_ok, require_eq_ok, add_eq_ok, List.all_eq_true,
      Bool.or_eq_true, decide_eq_true_eq] at hset
    obtain ⟨-, -, -, -, -, -, -, -, -, -, -, -, -, -, -, -, -, -, hl, -⟩ := hset
    exact hl

/-! ## All settlements -/

omit [DecidableEq Report] in
theorem Frontier.merge_eq_or (f g : Frontier Report) : f.merge g = f ∨ f.merge g = g := by
  unfold merge
  split
  · exact .inr rfl
  · exact .inl rfl

omit [DecidableEq Report] in
/-- The merged report accounts for the effects of both. -/
theorem Frontier.subset_merge (h : f.Comparable g) :
    f.effects ⊆ (f.merge g).effects ∧ g.effects ⊆ (f.merge g).effects := by
  unfold merge
  split_ifs with hn
  · exact ⟨newer_iff.mp hn, List.Subset.refl _⟩
  · exact ⟨List.Subset.refl _, h.1.resolve_left fun hs => hn (newer_iff.mpr hs)⟩

variable {settlements : List (Settlement Report Failure)}

omit [DecidableEq Report] in
/-- **The other settlements stay pending** when one of them is made. -/
theorem PendingSettlements.next (h : PendingSettlements codec journal head lease (s :: settlements))
    (hamt : s.claim.amount ≤ head.reserved)
    (hs : Journal.Sound codec ⟨some (head.settled codec s),
      journal.effects.insert (toLex (lease.generation, s.claim.id)) effect⟩) :
    PendingSettlements codec ⟨some (head.settled codec s),
        journal.effects.insert (toLex (lease.generation, s.claim.id)) effect⟩
      (head.settled codec s) lease settlements := by
  obtain ⟨hid, hd⟩ := nodup_cons.mp h.distinct
  refine
    { current := rfl
      owns := ⟨hs.consistent.valid _ rfl, h.owns.scope, h.owns.generation, h.owns.actor,
        h.owns.state⟩
      settleable := fun t ht => ?_
      distinct := hd
      lineage := fun t ht u hu =>
        h.lineage t (mem_cons_of_mem s ht) u (mem_cons_of_mem s hu)
      totals := fun settled hset => ?_
      revision := ?_ }
  · have hold := h.settleable t (mem_cons_of_mem s ht)
    have hne : toLex (lease.generation, t.claim.id) ≠ toLex (lease.generation, s.claim.id) := by
      intro hk
      have hsm : t.claim.id = s.claim.id := congrArg Prod.snd (toLex_inj.mp hk)
      exact hid (mem_map.mpr ⟨t, ht, hsm⟩)
    obtain ⟨stored, storage, hst, hr⟩ := hold.pending
    exact { hold with
      pending := ⟨stored, storage, (find?_insert_of_ne _ hne _).trans hst, hr⟩
      admitted := hold.admitted }
  · have htot := h.totals (s :: settled) ((subperm_cons s).mpr hset)
    rw [map_cons, sum_cons] at htot
    unfold Settlement.released at htot ⊢
    unfold Head.settled
    dsimp only
    omega
  · have hrev := h.revision
    rw [length_cons] at hrev
    show head.revision + 1 + settlements.length < 2 ^ 64
    omega

/-- **Settlements of pending effects are all made**, and what they leave of the
head is told by their sums and by the greatest of the reports. -/
theorem settleAll_of_pending (hs : journal.Sound codec)
    (h : PendingSettlements codec journal head lease settlements)
    (hl : ∀ s ∈ settlements, head.frontier.Comparable s.frontier) :
    ∃ journal' head', journal.settleAll codec lease settlements = .ok journal'
      ∧ journal'.head = some head'
      ∧ head'.charged = head.charged + (settlements.map (Settlement.charge codec)).sum
      ∧ (head'.reserved : ℤ)
        = head.reserved + (settlements.map (Settlement.released codec)).sum
      ∧ head'.pendingCount = head.pendingCount - settlements.length
      ∧ head'.frontier ∈ head.frontier :: settlements.map Settlement.frontier
      ∧ ∀ f ∈ head.frontier :: settlements.map Settlement.frontier,
          f.effects ⊆ head'.frontier.effects := by
  induction settlements generalizing journal head with
  | nil =>
    refine ⟨journal, head, rfl, h.current, rfl, (add_zero _).symm, rfl, mem_cons_self, ?_⟩
    intro f hf
    obtain rfl := mem_singleton.mp hf
    exact List.Subset.refl _
  | cons s settlements ih =>
    have hfst := hl s mem_cons_self
    have hsettleable := h.settleable s mem_cons_self
    obtain ⟨hrs, -⟩ := hsettleable.reserves hs h.current h.owns
    have htot : head.charged + s.charge codec
        + (head.reserved - s.claim.amount + s.held codec) < 2 ^ 64 := by
      have htot := h.totals [s] (singleton_subperm_iff.mpr mem_cons_self)
      rw [map_singleton, sum_singleton] at htot
      unfold Settlement.released at htot
      omega
    have hrev : head.revision + 1 < 2 ^ 64 := by
      have hrev := h.revision
      rw [length_cons] at hrev
      omega
    obtain ⟨effect, hst⟩ :=
      settle_of_settleable hs h.current h.owns hsettleable hfst htot hrev
    have hs' := hs.step hst
    have hmg : (head.settled codec s).frontier = head.frontier
        ∨ (head.settled codec s).frontier = s.frontier :=
      Frontier.merge_eq_or head.frontier s.frontier
    have hl' : ∀ t ∈ settlements, (head.settled codec s).frontier.Comparable t.frontier := by
      intro t ht
      obtain heq | heq := hmg
      · rw [heq]
        exact hl t (mem_cons_of_mem s ht)
      · rw [heq]
        exact h.lineage s mem_cons_self t (mem_cons_of_mem s ht)
    obtain ⟨journal', head', hr, hhd', hchg, hrs', hc, hm, hg⟩ :=
      ih hs' (h.next hrs hs') hl'
    obtain ⟨hold, hn⟩ := Frontier.subset_merge hfst
    have hfr := hg _ mem_cons_self
    refine ⟨journal', head', ?_, hhd', ?_, ?_, ?_, ?_, ?_⟩
    · unfold settleAll
      rw [foldlM_cons, hst]
      exact hr
    · rw [hchg, map_cons, sum_cons, ← add_assoc]
      rfl
    · rw [hrs', map_cons, sum_cons, ← add_assoc]
      unfold Head.settled Settlement.released
      dsimp only
      omega
    · rw [hc, length_cons, Nat.add_comm, ← Nat.sub_sub]
      rfl
    · obtain heq | hm := mem_cons.mp hm
      · rw [heq]
        obtain heq | heq := hmg
        · rw [heq]
          exact mem_cons_self
        · rw [heq]
          exact mem_cons_of_mem _ mem_cons_self
      · exact mem_cons_of_mem _ (mem_cons_of_mem _ hm)
    · intro f hf
      obtain rfl | hf := mem_cons.mp hf
      · exact List.Subset.trans hold hfr
      obtain rfl | hf := mem_cons.mp hf
      · exact List.Subset.trans hn hfr
      · exact hg f (mem_cons_of_mem _ hf)

omit [DecidableEq Report] in
/-- Settlements that can be made can be made in any order. -/
theorem PendingSettlements.of_perm {order : List (Settlement Report Failure)}
    (h : PendingSettlements codec journal head lease settlements) (hp : order.Perm settlements) :
    PendingSettlements codec journal head lease order :=
  { current := h.current
    owns := h.owns
    settleable := fun s hs => h.settleable s (hp.mem_iff.mp hs)
    distinct := (hp.map fun s => s.claim.id).nodup_iff.mpr h.distinct
    lineage := fun s hs t ht => h.lineage s (hp.mem_iff.mp hs) t (hp.mem_iff.mp ht)
    totals := fun settled hset => h.totals settled (hset.trans hp.subperm)
    revision := hp.length_eq ▸ h.revision }

/-- **The order of settlements does not matter.** Pending effects of one lease,
whose snapshots form one lineage with the report of the head, are settled in any
order, and every order leaves the same totals, the same number of pending
effects and the same report. -/
theorem settleAll_order_independent (codec : ProviderCodec Report Evidence Failure)
    (ops : List (Op Report Failure)) {journal : Journal Report Evidence}
    (hrc : journal = Journal.empty.run codec ops) {head : Head Report} {lease : Lease}
    {settlements : List (Settlement Report Failure)}
    (h : PendingSettlements codec journal head lease settlements)
    (hl : ∀ s ∈ settlements, head.frontier.Comparable s.frontier) :
    ∃ charged reserved pendingCount reports hasReport, ∃ reportEffects : Set String,
      ∀ order, order.Perm settlements →
        ∃ journal' head', journal.settleAll codec lease order = .ok journal'
          ∧ journal'.head = some head' ∧ head'.charged = charged ∧ head'.reserved = reserved
          ∧ head'.pendingCount = pendingCount ∧ {id | id ∈ head'.reportEffects} = reportEffects
          ∧ head'.reports = reports ∧ head'.hasReport = hasReport := by
  have hs : journal.Sound codec := by
    rw [hrc]
    exact sound_run ops
  have hcomparable : ∀ f ∈ head.frontier :: settlements.map Settlement.frontier,
      ∀ g ∈ head.frontier :: settlements.map Settlement.frontier, f.effects ⊆ g.effects →
        g.effects ⊆ f.effects → f.reports = g.reports ∧ f.hasReport = g.hasReport := by
    intro f hf g hg hfg hgf
    obtain rfl | hf := mem_cons.mp hf
    · obtain rfl | hg := mem_cons.mp hg
      · exact ⟨rfl, rfl⟩
      · obtain ⟨t, ht, rfl⟩ := mem_map.mp hg
        exact (hl t ht).2 hfg hgf
    · obtain ⟨s, hs, rfl⟩ := mem_map.mp hf
      obtain rfl | hg := mem_cons.mp hg
      · obtain ⟨hrp, hfl⟩ := (hl s hs).2 hgf hfg
        exact ⟨hrp.symm, hfl.symm⟩
      · obtain ⟨t, ht, rfl⟩ := mem_map.mp hg
        exact (h.lineage s hs t ht).2 hfg hgf
  obtain ⟨-, first, -, -, hchg, hr, hc, hm, hgr⟩ :=
    settleAll_of_pending hs h hl
  refine ⟨first.charged, first.reserved, first.pendingCount, first.reports, first.hasReport,
    {id | id ∈ first.reportEffects}, fun order hp => ?_⟩
  obtain ⟨journal', head', ha, hhd', hchg', hr', hc', hm', hgr'⟩ :=
    settleAll_of_pending hs (h.of_perm hp) fun s hs => hl s (hp.mem_iff.mp hs)
  -- the reports are among the same ones, and each accounts for all the others
  have hfrontiers : ∀ f, f ∈ head.frontier :: order.map Settlement.frontier ↔
      f ∈ head.frontier :: settlements.map Settlement.frontier := fun f =>
    ((hp.map Settlement.frontier).cons head.frontier).mem_iff
  have hm' := (hfrontiers _).mp hm'
  have hle : head'.frontier.effects ⊆ first.frontier.effects := hgr _ hm'
  have hge : first.frontier.effects ⊆ head'.frontier.effects :=
    hgr' _ ((hfrontiers _).mpr hm)
  obtain ⟨hrp, hfl⟩ := hcomparable _ hm' _ hm hle hge
  refine ⟨journal', head', ha, hhd', ?_, ?_, ?_, ?_, hrp, hfl⟩
  · rw [hchg, hchg', (hp.map _).sum_eq]
  · have hsm : (head'.reserved : ℤ) = first.reserved := by
      rw [hr, hr', (hp.map _).sum_eq]
    exact Int.ofNat.inj hsm
  · rw [hc, hc', hp.length_eq]
  · ext id
    exact ⟨fun hid => hle hid, fun hid => hge hid⟩

/-! ## A bank with a settled effect

An actor settles the effect `a`, whose report accounts for `a` alone, and begins
`b` and `c`. -/

theorem length_demoDigest : (replicate 32 (1 : UInt8)).length = 32 := by decide

/-- A settlement of a failed call, at the beginning `beginRevision` of which the
claim was made. -/
def demoSettlement (id : String) (beginRevision : ℕ) (effects : List String) :
    Settlement Unit Unit where
  clock := ⟨.ok "", 0⟩
  claim := { storage := "t", actor := demoLease.actor, generation := demoLease.generation, id,
             amount := 10, digest := sha256Identity ⟨replicate 32 1, length_demoDigest⟩,
             beginRevision }
  outcome := .failure ()
  authority := { charged := 0, reserved := 0, providerEffects := effects, reports := (),
                 hasReport := true }

/-- The admission of an effect of the actor. -/
def demoBegin (id : String) : Op Unit Unit :=
  .begin ⟨.ok "", 0⟩ demoLease id 10 (sha256Identity ⟨replicate 32 1, length_demoDigest⟩)

def lineageOps : List (Op Unit Unit) :=
  abandonedOps.take 1
    ++ [demoBegin "a", (demoSettlement "a" 2 ["a"]).op demoLease, demoBegin "b", demoBegin "c"]

/-- **What `lineageOps` leaves**: the head, and the pending records of `b` and `c`. -/
def LineageRecorded (journal : Journal Unit Unit) : Prop :=
  journal.head.any (fun head =>
      head.scope = demoScope ∧ head.bankGeneration = demoLease.generation
        ∧ head.actor = demoLease.actor ∧ head.state = .owned ∧ head.charged = 0
        ∧ head.reserved = 20 ∧ head.revision = 5 ∧ head.effectDedup = {"a", "b", "c"}
        ∧ head.reportEffects = ["a"] ∧ head.hasReport = true) = true
    ∧ ∀ p ∈ [("b", 4), ("c", 5)],
      (journal.effects.find? (toLex (demoLease.generation, p.1))).any (fun stored =>
        stored.state = .pending ∧ stored.bankGeneration = demoLease.generation
          ∧ stored.actor = demoLease.actor ∧ stored.effectId = p.1 ∧ stored.claimAmount = 10
          ∧ stored.requestDigest = (demoSettlement p.1 p.2 []).claim.digest
          ∧ stored.beginRevision = p.2) = true

instance (journal : Journal Unit Unit) : Decidable (LineageRecorded journal) :=
  inferInstanceAs (Decidable (_ ∧ _))

variable {beginRevision : ℕ}

/-- The settlement of an effect of the actor that is recorded as pending, with a
snapshot of admitted effects. -/
theorem settleable_demoSettlement {journal : Journal Unit Unit} {head : Head Unit}
    {effects : List String} {stored : Effect Unit Unit}
    (hstr : journal.effects.find? (toLex (demoLease.generation, id)) = some stored)
    (hst : stored.state = .pending) (hgen : stored.bankGeneration = demoLease.generation)
    (ha : stored.actor = demoLease.actor)
    (hcl : (demoSettlement id beginRevision effects).claim = stored.receipt "t")
    (haccounted : id ∈ effects) (hadm : ∀ id ∈ effects, id ∈ head.effectDedup)
    (hids : EffectIds effects) :
    Settleable unitCodec journal head demoLease (demoSettlement id beginRevision effects) where
  clock := rfl
  pending := ⟨stored, "t", hstr, hst, hgen, ha, rfl, hcl⟩
  authority := by
    unfold validateAuthority
    simp only [↓bind_unit_eq_ok, bind_eq_ok, require_eq_ok, add_eq_ok, uniqueEffects_eq_ok]
    exact ⟨0, ⟨show 0 + 0 < 2 ^ 64 by decide, rfl⟩, hids, rfl⟩
  hasReport := rfl
  accounted := haccounted
  admitted := hadm
  charged := le_rfl
  reserved := le_rfl
  evidence := ⟨(), rfl⟩

theorem recorded_lineageOps : LineageRecorded (Journal.empty.run unitCodec lineageOps) := by
  have hk : ∀ {id id' : String}, id ≠ id' →
      toLex (demoLease.generation, id) ≠ toLex (demoLease.generation, id') :=
    fun hne h => hne (congrArg Prod.snd (toLex_inj.mp h))
  have hba := hk (show "b" ≠ "a" by decide)
  have hca := hk (show "c" ≠ "a" by decide)
  have hcb := hk (show "c" ≠ "b" by decide)
  -- `a` is admitted and settled
  have ha := run_begin run_acquire (owns_run (by rw [run_acquire]) rfl rfl rfl rfl)
    (show "a" ≠ "" by decide) (show 10 ≠ 0 by decide) rfl (Finset.notMem_empty _)
    (by decide) (by decide) (by decide)
  have hsettleable : Settleable unitCodec (Journal.empty.run unitCodec (abandonedOps.take 1
      ++ [demoBegin "a"])) (demoHead.enter "a" 10) demoLease (demoSettlement "a" 2 ["a"]) := by
    refine settleable_demoSettlement ((congrArg (fun j : Journal Unit Unit => j.effects.find? _)
      ha).trans (find?_insert_self _ _ _)) rfl rfl rfl rfl (by decide) (by decide)
      ⟨by decide, by decide⟩
  obtain ⟨settled, hs⟩ := settle_of_settleable (sound_run _)
    (congrArg head ha) (owns_run (congrArg head ha) rfl rfl rfl rfl) hsettleable
    ⟨.inl (nil_subset _), fun _ h => absurd (h (mem_singleton_self _)) (by decide)⟩
    (by decide) (by decide)
  have hs : Journal.empty.run unitCodec (abandonedOps.take 1 ++ [demoBegin "a"]
        ++ [(demoSettlement "a" 2 ["a"]).op demoLease])
      = ⟨some ((demoHead.enter "a" 10).settled unitCodec (demoSettlement "a" 2 ["a"])),
          (insert ∅ (toLex (demoLease.generation, "a")) (demoLease.pendingEffect "a" 10
            (sha256Identity ⟨replicate 32 1, length_demoDigest⟩) 2)).insert
              (toLex (demoLease.generation, "a")) settled⟩ :=
    (runOps_concat hs).trans (by rw [ha]; rfl)
  -- then `b` and `c` are admitted
  have hb := run_begin hs (owns_run (congrArg head hs) rfl rfl rfl rfl)
    (show "b" ≠ "" by decide) (show 10 ≠ 0 by decide)
    (by rw [find?_insert_of_ne _ hba, find?_insert_of_ne _ hba]; rfl)
    (by decide) (by decide) (by decide) (by decide)
  have hc := run_begin hb (owns_run (congrArg head hb) rfl rfl rfl rfl)
    (show "c" ≠ "" by decide) (show 10 ≠ 0 by decide)
    (by
      rw [find?_insert_of_ne _ hcb, find?_insert_of_ne _ hca, find?_insert_of_ne _ hca]
      rfl)
    (by decide) (by decide) (by decide) (by decide)
  have hr : Journal.empty.run unitCodec lineageOps = _ := hc
  rw [hr]
  refine ⟨?_, fun p hp => ?_⟩
  · rw [any_some, decide_eq_true_eq]
    exact ⟨rfl, rfl, rfl, rfl, rfl, rfl, rfl, by decide, rfl, rfl⟩
  simp only [mem_cons, not_mem_nil, or_false] at hp
  obtain rfl | rfl := hp
  · rw [find?_insert_of_ne _ hcb.symm, find?_insert_self, any_some, decide_eq_true_eq]
    exact ⟨rfl, rfl, rfl, rfl, rfl, rfl, rfl⟩
  · rw [find?_insert_self, any_some, decide_eq_true_eq]
    exact ⟨rfl, rfl, rfl, rfl, rfl, rfl, rfl⟩

/-- The settlements of `b` and `c` with snapshots of admitted effects. -/
theorem settleable_lineageOps {head : Head Unit} (hd : head.effectDedup = {"a", "b", "c"})
    (hid : (id, beginRevision) ∈ [("b", 4), ("c", 5)]) {effects : List String}
    (hef : id ∈ effects ∧ (∀ id ∈ effects, id = "a" ∨ id = "b" ∨ id = "c") ∧ effects.Nodup) :
    Settleable unitCodec (Journal.empty.run unitCodec lineageOps) head demoLease
      (demoSettlement id beginRevision effects) := by
  obtain ⟨haccounted, hadm, hnd⟩ := hef
  obtain ⟨stored, hstr, hf⟩ := (any_eq_true _ _).mp (recorded_lineageOps.2 _ hid)
  rw [decide_eq_true_eq] at hf
  obtain ⟨hst, hgen, ha, heff, hamt, hdg, hrev⟩ := hf
  refine settleable_demoSettlement hstr hst hgen ha ?_ haccounted
    (fun id' hid' => ?_) ⟨hnd, fun he => by simpa using hadm "" he⟩
  · unfold receipt
    rw [hgen, ha, heff, hamt, hdg, hrev]
    rfl
  · rw [hd]
    simpa using hadm id' hid'

/-- The head after `lineageOps`, with its owner. -/
theorem owns_lineageOps :
    ∃ head, (Journal.empty.run unitCodec lineageOps).head = some head
      ∧ Owns unitCodec head demoLease ∧ head.charged = 0 ∧ head.reserved = 20
      ∧ head.revision = 5 ∧ head.effectDedup = {"a", "b", "c"}
      ∧ head.frontier = ⟨["a"], (), true⟩ := by
  obtain ⟨head, hhd, hf⟩ := (any_eq_true _ _).mp recorded_lineageOps.1
  rw [decide_eq_true_eq] at hf
  obtain ⟨hsc, hgen, ha, hst, hc, hr, hrev, hd, heff,
    hfl⟩ := hf
  refine ⟨head, hhd, ⟨(consistent_run lineageOps).valid head hhd, ?_, hgen,
    ha, hst⟩, hc, hr, hrev, hd, ?_⟩
  · rw [hsc]
    rfl
  · unfold Head.frontier
    rw [heff, hfl]

/-- Settlements of failed calls give their whole claims back. -/
theorem totals_demoSettlement {settlements settled : List (Settlement Unit Unit)}
    (h : ∀ s ∈ settlements, ∃ id beginRevision effects,
      s = demoSettlement id beginRevision effects) (hset : settled.Subperm settlements) :
    (settled.map fun s => (s.charge unitCodec : ℤ) + s.released unitCodec).sum ≤ 0 := by
  have hterms : ∀ s ∈ settled, (s.charge unitCodec : ℤ) + s.released unitCodec = -10 := by
    intro s hs
    obtain ⟨id, beginRevision, effects, rfl⟩ := h s (hset.subset hs)
    rfl
  rw [map_congr_left hterms, map_const', sum_replicate, Int.nsmul_eq_mul]
  omega

/-- Settlements of `b` and `c` are pending. -/
theorem pending_lineageOps {settlements : List (Settlement Unit Unit)}
    (hform : ∀ s ∈ settlements, ∃ id beginRevision effects,
      s = demoSettlement id beginRevision effects ∧ (id, beginRevision) ∈ [("b", 4), ("c", 5)]
        ∧ id ∈ effects ∧ (∀ id ∈ effects, id = "a" ∨ id = "b" ∨ id = "c") ∧ effects.Nodup)
    (hd : (settlements.map fun s => s.claim.id).Nodup)
    (hlin : ∀ s ∈ settlements, ∀ t ∈ settlements, s.frontier.Comparable t.frontier)
    (hl : settlements.length ≤ 2) :
    ∃ head, PendingSettlements unitCodec (Journal.empty.run unitCodec lineageOps) head demoLease
        settlements ∧ head.frontier = ⟨["a"], (), true⟩ := by
  obtain ⟨head, hhd, how, hc, hr, hrev, hdd, hfr⟩ := owns_lineageOps
  refine ⟨head,
    { current := hhd
      owns := how
      settleable := fun s hs => ?_
      distinct := hd
      lineage := hlin
      totals := fun settled hset => ?_
      revision := by omega }, hfr⟩
  · obtain ⟨id, beginRevision, effects, rfl, hid, heff⟩ := hform s hs
    exact settleable_lineageOps hdd hid heff
  · have hsm := totals_demoSettlement (fun s hs => by
      obtain ⟨id, beginRevision, effects, heq, -⟩ := hform s hs
      exact ⟨id, beginRevision, effects, heq⟩) hset
    rw [hc, hr]
    omega

/-- **A snapshot of another lineage is refused.** The snapshot of `b` accounts for
`b` alone, the report of the head for `a` alone; all that is asked of the
settlement and its snapshot holds, and yet the settlement throws. -/
theorem settleAll_other_lineage :
    ∃ head, PendingSettlements unitCodec (Journal.empty.run unitCodec lineageOps) head demoLease
        [demoSettlement "b" 4 ["b"]]
      ∧ ∀ journal', (Journal.empty.run unitCodec lineageOps).settleAll unitCodec demoLease
          [demoSettlement "b" 4 ["b"]] ≠ .ok journal' := by
  have hp := @pending_lineageOps [demoSettlement "b" 4 ["b"]]
    (fun s hs =>
      ⟨"b", 4, ["b"], mem_singleton.mp hs, by decide, by decide, by decide, by decide⟩)
    (nodup_singleton _)
    (fun s hs t ht => by
      rw [mem_singleton.mp hs, mem_singleton.mp ht]
      exact ⟨.inl (List.Subset.refl _), fun _ _ => ⟨rfl, rfl⟩⟩)
    (by decide)
  obtain ⟨head, hp, hfr⟩ := hp
  refine ⟨head, hp, fun journal' h => ?_⟩
  unfold settleAll at h
  simp only [foldlM_cons, foldlM_nil, bind_eq_ok] at h
  obtain ⟨settled, hst, -⟩ := h
  have hl := subset_of_settle hp.current hst
  rw [hfr] at hl
  exact absurd hl (by decide)

/-- The snapshots of `b` and `c` continue the report of the head. -/
theorem settleAll_order_independent_lineage :
    ∃ charged reserved pendingCount, ∃ reportEffects : Set String,
      ∀ order, order.Perm [demoSettlement "b" 4 ["a", "b"], demoSettlement "c" 5 ["a", "b", "c"]] →
        ∃ journal' head',
          (Journal.empty.run unitCodec lineageOps).settleAll unitCodec demoLease order
            = .ok journal' ∧ journal'.head = some head' ∧ head'.charged = charged
          ∧ head'.reserved = reserved ∧ head'.pendingCount = pendingCount
          ∧ {id | id ∈ head'.reportEffects} = reportEffects := by
  have hl : ∀ {l l' : List String}, l ⊆ l' ∨ l' ⊆ l →
      Frontier.Comparable ⟨l, (), true⟩ ⟨l', (), true⟩ := fun h => ⟨h, fun _ _ => ⟨rfl, rfl⟩⟩
  obtain ⟨head, hpn, hfr⟩ := @pending_lineageOps
    [demoSettlement "b" 4 ["a", "b"], demoSettlement "c" 5 ["a", "b", "c"]]
    (fun s hs => by
      obtain rfl | hs := mem_cons.mp hs
      · exact ⟨"b", 4, ["a", "b"], rfl, by decide, by decide, by decide, by decide⟩
      · exact ⟨"c", 5, ["a", "b", "c"], mem_singleton.mp hs, by decide, by decide, by decide,
          by decide⟩)
    (by decide)
    (fun s hs t ht => by
      obtain rfl | hs := mem_cons.mp hs
      · obtain rfl | ht := mem_cons.mp ht
        · exact hl (.inl (List.Subset.refl _))
        · rw [mem_singleton.mp ht]
          exact hl (.inl (by decide))
      · rw [mem_singleton.mp hs]
        obtain rfl | ht := mem_cons.mp ht
        · exact hl (.inr (by decide))
        · rw [mem_singleton.mp ht]
          exact hl (.inl (List.Subset.refl _)))
    (by decide)
  have hf : ∀ s ∈ [demoSettlement "b" 4 ["a", "b"], demoSettlement "c" 5 ["a", "b", "c"]],
      head.frontier.Comparable s.frontier := by
    intro s hs
    rw [hfr]
    obtain rfl | hs := mem_cons.mp hs
    · exact hl (.inl (by decide))
    · rw [mem_singleton.mp hs]
      exact hl (.inl (by decide))
  obtain ⟨charged, reserved, pendingCount, reports, hasReport, reportEffects, h⟩ :=
    settleAll_order_independent unitCodec lineageOps rfl hpn hf
  refine ⟨charged, reserved, pendingCount, reportEffects, fun order hp => ?_⟩
  obtain ⟨journal', head', ha, hhd', hchg, hr, hc, heff, -, -⟩ :=
    h order hp
  exact ⟨journal', head', ha, hhd', hchg, hr, hc, heff⟩

end NeoGraph.Budget
