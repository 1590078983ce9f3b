import NeoGraph.Budget.Ownership

/-!
# Solvency of the managed budget

The totals of a head cover its effect records: what is reserved is at
least the sum of what the records hold, what is charged at least the sum
of what they charge. `begin` raises both sides by the same amount, and
`settle` replaces the hold of its own record; a publication may only raise
the totals. So the cover is an invariant (`Journal.Step.solvent`), whatever
snapshots the settlements come with and in whatever order they arrive.

The ceiling is checked when an effect is admitted, and the tombstones of
the head make every identity admissible once (`claims_nodup`).
-/

namespace NeoGraph.Budget

open Effect Journal

variable {Report Evidence Failure : Type} [DecidableEq Report]
  {codec : ProviderCodec Report Evidence Failure}

/-! ## Totals of the effect records -/

/-- The sum of a measure over the records of a generation. -/
def total (effects : SortedMap (String ×ₗ String) (Effect Report Evidence))
    (measure : Effect Report Evidence → ℕ) (generation : String) : ℕ :=
  effects.sumBy fun key effect =>
    if (ofLex key).1 = generation then measure effect else 0

omit [DecidableEq Report] in
/-- A new record replaces the contribution of the old one under its
identity. -/
theorem total_insert (effects : SortedMap (String ×ₗ String) (Effect Report Evidence))
    (measure : Effect Report Evidence → ℕ) (generation id : String)
    (effect : Effect Report Evidence) :
    total (effects.insert (toLex (generation, id)) effect) measure generation
        + (effects.find? (toLex (generation, id))).elim 0 measure
      = total effects measure generation + measure effect := by
  have hsm := effects.sumBy_insert (toLex (generation, id)) effect
    fun key effect => if (ofLex key).1 = generation then measure effect else 0
  simp only [ofLex_toLex, if_true] at hsm
  exact hsm

/-- **The totals of the head cover its records.** Without a head there are
no records. -/
structure Journal.Solvent (journal : Journal Report Evidence) : Prop where
  unopened : journal.head = none → journal.effects = ∅
  held : ∀ head, journal.head = some head →
    total journal.effects held head.bankGeneration ≤ head.reserved
  charged : ∀ head, journal.head = some head →
    total journal.effects charged head.bankGeneration ≤ head.charged

omit [DecidableEq Report] in
theorem Journal.solvent_empty : (Journal.empty : Journal Report Evidence).Solvent := by
  refine ⟨fun _ => rfl, fun head h => ?_, fun head h => ?_⟩ <;> cases h

variable {head head' : Head Report} {journal : Journal Report Evidence}

omit [DecidableEq Report] in
/-- A new head over the same records is solvent when its totals are not
smaller. -/
theorem Journal.Solvent.of_head (hs : journal.Solvent) (hhd : journal.head = some head)
    (hgen : head'.bankGeneration = head.bankGeneration) (hr : head.reserved ≤ head'.reserved)
    (hc : head.charged ≤ head'.charged) : Solvent { journal with head := some head' } := by
  refine ⟨fun h => ?_, fun _ h => ?_, fun _ h => ?_⟩
  · cases h
  · cases h
    rw [hgen]
    exact (hs.held head hhd).trans hr
  · cases h
    rw [hgen]
    exact (hs.charged head hhd).trans hc

variable {effect : Effect Report Evidence}

omit [DecidableEq Report] in
/-- A new head with a new record of its own generation is solvent when its
totals follow what the record adds and removes. -/
theorem Journal.Solvent.of_record {id : String} (hs : journal.Solvent)
    (hhd : journal.head = some head) (hgen : head'.bankGeneration = head.bankGeneration)
    (hh : head.reserved + effect.held ≤ head'.reserved
      + (journal.effects.find? (toLex (head.bankGeneration, id))).elim 0 Effect.held)
    (hc : head.charged + effect.charged ≤ head'.charged
      + (journal.effects.find? (toLex (head.bankGeneration, id))).elim 0 Effect.charged) :
    Solvent ⟨some head', journal.effects.insert (toLex (head.bankGeneration, id)) effect⟩ := by
  have hsm := fun measure =>
    total_insert journal.effects measure head.bankGeneration id effect
  refine ⟨fun h => ?_, fun _ h => ?_, fun _ h => ?_⟩
  · cases h
  · cases h
    have := hs.held head hhd
    have := hsm Effect.held
    rw [hgen]
    dsimp only
    omega
  · cases h
    have := hs.charged head hhd
    have := hsm Effect.charged
    rw [hgen]
    dsimp only
    omega

variable {op : Op Report Failure} {journal' : Journal Report Evidence}

/-- **Every operation keeps the journal solvent.** -/
theorem Journal.Step.solvent (hs : journal.Solvent)
    (h : Step codec journal op head' journal') : journal'.Solvent := by
  cases h with
  | acquire h =>
    obtain ⟨-, -, -, ⟨hn, -, -, heq⟩ | ⟨old, hold, -, -, heq⟩⟩ := acquireBranch_spec h
    · have he := hs.unopened hn
      refine ⟨fun h => (by cases h), fun _ h => ?_, fun _ h => ?_⟩
      all_goals
        cases h
        rw [he]
        exact Nat.zero_le _
    · exact hs.of_head hold (by rw [heq]) (by rw [heq]) (by rw [heq])
  | selectBranch hhd h =>
    obtain ⟨-, -, -, -, -, rfl⟩ := selectBranchHead_spec h
    exact hs.of_head hhd rfl le_rfl le_rfl
  | @begin clock lease id amount digest head _ effect receipt hhd h =>
    obtain ⟨how, -, hn, -, -, heq, heff⟩ := begin_spec h
    rw [← how.generation] at hn ⊢
    refine hs.of_record hhd (by rw [heq]) ?_ ?_
    all_goals
      rw [hn, heq, heff]
      exact le_rfl
  | @settle clock lease claim outcome authority head _ stored effect hhd hst h =>
    obtain ⟨charged, held, state, evidence, newerReport, how, -, hstoredCharged, hstoredHeld, -,
      -, hamt, -, -, -, -, -, -, heq, heff⟩ := settle_spec h
    rw [← how.generation] at hst ⊢
    refine hs.of_record hhd (by rw [heq]) ?_ ?_
    · -- the record held exactly the claimed amount, which leaves the reservation too
      rw [hst, heq, heff]
      simp only [Option.elim_some, hstoredHeld]
      omega
    · rw [hst, heq, heff]
      simp only [Option.elim_some, hstoredCharged]
      omega
  | publish hhd h =>
    obtain ⟨charged, reserved, digest, -, -, -, -, hc, hr, rfl⟩ := publish_spec h
    exact hs.of_head hhd rfl hr hc
  | release hhd h =>
    obtain ⟨-, rfl⟩ := release_spec h
    exact hs.of_head hhd rfl le_rfl le_rfl

/-! ## What a head never gives back -/

omit [DecidableEq Report] in
theorem Head.Before.refl (head : Head Report) : head.Before head :=
  ⟨rfl, subset_rfl, le_rfl⟩

/-- Along a run a head is never replaced by an earlier one. -/
theorem Journal.before_run (ops : List (Op Report Failure)) (hhd : journal.head = some head)
    (hhd' : (journal.run codec ops).head = some head') : head.Before head' := by
  have hr : ∃ later, (journal.run codec ops).head = some later ∧ head.Before later := by
    refine runOps_invariant
      (P := fun j : Journal Report Evidence => ∃ later, j.head = some later ∧ head.Before later)
      ?_ ⟨head, hhd, .refl head⟩ ops
    rintro j op j' ⟨later, hlt, hb⟩ h
    obtain ⟨latest, hlatest, hs⟩ := step_of_eq_ok h
    have hnx := (hs.headChange hlt).before
    exact ⟨latest, hlatest, hnx.generation.trans hb.generation,
      hb.tombstones.trans hnx.tombstones, hb.charged.trans hnx.charged⟩
  obtain ⟨later, hlt, hb⟩ := hr
  cases hlt.symm.trans hhd'
  exact hb

/-- The identities a journal will not admit again. -/
def Journal.burned (journal : Journal Report Evidence) : Set (String × String) :=
  {key | ∃ head, journal.head = some head ∧ head.bankGeneration = key.1
    ∧ key.2 ∈ head.effectDedup}

/-- The identity an operation asks to admit. -/
def Op.admission? : Op Report Failure → Option (String × String)
  | .begin _ lease id _ _ => some (lease.generation, id)
  | _ => none

/-- **The identities admitted along a run**, by generation. -/
def Journal.admissions (codec : ProviderCodec Report Evidence Failure)
    (journal : Journal Report Evidence) (ops : List (Op Report Failure)) : List (String × String) :=
  (succeeded (step codec) journal ops).filterMap fun p => p.2.admission?

/-- An identity is admitted at most once per generation. -/
theorem Journal.admissions_nodup (journal : Journal Report Evidence)
    (ops : List (Op Report Failure)) : (journal.admissions codec ops).Nodup := by
  refine (claims_nodup (B := burned) ?_ ?_ journal ops).1
  · rintro j op j' h key ⟨head, hhd, hgen, hid⟩
    obtain ⟨head', hhd', hs⟩ := step_of_eq_ok h
    have hb := (hs.headChange hhd).before
    exact ⟨head', hhd', hb.generation.trans hgen, hb.tombstones hid⟩
  · intro j op j' key h hk
    obtain ⟨head', hhd', hs⟩ := step_of_eq_ok h
    cases hs with
    | begin hhd hbeg =>
      cases hk
      obtain ⟨how, -, -, hfr, -, rfl, -⟩ := begin_spec hbeg
      constructor
      · rintro ⟨head, hhd₀, -, hid⟩
        cases hhd₀.symm.trans hhd
        exact hfr hid
      · exact ⟨_, rfl, how.generation, Finset.mem_insert_self _ _⟩
    | acquire h | selectBranch hhd h | settle hhd hst h | publish hhd h
    | release hhd h => cases hk

/-! ## Solvency -/

/-- The operation settles the effect of a generation and an identity. -/
def Op.Settles (generation id : String) : Op Report Failure → Prop
  | .settle _ lease claim _ _ => lease.generation = generation ∧ claim.id = id
  | _ => False

/-- A record stays, and its hold is reduced only by its own settlement. -/
theorem Journal.Step.effect_kept {generation id : String} (h : Step codec journal op head' journal')
    (heff : journal.effects.find? (toLex (generation, id)) = some effect) :
    ∃ effect', journal'.effects.find? (toLex (generation, id)) = some effect'
      ∧ (effect'.held < effect.held → op.Settles generation id) := by
  cases h with
  | acquire h | selectBranch hhd h | publish hhd h | release hhd h =>
    exact ⟨effect, heff, fun hlt => absurd hlt (lt_irrefl _)⟩
  | @begin clock lease id' amount digest head _ effect' receipt hhd h =>
    obtain ⟨-, -, hn, -⟩ := begin_spec h
    have hne : toLex (generation, id) ≠ toLex (lease.generation, id') := by
      intro hk
      rw [← hk, heff] at hn
      cases hn
    refine ⟨effect, ?_, fun hlt => absurd hlt (lt_irrefl _)⟩
    exact (SortedMap.find?_insert_of_ne _ hne _).trans heff
  | @settle clock lease claim outcome authority head _ stored effect' hhd hst h =>
    by_cases hk : toLex (generation, id) = toLex (lease.generation, claim.id)
    · have hp := toLex_inj.mp hk
      refine ⟨effect', ?_, fun _ => ?_⟩
      · rw [hk]
        exact SortedMap.find?_insert_self _ _ _
      · exact ⟨(congrArg Prod.fst hp).symm, (congrArg Prod.snd hp).symm⟩
    · refine ⟨effect, ?_, fun hlt => absurd hlt (lt_irrefl _)⟩
      exact (SortedMap.find?_insert_of_ne _ hk _).trans heff

/-- **The managed budget is solvent.** In every reachable journal the
reserved and charged totals of the head cover the records of its
generation; after every admission the totals fit under the original
ceiling; no identity is admitted twice in a generation; the charge never
decreases; and the hold of a record is reduced only by the settlement of
the same effect. -/
theorem journal_solvency (codec : ProviderCodec Report Evidence Failure)
    (ops : List (Op Report Failure)) (journal : Journal Report Evidence)
    (hr : journal = Journal.empty.run codec ops) :
    (∀ head, journal.head = some head →
        total journal.effects held head.bankGeneration ≤ head.reserved
          ∧ total journal.effects charged head.bankGeneration ≤ head.charged)
    ∧ (∀ clock lease id amount digest journal',
        journal.step codec (.begin clock lease id amount digest) = .ok journal' →
        ∃ head', journal'.head = some head'
          ∧ head'.charged + head'.reserved ≤ head'.scope.originalCeiling.toNat)
    ∧ (Journal.empty.admissions codec ops).Nodup
    ∧ (∀ head, journal.head = some head → ∀ ops' head',
        (journal.run codec ops').head = some head' → head.charged ≤ head'.charged)
    ∧ (∀ op journal' generation id effect, journal.step codec op = .ok journal' →
        journal.effects.find? (toLex (generation, id)) = some effect →
        ∃ effect', journal'.effects.find? (toLex (generation, id)) = some effect'
          ∧ (effect'.held < effect.held → op.Settles generation id)) := by
  have hs : journal.Solvent := by
    rw [hr]
    refine runOps_invariant (fun j op j' hj h => ?_) solvent_empty ops
    obtain ⟨head', -, hst⟩ := step_of_eq_ok h
    exact hst.solvent hj
  refine ⟨fun head hhd => ⟨hs.held head hhd, hs.charged head hhd⟩, ?_,
    admissions_nodup _ ops,
    fun head hhd ops' head' hhd' => (before_run ops' hhd hhd').charged, ?_⟩
  · intro clock lease id amount digest journal' h
    obtain ⟨head', hhd', hst⟩ := step_of_eq_ok h
    cases hst with
    | begin hhd hbeg =>
      obtain ⟨-, -, -, -, hc, rfl, -⟩ := begin_spec hbeg
      exact ⟨_, rfl, hc⟩
  · intro op journal' generation id effect h heff
    obtain ⟨head', -, hst⟩ := step_of_eq_ok h
    exact hst.effect_kept heff

theorem journal_solvency_abandoned :
    ∃ head, (Journal.empty.run unitCodec abandonedOps).head = some head ∧ head.reserved = 60
      ∧ total (Journal.empty.run unitCodec abandonedOps).effects held
          head.bankGeneration ≤ head.reserved
      ∧ (Journal.empty.admissions unitCodec abandonedOps).Nodup := by
  obtain ⟨head, hhd, hst⟩ := Option.map_eq_some_iff.mp head_abandonedOps
  obtain ⟨hcov, -, hnd, -⟩ := journal_solvency unitCodec abandonedOps _ rfl
  exact ⟨head, hhd, congrArg Prod.snd hst, (hcov head hhd).1, hnd⟩

end NeoGraph.Budget
