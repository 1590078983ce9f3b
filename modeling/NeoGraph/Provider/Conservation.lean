import NeoGraph.Provider.Authority

/-!
# Token authority is conserved

The tokens set aside are exactly those the ledger says are outstanding, and
the tokens charged are those it says were charged, as long as no total
reaches the largest number (`World.authority_conserved`). That rests on what
holds of the claims: each holds a grant of its own (`World.Conserved`).

The totals of the source stop at the largest number instead of overflowing.
Once one has, tokens are lost from the count, so this is a hypothesis on the
run and not a part of the invariant.
-/

namespace NeoGraph.Provider

open Option ProviderBudgetClaim Bool Ledger UsageAccumulator Nat SortedMap

/-! ## The ledger -/

namespace Ledger

variable {ledger : Ledger} {number : ℕ} {g : Grant}

/-- A grant that is resolved no longer sets anything aside. -/
theorem resolve_spec (h : ledger.grants.find? number = some g) (ho : g.status = .outstanding)
    {status : GrantStatus} (hs : status ≠ .outstanding) :
    (ledger.resolve number status).reserved + g.amount = ledger.reserved
      ∧ (ledger.resolve number status).charged
        = ledger.charged + chargeOf { g with status := status } := by
  unfold resolve reserved charged
  rw [h]
  have hh := ledger.grants.sumBy_insert number { g with status := status } fun _ => held
  have hc := ledger.grants.sumBy_insert number { g with status := status } fun _ => chargeOf
  rw [h, elim_some] at hh hc
  unfold held at hh
  rw [if_pos ho, if_neg hs] at hh
  have hn : chargeOf g = 0 := by
    unfold chargeOf
    rw [ho]
  rw [hn] at hc
  dsimp only
  unfold held
  constructor <;> omega

/-- Resolving a grant leaves the others. -/
theorem find?_resolve (h : ledger.grants.find? number = some g) (status : GrantStatus) (n : ℕ) :
    (ledger.resolve number status).grants.find? n
      = if n = number then some { g with status := status } else ledger.grants.find? n := by
  unfold resolve
  rw [h]
  exact ledger.grants.find?_insert number n _

theorem next_resolve (number : ℕ) (status : GrantStatus) :
    (ledger.resolve number status).next = ledger.next := by
  unfold resolve
  split <;> rfl

/-- A new grant sets its amount aside. -/
theorem grant_spec (h : ledger.grants.find? ledger.next = none) (amount ceiling : ℕ) :
    (ledger.grant amount ceiling).reserved = ledger.reserved + amount
      ∧ (ledger.grant amount ceiling).charged = ledger.charged := by
  unfold grant reserved charged
  have hh := ledger.grants.sumBy_insert ledger.next { amount := amount, ceiling := ceiling }
    fun _ => held
  have hc := ledger.grants.sumBy_insert ledger.next { amount := amount, ceiling := ceiling }
    fun _ => chargeOf
  rw [h, elim_none] at hh hc
  have hnew : held { amount := amount, ceiling := ceiling } = amount := rfl
  have hn : chargeOf { amount := amount, ceiling := ceiling } = 0 := rfl
  rw [hnew] at hh
  rw [hn] at hc
  constructor
  · dsimp only
    omega
  · dsimp only
    omega

end Ledger

namespace World

variable {w w' : World} {op : Operation} {out : Except Exn ℕ}

/-! ## What holds of every state -/

/-- No total reaches the largest number. -/
def WithinRange (w : World) : Prop := w.ledger.charged < 2 ^ 64 ∧ w.ledger.reserved < 2 ^ 64

/-- A claim holds an outstanding grant of its amount. -/
def Holds (w : World) (c : ProviderBudgetClaim) : Prop :=
  ∃ g, w.ledger.grants.find? c.grant = some g ∧ g.amount = c.amount ∧ g.status = .outstanding

/-- **What holds of every state.** Every claim that is neither settled nor
moved away holds its grant, except one at an address that is being
changed. -/
structure Conserved (except : Option ℕ) (w : World) : Prop where
  reserved : w.bank.reserved = w.ledger.reserved
  charged : w.bank.charged = w.ledger.charged
  fresh : ∀ n g, w.ledger.grants.find? n = some g → n < w.ledger.next
  known : ∀ a c, w.claims.find? a = some c → c.active = true → c.grant < w.ledger.next
  unique : ∀ a a' c c', w.claims.find? a = some c → w.claims.find? a' = some c' →
    c.active = true → c'.active = true → c.grant = c'.grant → a = a'
  holds : ∀ a c, some a ≠ except → w.claims.find? a = some c → c.active = true →
    c.settled = false → w.Holds c

namespace Conserved

variable {except : Option ℕ}

theorem weaken (h : w.Conserved none) (except : Option ℕ) : w.Conserved except :=
  ⟨h.reserved, h.charged, h.fresh, h.known, h.unique,
    fun a c _ => h.holds a c (some_ne_none a)⟩

/-- Only the accumulator's totals, the ledger and the claims matter. -/
theorem congr (h : w.Conserved except) (hc : w'.bank.charged = w.bank.charged)
    (hr : w'.bank.reserved = w.bank.reserved) (hl : w'.ledger = w.ledger)
    (hcl : w'.claims = w.claims) : w'.Conserved except := by
  refine ⟨?_, ?_, ?_, ?_, ?_, ?_⟩
  · rw [hr, hl]
    exact h.reserved
  · rw [hc, hl]
    exact h.charged
  · rw [hl]
    exact h.fresh
  · rw [hcl, hl]
    exact h.known
  · rw [hcl]
    exact h.unique
  rw [hcl]
  unfold Holds
  rw [hl]
  exact h.holds

variable {c : ProviderBudgetClaim} {address : ℕ}

/-- A claim is put at the address that is being changed. -/
theorem setClaim (h : w.Conserved (some address))
    (hkn : c.active = true → c.grant < w.ledger.next)
    (hu : ∀ a c', a ≠ address → w.claims.find? a = some c' →
      c'.active = true → c.active = true → c'.grant ≠ c.grant)
    (hh : c.active = true → c.settled = false → w.Holds c) :
    (w.setClaim address c).Conserved none := by
  have hf : ∀ a, (w.setClaim address c).claims.find? a
      = if a = address then some c else w.claims.find? a :=
    fun a => w.claims.find?_insert address a c
  refine ⟨h.reserved, h.charged, h.fresh, fun a c' hc' => ?_, fun a a' c₁ c₂ h₁ h₂ => ?_,
    fun a c' _ hc' => ?_⟩
  · rw [hf] at hc'
    split at hc'
    · cases hc'
      exact hkn
    · exact h.known a c' hc'
  · rw [hf] at h₁ h₂
    intro ha₁ ha₂ hgr
    split at h₁
    · split at h₂
      · rename_i ha ha'
        rw [ha, ha']
      · rename_i ha'
        cases h₁
        exact absurd hgr.symm (hu a' c₂ ha' h₂ ha₂ ha₁)
    · split at h₂
      · rename_i ha _
        cases h₂
        exact absurd hgr (hu a c₁ ha h₁ ha₁ ha₂)
      · exact h.unique a a' c₁ c₂ h₁ h₂ ha₁ ha₂ hgr
  · rw [hf] at hc'
    split at hc'
    · cases hc'
      exact hh
    · rename_i ha
      exact h.holds a c' (fun heq => ha (Option.some.inj heq)) hc'

/-- A claim without tokens may stand at any address. -/
theorem setInactive (h : w.Conserved (some address)) (hc : c.active = false) :
    (w.setClaim address c).Conserved none := by
  refine h.setClaim ?_ ?_ ?_
  · intro ha
    rw [hc] at ha
    cases ha
  · intro a c' _ _ _ ha
    rw [hc] at ha
    cases ha
  · intro ha
    rw [hc] at ha
    cases ha

/-- A claim changes its flags. -/
theorem setFlags (h : w.Conserved (some address)) {c' : ProviderBudgetClaim}
    (hc : w.claims.find? address = some c) (hact : c'.active = c.active)
    (hgr : c'.grant = c.grant) (hh : c'.active = true → c'.settled = false → w.Holds c') :
    (w.setClaim address c').Conserved none := by
  refine h.setClaim ?_ ?_ hh
  · rw [hact, hgr]
    exact h.known address c hc
  intro a c₁ ha hc₁ hact₁ hact' heq
  rw [hact] at hact'
  rw [hgr] at heq
  exact ha (h.unique a address c₁ c hc₁ hc hact₁ hact' heq)

/-- A claim moves to another address, which is being changed. -/
theorem move {source : ℕ} (h : w.Conserved (some address)) (hne : address ≠ source)
    (hc : w.claims.find? source = some c) :
    ((w.setClaim source c.moved).setClaim address c).Conserved none := by
  have hi : c.moved.active = false := rfl
  have hf : ∀ a, (w.setClaim source c.moved).claims.find? a
      = if a = source then some c.moved else w.claims.find? a :=
    fun a => w.claims.find?_insert source a c.moved
  have hm : (w.setClaim source c.moved).Conserved (some address) := by
    refine ⟨h.reserved, h.charged, h.fresh, fun a c' hc' hact => ?_,
      fun a a' c₁ c₂ h₁ h₂ hact₁ hact₂ => ?_, fun a c' ha hc' hact => ?_⟩
    · rw [hf] at hc'
      split at hc'
      · cases hc'
        rw [hi] at hact
        cases hact
      · exact h.known a c' hc' hact
    · rw [hf] at h₁ h₂
      split at h₁
      · cases h₁
        rw [hi] at hact₁
        cases hact₁
      · split at h₂
        · cases h₂
          rw [hi] at hact₂
          cases hact₂
        · exact h.unique a a' c₁ c₂ h₁ h₂ hact₁ hact₂
    · rw [hf] at hc'
      split at hc'
      · cases hc'
        rw [hi] at hact
        cases hact
      · exact h.holds a c' ha hc' hact
  refine hm.setClaim (h.known source c hc) (fun a c' ha hc' hact' hact heq => ?_)
    fun hact hs => h.holds source c (fun heq => hne (Option.some.inj heq).symm) hc hact
      hs
  rw [hf] at hc'
  split_ifs at hc' with hsrc
  · cases hc'
    rw [hi] at hact'
    cases hact'
  · exact hsrc (h.unique a source c' c hc' hc hact' hact heq)

/-- A claim is destroyed after its address was changed. -/
theorem erase (h : w.Conserved (some address)) :
    ({ w with claims := w.claims.erase address } : World).Conserved none := by
  have hf : ∀ a, (w.claims.erase address).find? a
      = if a = address then none else w.claims.find? a := fun a => w.claims.find?_erase address a
  have hold : ∀ {a c}, (w.claims.erase address).find? a = some c →
      a ≠ address ∧ w.claims.find? a = some c := by
    intro a c hc
    rw [hf] at hc
    split at hc
    · cases hc
    · rename_i ha
      exact ⟨ha, hc⟩
  exact ⟨h.reserved, h.charged, h.fresh, fun a c hc => h.known a c (hold hc).2,
    fun a a' c c' hc hc' => h.unique a a' c c' (hold hc).2 (hold hc').2,
    fun a c _ hc => h.holds a c (fun heq => (hold hc).1 (Option.some.inj heq)) (hold hc).2⟩

/-- The grant of a claim is resolved. -/
theorem resolve (h : w.Conserved none) (hc : w.claims.find? address = some c)
    (hact : c.active = true) (hs : c.settled = false) {status : GrantStatus}
    (hst : status ≠ .outstanding)
    (hr : w'.bank.reserved = w.bank.reserved - min w.bank.reserved c.amount)
    (hchg : w'.bank.charged
      = w.bank.charged + chargeOf { amount := 0, ceiling := 0, status := status })
    (hl : w'.ledger = w.ledger.resolve c.grant status) (hcl : w'.claims = w.claims) :
    w'.Conserved (some address) := by
  obtain ⟨g, hg, hamt, ho⟩ := h.holds address c (some_ne_none address) hc hact hs
  obtain ⟨hh, hcharge⟩ := resolve_spec hg ho hst
  have hgr := find?_resolve hg status
  refine ⟨?_, ?_, ?_, ?_, ?_, ?_⟩
  · have := h.reserved
    rw [hr, hl]
    omega
  · rw [hchg, hl, hcharge, h.charged]
    rfl
  · intro n g' hg'
    rw [hl, hgr] at hg'
    rw [hl, next_resolve]
    split_ifs at hg' with hn
    · rw [hn]
      exact h.fresh _ g hg
    · exact h.fresh n g' hg'
  · rw [hcl, hl, next_resolve]
    exact h.known
  · rw [hcl]
    exact h.unique
  · intro a c' ha hc' hact' hs'
    rw [hcl] at hc'
    obtain ⟨g', hg', hgd⟩ := h.holds a c' (some_ne_none a) hc' hact' hs'
    refine ⟨g', ?_, hgd⟩
    rw [hl, hgr, if_neg]
    · exact hg'
    · intro heq
      exact ha (congrArg some (h.unique a address c' c hc' hc hact' hact heq))

/-- The destructor of a claim. -/
theorem releaseUndispatched (h : w.Conserved none) (hc : w.claims.find? address = some c) :
    (w.releaseUndispatched c).Conserved (some address) := by
  unfold World.releaseUndispatched
  split_ifs with hg
  · unfold givesBack at hg
    simp only [and_eq_true, not_eq_true'] at hg
    exact h.resolve hc hg.1.1.1 hg.1.2 (by decide) rfl rfl rfl rfl
  · exact h.weaken _

variable {outcome : Outcome}

/-- An outcome is accounted. -/
theorem account (h : w.Conserved none) (hc : w.claims.find? address = some c)
    (ha : c.active = true) (hs : c.settled = false)
    (hrg : (w.account c outcome).1.WithinRange) :
    (w.account c outcome).1.Conserved (some address) := by
  cases outcome with
  | completion usage priorUsageUnknown transportInternalResends =>
    unfold World.account at hrg ⊢
    dsimp only at hrg ⊢
    split_ifs with hkn
    · exact h.weaken _
    rw [if_neg hkn] at hrg
    unfold settleReservation at hrg ⊢
    cases hfin : finalCharge usage with
    | none => exact h.weaken _
    | some charge =>
      rw [hfin] at hrg
      dsimp only at hrg ⊢
      have hgr := h.holds address c (some_ne_none address) hc ha hs
      obtain ⟨g, hg, -, ho⟩ := hgr
      have hne : GrantStatus.charged charge ≠ .outstanding := nofun
      obtain ⟨-, hchg⟩ := resolve_spec hg ho hne
      refine h.resolve hc ha hs hne rfl ?_ rfl rfl
      show sum w.bank.charged charge = w.bank.charged + charge
      refine sum_eq_add ?_
      have ht : (w.ledger.resolve c.grant (.charged charge)).charged < 2 ^ 64 := hrg.1
      have hsm : (w.ledger.resolve c.grant (.charged charge)).charged
          = w.ledger.charged + charge := hchg
      rw [h.charged]
      omega
  | failure usage provesNotAccepted =>
    unfold World.account
    dsimp only
    split
    · exact h.resolve hc ha hs (by decide) rfl rfl rfl rfl
    · exact h.weaken _

/-- The claim whose outcome was accounted is settled. -/
theorem settled (h : w.Conserved none) (hc : w.claims.find? address = some c)
    (ha : c.active = true) (hsettled : c.settled = false)
    (hrg : w'.WithinRange) (hchg : w'.bank.charged = (w.account c outcome).1.bank.charged)
    (hr : w'.bank.reserved = (w.account c outcome).1.bank.reserved)
    (hl : w'.ledger = (w.account c outcome).1.ledger)
    (hcl : w'.claims = w.claims.insert address { c with settled := true }) :
    w'.Conserved none := by
  have hrg' : (w.account c outcome).1.WithinRange := by
    unfold WithinRange at hrg ⊢
    rw [← hl]
    exact hrg
  have hac := h.account hc ha hsettled hrg'
  have hc' : (w.account c outcome).1.claims.find? address = some c := by
    rw [account_claims]
    exact hc
  have hs :
      ((w.account c outcome).1.setClaim address { c with settled := true }).Conserved none :=
    hac.setFlags hc' rfl rfl fun _ hf => nomatch hf
  refine hs.congr hchg hr hl ?_
  rw [hcl]
  show _ = (w.account c outcome).1.claims.insert _ _
  rw [account_claims]

/-- Something else is charged. -/
theorem charge (h : w.Conserved none) {amount : ℕ}
    (hrg : (w.ledger.charge amount).charged < 2 ^ 64)
    (hc : w'.bank.charged = sum w.bank.charged amount)
    (hr : w'.bank.reserved = w.bank.reserved) (hl : w'.ledger = w.ledger.charge amount)
    (hcl : w'.claims = w.claims) : w'.Conserved none := by
  have hcharge : (w.ledger.charge amount).charged = w.ledger.charged + amount := by
    unfold Ledger.charge Ledger.charged
    exact add_right_comm _ _ _
  rw [hcharge, ← h.charged] at hrg
  have ht : w'.bank.charged = w.bank.charged + amount := by
    rw [hc]
    exact sum_eq_add hrg
  refine ⟨?_, ?_, ?_, ?_, ?_, ?_⟩
  · rw [hr, hl]
    exact h.reserved
  · rw [ht, hl, hcharge, h.charged]
  · rw [hl]
    exact h.fresh
  · rw [hl, hcl]
    exact h.known
  · rw [hcl]
    exact h.unique
  rw [hcl]
  unfold Holds
  rw [hl]
  exact h.holds

/-- A reservation grants what the new claim holds. -/
theorem reserve (h : w.Conserved none) {request budget}
    (hw : w' = (constructResult address (w.reserveProviderDispatch request budget)).1)
    (hrg : w'.WithinRange) : w'.Conserved none := by
  obtain ⟨hbk, hl, hcl, hi⟩ | ⟨amount, bank, hp, hbk, heq⟩ :=
    w.reserveProviderDispatch_spec request budget
  · have hsm := h.congr (congrArg _ hbk) (congrArg _ hbk) hl hcl
    cases hr : w.reserveProviderDispatch request budget with
    | mk w₁ r =>
      rw [hr] at hw hsm hi
      cases r with
      | error e =>
        rw [hw]
        exact hsm
      | ok c =>
        rw [hw]
        exact (hsm.weaken (some address)).setInactive (hi c rfl)
  · obtain ⟨-, rfl⟩ := tryReserve_eq_some hbk
    rw [heq] at hw
    have hno : w.ledger.grants.find? w.ledger.next = none := by
      cases hg : w.ledger.grants.find? w.ledger.next with
      | none => rfl
      | some g => exact absurd (h.fresh _ g hg) (lt_irrefl _)
    obtain ⟨hrs, hchg⟩ :=
      grant_spec hno amount budget.modelTokenBudget.toNat
    have hl : w'.ledger = w.ledger.grant amount budget.modelTokenBudget.toNat := by rw [hw]; rfl
    have ht := hrg.2
    rw [hl, hrs] at ht
    have hf : ∀ n, (w.ledger.grant amount budget.modelTokenBudget.toNat).grants.find? n
        = if n = w.ledger.next then some ⟨amount, budget.modelTokenBudget.toNat, .outstanding⟩
          else w.ledger.grants.find? n :=
      fun n => w.ledger.grants.find?_insert w.ledger.next n _
    have hnx : (w.ledger.grant amount budget.modelTokenBudget.toNat).next = w.ledger.next + 1 :=
      rfl
    have hgr : ({ w with
        bank := { w.bank with reserved := sum w.bank.reserved amount }
        ledger := w.ledger.grant amount budget.modelTokenBudget.toNat } : World).Conserved
          (some address) := by
      refine ⟨?_, ?_, fun n g hg => ?_, fun a c hc hact => ?_, h.unique,
        fun a c ha hc hact hset => ?_⟩
      · show sum w.bank.reserved amount = _
        rw [hrs, h.reserved, sum_eq_add ht]
      · show w.bank.charged = _
        rw [hchg, h.charged]
      · rw [hf] at hg
        rw [hnx]
        split at hg
        · rename_i hn
          rw [hn]
          exact lt_succ_self _
        · exact lt_succ_of_lt (h.fresh n g hg)
      · rw [hnx]
        have := h.known a c hc hact
        omega
      · obtain ⟨g, hg, hgd⟩ := h.holds a c (some_ne_none a) hc hact hset
        refine ⟨g, ?_, hgd⟩
        rw [hf, if_neg (h.known a c hc hact).ne]
        exact hg
    rw [hw]
    refine hgr.setClaim (fun _ => ?_) (fun a c _ hc hact _ => ?_) fun _ _ => ?_
    · exact lt_succ_self _
    · exact (h.known a c hc hact).ne
    · refine ⟨⟨amount, budget.modelTokenBudget.toNat, .outstanding⟩, ?_, rfl, rfl⟩
      rw [hf, if_pos rfl]

end Conserved

/-- **Every operation conserves the authority.** -/
theorem step_conserved (h : w.Conserved none) (hs : w.step op = some (w', out))
    (hrg : w'.WithinRange) : w'.Conserved none := by
  cases op with
  | construct address =>
    rw [step] at hs
    split at hs
    · cases hs
    · cases hs
      exact (h.weaken (some address)).setInactive rfl
  | reserve address request budget =>
    rw [step] at hs
    split at hs
    · cases hs
    rw [Option.some.injEq] at hs
    have hw : w' = (constructResult address (w.reserveProviderDispatch request budget)).1 := by
      rw [hs]
    exact h.reserve hw hrg
  | beginManagedEffect address effectId stored =>
    obtain ⟨c, hc, heq⟩ := map_eq_some_iff.mp hs
    have hw : w' = (w.beginManagedEffect address c effectId stored).1 := by rw [heq]
    obtain hsm | ⟨hset, id, hsm⟩ := w.beginManagedEffect_spec address c effectId stored
    · rw [hw, hsm]
      exact h
    · rw [hw, hsm]
      exact (h.weaken (some address)).setFlags hc rfl rfl fun hact _ =>
        h.holds address c (some_ne_none address) hc hact hset
  | markDispatched address =>
    obtain ⟨c, hc, heq⟩ := map_eq_some_iff.mp hs
    have hw : w' = (w.markDispatched address c).1 := by rw [heq]
    obtain hsm | hsm := w.markDispatched_spec address c
    · rw [hw, hsm]
      exact h
    · rw [hw, hsm]
      exact (h.weaken (some address)).setFlags hc rfl rfl fun hact hset =>
        h.holds address c (some_ne_none address) hc hact hset
  | settle address result =>
    obtain ⟨c, hc, heq⟩ := map_eq_some_iff.mp hs
    unfold settle at heq
    split at heq
    · cases heq
      exact h
    have hw : w' = (w.settleAccounting address c result).1 := by rw [heq]
    obtain ⟨hsm, -⟩ | ⟨outcome, rfl, hact, -, hset, hbk, hl, hcl⟩ :=
      w.settleAccounting_spec address c result
    · rw [hw, hsm]
      exact h
    · rw [← hw] at hbk hl hcl
      exact h.settled hc hact hset hrg (congrArg _ hbk) (congrArg _ hbk) hl
        hcl
  | settleManaged address result stored =>
    obtain ⟨c, hc, heq⟩ := map_eq_some_iff.mp hs
    have hw : w' = (w.settleManaged address c result stored).1 := by rw [heq]
    obtain ⟨hchg, hrs, hl, hcl, -⟩
        | ⟨outcome, rfl, hact, -, hset, hchg, hrs, hl, hcl⟩ :=
      w.settleManaged_spec address c result stored
    · rw [← hw] at hchg hrs hl hcl
      exact h.congr hchg hrs hl hcl
    · rw [← hw] at hchg hrs hl hcl
      exact h.settled hc hact hset hrg hchg hrs hl hcl
  | moveConstruct address source =>
    rw [step] at hs
    split at hs
    · cases hs
    rename_i hfr
    obtain ⟨c, hc, heq⟩ := map_eq_some_iff.mp hs
    cases heq
    refine (h.weaken (some address)).move ?_ hc
    rintro rfl
    rw [contains, hc] at hfr
    exact hfr rfl
  | moveAssign address source =>
    obtain ⟨c, hc, hs⟩ := bind_eq_some_iff.mp hs
    obtain ⟨other, hot, heq⟩ := map_eq_some_iff.mp hs
    split at heq
    · cases heq
      exact h
    rename_i hne
    cases heq
    have hcl : (w.releaseUndispatched c).claims.find? source = some other := by
      unfold releaseUndispatched
      split <;> exact hot
    exact (h.releaseUndispatched hc).move hne hcl
  | destroy address =>
    obtain ⟨c, hc, heq⟩ := map_eq_some_iff.mp hs
    cases heq
    have hcl : (w.releaseUndispatched c).claims = w.claims := by
      unfold releaseUndispatched
      split <;> rfl
    have he := (h.releaseUndispatched hc).erase
    rw [hcl] at he
    exact he
  | add usage =>
    cases hs
    refine h.charge hrg.1 ?_ ?_ rfl rfl
    · show (w.bank.add usage).charged = _
      unfold add
      cases finalCharge usage with
      | none => exact (sum_zero _).symm
      | some charge => rfl
    · show (w.bank.add usage).reserved = _
      unfold add
      split <;> rfl
  | restoreCharge amount =>
    cases hs
    exact h.charge hrg.1 rfl rfl rfl rfl
  | restoreReservation amount =>
    cases hs
    have hrestore : (w.ledger.restore amount).reserved = w.ledger.reserved + amount := by
      unfold Ledger.restore Ledger.reserved
      exact add_right_comm _ _ _
    have ht : (w.ledger.restore amount).reserved < 2 ^ 64 := hrg.2
    rw [hrestore] at ht
    refine ⟨?_, h.charged, h.fresh, h.known, h.unique, h.holds⟩
    show sum w.bank.reserved amount = (w.ledger.restore amount).reserved
    rw [hrestore, h.reserved, sum_eq_add ht]

/-! ## Runs -/

/-- The states of the runs in which no total reaches the largest number. -/
inductive Reaches : World → Prop
  | start : Reaches {}
  | step {w w' : World} {op : Operation} {out : Except Exn ℕ} (h : Reaches w)
      (hstep : w.step op = some (w', out)) (hrange : w'.WithinRange) : Reaches w'

theorem Reaches.conserved (h : Reaches w) : w.Conserved none := by
  induction h with
  | start =>
    refine ⟨rfl, rfl, ?_, ?_, ?_, ?_⟩
    · rintro n g ⟨⟩
    · rintro a c ⟨⟩
    · rintro a a' c c' ⟨⟩
    · rintro a c _ ⟨⟩
  | step h hs hrg ih => exact step_conserved ih hs hrg

/-- What becomes of a grant when its claim is settled with an outcome. -/
def outcomeStatus : Outcome → GrantStatus
  | .completion usage priorUsageUnknown transportInternalResends =>
    if priorUsageUnknown || transportInternalResends ≠ 0 then .outstanding
    else match finalCharge usage with
      | none => .outstanding
      | some charge => .charged charge
  | .failure _ provesNotAccepted => if provesNotAccepted then .notAccepted else .outstanding

/-- Why a grant no longer sets anything aside: its claim was destroyed or
assigned over before its call was sent or recorded, or settled with an
outcome that says so. -/
def Resolution (w : World) (op : Operation) (number : ℕ) (status : GrantStatus) : Prop :=
  ∃ address c, w.claims.find? address = some c ∧ c.grant = number ∧ c.settled = false
    ∧ ((status = .released ∧ (op = .destroy address ∨ ∃ source, op = .moveAssign address source)
          ∧ c.dispatched = false ∧ c.writeaheadCommitted = false)
      ∨ ∃ outcome, Settles op address outcome ∧ c.dispatched = true
          ∧ outcomeStatus outcome = status ∧ status ≠ .outstanding)

/-- What an operation may do to a grant. -/
def GrantKept (w w' : World) (op : Operation) (n : ℕ) (g : Grant) : Prop :=
  ∃ g', w'.ledger.grants.find? n = some g' ∧ g'.amount = g.amount ∧ g'.ceiling = g.ceiling
    ∧ (g' = g ∨ g.status = .outstanding ∧ Resolution w op n g'.status)

variable {g : Grant} {n : ℕ}

theorem grantKept_of_eq (hl : w'.ledger.grants = w.ledger.grants)
    (hg : w.ledger.grants.find? n = some g) : GrantKept w w' op n g :=
  ⟨g, by rw [hl, hg], rfl, rfl, .inl rfl⟩

variable {c : ProviderBudgetClaim} {address : ℕ}

/-- A grant that is resolved was held by its claim; the others are kept. -/
theorem grantKept_of_resolve {status : GrantStatus} (h : w.Conserved none)
    (hc : w.claims.find? address = some c) (ha : c.active = true)
    (hs : c.settled = false) (hl : w'.ledger = w.ledger.resolve c.grant status)
    (hresolution : Resolution w op c.grant status) (hg : w.ledger.grants.find? n = some g) :
    GrantKept w w' op n g := by
  obtain ⟨g₀, hg₀, -, ho⟩ := h.holds address c (some_ne_none address) hc ha hs
  unfold GrantKept
  rw [hl, find?_resolve hg₀]
  split_ifs with hn
  · rw [hn, hg₀] at hg
    cases hg
    rw [hn]
    exact ⟨_, rfl, rfl, rfl, .inr ⟨ho, hresolution⟩⟩
  · exact ⟨g, hg, rfl, rfl, .inl rfl⟩

/-- **Grants are resolved once**, and only for a reason. -/
theorem grants_kept (h : w.Conserved none) (hs : w.step op = some (w', out))
    (hg : w.ledger.grants.find? n = some g) : GrantKept w w' op n g := by
  cases step_change hs with
  | keep _ _ ledger => exact grantKept_of_eq (congrArg _ ledger) hg
  | @grant _ _ budget amount _ _ _ _ _ ledger =>
    refine ⟨g, ?_, rfl, rfl, .inl rfl⟩
    rw [ledger]
    show (w.ledger.grants.insert w.ledger.next _).find? n = some g
    rw [find?_insert_of_ne _ (h.fresh n g hg).ne, hg]
  | @release address c made claim gives _ ledger =>
    unfold givesBack at gives
    simp only [and_eq_true, not_eq_true'] at gives
    exact grantKept_of_resolve h claim gives.1.1.1 gives.1.2 ledger
      ⟨address, c, claim, rfl, gives.1.2, .inl ⟨rfl, made, gives.1.1.2, gives.2⟩⟩ hg
  | @notAccepted address c usage made claim active dispatched settled _ _ ledger =>
    exact grantKept_of_resolve h claim active settled ledger
      ⟨address, c, claim, rfl, settled, .inr ⟨_, made, dispatched, rfl, nofun⟩⟩ hg
  | @charged address c usage charge made known claim active dispatched settled _ _ ledger =>
    have hst : outcomeStatus (.completion usage false 0) = .charged charge := by
      unfold outcomeStatus
      dsimp only
      rw [if_neg (by decide), known]
    exact grantKept_of_resolve h claim active settled ledger
      ⟨address, c, claim, rfl, settled, .inr ⟨_, made, dispatched, hst, nofun⟩⟩ hg
  | charge _ _ _ ledger | restore _ _ _ ledger => exact grantKept_of_eq (by rw [ledger]; rfl) hg

/-- A new grant leaves all that is charged and set aside within the ceiling
it was asked with. -/
theorem grants_within (hs : w.step op = some (w', out)) (hno : w.ledger.grants.find? n = none)
    (hg : w'.ledger.grants.find? n = some g) :
    g.status = .outstanding ∧ w'.bank.charged + w'.bank.reserved ≤ g.ceiling := by
  have hreso : ∀ {number status}, w'.ledger = w.ledger.resolve number status → False := by
    intro number status hl
    rw [hl] at hg
    cases hold : w.ledger.grants.find? number with
    | none =>
      unfold Ledger.resolve at hg
      rw [hold, hno] at hg
      cases hg
    | some g₀ =>
      rw [find?_resolve hold] at hg
      split_ifs at hg with hn
      · rw [hn, hold] at hno
        cases hno
      · rw [hno] at hg
        cases hg
  cases step_change hs with
  | keep _ _ ledger =>
    rw [ledger, hno] at hg
    cases hg
  | @grant _ _ budget amount _ pos fits charged reserved ledger =>
    rw [ledger] at hg
    change (w.ledger.grants.insert w.ledger.next _).find? n = some g at hg
    obtain ⟨-, rfl⟩ | hg := find?_insert_cases hg
    · refine ⟨rfl, ?_⟩
      have hc := budget.modelTokenBudget.toNat_lt
      have hcm : sum w.bank.charged w.bank.reserved
          = w.bank.charged + w.bank.reserved := by
        unfold sum at fits ⊢
        split_ifs at fits with hle
        · unfold maxTokens at fits
          omega
        · rw [if_neg hle]
      rw [hcm] at fits
      show w'.bank.charged + w'.bank.reserved ≤ budget.modelTokenBudget.toNat
      rw [charged, reserved, sum_eq_add (by omega)]
      omega
    · rw [hno] at hg
      cases hg
  | release _ _ _ _ ledger | notAccepted _ _ _ _ _ _ _ ledger | charged _ _ _ _ _ _ _ _ ledger =>
    exact absurd ledger (fun h => hreso h)
  | charge _ _ _ ledger | restore _ _ _ ledger =>
    rw [ledger] at hg
    change w.ledger.grants.find? n = some g at hg
    rw [hno] at hg
    cases hg

theorem le_sum {a : ℕ} (h : a < 2 ^ 64) (b : ℕ) : a ≤ sum a b := by
  unfold sum maxTokens
  split
  · omega
  · exact le_add_right a b

/-- What was charged stays charged. -/
theorem charged_le (hs : w.step op = some (w', out)) (h : w.bank.charged < 2 ^ 64) :
    w.bank.charged ≤ w'.bank.charged := by
  cases step_change hs with
  | keep charged _ _ | grant _ _ _ charged _ _ | notAccepted _ _ _ _ _ charged _ _
  | restore _ charged _ _ => exact charged.ge
  | release _ _ _ bank _ =>
    rw [bank]
    exact le_rfl
  | charged _ _ _ _ _ _ charged _ _ | charge _ charged _ _ => exact charged ▸ le_sum h _

theorem Reaches.withinRange (h : Reaches w) : w.WithinRange := by
  cases h with
  | start => exact ⟨by decide, by decide⟩
  | step _ _ hrg => exact hrg

/-- The grant of a claim that an outcome settles has the status the outcome
gives it. -/
theorem settles_status (h : w.Conserved none) {outcome : Outcome} {committed : ℕ}
    (hm : Settles op address outcome) (hc : w.claims.find? address = some c)
    (ha : c.active = true) (hs : w.step op = some (w', .ok committed)) :
    ∃ g, w'.ledger.grants.find? c.grant = some g ∧ g.amount = c.amount
      ∧ g.status = outcomeStatus outcome := by
  have hl : c.settled = false ∧ w'.ledger = (w.account c outcome).1.ledger := by
    obtain rfl | ⟨stored, rfl⟩ := hm
    · rw [step, hc, map_some, Option.some.injEq] at hs
      unfold settle at hs
      split at hs
      · cases hs
      obtain ⟨-, hfl⟩ | ⟨outcome', heq, -, -, hset, -, hl, -⟩ :=
        w.settleAccounting_spec address c (some outcome)
      · obtain ⟨e, he⟩ := hfl ha
        rw [hs] at he
        cases he
      · cases heq
        rw [hs] at hl
        exact ⟨hset, hl⟩
    · rw [step, hc, map_some, Option.some.injEq] at hs
      obtain ⟨-, -, -, -, hfl⟩ | ⟨outcome', heq, -, -, hset, -, -, hl, -⟩ :=
        w.settleManaged_spec address c (some outcome) stored
      · obtain ⟨e, he⟩ := hfl ha
        rw [hs] at he
        cases he
      · cases heq
        rw [hs] at hl
        exact ⟨hset, hl⟩
  obtain ⟨hset, hl⟩ := hl
  obtain ⟨g, hg, hamt, ho⟩ := h.holds address c (some_ne_none address) hc ha hset
  rw [hl]
  cases outcome with
  | completion usage priorUsageUnknown transportInternalResends =>
    unfold account outcomeStatus
    dsimp only
    split
    · exact ⟨g, hg, hamt, ho⟩
    cases finalCharge usage with
    | none => exact ⟨g, hg, hamt, ho⟩
    | some charge =>
      refine ⟨{ g with status := .charged charge }, ?_, hamt, rfl⟩
      show (w.ledger.resolve c.grant (.charged charge)).grants.find? c.grant = _
      rw [find?_resolve hg, if_pos rfl]
  | failure usage provesNotAccepted =>
    unfold account outcomeStatus
    dsimp only
    split
    · refine ⟨{ g with status := .notAccepted }, ?_, hamt, rfl⟩
      show (w.ledger.resolve c.grant .notAccepted).grants.find? c.grant = _
      rw [find?_resolve hg, if_pos rfl]
    · exact ⟨g, hg, hamt, ho⟩

/-- A claim that is destroyed gives its tokens back if its call was neither
sent nor recorded nor settled, and otherwise changes nothing. -/
theorem destroy_spec (h : w.Conserved none) (hc : w.claims.find? address = some c)
    (hs : w.step (.destroy address) = some (w', out)) :
    (c.givesBack = true → ∃ g, w'.ledger.grants.find? c.grant = some g ∧ g.amount = c.amount
        ∧ g.status = .released)
      ∧ (c.dispatched = true ∨ c.writeaheadCommitted = true →
        w'.bank = w.bank ∧ w'.ledger = w.ledger) := by
  rw [step, hc, map_some, Option.some.injEq] at hs
  cases hs
  unfold releaseUndispatched
  constructor
  · intro hgv
    rw [if_pos hgv]
    unfold givesBack at hgv
    simp only [and_eq_true, not_eq_true'] at hgv
    obtain ⟨g, hg, hamt, -⟩ := h.holds address c (some_ne_none address) hc
      hgv.1.1.1 hgv.1.2
    refine ⟨{ g with status := .released }, ?_, hamt, rfl⟩
    show (w.ledger.resolve c.grant .released).grants.find? c.grant = _
    rw [find?_resolve hg, if_pos rfl]
  · intro hsn
    have hkp : c.givesBack = false := by
      unfold givesBack
      obtain hd | hr := hsn
      · rw [hd, Bool.not_true, Bool.and_false, Bool.false_and, Bool.false_and]
      · rw [hr, Bool.not_true, Bool.and_false]
    rw [hkp]
    exact ⟨rfl, rfl⟩

/-- **Token authority is conserved.** In every state of a run in which no
total reaches the largest number, what is set aside and what was charged are
exactly what the ledger says. An operation charges nothing back; it resolves
a grant only if the grant is outstanding and its claim is destroyed unsent or
settled with an outcome that says so, and then it does; it grants only within
the ceiling; and a claim that was sent or recorded is not given back by its
destructor. -/
theorem authority_conserved (h : Reaches w) :
    w.bank.reserved = w.ledger.reserved ∧ w.bank.charged = w.ledger.charged
      ∧ ∀ op w' out, w.step op = some (w', out) →
        w.bank.charged ≤ w'.bank.charged
        ∧ (∀ n g, w.ledger.grants.find? n = some g → GrantKept w w' op n g)
        ∧ (∀ n g, w.ledger.grants.find? n = none → w'.ledger.grants.find? n = some g →
          g.status = .outstanding ∧ w'.bank.charged + w'.bank.reserved ≤ g.ceiling)
        ∧ (∀ address c outcome committed, Settles op address outcome →
          w.claims.find? address = some c → c.active = true → out = .ok committed →
          ∃ g, w'.ledger.grants.find? c.grant = some g ∧ g.amount = c.amount
            ∧ g.status = outcomeStatus outcome)
        ∧ (∀ address c, op = .destroy address → w.claims.find? address = some c →
          (c.givesBack = true → ∃ g, w'.ledger.grants.find? c.grant = some g
              ∧ g.amount = c.amount ∧ g.status = .released)
            ∧ (c.dispatched = true ∨ c.writeaheadCommitted = true →
              w'.bank = w.bank ∧ w'.ledger = w.ledger)) := by
  have hco := h.conserved
  refine ⟨hco.reserved, hco.charged, fun op w' out hs => ⟨?_, ?_, ?_, ?_, ?_⟩⟩
  · refine charged_le hs ?_
    rw [hco.charged]
    exact h.withinRange.1
  · exact fun n g hg => grants_kept hco hs hg
  · exact fun n g hn hg => grants_within hs hn hg
  · rintro address c outcome committed hm hc ha rfl
    exact settles_status hco hm hc ha hs
  · rintro address c rfl hc
    exact destroy_spec hco hc hs

/-- The state after operations that are all possible and keep the totals in
range. -/
def run (w : World) : List Operation → Option World
  | [] => some w
  | op :: ops => (w.step op).bind fun p =>
    if p.1.ledger.charged < 2 ^ 64 ∧ p.1.ledger.reserved < 2 ^ 64 then run p.1 ops else none

theorem Reaches.run {ops : List Operation} (h : Reaches w) (hr : w.run ops = some w') :
    Reaches w' := by
  induction ops generalizing w with
  | nil =>
    cases hr
    exact h
  | cons op ops ih =>
    rw [World.run, bind_eq_some_iff] at hr
    obtain ⟨⟨w₁, out⟩, hs, hr⟩ := hr
    split_ifs at hr with hrg
    exact ih (.step h hs hrg) hr

/-- A claim for thirty of a hundred tokens is moved, sent and settled with
twenty, while another one for forty is made and destroyed unsent. -/
def twoClaims : List Operation :=
  let budget : ProviderDispatchBudget := { usage := true, modelTokenBudget := 100 }
  let usage : Usage :=
    { stage := .final, quality := .consistent, inputTotal := some 12, outputTotal := some 8 }
  [.reserve 0 ⟨true, false, some 30⟩ budget, .moveConstruct 1 0, .markDispatched 1,
    .reserve 2 ⟨true, false, some 40⟩ budget, .settle 1 (some (.completion usage false 0)),
    .destroy 2, .destroy 1, .destroy 0]

theorem authority_conserved_twoClaims :
    ∃ w, run {} twoClaims = some w ∧ (w.bank.charged, w.bank.reserved) = (20, 0)
      ∧ w.bank.reserved = w.ledger.reserved ∧ w.bank.charged = w.ledger.charged := by
  have htotals : (run {} twoClaims).map (fun w => (w.bank.charged, w.bank.reserved))
      = some (20, 0) := by
    decide +kernel
  obtain ⟨w, hr, hw⟩ := map_eq_some_iff.mp htotals
  obtain ⟨hrs, hc, -⟩ := authority_conserved (Reaches.start.run hr)
  exact ⟨w, hr, hw, hrs, hc⟩

end World

end NeoGraph.Provider
