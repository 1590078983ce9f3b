import NeoGraph.Provider.BudgetClaim

/-!
# What becomes of token authority

`AuthorityChange` says all that an operation can do to the accumulator and
the ledger, and under which circumstances, and `World.step_change` that every
operation is one of these.

The operations return on many paths before they change anything. Here each
path is met once; what is proved of authority afterwards is proved of the few
ways in which it changes.
-/

namespace NeoGraph.Provider.World

open UsageAccumulator Option

variable {w w' : World} {op : Operation} {out : Except Exn ℕ}

/-! ## What an operation changes -/

/-- An operation settles a claim with an outcome. -/
def Settles (op : Operation) (address : ℕ) (outcome : Outcome) : Prop :=
  op = .settle address (some outcome) ∨ ∃ stored, op = .settleManaged address (some outcome) stored

/-- **What an operation does to the authority.** -/
inductive AuthorityChange (w : World) (op : Operation) (w' : World) : Prop
  | keep (charged : w'.bank.charged = w.bank.charged)
      (reserved : w'.bank.reserved = w.bank.reserved) (ledger : w'.ledger = w.ledger)
  | grant {address : ℕ} {request : PreparedProviderRequest} {budget : ProviderDispatchBudget}
      {amount : ℕ} (made : op = .reserve address request budget) (pos : 0 < amount)
      (fits : sum w.bank.charged w.bank.reserved + amount ≤ budget.modelTokenBudget.toNat)
      (charged : w'.bank.charged = w.bank.charged)
      (reserved : w'.bank.reserved = sum w.bank.reserved amount)
      (ledger : w'.ledger = w.ledger.grant amount budget.modelTokenBudget.toNat)
  | release {address : ℕ} {c : ProviderBudgetClaim}
      (made : op = .destroy address ∨ ∃ source, op = .moveAssign address source)
      (claim : w.claims.find? address = some c) (gives : c.givesBack = true)
      (bank : w'.bank = w.bank.releaseReservation c.amount)
      (ledger : w'.ledger = w.ledger.resolve c.grant .released)
  | notAccepted {address : ℕ} {c : ProviderBudgetClaim} {usage : Usage}
      (made : Settles op address (.failure usage true))
      (claim : w.claims.find? address = some c) (active : c.active = true)
      (dispatched : c.dispatched = true) (settled : c.settled = false)
      (charged : w'.bank.charged = w.bank.charged)
      (reserved : w'.bank.reserved = w.bank.reserved - min w.bank.reserved c.amount)
      (ledger : w'.ledger = w.ledger.resolve c.grant .notAccepted)
  | charged {address : ℕ} {c : ProviderBudgetClaim} {usage : Usage} {charge : ℕ}
      (made : Settles op address (.completion usage false 0))
      (known : finalCharge usage = some charge)
      (claim : w.claims.find? address = some c) (active : c.active = true)
      (dispatched : c.dispatched = true) (settled : c.settled = false)
      (charged : w'.bank.charged = sum w.bank.charged charge)
      (reserved : w'.bank.reserved = w.bank.reserved - min w.bank.reserved c.amount)
      (ledger : w'.ledger = w.ledger.resolve c.grant (.charged charge))
  | charge {amount : ℕ}
      (made : op = .restoreCharge amount ∨ ∃ usage, op = .add usage ∧
        (finalCharge usage).getD 0 = amount)
      (charged : w'.bank.charged = sum w.bank.charged amount)
      (reserved : w'.bank.reserved = w.bank.reserved) (ledger : w'.ledger = w.ledger.charge amount)
  | restore {amount : ℕ} (made : op = .restoreReservation amount)
      (charged : w'.bank.charged = w.bank.charged)
      (reserved : w'.bank.reserved = sum w.bank.reserved amount)
      (ledger : w'.ledger = w.ledger.restore amount)

theorem raiseExhausted_same (w : World) (budget : ProviderDispatchBudget) :
    (w.raiseExhausted budget).bank = w.bank ∧ (w.raiseExhausted budget).ledger = w.ledger
      ∧ (w.raiseExhausted budget).claims = w.claims := by
  unfold raiseExhausted
  split <;> exact ⟨rfl, rfl, rfl⟩

/-- A reservation grants, or leaves the authority as it is. -/
theorem reserveProviderDispatch_spec (w : World) (request : PreparedProviderRequest)
    (budget : ProviderDispatchBudget) : ((w.reserveProviderDispatch request budget).1.bank = w.bank
        ∧ (w.reserveProviderDispatch request budget).1.ledger = w.ledger
        ∧ (w.reserveProviderDispatch request budget).1.claims = w.claims
        ∧ ∀ c, (w.reserveProviderDispatch request budget).2 = .ok c → c.active = false)
      ∨ ∃ amount bank, 0 < amount
        ∧ w.bank.tryReserve amount budget.modelTokenBudget.toNat = some bank
        ∧ w.reserveProviderDispatch request budget
          = ({ w with bank := bank, ledger := w.ledger.grant amount budget.modelTokenBudget.toNat },
            .ok { budget := budget, amount := amount, grant := w.ledger.next }) := by
  have hexhaust : (w.exhaust budget).1.bank = w.bank ∧ (w.exhaust budget).1.ledger = w.ledger
      ∧ (w.exhaust budget).1.claims = w.claims
      ∧ ∀ c, (w.exhaust budget).2 = .ok c → c.active = false := by
    obtain ⟨hbk, hl, hcl⟩ := w.raiseExhausted_same budget
    refine ⟨hbk, hl, hcl, ?_⟩
    rintro c ⟨⟩
  have hn : ∀ c : ProviderBudgetClaim,
      (Except.ok { budget := noBudget } : Except Exn ProviderBudgetClaim) = .ok c →
      c.active = false := by
    rintro c ⟨⟩
    rfl
  have hf : ∀ {e : Exn} (c : ProviderBudgetClaim),
      (Except.error e : Except Exn ProviderBudgetClaim) = .ok c → c.active = false := by
    rintro e c ⟨⟩
  unfold reserveProviderDispatch
  split
  · exact .inl ⟨rfl, rfl, rfl, hf⟩
  split
  · exact .inl ⟨rfl, rfl, rfl, hf⟩
  split
  · exact .inl ⟨rfl, rfl, rfl, hn⟩
  split
  · split
    · exact .inl ⟨rfl, rfl, rfl, hn⟩
    · exact .inl hexhaust
  split
  · exact .inl ⟨rfl, rfl, rfl, hf⟩
  split
  · exact .inl ⟨rfl, rfl, rfl, hf⟩
  rename_i amount _
  split
  · exact .inl ⟨rfl, rfl, rfl, hf⟩
  rename_i hamt
  split
  · exact .inl hexhaust
  split
  · exact .inl hexhaust
  · rename_i bank hbk
    exact .inr ⟨amount, bank, Nat.pos_of_ne_zero hamt, hbk, rfl⟩

/-- What is reserved is within the ceiling. -/
theorem tryReserve_eq_some {bank bank' : UsageAccumulator} {tokens ceiling : ℕ}
    (h : bank.tryReserve tokens ceiling = some bank') :
    sum bank.charged bank.reserved + tokens ≤ ceiling
      ∧ bank' = { bank with reserved := sum bank.reserved tokens } := by
  unfold tryReserve at h
  split at h
  · cases h
  split at h
  · cases h
  rename_i hft
  cases h
  rw [not_or] at hft
  exact ⟨by omega, rfl⟩

theorem account_claims (w : World) (c : ProviderBudgetClaim) (outcome : Outcome) :
    (w.account c outcome).1.claims = w.claims := by
  unfold account
  split
  · split
    · rfl
    · split <;> rfl
  · split <;> rfl

/-- A settlement fails, unless the claim has no tokens. -/
def Fails (c : ProviderBudgetClaim) (out : Except Exn ℕ) : Prop :=
  c.active = true → ∃ e, out = .error e

/-- A settlement fails and changes nothing, or accounts for the outcome. -/
theorem settleAccounting_spec (w : World) (address : ℕ) (c : ProviderBudgetClaim)
    (result : Option Outcome) : ((w.settleAccounting address c result).1 = w
        ∧ Fails c (w.settleAccounting address c result).2)
      ∨ ∃ outcome, result = some outcome ∧ c.active = true ∧ c.dispatched = true
        ∧ c.settled = false
        ∧ (w.settleAccounting address c result).1.bank = (w.account c outcome).1.bank
        ∧ (w.settleAccounting address c result).1.ledger = (w.account c outcome).1.ledger
        ∧ (w.settleAccounting address c result).1.claims
          = w.claims.insert address { c with settled := true } := by
  unfold settleAccounting
  split
  · rename_i hi
    refine .inl ⟨rfl, fun ha => ?_⟩
    rw [ha] at hi
    cases hi
  rename_i ha
  split
  · exact .inl ⟨rfl, fun _ => ⟨_, rfl⟩⟩
  rename_i hs
  split
  · exact .inl ⟨rfl, fun _ => ⟨_, rfl⟩⟩
  rename_i hd
  split
  · exact .inl ⟨rfl, fun _ => ⟨_, rfl⟩⟩
  rename_i outcome
  have hcl : ((w.account c outcome).1.setClaim address { c with settled := true }).claims
      = w.claims.insert address { c with settled := true } := by
    show (w.account c outcome).1.claims.insert _ _ = _
    rw [account_claims]
  refine .inr ⟨outcome, rfl, by simpa using ha, by simpa using hd,
    by simpa using hs, ?_⟩
  dsimp only
  split
  · obtain ⟨hbk, hl, hsm⟩ := raiseExhausted_same
      ((w.account c outcome).1.setClaim address { c with settled := true }) c.budget
    exact ⟨hbk, hl, hsm.trans hcl⟩
  · exact ⟨rfl, rfl, hcl⟩

variable {c : ProviderBudgetClaim} {address : ℕ}

/-- Accounting for an outcome changes the authority of the claim's grant. -/
theorem account_change {outcome : Outcome} (made : Settles op address outcome)
    (claim : w.claims.find? address = some c) (active : c.active = true)
    (dispatched : c.dispatched = true) (settled : c.settled = false)
    (hc : w'.bank.charged = (w.account c outcome).1.bank.charged)
    (hr : w'.bank.reserved = (w.account c outcome).1.bank.reserved)
    (hl : w'.ledger = (w.account c outcome).1.ledger) : AuthorityChange w op w' := by
  unfold account at hc hr hl
  cases outcome with
  | completion usage priorUsageUnknown transportInternalResends =>
    dsimp only at hc hr hl
    split_ifs at hc with hu
    · rw [if_pos hu] at hr hl
      exact .keep hc hr hl
    rw [if_neg hu] at hr hl
    rw [Bool.or_eq_true, not_or, Bool.not_eq_true, decide_eq_true_iff, not_not] at hu
    obtain ⟨rfl, rfl⟩ := hu
    unfold settleReservation at hc hr
    cases hfin : finalCharge usage with
    | none =>
      rw [hfin] at hc hr hl
      exact .keep hc hr hl
    | some charge =>
      rw [hfin] at hc hr hl
      exact .charged made hfin claim active dispatched settled hc hr hl
  | failure usage provesNotAccepted =>
    cases provesNotAccepted with
    | true => exact .notAccepted made claim active dispatched settled hc hr hl
    | false => exact .keep hc hr hl

theorem rememberProviderEffect_spec {r : Except Exn Unit} (h : w.rememberProviderEffect c = (w', r))
    : w'.bank.charged = w.bank.charged ∧ w'.bank.reserved = w.bank.reserved
      ∧ w'.ledger = w.ledger ∧ w'.claims = w.claims := by
  unfold rememberProviderEffect at h
  split at h
  · cases h
    exact ⟨rfl, rfl, rfl, rfl⟩
  split at h
  · cases h
    exact ⟨rfl, rfl, rfl, rfl⟩
  split at h
  · cases h
    exact ⟨rfl, rfl, rfl, rfl⟩
  split at h
  all_goals
    cases h
    exact ⟨rfl, rfl, rfl, rfl⟩

/-- The effect that is remembered is no part of what is charged or set
aside. -/
theorem account_congr (c : ProviderBudgetClaim) (outcome : Outcome)
    (hc : w'.bank.charged = w.bank.charged) (hr : w'.bank.reserved = w.bank.reserved)
    (hl : w'.ledger = w.ledger) :
    (w'.account c outcome).1.bank.charged = (w.account c outcome).1.bank.charged
      ∧ (w'.account c outcome).1.bank.reserved = (w.account c outcome).1.bank.reserved
      ∧ (w'.account c outcome).1.ledger = (w.account c outcome).1.ledger := by
  unfold account settleReservation releaseReservation
  cases outcome with
  | completion usage priorUsageUnknown transportInternalResends =>
    dsimp only
    split
    · exact ⟨hc, hr, hl⟩
    cases finalCharge usage with
    | none => exact ⟨hc, hr, hl⟩
    | some charge =>
      rw [hc, hr, hl]
      exact ⟨rfl, rfl, rfl⟩
  | failure usage provesNotAccepted =>
    dsimp only
    split
    · rw [hc, hr, hl]
      exact ⟨rfl, rfl, rfl⟩
    · exact ⟨hc, hr, hl⟩

/-- A managed settlement fails and changes no authority and no claim, or
accounts for the outcome. -/
theorem settleManaged_spec (w : World) (address : ℕ) (c : ProviderBudgetClaim)
    (result : Option Outcome) (stored : Bool) :
    ((w.settleManaged address c result stored).1.bank.charged = w.bank.charged
        ∧ (w.settleManaged address c result stored).1.bank.reserved = w.bank.reserved
        ∧ (w.settleManaged address c result stored).1.ledger = w.ledger
        ∧ (w.settleManaged address c result stored).1.claims = w.claims
        ∧ Fails c (w.settleManaged address c result stored).2)
      ∨ ∃ outcome, result = some outcome ∧ c.active = true ∧ c.dispatched = true
        ∧ c.settled = false
        ∧ (w.settleManaged address c result stored).1.bank.charged
          = (w.account c outcome).1.bank.charged
        ∧ (w.settleManaged address c result stored).1.bank.reserved
          = (w.account c outcome).1.bank.reserved
        ∧ (w.settleManaged address c result stored).1.ledger = (w.account c outcome).1.ledger
        ∧ (w.settleManaged address c result stored).1.claims
          = w.claims.insert address { c with settled := true } := by
  unfold settleManaged
  split
  · rename_i hi
    refine .inl ⟨rfl, rfl, rfl, rfl, fun ha => ?_⟩
    rw [ha] at hi
    cases hi
  split
  · exact .inl ⟨rfl, rfl, rfl, rfl, fun _ => ⟨_, rfl⟩⟩
  split
  · rename_i w₁ e hremember
    obtain ⟨hc, hrs, hl, hcl⟩ := rememberProviderEffect_spec hremember
    exact .inl ⟨hc, hrs, hl, hcl, fun _ => ⟨_, rfl⟩⟩
  · rename_i w₁ hremember
    obtain ⟨hc, hrs, hl, hcl⟩ := rememberProviderEffect_spec hremember
    have hworld : ∀ x : World × Except Exn ℕ, (recordOutcome c stored x).1 = x.1
        ∧ (Fails c x.2 → Fails c (recordOutcome c stored x).2) := by
      rintro ⟨w₂, e | committed⟩
      · exact ⟨rfl, id⟩
      unfold recordOutcome
      dsimp only
      split
      · exact ⟨rfl, fun _ _ => ⟨_, rfl⟩⟩
      · exact ⟨rfl, id⟩
    obtain ⟨hsm₁, hfl₁⟩ := hworld (w₁.settleAccounting address c result)
    rw [hsm₁]
    obtain ⟨hsm, hfl⟩
        | ⟨outcome, hr, ha, hd, hs, hbk, hl', hcl'⟩ :=
      w₁.settleAccounting_spec address c result
    · rw [hsm]
      exact .inl ⟨hc, hrs, hl, hcl, hfl₁ hfl⟩
    · obtain ⟨hc₁, hrs₁, hl₁⟩ :=
        account_congr c outcome hc hrs hl
      refine .inr ⟨outcome, hr, ha, hd, hs, ?_, ?_, ?_, ?_⟩
      · rw [hbk, hc₁]
      · rw [hbk, hrs₁]
      · rw [hl', hl₁]
      · rw [hcl', hcl]

/-- What each operation leaves alone. -/
theorem beginManagedEffect_spec (w : World) (address : ℕ) (c : ProviderBudgetClaim)
    (effectId : String) (stored : Bool) : (w.beginManagedEffect address c effectId stored).1 = w
      ∨ c.settled = false ∧ ∃ id, (w.beginManagedEffect address c effectId stored).1
        = w.setClaim address { c with writeaheadCommitted := true, managedEffect := some id } := by
  unfold beginManagedEffect
  split
  · exact .inl rfl
  split
  · exact .inl rfl
  rename_i hlv
  split
  · exact .inl rfl
  dsimp only
  generalize (if effectId.isEmpty then c.budget.managedEffectId else effectId) = id
  split
  · exact .inl rfl
  split
  · simp only [Bool.or_eq_true, not_or, Bool.not_eq_true] at hlv
    exact .inr ⟨hlv.1.2, _, rfl⟩
  · exact .inl rfl

theorem markDispatched_spec (w : World) (address : ℕ) (c : ProviderBudgetClaim) :
    (w.markDispatched address c).1 = w
      ∨ (w.markDispatched address c).1 = w.setClaim address { c with dispatched := true } := by
  unfold markDispatched
  split
  · exact .inl rfl
  · exact .inr rfl

/-- A destructor gives tokens back or changes nothing. -/
theorem releaseUndispatched_change
    (made : op = .destroy address ∨ ∃ source, op = .moveAssign address source)
    (claim : w.claims.find? address = some c) (hbk : w'.bank = (w.releaseUndispatched c).bank)
    (hl : w'.ledger = (w.releaseUndispatched c).ledger) : AuthorityChange w op w' := by
  unfold releaseUndispatched at hbk hl
  split_ifs at hbk with hg
  · rw [if_pos hg] at hl
    exact .release made claim hg hbk hl
  · rw [if_neg hg] at hl
    exact .keep (congrArg _ hbk) (congrArg _ hbk) hl

/-- **Every operation changes the authority in one of these ways.** -/
theorem step_change (h : w.step op = some (w', out)) : AuthorityChange w op w' := by
  cases op with
  | construct address =>
    rw [step] at h
    split at h
    · cases h
    · cases h
      exact .keep rfl rfl rfl
  | reserve address request budget =>
    rw [step] at h
    split at h
    · cases h
    rw [Option.some.injEq] at h
    have hw : w' = (constructResult address (w.reserveProviderDispatch request budget)).1 := by
      rw [h]
    obtain ⟨hbk, hl, -, -⟩ | ⟨amount, bank, hp, hbk, heq⟩ :=
      w.reserveProviderDispatch_spec request budget
    · have hsm : ∀ x : World × Except Exn ProviderBudgetClaim,
          (constructResult address x).1.bank = x.1.bank
            ∧ (constructResult address x).1.ledger = x.1.ledger := by
        rintro ⟨w₁, e | c⟩ <;> exact ⟨rfl, rfl⟩
      obtain ⟨hbk', hl'⟩ := hsm (w.reserveProviderDispatch request budget)
      rw [← hw] at hbk' hl'
      exact .keep (by rw [hbk', hbk]) (by rw [hbk', hbk]) (by rw [hl', hl])
    · obtain ⟨hft, rfl⟩ := tryReserve_eq_some hbk
      rw [heq] at hw
      rw [hw]
      exact .grant rfl hp hft rfl rfl rfl
  | beginManagedEffect address effectId stored =>
    obtain ⟨c, hc, heq⟩ := map_eq_some_iff.mp h
    have hw : w' = (w.beginManagedEffect address c effectId stored).1 := by rw [heq]
    obtain hsm | ⟨-, id, hsm⟩ := w.beginManagedEffect_spec address c effectId stored
    all_goals
      rw [hw, hsm]
      exact .keep rfl rfl rfl
  | markDispatched address =>
    obtain ⟨c, hc, heq⟩ := map_eq_some_iff.mp h
    have hw : w' = (w.markDispatched address c).1 := by rw [heq]
    obtain hsm | hsm := w.markDispatched_spec address c
    all_goals
      rw [hw, hsm]
      exact .keep rfl rfl rfl
  | settle address result =>
    obtain ⟨c, hc, heq⟩ := map_eq_some_iff.mp h
    unfold settle at heq
    split at heq
    · cases heq
      exact .keep rfl rfl rfl
    have hw : w' = (w.settleAccounting address c result).1 := by rw [heq]
    obtain ⟨hsm, -⟩ | ⟨outcome, rfl, ha, hd, hs, hbk, hl, -⟩ :=
      w.settleAccounting_spec address c result
    · rw [hw, hsm]
      exact .keep rfl rfl rfl
    · rw [← hw] at hbk hl
      exact account_change (.inl rfl) hc ha hd hs (congrArg _ hbk)
        (congrArg _ hbk) hl
  | settleManaged address result stored =>
    obtain ⟨c, hc, heq⟩ := map_eq_some_iff.mp h
    have hw : w' = (w.settleManaged address c result stored).1 := by rw [heq]
    obtain ⟨hchg, hr, hl, -⟩
        | ⟨outcome, rfl, ha, hd, hs, hchg, hr, hl, -⟩ :=
      w.settleManaged_spec address c result stored
    · rw [← hw] at hchg hr hl
      exact .keep hchg hr hl
    · rw [← hw] at hchg hr hl
      exact account_change (.inr ⟨stored, rfl⟩) hc ha hd hs hchg
        hr hl
  | moveConstruct address source =>
    rw [step] at h
    split at h
    · cases h
    · obtain ⟨c, hc, heq⟩ := map_eq_some_iff.mp h
      cases heq
      exact .keep rfl rfl rfl
  | moveAssign address source =>
    obtain ⟨c, hc, h⟩ := bind_eq_some_iff.mp h
    obtain ⟨other, hot, heq⟩ := map_eq_some_iff.mp h
    split at heq
    · cases heq
      exact .keep rfl rfl rfl
    · cases heq
      exact releaseUndispatched_change (.inr ⟨source, rfl⟩) hc rfl rfl
  | destroy address =>
    obtain ⟨c, hc, heq⟩ := map_eq_some_iff.mp h
    cases heq
    exact releaseUndispatched_change (.inl rfl) hc rfl rfl
  | add usage =>
    cases h
    cases hfin : finalCharge usage with
    | none =>
      refine .keep ?_ ?_ ?_
      · unfold add
        rw [hfin]
      · unfold add
        rw [hfin]
      · rfl
    | some charge =>
      have hamt : (finalCharge usage).getD 0 = charge := by
        rw [hfin]
        rfl
      refine .charge (.inr ⟨usage, rfl, hamt⟩) ?_ ?_ ?_
      · unfold add
        rw [hfin]
      · unfold add
        rw [hfin]
      · rfl
  | restoreCharge amount =>
    cases h
    exact .charge (.inl rfl) rfl rfl rfl
  | restoreReservation amount =>
    cases h
    exact .restore rfl rfl rfl rfl

end NeoGraph.Provider.World
