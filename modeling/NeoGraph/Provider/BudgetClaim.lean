import Mathlib
import NeoGraph.Basic
import NeoGraph.Lib.SortedMap

/-!
# Token authority

A run may spend a number of tokens. What it has been charged and what it has
set aside for calls in flight is kept in a `UsageAccumulator`. A call is sent
under a `ProviderBudgetClaim`, an object that holds the tokens set aside for
it until the outcome settles them: a known charge replaces them, a call that
was proven not accepted gives them back, and an outcome that says too little
keeps them set aside. A claim that is destroyed before its call was sent gives
them back.

Claims are objects that move. The state of a program holds the live ones by
their addresses, and every operation is atomic: each takes the mutex of the
accumulator where it changes it, and a claim has one owner. Beside the state
there is a ledger of all grants, which no operation reads: it records what
became of each.
-/

namespace NeoGraph.Provider

/-- The largest number of tokens. -/
def maxTokens : ℕ := 2 ^ 64 - 1

/-- A sum that stays at the largest number. -/
def sum (a b : ℕ) : ℕ := if maxTokens - a < b then maxTokens else a + b

theorem sum_eq_add {a b : ℕ} (h : a + b < 2 ^ 64) : sum a b = a + b := by
  unfold sum
  rw [if_neg]
  unfold maxTokens
  omega

theorem sum_zero (a : ℕ) : sum a 0 = a := if_neg (Nat.not_lt_zero _)

/-! ## What a provider reports -/

/-- How much of a usage was reported. -/
inductive UsageStage where
  | missing
  | partialStage
  | final
deriving DecidableEq

/-- Whether the reports fit together. -/
inductive UsageQuality where
  | consistent
  | inconsistent
deriving DecidableEq

/-- The counts of a report that a charge is read from. -/
structure Usage where
  stage : UsageStage
  quality : UsageQuality
  inputTotal : Option ℕ := none
  outputTotal : Option ℕ := none
  total : Option ℕ := none
  providerReportedTotal : Option ℕ := none

/-- **What a report charges**, if it is known: the largest of the totals it
gives. -/
def finalCharge (usage : Usage) : Option ℕ :=
  if usage.stage ≠ .final ∨ usage.quality ≠ .consistent then none
  else match usage.inputTotal, usage.outputTotal with
    | some input, some output =>
      if maxTokens - input < output then none
      else if usage.total.any (· < input + output)
          || usage.providerReportedTotal.any (· < input + output) then none
      else some (max (input + output)
        (max (usage.total.getD (input + output))
          (usage.providerReportedTotal.getD (input + output))))
    | _, _ => none

/-- The outcome of a call. -/
inductive Outcome where
  | completion (usage : Usage) (priorUsageUnknown : Bool) (transportInternalResends : ℕ)
  | failure (partialUsage : Usage) (provesNotAccepted : Bool)

/-! ## The accumulator -/

/-- A bank: what was charged, what is reserved, and for which effects. -/
structure UsageAccumulator where
  charged : ℕ := 0
  reserved : ℕ := 0
  providerEffects : Finset String := ∅

namespace UsageAccumulator

/-- A usage is charged, if it is final. -/
def add (bank : UsageAccumulator) (usage : Usage) : UsageAccumulator :=
  match finalCharge usage with
  | none => bank
  | some charge => { bank with charged := sum bank.charged charge }

/-- Tokens are set aside, if they fit under a ceiling. -/
def tryReserve (bank : UsageAccumulator) (tokens ceiling : ℕ) : Option UsageAccumulator :=
  if tokens = 0 ∨ ceiling = 0 then none
  else if ceiling < sum bank.charged bank.reserved
      ∨ ceiling - sum bank.charged bank.reserved < tokens then none
  else some { bank with reserved := sum bank.reserved tokens }

/-- Less is reserved, but not less than nothing. -/
def releaseReservation (bank : UsageAccumulator) (tokens : ℕ) : UsageAccumulator :=
  { bank with reserved := bank.reserved - min bank.reserved tokens }

/-- A reservation is given back and the usage charged. -/
def settleReservation (bank : UsageAccumulator) (reserved : ℕ) (usage : Usage) : UsageAccumulator :=
  match finalCharge usage with
  | none => bank
  | some charge =>
    { bank with
      reserved := bank.reserved - min bank.reserved reserved
      charged := sum bank.charged charge }

def restoreCharge (bank : UsageAccumulator) (amount : ℕ) : UsageAccumulator :=
  { bank with charged := sum bank.charged amount }

def restoreReservation (bank : UsageAccumulator) (amount : ℕ) : UsageAccumulator :=
  { bank with reserved := sum bank.reserved amount }

def totalTokensWide (bank : UsageAccumulator) : ℕ := sum bank.charged bank.reserved

end UsageAccumulator

/-! ## The ledger -/

/-- What became of a grant. -/
inductive GrantStatus where
  | outstanding
  /-- Given back by a claim whose call was not sent. -/
  | released
  /-- Given back after a failure that proves the call was not accepted. -/
  | notAccepted
  | charged (charge : ℕ)
deriving DecidableEq

/-- What a caller was granted. -/
structure Grant where
  amount : ℕ
  /-- The ceiling that was asked for. -/
  ceiling : ℕ
  status : GrantStatus := .outstanding
deriving DecidableEq

/-- All grants by their numbers, and what else was charged and set aside. -/
structure Ledger where
  grants : SortedMap ℕ Grant := ∅
  next : ℕ := 0
  otherCharges : ℕ := 0
  restored : ℕ := 0

namespace Ledger

/-- The bank grants an amount. -/
def grant (ledger : Ledger) (amount ceiling : ℕ) : Ledger :=
  { ledger with
    grants := ledger.grants.insert ledger.next { amount := amount, ceiling := ceiling }
    next := ledger.next + 1 }

/-- A grant is settled or given back. -/
def resolve (ledger : Ledger) (number : ℕ) (status : GrantStatus) : Ledger :=
  match ledger.grants.find? number with
  | none => ledger
  | some g => { ledger with grants := ledger.grants.insert number { g with status := status } }

def charge (ledger : Ledger) (amount : ℕ) : Ledger :=
  { ledger with otherCharges := ledger.otherCharges + amount }

def restore (ledger : Ledger) (amount : ℕ) : Ledger :=
  { ledger with restored := ledger.restored + amount }

/-- What a grant has set aside. -/
def held (g : Grant) : ℕ := if g.status = .outstanding then g.amount else 0

/-- What a grant was charged. -/
def chargeOf (g : Grant) : ℕ :=
  match g.status with
  | .charged charge => charge
  | _ => 0

/-- All that is set aside. -/
def reserved (ledger : Ledger) : ℕ := ledger.restored + ledger.grants.sumBy fun _ => held

/-- All that was charged. -/
def charged (ledger : Ledger) : ℕ := ledger.otherCharges + ledger.grants.sumBy fun _ => chargeOf

end Ledger

/-! ## Claims -/

/-- The authority a call is sent under. -/
structure ProviderDispatchBudget where
  /-- The budget has the accumulator. -/
  usage : Bool
  modelTokenBudget : UInt64
  modelTokenBudgetBounded : Bool := false
  /-- The flag that tells others that the budget is spent. -/
  budgetExhausted : Option ℕ := none
  /-- The original ceiling of the lease of a managed budget. -/
  managedBudgetLease : Option UInt64 := none
  managedBudgetStore : Bool := false
  managedEffectId : String := ""

def ProviderDispatchBudget.modelTokensEnforced (budget : ProviderDispatchBudget) : Bool :=
  budget.modelTokenBudgetBounded || budget.modelTokenBudget ≠ 0

/-- A budget that was moved away. -/
def ProviderDispatchBudget.moved (budget : ProviderDispatchBudget) : ProviderDispatchBudget :=
  { budget with
    usage := false
    budgetExhausted := none
    managedBudgetLease := none
    managedBudgetStore := false
    managedEffectId := "" }

/-- A prepared request, up to what authority it needs. -/
structure PreparedProviderRequest where
  valid : Bool
  endpoint : Bool
  /-- The most tokens it may use, if that is known. -/
  tokenUpperBound : Option ℕ

/-- A claim. The number of its grant is not read. -/
structure ProviderBudgetClaim where
  budget : ProviderDispatchBudget
  amount : ℕ := 0
  managedEffect : Option String := none
  dispatched : Bool := false
  settled : Bool := false
  writeaheadCommitted : Bool := false
  grant : ℕ := 0

/-- The budget of a claim without one. -/
def noBudget : ProviderDispatchBudget := { usage := false, modelTokenBudget := 0 }

namespace ProviderBudgetClaim

/-- The claim holds something. -/
def active (c : ProviderBudgetClaim) : Bool := c.budget.usage && c.amount ≠ 0

/-- What is left of a claim that was moved away; the flags are copied. -/
def moved (c : ProviderBudgetClaim) : ProviderBudgetClaim :=
  { c with budget := c.budget.moved, amount := 0, managedEffect := none }

/-- The claim gives its tokens back when it is destroyed. -/
def givesBack (c : ProviderBudgetClaim) : Bool :=
  c.active && !c.dispatched && !c.settled && !c.writeaheadCommitted

end ProviderBudgetClaim

/-- The accumulator, the live claims by their addresses, the flags that are
raised, and the ledger. -/
structure World where
  bank : UsageAccumulator := {}
  claims : SortedMap ℕ ProviderBudgetClaim := ∅
  exhausted : Finset ℕ := ∅
  ledger : Ledger := {}

namespace World

def setClaim (w : World) (address : ℕ) (c : ProviderBudgetClaim) : World :=
  { w with claims := w.claims.insert address c }

/-- The flag of the run is raised. -/
def raiseExhausted (w : World) (budget : ProviderDispatchBudget) : World :=
  match budget.budgetExhausted with
  | none => w
  | some flag => { w with exhausted := insert flag w.exhausted }

/-- What the destructor of a claim does to the accumulator. -/
def releaseUndispatched (w : World) (c : ProviderBudgetClaim) : World :=
  if c.givesBack then
    { w with
      bank := w.bank.releaseReservation c.amount
      ledger := w.ledger.resolve c.grant .released }
  else w

/-! ## Reserving -/

/-- A refusal for lack of budget. -/
def exhaust (w : World) (budget : ProviderDispatchBudget) :
    World × Except Exn ProviderBudgetClaim :=
  (w.raiseExhausted budget, .error (.runtimeError "Provider token budget exhausted"))

/-- The managed budget a request is sent under is a bounded one. -/
def managedScopeValid (budget : ProviderDispatchBudget) : Bool :=
  match budget.managedBudgetLease with
  | none => true
  | some ceiling =>
    budget.managedBudgetStore && budget.modelTokenBudget ≠ 0 && ceiling ≠ 0
      && budget.modelTokenBudget ≤ ceiling

def isExhausted (w : World) (budget : ProviderDispatchBudget) : Bool :=
  budget.budgetExhausted.any fun flag => flag ∈ w.exhausted

/-- Tokens are set aside for a request. -/
def reserveProviderDispatch (w : World) (request : PreparedProviderRequest)
    (budget : ProviderDispatchBudget) : World × Except Exn ProviderBudgetClaim :=
  if !request.valid then (w, .error (.runtimeError "Invalid provider preparation"))
  else if !managedScopeValid budget then
    (w, .error (.runtimeError
      "Standalone provider currency requires its original bounded durable lease"))
  else if !budget.modelTokensEnforced then (w, .ok { budget := noBudget })
  else if budget.modelTokenBudget = 0 then
    if request.endpoint then (w, .ok { budget := noBudget }) else w.exhaust budget
  else if !budget.usage then
    (w, .error (.runtimeError "Bounded provider dispatch requires a usage authority"))
  else match request.tokenUpperBound with
    | none => (w, .error (.runtimeError
        "Bounded provider dispatch requires admitted model input and output ceilings"))
    | some amount =>
      if amount = 0 then (w, .error (.runtimeError
        "Bounded provider dispatch requires admitted model input and output ceilings"))
      else if w.isExhausted budget then w.exhaust budget
      else match w.bank.tryReserve amount budget.modelTokenBudget.toNat with
        | none => w.exhaust budget
        | some bank =>
          ({ w with bank := bank, ledger := w.ledger.grant amount budget.modelTokenBudget.toNat },
            .ok { budget := budget, amount := amount, grant := w.ledger.next })

/-! ## Sending and settling -/

/-- The write-ahead record of a managed call; `stored` says whether the store
recorded it. -/
def beginManagedEffect (w : World) (address : ℕ) (c : ProviderBudgetClaim) (effectId : String)
    (stored : Bool) : World × Except Exn ℕ :=
  if c.budget.managedBudgetLease = none then (w, .ok 0)
  else if !c.active || c.dispatched || c.settled || c.writeaheadCommitted then
    (w, .error (.logicError "Managed provider effect requires an undispatched live claim"))
  else if !c.budget.managedBudgetStore then
    (w, .error (.logicError "Managed provider effect requires its original durable store"))
  else
    let effectId := if effectId.isEmpty then c.budget.managedEffectId else effectId
    if effectId.isEmpty then
      (w, .error (.invalidArgument "Managed provider effect requires a host call identity"))
    else if stored then
      (w.setClaim address { c with writeaheadCommitted := true, managedEffect := some effectId },
        .ok 0)
    else (w, .error (.runtimeError "managed budget store"))

/-- From here on the provider may have been called. -/
def markDispatched (w : World) (address : ℕ) (c : ProviderBudgetClaim) : World × Except Exn ℕ :=
  if c.budget.managedBudgetLease.isSome && (!c.writeaheadCommitted || c.managedEffect.isNone) then
    (w, .error (.logicError "Managed provider dispatch requires its durable pending effect"))
  else (w.setClaim address { c with dispatched := true }, .ok 0)

/-- The outcome is accounted: the accumulator, the ledger and what the call
cost. -/
def account (w : World) (c : ProviderBudgetClaim) : Outcome → World × ℕ
  | .completion usage priorUsageUnknown transportInternalResends =>
    if priorUsageUnknown || transportInternalResends ≠ 0 then (w, c.amount)
    else match finalCharge usage with
      | none => ({ w with bank := w.bank.settleReservation c.amount usage }, c.amount)
      | some charge =>
        ({ w with
            bank := w.bank.settleReservation c.amount usage
            ledger := w.ledger.resolve c.grant (.charged charge) }, charge)
  | .failure _ provesNotAccepted =>
    if provesNotAccepted then
      ({ w with
          bank := w.bank.releaseReservation c.amount
          ledger := w.ledger.resolve c.grant .notAccepted }, 0)
    else (w, c.amount)

/-- **A claim that was dispatched is settled once**, with its outcome, and
raises the flag of the run when more is used than its budget allows. -/
def settleAccounting (w : World) (address : ℕ) (c : ProviderBudgetClaim)
    (result : Option Outcome) : World × Except Exn ℕ :=
  if !c.active then (w, .ok 0)
  else if c.settled then (w, .error (.logicError "Provider budget claim is already settled"))
  else if !c.dispatched then
    (w, .error (.logicError "Provider budget claim has not crossed dispatch authority"))
  else match result with
    | none => (w, .error (.invalidArgument "Provider budget settlement requires an owned outcome"))
    | some outcome =>
      let (w, committed) := w.account c outcome
      let w := w.setClaim address { c with settled := true }
      (if c.budget.modelTokenBudget.toNat < w.bank.totalTokensWide then w.raiseExhausted c.budget
        else w, .ok committed)

/-- A claim without a managed lease is settled at once. -/
def settle (w : World) (address : ℕ) (c : ProviderBudgetClaim) (result : Option Outcome) :
    World × Except Exn ℕ :=
  if c.budget.managedBudgetLease.isSome then
    (w, .error (.logicError "Managed provider settlement requires the durable coroutine barrier"))
  else w.settleAccounting address c result

/-- The effect of a managed call is accounted once. -/
def rememberProviderEffect (w : World) (c : ProviderBudgetClaim) : World × Except Exn Unit :=
  if c.budget.managedBudgetLease = none then (w, .ok ())
  else match c.managedEffect with
    | none => (w, .error (.logicError
        "Managed provider settlement requires its pending dispatched claim"))
    | some effectId =>
      if !c.writeaheadCommitted || !c.dispatched || c.settled then
        (w, .error (.logicError
          "Managed provider settlement requires its pending dispatched claim"))
      else if effectId ∈ w.bank.providerEffects then
        (w, .error (.logicError "Managed provider effect was already accounted"))
      else ({ w with bank := { w.bank with
          providerEffects := insert effectId w.bank.providerEffects } }, .ok ())

/-- The outcome of a managed call is recorded after it was accounted. -/
def recordOutcome (c : ProviderBudgetClaim) (stored : Bool) :
    World × Except Exn ℕ → World × Except Exn ℕ
  | (w, .error e) => (w, .error e)
  | (w, .ok committed) =>
    if c.managedEffect.isSome && !stored then (w, .error (.runtimeError "managed budget store"))
    else (w, .ok committed)

/-- The settlement of a claim that may be managed; `stored` says whether the
store recorded the outcome afterwards. -/
def settleManaged (w : World) (address : ℕ) (c : ProviderBudgetClaim) (result : Option Outcome)
    (stored : Bool) : World × Except Exn ℕ :=
  if !c.active then (w, .ok 0)
  else if result.isNone then
    (w, .error (.runtimeError "Provider dispatch returned no owned outcome"))
  else match w.rememberProviderEffect c with
    | (w, .error e) => (w, .error e)
    | (w, .ok ()) => recordOutcome c stored (w.settleAccounting address c result)

/-! ## Operations -/

end World

/-- An operation on the claims of an accumulator, or on the accumulator. -/
inductive Operation where
  /-- A claim without a budget is constructed. -/
  | construct (address : ℕ)
  /-- The claim of a reservation is constructed. -/
  | reserve (address : ℕ) (request : PreparedProviderRequest) (budget : ProviderDispatchBudget)
  | beginManagedEffect (address : ℕ) (effectId : String) (stored : Bool)
  | markDispatched (address : ℕ)
  | settle (address : ℕ) (result : Option Outcome)
  | settleManaged (address : ℕ) (result : Option Outcome) (stored : Bool)
  | moveConstruct (address source : ℕ)
  | moveAssign (address source : ℕ)
  | destroy (address : ℕ)
  | add (usage : Usage)
  | restoreCharge (amount : ℕ)
  | restoreReservation (amount : ℕ)

namespace World

/-- The part of a result that is not a claim. -/
def constructResult (address : ℕ) : World × Except Exn ProviderBudgetClaim → World × Except Exn ℕ
  | (w, .ok c) => (w.setClaim address c, .ok c.amount)
  | (w, .error e) => (w, .error e)

/-- **One operation.** It is none on an address without an object, or for a
new object on an address that has one. -/
def step (w : World) : Operation → Option (World × Except Exn ℕ)
  | .construct address =>
    if w.claims.contains address then none
    else some (w.setClaim address { budget := noBudget }, .ok 0)
  | .reserve address request budget =>
    if w.claims.contains address then none
    else some (constructResult address (w.reserveProviderDispatch request budget))
  | .beginManagedEffect address effectId stored =>
    (w.claims.find? address).map fun c => w.beginManagedEffect address c effectId stored
  | .markDispatched address => (w.claims.find? address).map fun c => w.markDispatched address c
  | .settle address result => (w.claims.find? address).map fun c => w.settle address c result
  | .settleManaged address result stored =>
    (w.claims.find? address).map fun c => w.settleManaged address c result stored
  | .moveConstruct address source =>
    if w.claims.contains address then none
    else (w.claims.find? source).map fun c =>
      ((w.setClaim source c.moved).setClaim address c, .ok 0)
  | .moveAssign address source =>
    (w.claims.find? address).bind fun c => (w.claims.find? source).map fun other =>
      if address = source then (w, .ok 0)
      else (((w.releaseUndispatched c).setClaim source other.moved).setClaim address other, .ok 0)
  | .destroy address =>
    (w.claims.find? address).map fun c =>
      ({ w.releaseUndispatched c with claims := w.claims.erase address }, .ok 0)
  | .add usage =>
    some ({ w with
      bank := w.bank.add usage
      ledger := w.ledger.charge ((finalCharge usage).getD 0) }, .ok 0)
  | .restoreCharge amount =>
    some ({ w with
      bank := w.bank.restoreCharge amount, ledger := w.ledger.charge amount }, .ok 0)
  | .restoreReservation amount =>
    some ({ w with
      bank := w.bank.restoreReservation amount, ledger := w.ledger.restore amount }, .ok 0)

end World

end NeoGraph.Provider
