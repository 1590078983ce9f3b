import Mathlib
import NeoGraph.Lib.SortedMap
import NeoGraph.Program.Budget

/-!
# Monetary holds

The money of a run is kept on an account: a ceiling, what was charged, and
what is reserved by holds of calls that are not settled. A hold is an object
that is moved and destroyed: it reserves its quote at preflight, and then its
reservation is given back, or replaced by a charge, exactly once – explicitly
or when it is destroyed.

The state of the model is the account and the holds of all variables. Holds
are numbered when they are made, and the state logs what happens to each
number; nothing reads the log.
-/

namespace NeoGraph.Program

open List Function Equiv

/-! ## The account -/

/-- Where the amount of a record came from. -/
inductive MonetaryEvidence where
  | reported
  | estimated
  | held
deriving DecidableEq, Repr

/-- A charge. -/
structure MonetaryRecord where
  callId : String
  evidence : MonetaryEvidence
  microunits : BitVec 64
  reservedMicrounits : BitVec 64
  reason : String
deriving DecidableEq

/-- An account: what may be spent, was spent and is held. -/
structure MonetaryAccount where
  ceiling : BitVec 64
  charged : BitVec 64 := 0
  reserved : BitVec 64 := 0
  records : List MonetaryRecord := []

/-- Addition stops at the largest number. -/
def saturatingAdd (left right : BitVec 64) : BitVec 64 :=
  if BitVec.allOnes 64 - left < right then BitVec.allOnes 64 else left + right

/-- The smaller of two amounts. -/
def minAmount (left right : BitVec 64) : BitVec 64 := if right < left then right else left

namespace MonetaryAccount

/-- An amount is reserved if it fits. -/
def tryReserve (a : MonetaryAccount) (amount : BitVec 64) : Option MonetaryAccount :=
  let committed := saturatingAdd a.charged a.reserved
  if a.ceiling < committed ∨ a.ceiling - committed < amount then none
  else some { a with reserved := saturatingAdd a.reserved amount }

/-- Less is reserved, but not less than nothing. -/
def release (a : MonetaryAccount) (amount : BitVec 64) : MonetaryAccount :=
  { a with reserved := a.reserved - minAmount a.reserved amount }

/-- A hold is replaced by a charge. -/
def settle (a : MonetaryAccount) (held : BitVec 64) (record : MonetaryRecord) : MonetaryAccount :=
  { a with
    reserved := a.reserved - minAmount a.reserved held
    charged := saturatingAdd a.charged record.microunits
    records := a.records ++ [record] }

end MonetaryAccount

/-! ## Holds -/

/-- What the catalogue says about a call. -/
structure MonetaryQuote where
  hold : BitVec 64 := 0
  /-- Why the call cannot be bounded. -/
  blocker : String := ""
deriving DecidableEq

/-- A hold, as a variable has it. A default hold has no account. -/
structure MonetaryHold where
  account : Bool := false
  quote : MonetaryQuote := {}
  callId : String := ""
  reserved : BitVec 64 := 0
  dispatched : Bool := false
  done : Bool := true
  /-- The number of the hold. -/
  serial : ℕ := 0
deriving DecidableEq

/-- The hold is neither settled nor released. -/
def MonetaryHold.isOpen (h : MonetaryHold) : Bool := h.account && !h.done

/-- The record of a call whose outcome is unknown. -/
def unknownOutcomeRecord (h : MonetaryHold) (reason : String) : MonetaryRecord :=
  ⟨h.callId, .held, h.quote.hold, h.quote.hold, reason⟩

/-- What happened to a hold. -/
inductive MonetaryEvent where
  | preflighted (serial : ℕ)
  | returned (serial : ℕ)
  | charged (serial : ℕ)
deriving DecidableEq

/-- An account with the amounts that are held on it. -/
structure MonetaryState where
  account : MonetaryAccount
  holds : SortedMap ℕ MonetaryHold := ∅
  made : ℕ := 0
  events : List MonetaryEvent := []

namespace MonetaryState

/-- The hold of a variable. -/
def hold (s : MonetaryState) (i : ℕ) : MonetaryHold := s.holds.getD i {}

def setHold (s : MonetaryState) (i : ℕ) (h : MonetaryHold) : MonetaryState :=
  { s with holds := s.holds.insert i h }

/-- The reservation of a hold is given back. -/
def giveBack (s : MonetaryState) (i : ℕ) : MonetaryState :=
  let h := s.hold i
  { s.setHold i { h with done := true } with
    account := s.account.release h.reserved
    events := s.events ++ [.returned h.serial] }

/-- The reservation of a hold is replaced by a charge. -/
def charge (s : MonetaryState) (i : ℕ) (record : MonetaryRecord) : MonetaryState :=
  let h := s.hold i
  { s.setHold i { h with done := true } with
    account := s.account.settle h.reserved record
    events := s.events ++ [.returned h.serial, .charged h.serial] }

/-- An open hold is charged what the record says. -/
def settleRecord (s : MonetaryState) (i : ℕ) (record : Option MonetaryRecord) : MonetaryState :=
  if (s.hold i).isOpen then
    match record with
    | none => s.giveBack i
    | some record => s.charge i record
  else s

/-- An open hold is charged in full when nobody knows what it cost. -/
def settleUnknown (s : MonetaryState) (i : ℕ) (reason : String) : MonetaryState :=
  if (s.hold i).isOpen then s.charge i (unknownOutcomeRecord (s.hold i) reason) else s

def release (s : MonetaryState) (i : ℕ) : MonetaryState :=
  if (s.hold i).isOpen then s.giveBack i else s

/-- What happens when a hold is destroyed or replaced. -/
def finish (s : MonetaryState) (i : ℕ) : MonetaryState :=
  if (s.hold i).dispatched then s.settleUnknown i "the dispatch ended without an outcome"
  else s.release i

/-- The log with one more preflight. -/
def logPreflight (s : MonetaryState) (serial : ℕ) : MonetaryState :=
  { s with events := s.events ++ [.preflighted serial] }

/-- A refused hold loses its account. -/
def refuse (s : MonetaryState) (i : ℕ) : MonetaryState :=
  s.setHold i { s.hold i with account := false }

/-- A hold reserves its quote. -/
def grant (s : MonetaryState) (i : ℕ) (account : MonetaryAccount) : MonetaryState :=
  { s.setHold i { s.hold i with reserved := (s.hold i).quote.hold, done := false } with
    account := account }

/-- The quote of a hold is reserved, unless the call cannot be bounded or does
not fit. -/
def preflight (s : MonetaryState) (i : ℕ) : MonetaryState :=
  if (s.hold i).account then
    if (s.hold i).quote.blocker.isEmpty then
      match s.account.tryReserve (s.hold i).quote.hold with
      | none => (s.logPreflight (s.hold i).serial).refuse i
      | some account => (s.logPreflight (s.hold i).serial).grant i account
    else (s.logPreflight (s.hold i).serial).refuse i
  else s

/-- A hold is made and takes the place of a variable's hold. -/
def construct (s : MonetaryState) (i : ℕ) (quote : MonetaryQuote) (callId : String) :
    MonetaryState :=
  let s := s.finish i
  { s.setHold i ⟨true, quote, callId, 0, false, true, s.made⟩ with made := s.made + 1 }

/-- The hold of `j` is moved to `i`; what is left in `j` has no account. -/
def move (s : MonetaryState) (i j : ℕ) : MonetaryState :=
  if i = j then s
  else
    let s := s.finish i
    let h := s.hold j
    (s.setHold i h).setHold j { h with account := false, reserved := 0, done := true }

/-- A hold that is still open is settled, and gone. -/
def destroy (s : MonetaryState) (i : ℕ) : MonetaryState := (s.finish i).setHold i {}

end MonetaryState

/-- An operation on the holds of one account. -/
inductive MonetaryOp where
  | construct (i : ℕ) (quote : MonetaryQuote) (callId : String)
  | preflight (i : ℕ)
  | markDispatched (i : ℕ)
  /-- A known outcome: a record, or none if nothing was accepted. -/
  | settle (i : ℕ) (record : Option MonetaryRecord)
  | settleUnknown (i : ℕ) (reason : String)
  | release (i : ℕ)
  | move (i j : ℕ)
  | destroy (i : ℕ)
  | setCeiling (ceiling : BitVec 64)

namespace MonetaryState

/-- An operation of the interface. -/
def step (s : MonetaryState) : MonetaryOp → MonetaryState
  | .construct i quote callId => s.construct i quote callId
  | .preflight i => s.preflight i
  | .markDispatched i => s.setHold i { s.hold i with dispatched := true }
  | .settle i record => s.settleRecord i record
  | .settleUnknown i reason => s.settleUnknown i reason
  | .release i => s.release i
  | .move i j => s.move i j
  | .destroy i => s.destroy i
  | .setCeiling ceiling => { s with account := { s.account with ceiling := ceiling } }

/-- An account after a sequence of operations. -/
def run (ceiling : BitVec 64) (ops : List MonetaryOp) : MonetaryState :=
  ops.foldl step { account := { ceiling := ceiling } }

/-! ## What the account should say -/

/-- What a hold reserves. -/
def openAmount (h : MonetaryHold) : ℕ := if h.isOpen then h.reserved.toNat else 0

/-- The reservations of the holds that are neither settled nor released. -/
def openReservations (s : MonetaryState) : ℕ := s.holds.sumBy fun _ h => openAmount h

/-- The recorded charges. -/
def recordedCharges (s : MonetaryState) : ℕ :=
  (s.account.records.map fun r => r.microunits.toNat).sum

/-- The numbers of the holds that were preflighted. -/
def preflights (s : MonetaryState) : List ℕ :=
  s.events.filterMap fun
    | .preflighted k => some k
    | _ => none

/-- The numbers of the holds whose reservation was given back. -/
def returns (s : MonetaryState) : List ℕ :=
  s.events.filterMap fun
    | .returned k => some k
    | _ => none

/-- The numbers of the holds that charged. -/
def charges (s : MonetaryState) : List ℕ :=
  s.events.filterMap fun
    | .charged k => some k
    | _ => none

/-- The operation charges no more than was reserved and does not lower the
ceiling. -/
def Modest (s : MonetaryState) : MonetaryOp → Prop
  | .settle i (some record) => (s.hold i).isOpen = true → record.microunits ≤ (s.hold i).reserved
  | .setCeiling ceiling => s.account.ceiling ≤ ceiling
  | _ => True

/-! ## The account in unbounded arithmetic -/

variable {b amount : BitVec 64}

theorem toNat_saturatingAdd {a : BitVec 64} (h : a.toNat + b.toNat < 2 ^ 64) :
    (saturatingAdd a b).toNat = a.toNat + b.toNat := by
  have hs : (BitVec.allOnes 64 - a).toNat = 2 ^ 64 - 1 - a.toNat := by
    rw [BitVec.toNat_sub_of_le (BitVec.le_def.mpr (by rw [BitVec.toNat_allOnes]; omega)),
      BitVec.toNat_allOnes]
  have hlt : ¬BitVec.allOnes 64 - a < b := by
    rw [BitVec.lt_def, hs]
    omega
  unfold saturatingAdd
  rw [if_neg hlt, toNat_add_of_lt h]

theorem le_saturatingAdd (a b : BitVec 64) : a.toNat ≤ (saturatingAdd a b).toNat := by
  by_cases h : a.toNat + b.toNat < 2 ^ 64
  · rw [toNat_saturatingAdd h]
    exact Nat.le_add_right _ _
  have hs : (BitVec.allOnes 64 - a).toNat = 2 ^ 64 - 1 - a.toNat := by
    rw [BitVec.toNat_sub_of_le (BitVec.le_def.mpr (by rw [BitVec.toNat_allOnes]; omega)),
      BitVec.toNat_allOnes]
  have hlt : BitVec.allOnes 64 - a < b := by
    rw [BitVec.lt_def, hs]
    omega
  unfold saturatingAdd
  rw [if_pos hlt, BitVec.toNat_allOnes]
  omega

theorem toNat_sub_minAmount {a : BitVec 64} (h : b.toNat ≤ a.toNat) :
    (a - minAmount a b).toNat = a.toNat - b.toNat := by
  unfold minAmount
  split_ifs with hlt
  · exact BitVec.toNat_sub_of_le (BitVec.le_def.mpr h)
  rw [BitVec.lt_def] at hlt
  rw [BitVec.sub_self]
  show 0 = _
  omega

variable {a a' : MonetaryAccount}

/-- A reservation that is granted fits under the ceiling. -/
theorem tryReserve_eq_some
    (ht : a.charged.toNat + a.reserved.toNat < 2 ^ 64) (h : a.tryReserve amount = some a') :
    a.charged.toNat + a.reserved.toNat + amount.toNat ≤ a.ceiling.toNat
      ∧ a'.reserved.toNat = a.reserved.toNat + amount.toNat
      ∧ a'.charged = a.charged ∧ a'.records = a.records ∧ a'.ceiling = a.ceiling := by
  unfold MonetaryAccount.tryReserve at h
  dsimp only at h
  split at h
  · cases h
  rename_i hft
  rw [not_or, BitVec.lt_def, BitVec.lt_def, toNat_saturatingAdd ht] at hft
  have hle : saturatingAdd a.charged a.reserved ≤ a.ceiling := by
    rw [BitVec.le_def, toNat_saturatingAdd ht]
    omega
  have hs := BitVec.toNat_sub_of_le hle
  rw [hs, toNat_saturatingAdd ht] at hft
  have hc := a.ceiling.isLt
  have hamt : a.reserved.toNat + amount.toNat < 2 ^ 64 := by omega
  cases h
  exact ⟨by omega, toNat_saturatingAdd hamt, rfl, rfl, rfl⟩

/-! ## Holds of variables -/

theorem hold_setHold (s : MonetaryState) (i j : ℕ) (h : MonetaryHold) :
    (s.setHold i h).hold j = if j = i then h else s.hold j := by
  show ((s.holds.insert i h).find? j).getD {} = _
  rw [SortedMap.find?_insert]
  split <;> rfl

/-- Replacing a hold replaces its reservation in the sum. -/
theorem openReservations_setHold (s : MonetaryState) (i : ℕ) (h : MonetaryHold) :
    (s.setHold i h).openReservations + openAmount (s.hold i)
      = s.openReservations + openAmount h := by
  have hsm := s.holds.sumBy_insert i h fun _ h => openAmount h
  have hh : openAmount (s.hold i) = (s.holds.find? i).elim 0 fun h => openAmount h := by
    show openAmount ((s.holds.find? i).getD {}) = _
    cases s.holds.find? i with
    | none | some h => rfl
  rw [hh]
  exact hsm

theorem openAmount_le (s : MonetaryState) (i : ℕ) : openAmount (s.hold i) ≤ s.openReservations := by
  have h := openReservations_setHold s i {}
  have hz : openAmount {} = 0 := rfl
  rw [hz, Nat.add_zero] at h
  omega

/-! ## The invariant -/

/-- What always holds of an account and its holds. -/
structure Inv (s : MonetaryState) : Prop where
  reserved : s.account.reserved.toNat = s.openReservations
  charged : s.account.charged.toNat = s.recordedCharges
  /-- A number belongs to one variable. -/
  unique : ∀ i j, (s.hold i).account = true → (s.hold j).account = true →
    (s.hold i).serial = (s.hold j).serial → i = j
  made : ∀ i, (s.hold i).account = true → (s.hold i).serial < s.made
  preflighted : ∀ i, (s.hold i).isOpen = true → (s.hold i).serial ∈ s.preflights
  unreturned : ∀ i, (s.hold i).isOpen = true → (s.hold i).serial ∉ s.returns
  quoted : ∀ i, (s.hold i).isOpen = true → (s.hold i).reserved = (s.hold i).quote.hold
  preflights_made : ∀ k ∈ s.preflights, k < s.made
  returns_preflighted : ∀ k ∈ s.returns, k ∈ s.preflights
  charges_returned : ∀ k ∈ s.charges, k ∈ s.returns
  returns_nodup : s.returns.Nodup
  charges_nodup : s.charges.Nodup

theorem inv_init (ceiling : BitVec 64) : Inv { account := { ceiling := ceiling } } where
  reserved := rfl
  charged := rfl
  unique := nofun
  made := nofun
  preflighted := nofun
  unreturned := nofun
  quoted := nofun
  preflights_made := nofun
  returns_preflighted := nofun
  charges_returned := nofun
  returns_nodup := nodup_nil
  charges_nodup := nodup_nil

/-- The totals of an account stay in range. -/
def NoOverflow (s : MonetaryState) : Prop := s.recordedCharges + s.openReservations < 2 ^ 64

/-! ## Single operations -/

variable {h : MonetaryHold}

theorem openAmount_of_isOpen (hop : h.isOpen = true) :
    openAmount h = h.reserved.toNat := if_pos hop

theorem openAmount_of_not_isOpen (hop : h.isOpen = false) :
    openAmount h = 0 := if_neg (by rw [hop]; exact Bool.false_ne_true)

theorem account_of_isOpen (hop : h.isOpen = true) : h.account = true :=
  (Bool.and_eq_true_iff.mp hop).1

theorem isOpen_done (h : MonetaryHold) : ({ h with done := true } : MonetaryHold).isOpen = false :=
  Bool.and_false _

variable {s s' : MonetaryState} {i : ℕ}

/-- The log is in order: a number is preflighted after it was made, returned
after it was preflighted, and charged when it is returned, once each. -/
structure Logged (s : MonetaryState) : Prop where
  preflights_made : ∀ k ∈ s.preflights, k < s.made
  returns_preflighted : ∀ k ∈ s.returns, k ∈ s.preflights
  charges_returned : ∀ k ∈ s.charges, k ∈ s.returns
  returns_nodup : s.returns.Nodup
  charges_nodup : s.charges.Nodup

theorem Inv.logged (hs : Inv s) : Logged s :=
  ⟨hs.preflights_made, hs.returns_preflighted, hs.charges_returned, hs.returns_nodup,
    hs.charges_nodup⟩

theorem Logged.congr (h : Logged s) (he : s'.events = s.events) (hm : s'.made = s.made) :
    Logged s' := by
  obtain ⟨account', holds', made', events'⟩ := s'
  subst he hm
  exact ⟨h.1, h.2, h.3, h.4, h.5⟩

/-- Every hold of the new state is a hold of the old one, with its number. -/
theorem Inv.of_origin (hs : Inv s) {origin : ℕ → ℕ} (hinj : Injective origin)
    (hr : s'.account.reserved.toNat = s'.openReservations)
    (hc : s'.account.charged.toNat = s'.recordedCharges) (hm : s'.made = s.made)
    (ho : ∀ k, (s'.hold k).account = true → (s.hold (origin k)).account = true
      ∧ (s'.hold k).serial = (s.hold (origin k)).serial)
    (hop : ∀ k, (s'.hold k).isOpen = true → (s'.hold k).serial ∈ s'.preflights
      ∧ (s'.hold k).serial ∉ s'.returns ∧ (s'.hold k).reserved = (s'.hold k).quote.hold)
    (hlog : Logged s') : Inv s' := by
  refine ⟨hr, hc, fun k l hk hl heq => hinj ?_, fun k hk => ?_,
    fun k hk => (hop k hk).1, fun k hk => (hop k hk).2.1, fun k hk => (hop k hk).2.2,
    hlog.preflights_made, hlog.returns_preflighted, hlog.charges_returned, hlog.returns_nodup,
    hlog.charges_nodup⟩
  · obtain ⟨hk, hks⟩ := ho k hk
    obtain ⟨hl, hls⟩ := ho l hl
    exact hs.unique _ _ hk hl (hks ▸ hls ▸ heq)
  · obtain ⟨hk, hks⟩ := ho k hk
    rw [hks, hm]
    exact hs.made _ hk

/-- An open hold is preflighted and not returned, and reserves its quote. -/
theorem Inv.of_isOpen (hs : Inv s) (hop : (s.hold i).isOpen = true) :
    (s.hold i).serial ∈ s.preflights ∧ (s.hold i).serial ∉ s.returns
      ∧ (s.hold i).reserved = (s.hold i).quote.hold :=
  ⟨hs.preflighted i hop, hs.unreturned i hop, hs.quoted i hop⟩

theorem account_setHold
    (ha : h.account = true → (s.hold i).account = true ∧ h.serial = (s.hold i).serial)
    (j : ℕ) (hj : ((s.setHold i h).hold j).account = true) :
    (s.hold j).account = true ∧ ((s.setHold i h).hold j).serial = (s.hold j).serial := by
  rw [hold_setHold] at hj ⊢
  split_ifs at hj with hji
  · rw [if_pos hji, hji]
    exact ha hj
  · rw [if_neg hji]
    exact ⟨hj, rfl⟩

/-- A hold is replaced by one that reserves the same. -/
theorem Inv.setHold (hs : Inv s) (hamt : openAmount h = openAmount (s.hold i))
    (hop : h.isOpen = true → (s.hold i).isOpen = true ∧ h.reserved = h.quote.hold)
    (ha : h.account = true → (s.hold i).account = true ∧ h.serial = (s.hold i).serial) :
    Inv (s.setHold i h) := by
  have hsm := openReservations_setHold s i h
  refine hs.of_origin injective_id ?_ hs.charged rfl (account_setHold ha) ?_
    (hs.logged.congr rfl rfl)
  · show s.account.reserved.toNat = _
    rw [hs.reserved]
    omega
  · intro j hj
    obtain ⟨-, hjs⟩ := account_setHold ha j (account_of_isOpen hj)
    rw [hjs]
    rw [hold_setHold] at hj ⊢
    split_ifs at hj with hji
    · obtain ⟨hold, hqt⟩ := hop hj
      obtain ⟨hp, hret, -⟩ := hs.of_isOpen hold
      rw [if_pos hji, hji]
      exact ⟨hp, hret, hqt⟩
    · rw [if_neg hji]
      exact hs.of_isOpen hj

/-- A hold is closed: what was reserved for it is reserved no more. -/
theorem Inv.close (hs : Inv s) (hop : (s.hold i).isOpen = true) {account : MonetaryAccount}
    {events : List MonetaryEvent}
    (hs' : s' = { s.setHold i { s.hold i with done := true } with
      account := account, events := s.events ++ events })
    (hr : account.reserved
      = s.account.reserved - minAmount s.account.reserved (s.hold i).reserved)
    (hc : account.charged.toNat = s'.recordedCharges)
    (hpreflights : s'.preflights = s.preflights)
    (hreturns : s'.returns = s.returns ++ [(s.hold i).serial])
    (hch : s'.charges = s.charges ∨ s'.charges = s.charges ++ [(s.hold i).serial]) :
    Inv s' := by
  have hsum := openReservations_setHold s i { s.hold i with done := true }
  rw [openAmount_of_not_isOpen (isOpen_done _), openAmount_of_isOpen hop, Nat.add_zero] at hsum
  obtain ⟨hserial, hfr, -⟩ := hs.of_isOpen hop
  have hlog : Logged s' := by
    refine ⟨?_, ?_, ?_, ?_, ?_⟩
    · rw [hpreflights, hs']
      exact hs.preflights_made
    · rw [hreturns, hpreflights]
      exact List.forall_mem_append.mpr
        ⟨hs.returns_preflighted, List.forall_mem_singleton.mpr hserial⟩
    · rw [hreturns]
      obtain hch | hch := hch
      · rw [hch]
        exact fun k hk => List.mem_append_left _ (hs.charges_returned k hk)
      rw [hch]
      exact List.forall_mem_append.mpr
        ⟨fun k hk => List.mem_append_left _ (hs.charges_returned k hk),
          List.forall_mem_singleton.mpr (List.mem_append_right _ (List.mem_singleton_self _))⟩
    · rw [hreturns]
      exact List.Nodup.append hs.returns_nodup (List.nodup_singleton _)
        (List.disjoint_singleton.mpr hfr)
    · obtain hch | hch := hch
      · rw [hch]
        exact hs.charges_nodup
      · rw [hch]
        exact List.Nodup.append hs.charges_nodup (List.nodup_singleton _)
          (List.disjoint_singleton.mpr fun hm => hfr (hs.charges_returned _ hm))
  have ha : ∀ j, (s'.hold j).account = true →
      (s.hold j).account = true ∧ (s'.hold j).serial = (s.hold j).serial := by
    rw [hs']
    exact account_setHold fun hj => ⟨hj, rfl⟩
  refine hs.of_origin Function.injective_id ?_ (hs' ▸ hc) (by rw [hs']; rfl) ha ?_ hlog
  · rw [hs']
    show account.reserved.toNat = (s.setHold i _).openReservations
    rw [hr, toNat_sub_minAmount, hs.reserved]
    · omega
    · rw [hs.reserved]
      omega
  · intro j hj
    -- a hold that is still open is another one
    have hne : j ≠ i := by
      rintro rfl
      rw [hs'] at hj
      have hj : ((s.setHold j _).hold j).isOpen = true := hj
      rw [hold_setHold, if_pos rfl, isOpen_done] at hj
      cases hj
    have hsm : s'.hold j = s.hold j := by
      rw [hs']
      show (s.setHold i _).hold j = _
      rw [hold_setHold, if_neg hne]
    rw [hsm] at hj ⊢
    rw [hpreflights, hreturns, List.mem_append, List.mem_singleton, not_or]
    obtain ⟨hp, hret, hqt⟩ := hs.of_isOpen hj
    exact ⟨hp, ⟨hret, fun heq =>
      hne (hs.unique j i (account_of_isOpen hj) (account_of_isOpen hop) heq)⟩, hqt⟩

theorem Inv.giveBack (hs : Inv s) (hop : (s.hold i).isOpen = true) : Inv (s.giveBack i) := by
  refine hs.close hop rfl rfl hs.charged ?_ ?_ (.inl ?_)
  · show (s.events ++ [_]).filterMap _ = _
    rw [filterMap_append]
    exact append_nil _
  · show (s.events ++ [_]).filterMap _ = _
    rw [filterMap_append]
    rfl
  · show (s.events ++ [_]).filterMap _ = _
    rw [filterMap_append]
    exact append_nil _

theorem recordedCharges_charge (record : MonetaryRecord) :
    (s.charge i record).recordedCharges = s.recordedCharges + record.microunits.toNat := by
  show ((s.account.records ++ [record]).map _).sum = _
  rw [map_append, sum_append]
  rfl

variable {record : MonetaryRecord}

theorem Inv.charge (hs : Inv s) (hop : (s.hold i).isOpen = true)
    (ht : (s.charge i record).recordedCharges < 2 ^ 64) : Inv (s.charge i record) := by
  rw [recordedCharges_charge] at ht
  rw [← hs.charged] at ht
  refine hs.close hop rfl rfl ?_ ?_ ?_ (.inr ?_)
  · rw [recordedCharges_charge, ← hs.charged]
    exact toNat_saturatingAdd ht
  · show (s.events ++ [_, _]).filterMap _ = _
    rw [filterMap_append]
    exact append_nil _
  all_goals
    show (s.events ++ [_, _]).filterMap _ = _
    rw [filterMap_append]
    rfl

/-- **What the end of a hold may do**: nothing, or its reservation is given
back, or it is replaced by such a charge. -/
inductive Ends (s : MonetaryState) (i : ℕ) (charged : MonetaryRecord → Prop) :
    MonetaryState → Prop where
  | stays : Ends s i charged s
  | giveBack : (s.hold i).isOpen = true → Ends s i charged (s.giveBack i)
  | charge (record : MonetaryRecord) : (s.hold i).isOpen = true → charged record →
      Ends s i charged (s.charge i record)

theorem settleRecord_ends (s : MonetaryState) (i : ℕ) (record : Option MonetaryRecord) :
    Ends s i (fun r => record = some r) (s.settleRecord i record) := by
  unfold settleRecord
  split_ifs with hop
  · cases record with
    | none => exact .giveBack hop
    | some record => exact .charge record hop rfl
  · exact .stays

theorem settleUnknown_ends (s : MonetaryState) (i : ℕ) (reason : String) :
    Ends s i (fun r => r.microunits = (s.hold i).quote.hold) (s.settleUnknown i reason) := by
  unfold settleUnknown
  split_ifs with hop
  · exact .charge _ hop rfl
  · exact .stays

theorem release_ends (s : MonetaryState) (i : ℕ) (charged : MonetaryRecord → Prop) :
    Ends s i charged (s.release i) := by
  unfold release
  split_ifs with hop
  · exact .giveBack hop
  · exact .stays

theorem finish_ends (s : MonetaryState) (i : ℕ) :
    Ends s i (fun r => r.microunits = (s.hold i).quote.hold) (s.finish i) := by
  unfold finish
  split
  · exact settleUnknown_ends s i _
  · exact release_ends s i _

variable {charged : MonetaryRecord → Prop}

theorem Inv.ends (hs : Inv s) (h : Ends s i charged s') (ht : s'.recordedCharges < 2 ^ 64) :
    Inv s' := by
  cases h with
  | stays => exact hs
  | giveBack hop => exact hs.giveBack hop
  | charge record hop _ => exact hs.charge hop ht

/-- A hold that is destroyed or replaced is closed. -/
theorem isOpen_finish (s : MonetaryState) (i : ℕ) : ((s.finish i).hold i).isOpen = false := by
  have hs : ∀ account events, (MonetaryState.hold { s.setHold i { s.hold i with done := true }
      with account := account, events := events } i).isOpen = false := by
    intro account events
    show ((s.setHold i _).hold i).isOpen = false
    rw [hold_setHold, if_pos rfl]
    exact isOpen_done _
  unfold finish settleUnknown release
  by_cases hop : (s.hold i).isOpen = true
  · rw [if_pos hop, if_pos hop]
    split <;> exact hs _ _
  · rw [if_neg hop, if_neg hop, ite_self]
    exact Bool.eq_false_iff.mpr hop

/-- A new hold takes the place of a closed one. -/
theorem Inv.add (hs : Inv s) (hcl : (s.hold i).isOpen = false) (hh : h.isOpen = false)
    (hserial : h.serial = s.made) : Inv { s.setHold i h with made := s.made + 1 } := by
  have hhl : ∀ j, MonetaryState.hold { s.setHold i h with made := s.made + 1 } j
      = if j = i then h else s.hold j := fun j => hold_setHold s i j h
  generalize hs' : ({ s.setHold i h with made := s.made + 1 } : MonetaryState) = s' at hhl
  have hcs : ∀ j, (s'.hold j).account = true →
      (j = i ∧ (s'.hold j).serial = s.made ∧ (s'.hold j).isOpen = false)
        ∨ (s.hold j).account = true ∧ s'.hold j = s.hold j := by
    intro j hj
    rw [hhl] at hj ⊢
    split_ifs at hj with hji
    · rw [if_pos hji]
      exact .inl ⟨hji, hserial, hh⟩
    · rw [if_neg hji]
      exact .inr ⟨hj, rfl⟩
  have hop : ∀ j, (s'.hold j).isOpen = true → (s'.hold j).serial ∈ s.preflights
      ∧ (s'.hold j).serial ∉ s.returns ∧ (s'.hold j).reserved = (s'.hold j).quote.hold := by
    intro j hj
    obtain ⟨-, -, hn⟩ | ⟨-, hje⟩ := hcs j (account_of_isOpen hj)
    · rw [hn] at hj
      cases hj
    · rw [hje] at hj ⊢
      exact hs.of_isOpen hj
  have hsm := openReservations_setHold s i h
  rw [openAmount_of_not_isOpen hcl, openAmount_of_not_isOpen hh] at hsm
  subst hs'
  refine ⟨?_, hs.charged, ?_, ?_, fun j hj => (hop j hj).1, fun j hj => (hop j hj).2.1,
    fun j hj => (hop j hj).2.2, fun k hk => Nat.lt_succ_of_lt (hs.preflights_made k hk),
    hs.returns_preflighted, hs.charges_returned, hs.returns_nodup, hs.charges_nodup⟩
  · show s.account.reserved.toNat = (s.setHold i h).openReservations
    rw [hs.reserved]
    omega
  · intro j k hj hk heq
    obtain ⟨rfl, hjs, -⟩ | ⟨hjold, hje⟩ := hcs j hj
    · obtain ⟨rfl, -⟩ | ⟨hkold, hke⟩ := hcs k hk
      · rfl
      · have hlt := hs.made k hkold
        rw [← hke, ← heq, hjs] at hlt
        exact absurd hlt (lt_irrefl _)
    · obtain ⟨rfl, hks, -⟩ | ⟨hkold, hke⟩ := hcs k hk
      · have hlt := hs.made j hjold
        rw [← hje, heq, hks] at hlt
        exact absurd hlt (lt_irrefl _)
      · rw [hje, hke] at heq
        exact hs.unique j k hjold hkold heq
  · intro j hj
    obtain ⟨-, hjs, -⟩ | ⟨hold, hje⟩ := hcs j hj
    · rw [hjs]
      exact Nat.lt_succ_self _
    · rw [hje]
      exact Nat.lt_succ_of_lt (hs.made j hold)

theorem Inv.construct (hs : Inv s) {quote : MonetaryQuote} {callId : String}
    (ht : (s.construct i quote callId).recordedCharges < 2 ^ 64) :
    Inv (s.construct i quote callId) :=
  (hs.ends (finish_ends s i) ht).add (isOpen_finish s i) rfl rfl

variable {j : ℕ}

/-- A hold moves to a variable whose own hold is closed. -/
theorem Inv.transfer (hs : Inv s) (hij : i ≠ j) (hcl : (s.hold i).isOpen = false) :
    Inv ((s.setHold i (s.hold j)).setHold j
      { s.hold j with account := false, reserved := 0, done := true }) := by
  generalize hl : ({ s.hold j with account := false, reserved := 0, done := true } :
      MonetaryHold) = left
  have hn : left.account = false := by rw [← hl]
  have hnot : left.isOpen = false := by rw [MonetaryHold.isOpen, hn, Bool.false_and]
  -- the variable a hold of the new state was in before
  have ho : ∀ k, (((s.setHold i (s.hold j)).setHold j left).hold k).account = true →
      ((s.setHold i (s.hold j)).setHold j left).hold k = s.hold (swap i j k) := by
    intro k hk
    rw [hold_setHold, hold_setHold] at hk ⊢
    by_cases hkj : k = j
    · rw [if_pos hkj, hn] at hk
      cases hk
    rw [if_neg hkj]
    by_cases hki : k = i
    · rw [if_pos hki, hki, swap_apply_left]
    · rw [if_neg hki, swap_apply_of_ne_of_ne hki hkj]
  refine hs.of_origin (swap i j).injective ?_ hs.charged rfl (fun k hk => ?_) (fun k hk => ?_)
    (hs.logged.congr rfl rfl)
  · show s.account.reserved.toNat = MonetaryState.openReservations _
    have hf := openReservations_setHold s i (s.hold j)
    have hsec := openReservations_setHold (s.setHold i (s.hold j)) j left
    rw [hold_setHold, if_neg (Ne.symm hij), openAmount_of_not_isOpen hnot] at hsec
    rw [openAmount_of_not_isOpen hcl] at hf
    rw [hs.reserved]
    omega
  · have heq := ho k hk
    rw [heq] at hk ⊢
    exact ⟨hk, rfl⟩
  · have heq := ho k (account_of_isOpen hk)
    rw [heq] at hk ⊢
    exact hs.of_isOpen hk

theorem Inv.move (hs : Inv s) (ht : (s.move i j).recordedCharges < 2 ^ 64) :
    Inv (s.move i j) := by
  unfold MonetaryState.move at ht ⊢
  by_cases hij : i = j
  · rw [if_pos hij]
    exact hs
  rw [if_neg hij] at ht ⊢
  exact (hs.ends (finish_ends s i) ht).transfer hij (isOpen_finish s i)

theorem Inv.destroy (hs : Inv s) (ht : (s.destroy i).recordedCharges < 2 ^ 64) :
    Inv (s.destroy i) := by
  refine (hs.ends (finish_ends s i) ht).setHold ?_ nofun nofun
  rw [openAmount_of_not_isOpen (isOpen_finish s i)]
  rfl

theorem preflights_logPreflight (s : MonetaryState) (k : ℕ) :
    (s.logPreflight k).preflights = s.preflights ++ [k] := by
  show (s.events ++ [_]).filterMap _ = _
  rw [filterMap_append]
  rfl

theorem returns_logPreflight (s : MonetaryState) (k : ℕ) :
    (s.logPreflight k).returns = s.returns := by
  show (s.events ++ [_]).filterMap _ = _
  rw [filterMap_append]
  exact append_nil _

theorem charges_logPreflight (s : MonetaryState) (k : ℕ) :
    (s.logPreflight k).charges = s.charges := by
  show (s.events ++ [_]).filterMap _ = _
  rw [filterMap_append]
  exact append_nil _

/-- A line of the log. -/
theorem Inv.logPreflight (hs : Inv s) {k : ℕ} (hk : k < s.made) : Inv (s.logPreflight k) := by
  refine hs.of_origin injective_id hs.reserved hs.charged rfl (fun _ hj => ⟨hj, rfl⟩)
    (fun j hj => ?_) ⟨?_, ?_, ?_, ?_, ?_⟩
  · obtain ⟨hp, hret, hqt⟩ := hs.of_isOpen hj
    rw [preflights_logPreflight, returns_logPreflight]
    exact ⟨mem_append_left _ hp, hret, hqt⟩
  · rw [preflights_logPreflight]
    exact forall_mem_append.mpr ⟨hs.preflights_made, forall_mem_singleton.mpr hk⟩
  · rw [returns_logPreflight, preflights_logPreflight]
    exact fun k hk => mem_append_left _ (hs.returns_preflighted k hk)
  · rw [charges_logPreflight, returns_logPreflight]
    exact hs.charges_returned
  · rw [returns_logPreflight]
    exact hs.returns_nodup
  · rw [charges_logPreflight]
    exact hs.charges_nodup

theorem Inv.refuse (hs : Inv s) (hcl : (s.hold i).isOpen = false) : Inv (s.refuse i) := by
  refine hs.setHold ?_ nofun nofun
  rw [openAmount_of_not_isOpen hcl]
  rfl

/-- A reservation is granted to a hold that has none. -/
theorem Inv.grant (hs : Inv s) (ht : s.NoOverflow) (hcl : (s.hold i).isOpen = false)
    (ha : (s.hold i).account = true) (hp : (s.hold i).serial ∈ s.preflights)
    (hunreturned : (s.hold i).serial ∉ s.returns) {account : MonetaryAccount}
    (hreserve : s.account.tryReserve (s.hold i).quote.hold = some account) :
    Inv (s.grant i account) := by
  have hrg : s.account.charged.toNat + s.account.reserved.toNat < 2 ^ 64 := by
    rw [hs.charged, hs.reserved]
    exact ht
  obtain ⟨-, hr, hc, hrc, -⟩ := tryReserve_eq_some hrg hreserve
  have hsm := openReservations_setHold s i
    { s.hold i with reserved := (s.hold i).quote.hold, done := false }
  have ho : ({ s.hold i with reserved := (s.hold i).quote.hold, done := false } :
      MonetaryHold).isOpen = true := by
    show ((s.hold i).account && true) = true
    rw [ha]
    rfl
  refine hs.of_origin injective_id ?_ ?_ rfl (account_setHold fun hj => ⟨hj, rfl⟩) ?_
    (hs.logged.congr rfl rfl)
  · show account.reserved.toNat = (s.setHold i _).openReservations
    rw [openAmount_of_not_isOpen hcl, openAmount_of_isOpen ho] at hsm
    rw [hr, hs.reserved]
    exact hsm.symm
  · show account.charged.toNat = (account.records.map _).sum
    rw [hc, hrc]
    exact hs.charged
  · intro j hj
    have hh : (s.grant i account).hold j = if j = i then _ else s.hold j :=
      hold_setHold s i j { s.hold i with reserved := (s.hold i).quote.hold, done := false }
    rw [hh] at hj ⊢
    split_ifs at hj with hji
    · rw [if_pos hji]
      exact ⟨hp, hunreturned, rfl⟩
    · rw [if_neg hji]
      exact hs.of_isOpen hj

theorem preflights_refuse (s : MonetaryState) (i : ℕ) : (s.refuse i).preflights = s.preflights := by
  unfold refuse setHold MonetaryState.preflights
  rfl

theorem preflights_grant (s : MonetaryState) (i : ℕ) (account : MonetaryAccount) :
    (s.grant i account).preflights = s.preflights := by
  unfold grant setHold MonetaryState.preflights
  rfl

theorem preflights_preflight (ha : (s.hold i).account = true) :
    (s.preflight i).preflights = s.preflights ++ [(s.hold i).serial] := by
  rw [← preflights_logPreflight]
  unfold preflight
  rw [if_pos ha]
  split
  · split
    · exact preflights_refuse _ i
    · exact preflights_grant _ i _
  · exact preflights_refuse _ i

/-- The call before the dispatch. -/
theorem Inv.preflight (hs : Inv s) (ht : s.NoOverflow)
    (ho : (s.preflight i).preflights.Nodup) : Inv (s.preflight i) := by
  by_cases ha : (s.hold i).account = true
  · rw [preflights_preflight ha, nodup_append] at ho
    have hfr : (s.hold i).serial ∉ s.preflights := fun hm =>
      ho.2.2 _ hm _ (mem_singleton_self _) rfl
    have hcl : (s.hold i).isOpen = false :=
      Bool.eq_false_iff.mpr fun hop => hfr (hs.preflighted i hop)
    have hlog := hs.logPreflight (hs.made i ha)
    unfold MonetaryState.preflight
    rw [if_pos ha]
    split
    · split
      · exact hlog.refuse hcl
      rename_i account hr
      refine hlog.grant ht hcl ha ?_ ?_ hr
      · rw [preflights_logPreflight]
        exact mem_append_right _ (mem_singleton_self _)
      · rw [returns_logPreflight]
        exact fun hm => hfr (hs.returns_preflighted _ hm)
    · exact hlog.refuse hcl
  · unfold MonetaryState.preflight
    rw [if_neg ha]
    exact hs

variable {op : MonetaryOp}

/-- **One operation keeps the account right.** -/
theorem Inv.step (hs : Inv s) (ht : s.NoOverflow) (hnx : (s.step op).recordedCharges < 2 ^ 64)
    (ho : (s.step op).preflights.Nodup) : Inv (s.step op) := by
  cases op with
  | construct i quote callId => exact hs.construct hnx
  | preflight i => exact hs.preflight ht ho
  | markDispatched i =>
    exact hs.setHold rfl (fun hop => ⟨hop, hs.quoted i hop⟩) fun ha => ⟨ha, rfl⟩
  | settle i record => exact hs.ends (settleRecord_ends s i record) hnx
  | settleUnknown i reason => exact hs.ends (settleUnknown_ends s i reason) hnx
  | release i => exact hs.ends (release_ends s i fun _ => True) hnx
  | move i j => exact hs.move hnx
  | destroy i => exact hs.destroy hnx
  | setCeiling ceiling =>
    exact ⟨hs.reserved, hs.charged, hs.unique, hs.made, hs.preflighted, hs.unreturned, hs.quoted,
      hs.preflights_made, hs.returns_preflighted, hs.charges_returned, hs.returns_nodup,
      hs.charges_nodup⟩

/-! ## Charges only add up -/

/-- Some operation can follow: the log and the charges grow. -/
structure Grows (s s' : MonetaryState) : Prop where
  events : s.events <+: s'.events
  charged : s.account.charged.toNat ≤ s'.account.charged.toNat

theorem Grows.refl (s : MonetaryState) : Grows s s := ⟨prefix_rfl, le_rfl⟩

theorem Grows.trans {s t u : MonetaryState} (h : Grows s t) (h' : Grows t u) : Grows s u :=
  ⟨h.events.trans h'.events, h.charged.trans h'.charged⟩

theorem Ends.grows (h : Ends s i charged s') : Grows s s' := by
  cases h with
  | stays => exact Grows.refl s
  | giveBack _ => exact ⟨prefix_append _ _, le_rfl⟩
  | charge record _ _ => exact ⟨prefix_append _ _, le_saturatingAdd _ _⟩

theorem grows_finish (s : MonetaryState) (i : ℕ) : Grows s (s.finish i) := (finish_ends s i).grows

theorem grows_logPreflight (s : MonetaryState) (k : ℕ) : Grows s (s.logPreflight k) :=
  ⟨prefix_append _ _, le_rfl⟩

theorem grows_refuse (s : MonetaryState) (i : ℕ) : Grows s (s.refuse i) :=
  ⟨prefix_rfl, le_rfl⟩

theorem charged_of_tryReserve (h : a.tryReserve amount = some a') : a'.charged = a.charged := by
  unfold MonetaryAccount.tryReserve at h
  dsimp only at h
  split at h
  · cases h
  · cases h
    rfl

theorem grows_preflight (s : MonetaryState) (i : ℕ) : Grows s (s.preflight i) := by
  unfold preflight
  have hlog := grows_logPreflight s (s.hold i).serial
  split
  · split
    · split
      · exact hlog.trans (grows_refuse _ i)
      rename_i account hr
      refine ⟨hlog.events, ?_⟩
      show _ ≤ account.charged.toNat
      rw [charged_of_tryReserve hr]
    · exact hlog.trans (grows_refuse _ i)
  · exact Grows.refl s

/-- What is charged stays charged. -/
theorem grows_step (s : MonetaryState) (op : MonetaryOp) : Grows s (s.step op) := by
  cases op with
  | construct i quote callId | destroy i =>
    exact ⟨(grows_finish s i).events, (grows_finish s i).charged⟩
  | preflight i => exact grows_preflight s i
  | markDispatched i | setCeiling ceiling => exact ⟨prefix_rfl, le_rfl⟩
  | settle i record => exact (settleRecord_ends s i record).grows
  | settleUnknown i reason => exact (settleUnknown_ends s i reason).grows
  | release i => exact (release_ends s i fun _ => True).grows
  | move i j =>
    show Grows s (s.move i j)
    unfold move
    split
    · exact Grows.refl s
    · exact ⟨(grows_finish s i).events, (grows_finish s i).charged⟩

theorem run_append (ceiling : BitVec 64) (ops : List MonetaryOp) (op : MonetaryOp) :
    run ceiling (ops ++ [op]) = (run ceiling ops).step op := foldl_append

variable {ops : List MonetaryOp} {ceiling : BitVec 64}

theorem grows_run {pre : List MonetaryOp} (h : pre <+: ops) :
    Grows (run ceiling pre) (run ceiling ops) := by
  obtain ⟨rest, rfl⟩ := h
  induction rest using reverseRecOn with
  | nil =>
    rw [append_nil]
    exact Grows.refl _
  | append_singleton rest op ih =>
    rw [← List.append_assoc, run_append]
    exact ih.trans (grows_step _ op)

theorem Grows.preflights_grow {s : MonetaryState} (h : Grows s s') :
    s.preflights <+: s'.preflights := h.events.filterMap _

/-- **The invariant of every run.** -/
theorem inv_run (ho : (run ceiling ops).preflights.Nodup)
    (ht : ∀ pre, pre <+: ops → (run ceiling pre).NoOverflow) : Inv (run ceiling ops) := by
  induction ops using reverseRecOn with
  | nil => exact inv_init ceiling
  | append_singleton ops op ih =>
    have hp : ops <+: ops ++ [op] := prefix_append ops [op]
    have hs := ih ((grows_run hp).preflights_grow.sublist.nodup ho)
      fun pre h => ht pre (h.trans hp)
    have hnx := ht _ prefix_rfl
    rw [run_append] at ho hnx ⊢
    exact hs.step (ht ops hp) ((Nat.le_add_right _ _).trans_lt hnx) ho

/-! ## The ceiling -/

/-- What is charged and reserved fits under the ceiling. -/
def Within (s : MonetaryState) : Prop :=
  s.account.charged.toNat + s.account.reserved.toNat ≤ s.account.ceiling.toNat

theorem saturatingAdd_le (a b : BitVec 64) : (saturatingAdd a b).toNat ≤ a.toNat + b.toNat := by
  by_cases h : a.toNat + b.toNat < 2 ^ 64
  · exact (toNat_saturatingAdd h).le
  · have := (saturatingAdd a b).isLt
    omega

/-- The reservation of an open hold is part of what is reserved. -/
theorem Inv.reserved_le (hs : Inv s) (hop : (s.hold i).isOpen = true) :
    (s.hold i).reserved.toNat ≤ s.account.reserved.toNat := by
  rw [hs.reserved, ← openAmount_of_isOpen hop]
  exact openAmount_le s i

theorem account_giveBack (s : MonetaryState) (i : ℕ) :
    (s.giveBack i).account = s.account.release (s.hold i).reserved := rfl

theorem account_charge (s : MonetaryState) (i : ℕ) (record : MonetaryRecord) :
    (s.charge i record).account = s.account.settle (s.hold i).reserved record := rfl

theorem Within.giveBack (hw : s.Within) (hs : Inv s) (hop : (s.hold i).isOpen = true) :
    (s.giveBack i).Within := by
  have hle := hs.reserved_le hop
  unfold Within at hw ⊢
  rw [account_giveBack]
  unfold MonetaryAccount.release
  dsimp only
  rw [toNat_sub_minAmount hle]
  omega

theorem Within.charge (hw : s.Within) (hs : Inv s) (hop : (s.hold i).isOpen = true)
    (hm : record.microunits ≤ (s.hold i).reserved) : (s.charge i record).Within := by
  have hle := hs.reserved_le hop
  have had := saturatingAdd_le s.account.charged record.microunits
  rw [BitVec.le_def] at hm
  unfold Within at hw ⊢
  rw [account_charge]
  unfold MonetaryAccount.settle
  dsimp only
  rw [toNat_sub_minAmount hle]
  omega

/-- The end of a hold that is charged no more than was reserved. -/
theorem Within.ends (hw : s.Within) (hs : Inv s) (h : Ends s i charged s')
    (hm : (s.hold i).isOpen = true →
      ∀ record, charged record → record.microunits ≤ (s.hold i).reserved) : s'.Within := by
  cases h with
  | stays => exact hw
  | giveBack hop => exact hw.giveBack hs hop
  | charge record hop hc => exact hw.charge hs hop (hm hop record hc)

/-- A call with an unknown outcome is charged what was reserved for it. -/
theorem Inv.quote_le (hs : Inv s) (hop : (s.hold i).isOpen = true) (record : MonetaryRecord)
    (hr : record.microunits = (s.hold i).quote.hold) :
    record.microunits ≤ (s.hold i).reserved := by
  rw [hr, hs.quoted i hop]
  exact BitVec.le_refl _

theorem Within.finish (hw : s.Within) (hs : Inv s) : (s.finish i).Within :=
  hw.ends hs (finish_ends s i) hs.quote_le

theorem Within.preflight (hw : s.Within) (hs : Inv s) (ht : s.NoOverflow) :
    (s.preflight i).Within := by
  have hrg : s.account.charged.toNat + s.account.reserved.toNat < 2 ^ 64 := by
    rw [hs.charged, hs.reserved]
    exact ht
  unfold MonetaryState.preflight
  split
  · split
    · split
      · exact hw
      rename_i account hreserve
      obtain ⟨hft, hr, hc, -, hcl⟩ := tryReserve_eq_some hrg hreserve
      show account.charged.toNat + account.reserved.toNat ≤ account.ceiling.toNat
      rw [hr, hc, hcl]
      omega
    · exact hw
  · exact hw

/-- No step spends more than is held. -/
theorem Within.step (hw : s.Within) (hs : Inv s) (ht : s.NoOverflow)
    (hm : Modest s op) : (s.step op).Within := by
  cases op with
  | construct i quote callId | destroy i => exact hw.finish (i := i) hs
  | preflight i => exact hw.preflight hs ht
  | markDispatched i => exact hw
  | settle i record =>
    refine hw.ends hs (settleRecord_ends s i record) fun hop r hr => ?_
    subst hr
    exact hm hop
  | settleUnknown i reason => exact hw.ends hs (settleUnknown_ends s i reason) hs.quote_le
  | release i => exact hw.ends hs (release_ends s i fun _ => False) fun _ _ => nofun
  | move i j =>
    show (s.move i j).Within
    unfold MonetaryState.move
    split
    · exact hw
    · exact hw.finish (i := i) hs
  | setCeiling ceiling => exact hw.trans hm

theorem within_run (ho : (run ceiling ops).preflights.Nodup)
    (ht : ∀ pre, pre <+: ops → (run ceiling pre).NoOverflow)
    (hm : ∀ pre op, pre ++ [op] <+: ops → Modest (run ceiling pre) op) :
    (run ceiling ops).Within := by
  induction ops using reverseRecOn with
  | nil =>
    show (0#64).toNat + (0#64).toNat ≤ ceiling.toNat
    rw [BitVec.toNat_zero]
    exact Nat.zero_le _
  | append_singleton ops op ih =>
    have hp : ops <+: ops ++ [op] := prefix_append ops [op]
    have ho' := (grows_run hp).preflights_grow.sublist.nodup ho
    have ht' := fun pre (h : pre <+: ops) => ht pre (h.trans hp)
    have hw := ih ho' ht' fun pre op h => hm pre op (h.trans hp)
    rw [run_append]
    exact hw.step (inv_run ho' ht') (ht ops hp) (hm ops op prefix_rfl)

/-- A reservation is granted only if it fits under the ceiling. -/
theorem fits_of_preflight (hs : Inv s) (ht : s.NoOverflow)
    (h : ((s.preflight i).hold i).isOpen = true) :
    s.account.charged.toNat + s.account.reserved.toNat + ((s.preflight i).hold i).reserved.toNat
      ≤ s.account.ceiling.toNat := by
  have hrg : s.account.charged.toNat + s.account.reserved.toNat < 2 ^ 64 := by
    rw [hs.charged, hs.reserved]
    exact ht
  have href : ∀ s : MonetaryState, ((s.refuse i).hold i).isOpen = false := by
    intro s
    unfold refuse
    rw [hold_setHold, if_pos rfl]
    rfl
  by_cases ha : (s.hold i).account = true
  · unfold preflight at h ⊢
    rw [if_pos ha] at h ⊢
    split_ifs at h with hblocker
    · rw [if_pos hblocker]
      split at h
      · rw [href] at h
        cases h
      rename_i account hr
      have hgr : ∀ s : MonetaryState,
          ((s.grant i account).hold i).reserved = (s.hold i).quote.hold := by
        intro s
        show ((s.setHold i { s.hold i with
          reserved := (s.hold i).quote.hold, done := false }).hold i).reserved = _
        rw [hold_setHold, if_pos rfl]
      rw [hgr]
      exact (tryReserve_eq_some hrg hr).1
    · rw [href] at h
      cases h
  · unfold preflight at h
    rw [if_neg ha] at h
    exact absurd (account_of_isOpen h) ha

/-- **Money is not counted twice.** Whatever the operations, in whatever
order: what is reserved is what the open holds reserve, what is charged is
what the records say, a reservation is given back at most once and a hold
charges at most once, charges only grow, and a reservation is granted only
under the ceiling. -/
theorem money_counted_once (ceiling : BitVec 64) (ops : List MonetaryOp)
    (ho : (run ceiling ops).preflights.Nodup)
    (ht : ∀ pre, pre <+: ops → (run ceiling pre).NoOverflow) :
    (run ceiling ops).account.reserved.toNat = (run ceiling ops).openReservations
      ∧ (run ceiling ops).account.charged.toNat = (run ceiling ops).recordedCharges
      ∧ (run ceiling ops).returns.Nodup ∧ (run ceiling ops).charges.Nodup
      ∧ (∀ pre, pre <+: ops →
        (run ceiling pre).account.charged ≤ (run ceiling ops).account.charged)
      ∧ (∀ pre i, pre ++ [.preflight i] <+: ops →
        ((run ceiling (pre ++ [.preflight i])).hold i).isOpen = true →
        (run ceiling pre).account.charged.toNat + (run ceiling pre).account.reserved.toNat
          + ((run ceiling (pre ++ [.preflight i])).hold i).reserved.toNat
          ≤ (run ceiling pre).account.ceiling.toNat)
      ∧ ((∀ pre op, pre ++ [op] <+: ops → Modest (run ceiling pre) op) →
        (run ceiling ops).account.charged.toNat + (run ceiling ops).account.reserved.toNat
          ≤ (run ceiling ops).account.ceiling.toNat) := by
  have hs := inv_run ho ht
  refine ⟨hs.reserved, hs.charged, hs.returns_nodup, hs.charges_nodup, ?_, ?_,
    within_run ho ht⟩
  · exact fun pre hp => BitVec.le_def.mpr (grows_run hp).charged
  · intro pre i hp hop
    have hle : pre <+: ops := (prefix_append pre _).trans hp
    have hs' := inv_run ((grows_run hle).preflights_grow.sublist.nodup ho)
      fun pre' h => ht pre' (h.trans hle)
    rw [run_append] at hop ⊢
    exact fits_of_preflight hs' (ht pre hle) hop

/-- Two calls: the first is charged less than its quote, the second one is
destroyed after it was dispatched. -/
def twoCalls : List MonetaryOp :=
  [.construct 0 { hold := 5 } "a", .preflight 0, .construct 1 { hold := 4 } "b", .preflight 1,
    .markDispatched 0, .move 2 1, .markDispatched 2,
    .settle 0 (some ⟨"a", .reported, 3, 5, ""⟩), .destroy 2]

instance (s : MonetaryState) : Decidable s.NoOverflow :=
  inferInstanceAs (Decidable (_ < _))

theorem money_counted_once_twoCalls :
    (run 9 twoCalls).account.charged = 7 ∧ (run 9 twoCalls).account.reserved = 0
      ∧ (run 9 twoCalls).charges.Nodup := by
  have ho : (run 9 twoCalls).preflights.Nodup := by decide
  have ht : ∀ pre ∈ twoCalls.inits, (run 9 pre).NoOverflow := by decide
  have h := money_counted_once 9 twoCalls ho fun pre hp =>
    ht pre ((mem_inits pre twoCalls).mpr hp)
  exact ⟨by decide, by decide, h.2.2.2.1⟩

end MonetaryState

end NeoGraph.Program
