import Mathlib
import NeoGraph.Program.Budget

/-!
# The journal of a run

A run is a chain of journal records. A record says how far the run is, what
it may still use (`remainingBudget`), and what published work has withheld
(`inflightReservation`). A record is replaced by one that is a valid
transition of it, the settlement of its reservation, or the release of its
reservation.

Along a chain of valid records, authority never grows: what remains and what
is withheld never increases together, in any field.
-/

namespace NeoGraph.Program

open Bool

/-! ## Records -/

/-- Where a run is. -/
inductive ContinuationState where
  | running
  | interrupted
  | completed
  | cancelled
  | budgetExhausted
  | timedOut
  | failed
  | ambiguousEffect
  | checkpointIncompatible
deriving DecidableEq, Repr

/-- A run that does not go on. -/
def ContinuationState.isFinal (state : ContinuationState) : Bool :=
  state ≠ .running && state ≠ .interrupted && state ≠ .ambiguousEffect

/-- Where an operation of a run goes on. -/
structure ProgramContinuation where
  operationId : String
  state : ContinuationState := .running
  attempt : BitVec 64 := 0
  /-- Grows each time the run is taken over. -/
  fence : BitVec 64 := 1
deriving DecidableEq

/-- Which checkpoint of a core a run stands on. -/
structure CoreCheckpointIdentity where
  coreName : String
  coreGenerationId : String
  coreThreadId : String
  checkpointId : String
  checkpointSchemaVersion : BitVec 32
deriving DecidableEq

/-- A journal record. -/
structure ProgramJournalRecord where
  id : String
  previousId : String
  runId : String
  programVersionId : String
  bundleId : String
  sequence : BitVec 64
  continuation : ProgramContinuation
  remainingBudget : RunBudget := {}
  inflightReservation : RunBudget := {}
  coreCheckpoint : Option CoreCheckpointIdentity := none
  timestampMs : ℤ := 0
deriving DecidableEq

/-! ## Transitions -/

def sameCheckpoint (lhs rhs : CoreCheckpointIdentity) : Bool := lhs = rhs

def sameCore (lhs rhs : CoreCheckpointIdentity) : Bool :=
  lhs.coreName = rhs.coreName && lhs.coreGenerationId = rhs.coreGenerationId
    && lhs.checkpointSchemaVersion = rhs.checkpointSchemaVersion

/-- Both records have a checkpoint, and the same one. -/
def keepsCheckpoint (previous next : ProgramJournalRecord) : Bool :=
  match previous.coreCheckpoint, next.coreCheckpoint with
  | some p, some n => sameCheckpoint p n
  | _, _ => false

/-- Both records have the same checkpoint, or none. -/
def sameOptionalCheckpoint (previous next : ProgramJournalRecord) : Bool :=
  match previous.coreCheckpoint, next.coreCheckpoint with
  | some p, some n => sameCheckpoint p n
  | none, none => true
  | _, _ => false

/-- A checkpoint is replaced by one of the same Core. -/
def keepsCore (previous next : ProgramJournalRecord) : Bool :=
  match previous.coreCheckpoint, next.coreCheckpoint with
  | none, _ => true
  | some p, some n => sameCore p n
  | some _, none => false

/-- The fence of a run that is taken over. -/
def validTakeoverFence (previous next : ProgramJournalRecord) (allowSettlement : Bool) : Bool :=
  !allowSettlement && previous.continuation.state = .running && next.continuation.state = .running
    && previous.continuation.fence ≠ BitVec.allOnes 64
    && next.continuation.fence = previous.continuation.fence + 1
    && next.remainingBudget = previous.remainingBudget
    && next.inflightReservation = previous.inflightReservation

/-- Identity, fence and budget of a transition. -/
def validStep (previous next : ProgramJournalRecord) (allowSettlement : Bool) : Bool :=
  previous.sequence ≠ BitVec.allOnes 64 && next.previousId = previous.id
    && next.sequence = previous.sequence + 1
    && next.runId = previous.runId && next.programVersionId = previous.programVersionId
    && next.bundleId = previous.bundleId
    && next.continuation.operationId = previous.continuation.operationId
    && previous.continuation.fence ≠ 0
    && (next.continuation.fence = previous.continuation.fence
      || validTakeoverFence previous next allowSettlement)
    && budgetTotalAtMost next.remainingBudget next.inflightReservation
      previous.remainingBudget previous.inflightReservation
    && (allowSettlement || budgetAtMost next.remainingBudget previous.remainingBudget)

/-- The next attempt. -/
def isNextAttempt (previous next : ProgramJournalRecord) : Bool :=
  previous.continuation.attempt ≠ BitVec.allOnes 64
    && next.continuation.attempt = previous.continuation.attempt + 1

def sameAttempt (previous next : ProgramJournalRecord) : Bool :=
  next.continuation.attempt = previous.continuation.attempt

/-- The states a state may be followed by. -/
def validStates (previous next : ProgramJournalRecord) (allowSettlement : Bool) : Bool :=
  match previous.continuation.state with
  | .running =>
    sameAttempt previous next
      && if next.continuation.state = .running then
          if allowSettlement then keepsCore previous next
          else sameOptionalCheckpoint previous next
        else true
  | .interrupted =>
    if next.continuation.state = .failed || next.continuation.state = .cancelled
        || next.continuation.state = .ambiguousEffect then
      sameAttempt previous next && keepsCheckpoint previous next
    else
      next.continuation.state = .running && isNextAttempt previous next
        && keepsCheckpoint previous next
  | .ambiguousEffect =>
    keepsCheckpoint previous next
      && if next.continuation.state = .ambiguousEffect || next.continuation.state = .failed then
          sameAttempt previous next
        else next.continuation.state = .running && isNextAttempt previous next
  | state =>
    next.continuation.state = .failed && sameAttempt previous next && state ≠ .failed
      && sameOptionalCheckpoint previous next

def validTransitionImpl (previous next : ProgramJournalRecord) (allowSettlement : Bool) : Bool :=
  validStep previous next allowSettlement && keepsCore previous next
    && validStates previous next allowSettlement

/-- A record may follow another. -/
def isValidProgramJournalTransition (previous next : ProgramJournalRecord) : Bool :=
  validTransitionImpl previous next false

/-! ## Reservations -/

/-- What remains and what is withheld, unless the sum overflows. -/
def checkedTotal {w : ℕ} (available reserved : BitVec w) : Option (BitVec w) :=
  if BitVec.allOnes w - available < reserved then none else some (available + reserved)

/-- What a settled reservation leaves. -/
def settledReservationBudget (previous : ProgramJournalRecord) (usage : ProgramUsage) :
    Option RunBudget := do
  let available := previous.remainingBudget
  let reserved := previous.inflightReservation
  let wallTimeMs ← checkedTotal available.wallTimeMs reserved.wallTimeMs
  let modelTokens ← checkedTotal available.modelTokens reserved.modelTokens
  let monetaryMicrounits ← checkedTotal available.monetaryMicrounits reserved.monetaryMicrounits
  let maxProgramOperations ←
    checkedTotal available.maxProgramOperations reserved.maxProgramOperations
  let maxCoreSteps ← checkedTotal available.maxCoreSteps reserved.maxCoreSteps
  let maxConcurrency ← checkedTotal available.maxConcurrency reserved.maxConcurrency
  let maxDynamicCompiles ← checkedTotal available.maxDynamicCompiles reserved.maxDynamicCompiles
  let maxChildDepth ← checkedTotal available.maxChildDepth reserved.maxChildDepth
  let maxTotalChildren ← checkedTotal available.maxTotalChildren reserved.maxTotalChildren
  if usage.wallTimeMs ≤ wallTimeMs ∧ usage.modelTokens ≤ modelTokens
      ∧ usage.monetaryMicrounits ≤ monetaryMicrounits
      ∧ usage.programOperations ≤ maxProgramOperations ∧ usage.coreSteps ≤ maxCoreSteps then
    some {
      wallTimeMs := wallTimeMs - usage.wallTimeMs
      modelTokens := modelTokens - usage.modelTokens
      monetaryMicrounits := monetaryMicrounits - usage.monetaryMicrounits
      maxConcurrency := maxConcurrency
      maxProgramOperations := maxProgramOperations - usage.programOperations
      maxCoreSteps := maxCoreSteps - usage.coreSteps
      maxDynamicCompiles := maxDynamicCompiles
      maxChildDepth := maxChildDepth
      maxTotalChildren := maxTotalChildren
      -- the retry ceiling is not part of a reservation
      maxNodeRetries := available.maxNodeRetries }
  else none

/-- The same where a reservation is settled with its usage. -/
def isValidProgramJournalReservationSettlement (previous next : ProgramJournalRecord)
    (usage : ProgramUsage) : Bool :=
  !budgetIsEmpty previous.inflightReservation && budgetIsEmpty next.inflightReservation
    && validTransitionImpl previous next true
    && settledReservationBudget previous usage = some next.remainingBudget

/-- At most what was used is missing. -/
def withinUsed (value whole used : BitVec 64) : Bool :=
  (if used < whole then whole - used else 0) ≤ value && value ≤ whole

/-- A ceiling stays within what the retries of an attempt left. -/
def ceilingWithinUsed (value whole : Option (BitVec 64)) (used : BitVec 64) : Bool :=
  match whole, value with
  | some whole, some value => withinUsed value whole used
  | none, none => true
  | _, _ => false

/-- The same where a reservation is given back. -/
def isValidProgramJournalReservationRelease (previous next : ProgramJournalRecord)
    (usage : ProgramUsage) : Bool :=
  !budgetIsEmpty previous.inflightReservation && budgetIsEmpty next.inflightReservation
    && validTransitionImpl previous next true
    && match settledReservationBudget previous {} with
      | none => false
      | some whole =>
        let got := next.remainingBudget
        ceilingWithinUsed got.maxNodeRetries whole.maxNodeRetries usage.nodeRetries
          && withinUsed got.wallTimeMs whole.wallTimeMs usage.wallTimeMs
          && withinUsed got.modelTokens whole.modelTokens usage.modelTokens
          && withinUsed got.monetaryMicrounits whole.monetaryMicrounits usage.monetaryMicrounits
          && withinUsed got.maxProgramOperations whole.maxProgramOperations
            usage.programOperations
          && withinUsed got.maxCoreSteps whole.maxCoreSteps usage.coreSteps
          && got.maxConcurrency = whole.maxConcurrency
          && got.maxDynamicCompiles = whole.maxDynamicCompiles
          && got.maxChildDepth = whole.maxChildDepth
          && got.maxTotalChildren = whole.maxTotalChildren

/-- One record replaces another. -/
def JournalStep (previous next : ProgramJournalRecord) : Prop :=
  isValidProgramJournalTransition previous next = true
    ∨ (∃ usage, isValidProgramJournalReservationSettlement previous next usage = true)
    ∨ ∃ usage, isValidProgramJournalReservationRelease previous next usage = true

/-! ## Authority along a journal -/

/-- What the authority of a run is, `steps` records later. -/
structure Later (steps : ℕ) (previous next : ProgramJournalRecord) : Prop where
  total : ∀ f, next.remainingBudget.amount f + next.inflightReservation.amount f
    ≤ previous.remainingBudget.amount f + previous.inflightReservation.amount f
  retries : next.remainingBudget.retryCeiling ≤ previous.remainingBudget.retryCeiling
  sequence : next.sequence.toNat = previous.sequence.toNat + steps
  fence : previous.continuation.fence ≤ next.continuation.fence
  attempt : previous.continuation.attempt ≤ next.continuation.attempt
  final : previous.continuation.state.isFinal = true → next.continuation.state.isFinal = true
  checkpoint : previous.coreCheckpoint.isSome = true → next.coreCheckpoint.isSome = true

theorem Later.refl (record : ProgramJournalRecord) : Later 0 record record where
  total _ := le_rfl
  retries := le_rfl
  sequence := rfl
  fence := BitVec.le_refl _
  attempt := BitVec.le_refl _
  final h := h
  checkpoint h := h

theorem Later.trans {m n : ℕ} {a b c : ProgramJournalRecord} (h : Later m a b)
    (h' : Later n b c) : Later (m + n) a c where
  total f := (h'.total f).trans (h.total f)
  retries := h'.retries.trans h.retries
  sequence := by rw [h'.sequence, h.sequence, Nat.add_assoc]
  fence := BitVec.le_trans h.fence h'.fence
  attempt := BitVec.le_trans h.attempt h'.attempt
  final hfin := h'.final (h.final hfin)
  checkpoint hcp := h'.checkpoint (h.checkpoint hcp)

variable {x : BitVec 64}

/-- A number that is not the largest one grows by one. -/
theorem toNat_add_one_of_ne (h : x ≠ BitVec.allOnes 64) : (x + 1).toNat = x.toNat + 1 := by
  have hne : x.toNat ≠ 2 ^ 64 - 1 := fun heq => h (BitVec.eq_of_toNat_eq heq)
  have hlt := x.isLt
  exact toNat_add_of_lt (by
    show x.toNat + 1 < 2 ^ 64
    omega)

theorem le_add_one_of_ne (h : x ≠ BitVec.allOnes 64) : x ≤ x + 1 := by
  rw [BitVec.le_def, toNat_add_one_of_ne h]
  exact Nat.le_succ _

variable {next previous : ProgramJournalRecord} {allowSettlement : Bool}

/-- The fence never falls. -/
theorem fence_of_validStep
    (h : next.continuation.fence = previous.continuation.fence
      ∨ validTakeoverFence previous next allowSettlement = true) :
    previous.continuation.fence ≤ next.continuation.fence := by
  obtain h | h := h
  · rw [h]
    exact BitVec.le_refl _
  unfold validTakeoverFence at h
  simp only [and_eq_true, decide_eq_true_eq] at h
  obtain ⟨⟨⟨⟨-, hm⟩, hf⟩, -⟩, -⟩ := h
  rw [hf]
  exact le_add_one_of_ne hm

theorem attempt_of_isNextAttempt (h : isNextAttempt previous next = true) :
    previous.continuation.attempt ≤ next.continuation.attempt := by
  unfold isNextAttempt at h
  rw [and_eq_true, decide_eq_true_iff, decide_eq_true_iff] at h
  rw [h.2]
  exact le_add_one_of_ne h.1

theorem attempt_of_sameAttempt (h : sameAttempt previous next = true) :
    previous.continuation.attempt ≤ next.continuation.attempt := by
  rw [of_decide_eq_true h]
  exact BitVec.le_refl _

/-- A transition keeps the attempt or starts the next one. -/
theorem attempt_of_validStates (h : validStates previous next allowSettlement = true) :
    previous.continuation.attempt ≤ next.continuation.attempt := by
  unfold validStates at h
  split at h
  · rw [and_eq_true] at h
    exact attempt_of_sameAttempt h.1
  · split at h
    · rw [and_eq_true] at h
      exact attempt_of_sameAttempt h.1
    · simp only [and_eq_true] at h
      exact attempt_of_isNextAttempt h.1.2
  · rw [and_eq_true] at h
    have h := h.2
    split at h
    · exact attempt_of_sameAttempt h
    · rw [and_eq_true] at h
      exact attempt_of_isNextAttempt h.2
  · simp only [and_eq_true] at h
    exact attempt_of_sameAttempt h.1.1.2

/-- A final state is followed by failure only. -/
theorem final_of_validStates (h : validStates previous next allowSettlement = true)
    (hfin : previous.continuation.state.isFinal = true) :
    next.continuation.state.isFinal = true := by
  unfold validStates at h
  split at h
  · rename_i hst
    rw [hst] at hfin
    cases hfin
  · rename_i hst
    rw [hst] at hfin
    cases hfin
  · rename_i hst
    rw [hst] at hfin
    cases hfin
  · rw [and_eq_true, and_eq_true, and_eq_true, decide_eq_true_iff] at h
    rw [h.1.1.1]
    rfl

/-- A run that has a checkpoint keeps one. -/
theorem checkpoint_of_keepsCore (h : keepsCore previous next = true)
    (hs : previous.coreCheckpoint.isSome = true) : next.coreCheckpoint.isSome = true := by
  unfold keepsCore at h
  split at h
  · rename_i hn
    rw [hn] at hs
    cases hs
  · rename_i hnx
    rw [hnx]
    rfl
  · cases h

/-- **A transition keeps authority**, whether it settles a reservation or
not. -/
theorem later_of_validTransitionImpl (h : validTransitionImpl previous next allowSettlement = true)
    : Later 1 previous next := by
  unfold validTransitionImpl validStep at h
  simp only [and_eq_true, or_eq_true, decide_eq_true_eq] at h
  obtain ⟨⟨⟨⟨⟨⟨⟨⟨⟨⟨⟨⟨hm, -⟩, hs⟩, -⟩, -⟩, -⟩, -⟩, -⟩, hf⟩, ht⟩, -⟩, hc⟩,
    hsts⟩ := h
  obtain ⟨ht, hrty⟩ := budgetTotalAtMost_iff.mp ht
  exact {
    total := ht
    retries := hrty
    sequence := by rw [hs, toNat_add_one_of_ne hm]
    fence := fence_of_validStep hf
    attempt := attempt_of_validStates hsts
    final := final_of_validStates hsts
    checkpoint := checkpoint_of_keepsCore hc }

theorem and_right_of_and {a b c : Bool} (h : (a && b && c) = true) : b = true :=
  (and_eq_true_iff.mp (and_eq_true_iff.mp h).1).2

theorem JournalStep.later (h : JournalStep previous next) : Later 1 previous next := by
  obtain h | ⟨usage, h⟩ | ⟨usage, h⟩ := h
  · exact later_of_validTransitionImpl h
  · exact later_of_validTransitionImpl (and_right_of_and h)
  · exact later_of_validTransitionImpl (and_right_of_and h)

/-- **Authority never grows along a journal.** From any record of a chain to
any later one, what remains and what is withheld never increases together,
the retry ceiling never rises, the sequence counts the records, fence and
attempt never decrease, a final run stays final, and a checkpoint stays. -/
theorem journal_authority {records : List ProgramJournalRecord} (h : records.IsChain JournalStep)
    {i j : ℕ} (hij : i ≤ j) (hj : j < records.length) : Later (j - i) records[i] records[j] := by
  obtain ⟨n, rfl⟩ := Nat.exists_eq_add_of_le hij
  rw [Nat.add_sub_cancel_left]
  induction n with
  | zero => exact Later.refl _
  | succ n ih =>
    have hs := List.isChain_iff_getElem.mp h (i + n) (by omega)
    exact (ih (Nat.le_add_right i n) (by omega)).trans hs.later

/-- The first record of a run. -/
def sampleRecord : ProgramJournalRecord where
  id := "r1"
  previousId := ""
  runId := "run"
  programVersionId := "v"
  bundleId := "b"
  sequence := 1
  continuation := ⟨"root", .running, 1, 1⟩
  remainingBudget := { modelTokens := 5 }
  inflightReservation := { modelTokens := 4, maxConcurrency := 1 }

/-- The same run, after three tokens of the reservation were used. -/
def sampleSettled : ProgramJournalRecord :=
  { sampleRecord with
    id := "r2"
    previousId := "r1"
    sequence := 2
    remainingBudget := { modelTokens := 6, maxConcurrency := 1 }
    inflightReservation := {} }

theorem journal_authority_settled :
    isValidProgramJournalReservationSettlement sampleRecord sampleSettled { modelTokens := 3 }
        = true
      ∧ Later 1 sampleRecord sampleSettled := by
  have hs : isValidProgramJournalReservationSettlement sampleRecord sampleSettled
      { modelTokens := 3 } = true := by decide
  refine ⟨hs, ?_⟩
  have hch : [sampleRecord, sampleSettled].IsChain JournalStep :=
    List.isChain_pair.mpr (.inr (.inl ⟨_, hs⟩))
  exact journal_authority hch (i := 0) (j := 1) (Nat.zero_le 1) (Nat.lt_succ_self 1)

end NeoGraph.Program
