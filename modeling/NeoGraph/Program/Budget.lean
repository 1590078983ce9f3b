import Mathlib

/-!
# Run budgets

A run is granted a budget: nine amounts, two of them 32 bits wide, and an
optional ceiling on node retries. The ceiling is never reserved; where it is
absent it counts as the largest value.

The code writes every budget operation out field by field. `BudgetField`
names the nine amounts, and each operation has one lemma that says what it
does to every field, in unbounded arithmetic.
-/

namespace NeoGraph.Program

/-- What a run may still use. -/
structure RunBudget where
  wallTimeMs : BitVec 64 := 0
  modelTokens : BitVec 64 := 0
  monetaryMicrounits : BitVec 64 := 0
  maxConcurrency : BitVec 32 := 0
  maxProgramOperations : BitVec 64 := 0
  maxCoreSteps : BitVec 64 := 0
  maxDynamicCompiles : BitVec 64 := 0
  maxChildDepth : BitVec 32 := 0
  maxTotalChildren : BitVec 64 := 0
  /-- The retry ceiling; without one there is none. -/
  maxNodeRetries : Option (BitVec 64) := none
deriving DecidableEq

/-- What an attempt used. -/
structure ProgramUsage where
  wallTimeMs : BitVec 64 := 0
  modelTokens : BitVec 64 := 0
  monetaryMicrounits : BitVec 64 := 0
  programOperations : BitVec 64 := 0
  coreSteps : BitVec 64 := 0
  peakConcurrency : BitVec 32 := 0
  nodeRetries : BitVec 64 := 0
deriving DecidableEq

/-- The amounts of a budget. -/
inductive BudgetField where
  | wallTimeMs
  | modelTokens
  | monetaryMicrounits
  | maxConcurrency
  | maxProgramOperations
  | maxCoreSteps
  | maxDynamicCompiles
  | maxChildDepth
  | maxTotalChildren
deriving DecidableEq

/-- The amount of a field. -/
def RunBudget.amount (b : RunBudget) : BudgetField → ℕ
  | .wallTimeMs => b.wallTimeMs.toNat
  | .modelTokens => b.modelTokens.toNat
  | .monetaryMicrounits => b.monetaryMicrounits.toNat
  | .maxConcurrency => b.maxConcurrency.toNat
  | .maxProgramOperations => b.maxProgramOperations.toNat
  | .maxCoreSteps => b.maxCoreSteps.toNat
  | .maxDynamicCompiles => b.maxDynamicCompiles.toNat
  | .maxChildDepth => b.maxChildDepth.toNat
  | .maxTotalChildren => b.maxTotalChildren.toNat

/-- The retry ceiling, infinite where there is none. -/
def RunBudget.retryCeiling (b : RunBudget) : WithTop ℕ :=
  match b.maxNodeRetries with
  | none => ⊤
  | some n => WithTop.some n.toNat

/-- A budget, field by field. -/
theorem RunBudget.forall_field {P : BudgetField → Prop} :
    (∀ f, P f) ↔ P .wallTimeMs ∧ P .modelTokens ∧ P .monetaryMicrounits ∧ P .maxConcurrency
      ∧ P .maxProgramOperations ∧ P .maxCoreSteps ∧ P .maxDynamicCompiles ∧ P .maxChildDepth
      ∧ P .maxTotalChildren := by
  constructor
  · intro h
    exact ⟨h _, h _, h _, h _, h _, h _, h _, h _, h _⟩
  rintro ⟨h₁, h₂, h₃, h₄, h₅, h₆, h₇, h₈, h₉⟩ f
  cases f with
  | wallTimeMs => exact h₁
  | modelTokens => exact h₂
  | monetaryMicrounits => exact h₃
  | maxConcurrency => exact h₄
  | maxProgramOperations => exact h₅
  | maxCoreSteps => exact h₆
  | maxDynamicCompiles => exact h₇
  | maxChildDepth => exact h₈
  | maxTotalChildren => exact h₉

/-! ## Comparisons -/

/-- A ceiling is within a limit: an absent limit admits anything. -/
def nodeRetriesWithin (value limit : Option (BitVec 64)) : Bool :=
  match limit with
  | none => true
  | some limit => value.any fun value => value ≤ limit

/-- No bound on the retries is the largest. -/
theorem nodeRetriesWithin_iff {value limit : RunBudget} :
    nodeRetriesWithin value.maxNodeRetries limit.maxNodeRetries = true
      ↔ value.retryCeiling ≤ limit.retryCeiling := by
  unfold nodeRetriesWithin RunBudget.retryCeiling
  cases limit.maxNodeRetries with
  | none => exact iff_of_true rfl le_top
  | some l =>
    cases value.maxNodeRetries with
    | none => exact iff_of_false Bool.false_ne_true (not_le.mpr (WithTop.coe_lt_top _))
    | some v =>
      show decide (v ≤ l) = true ↔ WithTop.some v.toNat ≤ WithTop.some l.toNat
      rw [decide_eq_true_iff, WithTop.coe_le_coe, BitVec.le_def]

def budgetIsEmpty (budget : RunBudget) : Bool := budget = {}

/-- Every bound of the one is within that of the other. -/
def budgetAtMost (value limit : RunBudget) : Bool :=
  value.wallTimeMs ≤ limit.wallTimeMs && value.modelTokens ≤ limit.modelTokens
    && value.monetaryMicrounits ≤ limit.monetaryMicrounits
    && value.maxConcurrency ≤ limit.maxConcurrency
    && value.maxProgramOperations ≤ limit.maxProgramOperations
    && value.maxCoreSteps ≤ limit.maxCoreSteps
    && value.maxDynamicCompiles ≤ limit.maxDynamicCompiles
    && value.maxChildDepth ≤ limit.maxChildDepth
    && value.maxTotalChildren ≤ limit.maxTotalChildren
    && nodeRetriesWithin value.maxNodeRetries limit.maxNodeRetries

/-- One sum is at most another, where both may wrap around. -/
def sumAtMost {w : ℕ} (valueA valueB limitA limitB : BitVec w) : Bool :=
  let valueSum := valueA + valueB
  let limitSum := limitA + limitB
  let valueCarry := decide (valueSum < valueA)
  let limitCarry := decide (limitSum < limitA)
  if valueCarry = limitCarry then valueSum ≤ limitSum else !valueCarry

variable {w : ℕ}

/-- A sum wraps around when it is smaller than a summand. -/
theorem add_lt_left_iff (a b : BitVec w) : a + b < a ↔ 2 ^ w ≤ a.toNat + b.toNat := by
  have ha := a.isLt
  have hb := b.isLt
  rw [BitVec.lt_def, BitVec.toNat_add]
  by_cases h : a.toNat + b.toNat < 2 ^ w
  · rw [Nat.mod_eq_of_lt h]
    omega
  · rw [Nat.mod_eq_sub_mod (by omega), Nat.mod_eq_of_lt (by omega)]
    omega

variable {a b : BitVec w}

theorem toNat_add_of_lt (h : a.toNat + b.toNat < 2 ^ w) : (a + b).toNat = a.toNat + b.toNat := by
  rw [BitVec.toNat_add, Nat.mod_eq_of_lt h]

theorem toNat_add_of_le (h : 2 ^ w ≤ a.toNat + b.toNat) :
    (a + b).toNat = a.toNat + b.toNat - 2 ^ w := by
  have ha := a.isLt
  have hb := b.isLt
  rw [BitVec.toNat_add, Nat.mod_eq_sub_mod h, Nat.mod_eq_of_lt (by omega)]

/-- **Sums are compared as unbounded integers.** -/
theorem sumAtMost_iff (valueA valueB limitA limitB : BitVec w) :
    sumAtMost valueA valueB limitA limitB = true
      ↔ valueA.toNat + valueB.toNat ≤ limitA.toNat + limitB.toNat := by
  unfold sumAtMost
  simp only [add_lt_left_iff]
  by_cases hv : 2 ^ w ≤ valueA.toNat + valueB.toNat
  · by_cases hl : 2 ^ w ≤ limitA.toNat + limitB.toNat
    · rw [decide_eq_true hv, decide_eq_true hl, if_pos rfl, decide_eq_true_iff, BitVec.le_def,
        toNat_add_of_le hv, toNat_add_of_le hl]
      omega
    · rw [decide_eq_true hv, decide_eq_false hl, if_neg Bool.noConfusion]
      exact iff_of_false Bool.noConfusion (by omega)
  · by_cases hl : 2 ^ w ≤ limitA.toNat + limitB.toNat
    · rw [decide_eq_false hv, decide_eq_true hl, if_neg Bool.noConfusion]
      exact iff_of_true rfl (by omega)
    · rw [decide_eq_false hv, decide_eq_false hl, if_pos rfl, decide_eq_true_iff, BitVec.le_def,
        toNat_add_of_lt (by omega), toNat_add_of_lt (by omega)]

/-- The same of two parts together. -/
def budgetTotalAtMost (valueAvailable valueReserved limitAvailable limitReserved : RunBudget) :
    Bool :=
  sumAtMost valueAvailable.wallTimeMs valueReserved.wallTimeMs
      limitAvailable.wallTimeMs limitReserved.wallTimeMs
    && sumAtMost valueAvailable.modelTokens valueReserved.modelTokens
      limitAvailable.modelTokens limitReserved.modelTokens
    && sumAtMost valueAvailable.monetaryMicrounits valueReserved.monetaryMicrounits
      limitAvailable.monetaryMicrounits limitReserved.monetaryMicrounits
    && sumAtMost valueAvailable.maxConcurrency valueReserved.maxConcurrency
      limitAvailable.maxConcurrency limitReserved.maxConcurrency
    && sumAtMost valueAvailable.maxProgramOperations valueReserved.maxProgramOperations
      limitAvailable.maxProgramOperations limitReserved.maxProgramOperations
    && sumAtMost valueAvailable.maxCoreSteps valueReserved.maxCoreSteps
      limitAvailable.maxCoreSteps limitReserved.maxCoreSteps
    && sumAtMost valueAvailable.maxDynamicCompiles valueReserved.maxDynamicCompiles
      limitAvailable.maxDynamicCompiles limitReserved.maxDynamicCompiles
    && sumAtMost valueAvailable.maxChildDepth valueReserved.maxChildDepth
      limitAvailable.maxChildDepth limitReserved.maxChildDepth
    && sumAtMost valueAvailable.maxTotalChildren valueReserved.maxTotalChildren
      limitAvailable.maxTotalChildren limitReserved.maxTotalChildren
    -- the retry ceiling is never reserved
    && nodeRetriesWithin valueAvailable.maxNodeRetries limitAvailable.maxNodeRetries

/-- **Totals are compared in every field**, as unbounded integers. -/
theorem budgetTotalAtMost_iff {valueAvailable valueReserved limitAvailable limitReserved :
    RunBudget} : budgetTotalAtMost valueAvailable valueReserved limitAvailable limitReserved = true
      ↔ (∀ f, valueAvailable.amount f + valueReserved.amount f
          ≤ limitAvailable.amount f + limitReserved.amount f)
        ∧ valueAvailable.retryCeiling ≤ limitAvailable.retryCeiling := by
  unfold budgetTotalAtMost
  simp only [Bool.and_eq_true, sumAtMost_iff, nodeRetriesWithin_iff, RunBudget.forall_field,
    RunBudget.amount, and_assoc]

end NeoGraph.Program
