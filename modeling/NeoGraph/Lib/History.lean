import Mathlib

/-!
# Histories with resets

A component that accumulates what it is sent and from time to time starts
afresh is specified by its history alone: at every moment `i` of a run
some elements are emitted and a reset may follow. `sinceReset` is the set
of elements emitted up to and including `i` since the last reset before
`i` – what an observer of the run would say has been received. The two
successor lemmas are all an induction over the run needs.
-/

variable {α : Type*}

/-- **What has been emitted since the last reset**, the emissions of the
present moment included. A reset takes effect after the moment it happens
at. -/
def sinceReset (emits : ℕ → Set α) (resets : ℕ → Prop) (i : ℕ) : Set α :=
  {a | ∃ j ≤ i, a ∈ emits j ∧ ∀ k, j ≤ k → k < i → ¬ resets k}

variable (emits : ℕ → Set α) (resets : ℕ → Prop)

theorem sinceReset_zero : sinceReset emits resets 0 = emits 0 := by
  ext a
  constructor
  · rintro ⟨j, hj, ha, -⟩
    obtain rfl := Nat.le_zero.mp hj
    exact ha
  · intro ha
    exact ⟨0, le_rfl, ha, fun k _ hk => absurd hk (Nat.not_lt_zero k)⟩

variable {i : ℕ}

theorem sinceReset_succ_of_reset (h : resets i) :
    sinceReset emits resets (i + 1) = emits (i + 1) := by
  ext a
  constructor
  · rintro ⟨j, hj, ha, hno⟩
    obtain rfl | hlt := Nat.eq_or_lt_of_le hj
    · exact ha
    · exact absurd h (hno i (Nat.lt_succ_iff.mp hlt) (Nat.lt_succ_self i))
  · intro ha
    exact ⟨i + 1, le_rfl, ha, fun k hk hlt => absurd hlt (Nat.not_lt.mpr hk)⟩

theorem sinceReset_succ_of_not_reset (h : ¬ resets i) :
    sinceReset emits resets (i + 1) = sinceReset emits resets i ∪ emits (i + 1) := by
  ext a
  constructor
  · rintro ⟨j, hj, ha, hno⟩
    obtain rfl | hlt := Nat.eq_or_lt_of_le hj
    · exact .inr ha
    · exact .inl ⟨j, Nat.lt_succ_iff.mp hlt, ha, fun k hk hk' =>
        hno k hk (hk'.trans i.lt_succ_self)⟩
  · rintro (⟨j, hj, ha, hno⟩ | ha)
    · refine ⟨j, hj.trans i.le_succ, ha, fun k hk hk' => ?_⟩
      obtain rfl | hlt := Nat.eq_or_lt_of_le (Nat.lt_succ_iff.mp hk')
      · exact h
      · exact hno k hk hlt
    · exact ⟨i + 1, le_rfl, ha, fun k hk hlt => absurd hlt (Nat.not_lt.mpr hk)⟩
