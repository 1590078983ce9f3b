import Mathlib

/-!
# Selecting by score

A loop over a list that keeps the element of highest score seen so far, and
among elements of equal score the smallest one. Elements without a score are
passed over.
-/

open List

variable {α β : Type*} [LinearOrder α] [LinearOrder β]

/-- An element replaces the one that is kept if it has a higher score, or the
same and is smaller. -/
def keepBetter (score : α → Option β) (kept : Option (α × β)) (a : α) : Option (α × β) :=
  match score a with
  | none => kept
  | some p =>
    match kept with
    | none => some (a, p)
    | some (b, q) => if q < p ∨ (p = q ∧ a < b) then some (a, p) else some (b, q)

/-- What is kept of the elements seen so far. -/
def Kept (score : α → Option β) (seen : List α) : Option (α × β) → Prop
  | none => ∀ a ∈ seen, score a = none
  | some (a, p) => a ∈ seen ∧ score a = some p
    ∧ ∀ b ∈ seen, ∀ q, score b = some q → q ≤ p ∧ (q = p → a ≤ b)

variable {score : α → Option β}

theorem kept_keepBetter {seen : List α} {kept : Option (α × β)} (h : Kept score seen kept) (a : α) :
    Kept score (seen ++ [a]) (keepBetter score kept a) := by
  have hl {b : α} (hb : b ∈ seen) : b ∈ seen ++ [a] := mem_append_left _ hb
  have hr : a ∈ seen ++ [a] := mem_append_right _ (mem_singleton_self a)
  unfold keepBetter
  cases ha : score a with
  | none =>
    cases kept with
    | none => exact forall_mem_append.mpr ⟨h, forall_mem_singleton.mpr ha⟩
    | some best =>
      obtain ⟨hm, hbs, hall⟩ := h
      refine ⟨hl hm, hbs, forall_mem_append.mpr
        ⟨hall, forall_mem_singleton.mpr fun q hq => ?_⟩⟩
      rw [ha] at hq
      cases hq
  | some p =>
    have hs (q : β) (hq : score a = some q) : q ≤ p ∧ (q = p → a ≤ a) := by
      rw [ha] at hq
      cases hq
      exact ⟨le_rfl, fun _ => le_rfl⟩
    cases kept with
    | none =>
      refine ⟨hr, ha, forall_mem_append.mpr
        ⟨fun b hb q hq => ?_, forall_mem_singleton.mpr hs⟩⟩
      rw [h b hb] at hq
      cases hq
    | some best =>
      obtain ⟨best, q₀⟩ := best
      obtain ⟨hm, hbs, hall⟩ := h
      dsimp only
      split
      · -- the new element is better than all that were seen
        rename_i hbetter
        refine ⟨hr, ha, forall_mem_append.mpr
          ⟨fun b hb q hq => ?_, forall_mem_singleton.mpr hs⟩⟩
        obtain ⟨hle, heq⟩ := hall b hb q hq
        obtain hlt | ⟨rfl, hlt⟩ := hbetter
        · exact ⟨hle.trans hlt.le, fun hsm => absurd (hsm ▸ hle) hlt.not_ge⟩
        · exact ⟨hle, fun hsm => hlt.le.trans (heq hsm)⟩
      · rename_i hworse
        rw [not_or, not_lt, not_and, not_lt] at hworse
        refine ⟨hl hm, hbs, forall_mem_append.mpr
          ⟨hall, forall_mem_singleton.mpr fun q hq => ?_⟩⟩
        rw [ha] at hq
        cases hq
        exact hworse

/-- **What the loop keeps.** -/
theorem kept_foldl (score : α → Option β) (l : List α) :
    Kept score l (l.foldl (keepBetter score) none) := by
  induction l using reverseRecOn with
  | nil =>
    intro a ha
    cases ha
  | append_singleton l a ih =>
    rw [foldl_append]
    exact kept_keepBetter ih a
