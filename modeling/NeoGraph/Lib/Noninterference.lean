import Mathlib

/-!
# Noninterference

Several users share a machine whose steps answer them. A user is not disturbed
if two states that look the same to it give it the same answers and still look
the same after its own steps, and if the steps of others leave what it sees
unchanged (`Unwinding`). Then its answers depend on its own steps only, however
these are interleaved with those of others (`answersOf_eq`). Two machines side
by side do not disturb a user if neither of them does (`Unwinding.sum`).
-/

variable {D O S A O' S' A' : Type*}

/-- The state after a sequence of steps. -/
def runSteps (step : O → S → S × A) : S → List O → S
  | s, [] => s
  | s, o :: ops => runSteps step (step o s).1 ops

variable {invariant : S → Prop}

/-- What every step keeps is true after all of them. -/
theorem runSteps_keeps {step : O → S → S × A} {ops : List O} {s : S}
    (hst : ∀ o ∈ ops, ∀ s, invariant s → invariant (step o s).1) (hs : invariant s) :
    invariant (runSteps step s ops) := by
  induction ops generalizing s with
  | nil => exact hs
  | cons o ops ih =>
    exact ih (fun o' ho' => hst o' (List.mem_cons_of_mem o ho')) (hst o List.mem_cons_self s hs)

section Users

variable [DecidableEq D]

/-- The answers that one user gets. -/
def answersOf (step : O → S → S × A) (user : O → D) (d : D) : S → List O → List A
  | _, [] => []
  | s, o :: ops =>
    if user o = d then (step o s).2 :: answersOf step user d (step o s).1 ops
    else answersOf step user d (step o s).1 ops

/-- **The steps of others cannot be seen.** -/
structure Unwinding (step : O → S → S × A) (user : O → D) (d : D) (invariant : S → Prop)
    (looksSame : S → S → Prop) : Prop where
  equivalence : Equivalence looksSame
  keeps : ∀ o s, invariant s → invariant (step o s).1
  confined : ∀ o s, invariant s → user o ≠ d → looksSame s (step o s).1
  consistent : ∀ o s t, user o = d → invariant s → invariant t → looksSame s t →
    looksSame (step o s).1 (step o t).1 ∧ (step o s).2 = (step o t).2

variable {step : O → S → S × A} {user : O → D} {d : D} {invariant : S → Prop}
  {looksSame : S → S → Prop} {s t : S}

/-- The steps of others may be left out. -/
theorem answersOf_filter (h : Unwinding step user d invariant looksSame)
    (hs : invariant s) (ht : invariant t) (hst : looksSame s t) (ops : List O) :
    answersOf step user d s ops = answersOf step user d t (ops.filter fun o => user o = d) := by
  induction ops generalizing s t with
  | nil => rfl
  | cons o ops ih =>
    rw [answersOf]
    split_ifs with ho
    · obtain ⟨hsm, ha⟩ := h.consistent o s t ho hs ht hst
      rw [List.filter_cons, if_pos (decide_eq_true ho), answersOf, if_pos ho, ha,
        ih (h.keeps o s hs) (h.keeps o t ht) hsm]
    · rw [List.filter_cons, if_neg (by rw [decide_eq_true_eq]; exact ho)]
      exact ih (h.keeps o s hs) ht
        (h.equivalence.trans (h.equivalence.symm (h.confined o s hs ho)) hst)

/-- **A user's answers depend on its own steps only.** -/
theorem answersOf_eq (h : Unwinding step user d invariant looksSame)
    (hs : invariant s) (ht : invariant t) (hst : looksSame s t) {ops ops' : List O}
    (ho : ops.filter (fun o => user o = d) = ops'.filter fun o => user o = d) :
    answersOf step user d s ops = answersOf step user d t ops' := by
  rw [answersOf_filter h hs hs (h.equivalence.refl s), ho,
    ← answersOf_filter h ht hs (h.equivalence.symm hst)]

end Users

/-! ## Machines side by side -/

/-- Two machines side by side: each step is one of one of them. -/
def sumStep (step : O → S → S × A) (step' : O' → S' → S' × A') :
    O ⊕ O' → S × S' → (S × S') × (A ⊕ A')
  | .inl o, s => (((step o s.1).1, s.2), .inl (step o s.1).2)
  | .inr o, s => ((s.1, (step' o s.2).1), .inr (step' o s.2).2)

variable {step : O → S → S × A} {step' : O' → S' → S' × A'}

theorem Unwinding.sum {user : O → D} {user' : O' → D} {d : D}
    {invariant' : S' → Prop} {looksSame : S → S → Prop} {looksSame' : S' → S' → Prop}
    (h : Unwinding step user d invariant looksSame)
    (h' : Unwinding step' user' d invariant' looksSame') :
    Unwinding (sumStep step step') (Sum.elim user user') d (fun s => invariant s.1 ∧ invariant' s.2)
      (fun s t => looksSame s.1 t.1 ∧ looksSame' s.2 t.2) where
  equivalence :=
    { refl := fun s => ⟨h.equivalence.refl s.1, h'.equivalence.refl s.2⟩
      symm := fun hst => ⟨h.equivalence.symm hst.1, h'.equivalence.symm hst.2⟩
      trans := fun hst htu => ⟨h.equivalence.trans hst.1 htu.1, h'.equivalence.trans hst.2 htu.2⟩ }
  keeps o s hs := by
    cases o with
    | inl o => exact ⟨h.keeps o s.1 hs.1, hs.2⟩
    | inr o => exact ⟨hs.1, h'.keeps o s.2 hs.2⟩
  confined o s hs ho := by
    cases o with
    | inl o => exact ⟨h.confined o s.1 hs.1 ho, h'.equivalence.refl s.2⟩
    | inr o => exact ⟨h.equivalence.refl s.1, h'.confined o s.2 hs.2 ho⟩
  consistent o s t ho hs ht hst := by
    cases o with
    | inl o =>
      obtain ⟨hsm, ha⟩ := h.consistent o s.1 t.1 ho hs.1 ht.1 hst.1
      exact ⟨⟨hsm, hst.2⟩, congrArg Sum.inl ha⟩
    | inr o =>
      obtain ⟨hsm, ha⟩ := h'.consistent o s.2 t.2 ho hs.2 ht.2 hst.2
      exact ⟨⟨hst.1, hsm⟩, congrArg Sum.inr ha⟩
