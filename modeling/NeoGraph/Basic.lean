import Mathlib

/-!
# Exceptions

The library reports failure by throwing one of the standard exception
classes, each with a text. The model keeps the class and the text:
fallible code returns an `Except Exn`.
-/

namespace NeoGraph

open List

/-- An exception, by its standard class, with its text. -/
inductive Exn where
  | invalidArgument (what : String)
  | logicError (what : String)
  | runtimeError (what : String)
  | lengthError (what : String)
deriving DecidableEq, Repr

variable {α β ε : Type} {f : α → Except ε β} {x : Except ε α}

theorem exists_of_isOk (h : x.isOk = true) : ∃ a, x = .ok a := by
  cases x with
  | error e => cases h
  | ok a => exact ⟨a, rfl⟩

variable {b : β}

/-- Peeling a computation that returned: its first part returned, and so
did the rest from there. -/
theorem bind_eq_ok : (x >>= f) = .ok b ↔ ∃ a, x = .ok a ∧ f a = .ok b := by
  cases x with
  | error e =>
    constructor
    · intro h
      cases h
    · rintro ⟨a, h, -⟩
      cases h
  | ok a =>
    constructor
    · intro h
      exact ⟨a, rfl, h⟩
    · rintro ⟨a', h, hb⟩
      cases h
      exact hb

/-- Peeling a check in front of a computation. -/
theorem bind_unit_eq_ok {x : Except ε Unit} {f : Unit → Except ε β} :
    (x >>= f) = .ok b ↔ x = .ok () ∧ f () = .ok b := by
  rw [bind_eq_ok]
  constructor
  · rintro ⟨⟨⟩, hx, hf⟩
    exact ⟨hx, hf⟩
  · rintro ⟨hx, hf⟩
    exact ⟨(), hx, hf⟩

/-- Peeling an exception in front of a computation. -/
theorem raise_eq_ok {c : Prop} [Decidable c] {e : ε} {rest : Unit → Except ε β} :
    (if c then (Except.error e >>= rest) else rest ()) = .ok b
      ↔ ¬c ∧ rest () = .ok b := by
  by_cases hc : c
  · rw [if_pos hc]
    exact ⟨nofun, fun h => absurd hc h.1⟩
  · rw [if_neg hc]
    exact ⟨fun h => ⟨hc, h⟩, fun h => h.2⟩

variable {l : List α}

/-- Peeling a computation over all members of a list. -/
theorem mapM_eq_ok {l' : List β} :
    l.mapM f = .ok l' ↔ List.Forall₂ (fun a b => f a = .ok b) l l' := by
  induction l generalizing l' with
  | nil =>
    rw [mapM_nil, forall₂_nil_left_iff]
    constructor
    · intro h
      cases h
      rfl
    · rintro rfl
      rfl
  | cons a l ih =>
    rw [mapM_cons, bind_eq_ok, forall₂_cons_left_iff]
    refine exists_congr fun b => ?_
    rw [bind_eq_ok]
    constructor
    · rintro ⟨hb, bs, hbs, h⟩
      cases h
      exact ⟨bs, hb, ih.mp hbs, rfl⟩
    · rintro ⟨bs, hb, hbs, rfl⟩
      exact ⟨hb, bs, ih.mpr hbs, rfl⟩

variable {g : α → β}

/-- A computation over a list that returns for each member. -/
theorem mapM_eq_ok_map (h : ∀ a ∈ l, f a = .ok (g a)) : l.mapM f = .ok (l.map g) := by
  rw [mapM_eq_ok, forall₂_map_right_iff]
  exact forall₂_same.mpr h

/-- **A computation over a list, part by part**: if every member is taken from
a state that fits the members before it to one that fits it too, the whole
list is taken. -/
theorem foldlM_eq_ok {σ : Type} {f : σ → β → Except ε σ} {P : List α → σ → Prop}
    (hst : ∀ done a rest s, l = done ++ a :: rest → P done s → ∃ s', f s (g a) = .ok s'
      ∧ P (done ++ [a]) s')
    {s : σ} (hs : P [] s) : ∃ s', (l.map g).foldlM f s = .ok s' ∧ P l s' := by
  have key : ∀ rest done s, l = done ++ rest → P done s →
      ∃ s', (rest.map g).foldlM f s = .ok s' ∧ P l s' := by
    intro rest
    induction rest with
    | nil =>
      rintro done s rfl hs
      rw [append_nil]
      exact ⟨s, rfl, hs⟩
    | cons a rest ih =>
      intro done s hl hs
      obtain ⟨s', hs', hP⟩ := hst done a rest s hl hs
      obtain ⟨s'', hs'', hP'⟩ := ih (done ++ [a]) s' (by rw [hl, append_assoc]; rfl) hP
      refine ⟨s'', ?_, hP'⟩
      rw [map_cons, foldlM_cons, hs']
      exact hs''
  exact key l [] s rfl hs

/-- A computation returned. -/
theorem toOption_eq_some {a : α} : x.toOption = some a ↔ x = .ok a := by
  cases x with
  | error e =>
    constructor
    · intro h
      cases h
    · intro h
      cases h
  | ok b =>
    constructor
    all_goals
      intro h
      cases h
      rfl

end NeoGraph
