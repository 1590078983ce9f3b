import Mathlib

/-!
# Lists by position and by key

The positions at which a list has a member with a property, in order, and what
is read there; the member of a list with a key that no two members share.
-/

namespace NeoGraph

open List

variable {α β : Type}

/-! ## Splitting a list at a mark -/

section Split

variable {a : α} {x x' z z' : List α}

/-- A list is split at its first mark in one way. -/
theorem append_cons_inj_left (hx : a ∉ x) (hx' : a ∉ x')
    (h : x ++ a :: z = x' ++ a :: z') : x = x' ∧ z = z' := by
  obtain ⟨c, rfl, hc⟩ | ⟨c, rfl, hc⟩ := append_eq_append_iff.mp h
  · cases c with
    | nil => exact ⟨(append_nil x).symm, (List.cons.inj hc).2⟩
    | cons b c =>
      rw [cons_append, List.cons.injEq] at hc
      exact absurd (mem_append_right x (hc.1 ▸ mem_cons_self)) hx'
  · cases c with
    | nil => exact ⟨append_nil x', (List.cons.inj hc).2.symm⟩
    | cons b c =>
      rw [cons_append, List.cons.injEq] at hc
      exact absurd (mem_append_right x' (hc.1 ▸ mem_cons_self)) hx

/-- A list is split at its last mark in one way. -/
theorem append_cons_inj_right (hz : a ∉ z) (hz' : a ∉ z')
    (h : x ++ a :: z = x' ++ a :: z') : x = x' ∧ z = z' := by
  have hr := congrArg reverse h
  simp only [reverse_append, reverse_cons, append_assoc, singleton_append] at hr
  obtain ⟨hz, hx⟩ := append_cons_inj_left (by simpa using hz) (by simpa using hz') hr
  exact ⟨reverse_injective hx, reverse_injective hz⟩

end Split

/-! ## The first occurrence -/

section IdxOf

variable [DecidableEq α]

theorem idxOf?_append_cons {l r : List α} {a : α} (h : a ∉ l) :
    (l ++ a :: r).idxOf? a = some l.length := by
  rw [idxOf?_eq_some_iff]
  refine ⟨by simp, ?_, fun j hj hg => ?_⟩
  · rw [getElem_append_right (Nat.le_refl _)]
    simp
  · rw [getElem_append_left hj] at hg
    exact h (hg ▸ getElem_mem hj)

/-- A list is split at the first occurrence of a member. -/
theorem eq_append_of_idxOf? {l : List α} {a : α} {i : ℕ} (h : l.idxOf? a = some i) :
    l = l.take i ++ a :: l.drop (i + 1) ∧ a ∉ l.take i := by
  obtain ⟨hi, rfl, hf⟩ := idxOf?_eq_some_iff.mp h
  refine ⟨?_, fun hm => ?_⟩
  · rw [getElem_cons_drop, take_append_drop]
  · obtain ⟨j, hj, hg⟩ := getElem_of_mem hm
    rw [getElem_take] at hg
    exact hf j (Nat.lt_of_lt_of_le hj (length_take_le i l)) hg

end IdxOf

/-! ## Keys -/

variable {κ : Type} {l : List α} {key : α → κ} {a : α}

/-- A member of a list is found by a key that no two members share. -/
theorem find?_of_nodup_map [DecidableEq κ] (h : (l.map key).Nodup) (ha : a ∈ l) :
    l.find? (fun b => key b = key a) = some a := by
  cases hf : l.find? fun b => key b = key a with
  | none => exact absurd (decide_eq_true rfl) (find?_eq_none.mp hf a ha)
  | some b =>
    have hk := find?_some hf
    exact congrArg some (inj_on_of_nodup_map h (mem_of_find?_eq_some hf) ha
      (of_decide_eq_true hk))

/-- A member is the only one with its key. -/
theorem filter_of_nodup_map [DecidableEq κ] (h : (l.map key).Nodup) (ha : a ∈ l) :
    l.filter (fun b => key b = key a) = [a] := by
  induction l with
  | nil => cases ha
  | cons b l ih =>
    obtain ⟨hb, hl⟩ := nodup_cons.mp h
    obtain rfl | ha := mem_cons.mp ha
    · have hr : l.filter (fun b => key b = key a) = [] := by
        rw [filter_eq_nil_iff]
        intro c hc heq
        exact hb (mem_map.mpr ⟨c, hc, of_decide_eq_true heq⟩)
      rw [filter_cons, if_pos (decide_eq_true rfl), hr]
    · have hne : key b ≠ key a := fun heq => hb (mem_map.mpr ⟨a, ha, heq.symm⟩)
      rw [filter_cons, if_neg fun heq => hne (of_decide_eq_true heq), ih hl ha]

/-- A new member with a new key is found by it, and nothing else changes. -/
theorem find?_concat_key [DecidableEq κ] (h : (l.find? fun b => key b = key a) = none) (k : κ) :
    (l ++ [a]).find? (fun b => key b = k)
      = if k = key a then some a else l.find? fun b => key b = k := by
  rw [find?_append, find?_singleton]
  by_cases hk : k = key a
  · rw [if_pos hk, hk, h, if_pos (decide_eq_true rfl)]
    rfl
  · rw [if_neg hk, if_neg fun heq => hk (of_decide_eq_true heq).symm, Option.or_none]

/-- A key is not found if and only if no member has it. -/
theorem find?_key_eq_none_iff [DecidableEq κ] {k : κ} :
    (l.find? fun b => key b = k) = none ↔ k ∉ l.map key := by
  rw [find?_eq_none, mem_map]
  constructor
  · rintro h ⟨b, hb, heq⟩
    exact h b hb (decide_eq_true heq)
  · intro h b hb heq
    exact h ⟨b, hb, of_decide_eq_true heq⟩

/-! ## Positions -/

/-- The positions of a list whose member has a property. -/
def indicesOf (l : List α) (p : α → Bool) : List ℕ :=
  (range l.length).filter fun i => l[i]?.any p

theorem indicesOf_concat (l : List α) (a : α) (p : α → Bool) :
    indicesOf (l ++ [a]) p = indicesOf l p ++ if p a then [l.length] else [] := by
  have hold : ∀ i ∈ range l.length, ((l ++ [a])[i]?.any p) = (l[i]?.any p) := by
    intro i hi
    rw [getElem?_append_left (mem_range.mp hi)]
  have hn : (l ++ [a])[l.length]? = some a := getElem?_concat_length
  unfold indicesOf
  rw [length_append, length_singleton, range_succ, filter_append,
    filter_congr hold, filter_singleton, hn, cond_eq_ite]
  rfl

variable {p : α → Bool}

theorem indicesOf_eq_nil_iff : indicesOf l p = [] ↔ ∀ a ∈ l, p a = false := by
  unfold indicesOf
  rw [List.filter_eq_nil_iff]
  constructor
  · intro h a ha
    obtain ⟨i, hi⟩ := List.mem_iff_getElem?.mp ha
    have hlt := (List.getElem?_eq_some_iff.mp hi).1
    have hn := h i (List.mem_range.mpr hlt)
    rw [hi] at hn
    exact Bool.eq_false_iff.mpr hn
  · intro h i hi hany
    rw [List.getElem?_eq_getElem (List.mem_range.mp hi)] at hany
    exact Bool.eq_false_iff.mp (h _ (List.getElem_mem _)) hany

theorem of_mem_indicesOf {i : ℕ} (h : i ∈ indicesOf l p) :
    ∃ a ∈ l, l[i]? = some a ∧ p a = true := by
  unfold indicesOf at h
  rw [mem_filter, Option.any_eq_true_iff_get] at h
  obtain ⟨-, hs, hg⟩ := h
  exact ⟨_, mem_of_getElem? (Option.some_get hs).symm, (Option.some_get hs).symm, hg⟩

/-- What is read at the positions of the members with a property. -/
theorem filterMap_indicesOf (l : List α) (p : α → Bool) (f : α → Option β) :
    ((indicesOf l p).filterMap fun i => l[i]?.bind f) = (l.filter p).filterMap f := by
  induction l using List.reverseRecOn with
  | nil => rfl
  | append_singleton l a ih =>
    have hold : ∀ i ∈ indicesOf l p, ((l ++ [a])[i]?.bind f) = (l[i]?.bind f) := by
      intro i hi
      obtain ⟨b, -, hb, -⟩ := of_mem_indicesOf hi
      rw [List.getElem?_append_left (List.getElem?_eq_some_iff.mp hb).1]
    rw [indicesOf_concat, List.filterMap_append, List.filterMap_congr hold, ih, List.filter_append,
      List.filterMap_append, List.filter_singleton]
    congr 1
    cases p a with
    | false => rfl
    | true =>
      show List.filterMap _ [l.length] = List.filterMap f [a]
      rw [List.filterMap_cons, List.filterMap_cons, List.getElem?_concat_length]
      rfl

theorem indicesOf_map (l : List α) (g : α → β) (p : β → Bool) :
    indicesOf (l.map g) p = indicesOf l fun a => p (g a) := by
  unfold indicesOf
  rw [length_map]
  refine filter_congr fun i _ => ?_
  rw [getElem?_map, Option.any_map]

end NeoGraph
