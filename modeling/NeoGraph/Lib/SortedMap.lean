import Mathlib

/-!
# Sorted association lists

An ordered map, as a list of entries whose keys increase strictly. The
order of the keys is part of the structure, so two maps with the same
lookups are the same list (`SortedMap.ext_find?`), iteration in key order
is iteration over `SortedMap.entries`, and equality of maps is decidable
as soon as equality of values is.

The operations are the ones an ordered map of a systems language has:
lookup (`find?`), assignment (`insert`), assignment that keeps an existing
value (`tryEmplace`), removal (`erase`) and in-place update of a possibly
missing entry (`alterD`). Every one of them is specified by what it does
to lookups, and proofs about maps use nothing else.
-/

open List

variable {κ : Type*} {ν : Type*} [LinearOrder κ]

/-! ## Entries in key order -/

/-- Assignment in a list of entries sorted by key: replaces the entry of
the key, or inserts a new one at its place. -/
def insertEntry (k : κ) (v : ν) : List (κ × ν) → List (κ × ν)
  | [] => [(k, v)]
  | e :: l =>
    if k < e.1 then (k, v) :: e :: l
    else if k = e.1 then (k, v) :: l
    else e :: insertEntry k v l

variable {l : List (κ × ν)}

/-- An entry after an assignment is the assigned one or an old one. -/
theorem mem_of_mem_insertEntry {k : κ} {v : ν} {e : κ × ν} (h : e ∈ insertEntry k v l) :
    e = (k, v) ∨ e ∈ l := by
  induction l with
  | nil => exact .inl (by simpa [insertEntry] using h)
  | cons a l ih =>
    rw [insertEntry] at h
    split_ifs at h with h₁ h₂
    · simpa using h
    · exact (mem_cons.mp h).imp id (mem_cons_of_mem a)
    · rcases mem_cons.mp h with rfl | h
      · exact .inr mem_cons_self
      · exact (ih h).imp id (mem_cons_of_mem a)

/-- Assignment keeps the keys increasing. -/
theorem insertEntry_sorted (k : κ) (v : ν) (h : l.Pairwise (fun a b => a.1 < b.1)) :
    (insertEntry k v l).Pairwise (fun a b => a.1 < b.1) := by
  induction l with
  | nil => simp [insertEntry]
  | cons a l ih =>
    obtain ⟨ha, hl⟩ := pairwise_cons.mp h
    rw [insertEntry]
    split_ifs with h₁ h₂
    · refine pairwise_cons.mpr ⟨fun b hb => ?_, h⟩
      rcases mem_cons.mp hb with rfl | hb
      · exact h₁
      · exact h₁.trans (ha b hb)
    · exact pairwise_cons.mpr ⟨fun b hb => h₂ ▸ ha b hb, hl⟩
    · refine pairwise_cons.mpr ⟨fun b hb => ?_, ih hl⟩
      rcases mem_of_mem_insertEntry hb with rfl | hb
      · exact lt_of_le_of_ne (not_lt.mp h₁) (Ne.symm h₂)
      · exact ha b hb

/-- The value of the first entry of a key. -/
def lookupEntry (k : κ) : List (κ × ν) → Option ν
  | [] => none
  | e :: l => if k = e.1 then some e.2 else lookupEntry k l

/-- Lookup after an assignment. -/
theorem lookupEntry_insertEntry (k k' : κ) (v : ν) (l : List (κ × ν)) :
    lookupEntry k' (insertEntry k v l) = if k' = k then some v else lookupEntry k' l := by
  induction l with
  | nil => rfl
  | cons a l ih =>
    rw [insertEntry]
    by_cases h₁ : k < a.1
    · rw [if_pos h₁]
      rfl
    rw [if_neg h₁]
    by_cases h₂ : k = a.1
    · rw [if_pos h₂]
      by_cases hk : k' = k
      · simp [lookupEntry, hk]
      · simp [lookupEntry, hk, ← h₂]
    · rw [if_neg h₂]
      rw [lookupEntry, lookupEntry, ih]
      by_cases hk : k' = k
      · simp only [if_pos hk, if_neg (hk ▸ h₂ : ¬k' = a.1)]
      · simp only [if_neg hk]

/-- In a sorted list the lookup of a key is the value of its only entry. -/
theorem lookupEntry_eq_some_iff (h : l.Pairwise (fun a b => a.1 < b.1)) (k : κ) (v : ν) :
    lookupEntry k l = some v ↔ (k, v) ∈ l := by
  induction l with
  | nil => simp [lookupEntry]
  | cons a l ih =>
    obtain ⟨ha, hl⟩ := pairwise_cons.mp h
    rw [lookupEntry, mem_cons, ← ih hl]
    by_cases hk : k = a.1
    · rw [if_pos hk, Option.some.injEq, Prod.ext_iff]
      refine ⟨fun e => .inl ⟨hk, e.symm⟩, fun e => e.elim (fun e => e.2.symm) fun e => ?_⟩
      exact absurd (ha _ ((ih hl).mp e)) (hk ▸ lt_irrefl _)
    · rw [if_neg hk]
      refine ⟨.inr, fun e => e.elim (fun e => absurd (congrArg Prod.fst e) hk) id⟩

/-- The lookup of a key with one value only is that value. -/
theorem lookupEntry_eq_some_iff_of_unique {k : κ} (h : ∀ v w, (k, v) ∈ l → (k, w) ∈ l → v = w)
    (v : ν) : lookupEntry k l = some v ↔ (k, v) ∈ l := by
  induction l with
  | nil => simp [lookupEntry]
  | cons a l ih =>
    have hl : ∀ v w, (k, v) ∈ l → (k, w) ∈ l → v = w := fun v w hv hw =>
      h v w (mem_cons_of_mem a hv) (mem_cons_of_mem a hw)
    rw [lookupEntry]
    split_ifs with hk
    · subst hk
      constructor
      · intro heq
        cases heq
        exact mem_cons_self
      · intro hm
        rw [h v a.2 hm mem_cons_self]
    · rw [ih hl, mem_cons]
      refine ⟨.inr, fun hm => hm.resolve_left fun heq => hk (congrArg Prod.fst heq)⟩

/-! ## The map -/

/-- An ordered map: entries with strictly increasing keys. -/
structure SortedMap (κ : Type*) (ν : Type*) [LinearOrder κ] where
  /-- The entries, in key order. -/
  entries : List (κ × ν)
  /-- The keys increase strictly. -/
  sorted : entries.Pairwise (fun a b => a.1 < b.1)
deriving DecidableEq

namespace SortedMap

/-- The map without entries. -/
def empty : SortedMap κ ν := ⟨[], List.Pairwise.nil⟩

instance : Inhabited (SortedMap κ ν) := ⟨empty⟩

instance : EmptyCollection (SortedMap κ ν) := ⟨empty⟩

/-- The value of a key, if it has one. -/
def find? (m : SortedMap κ ν) (k : κ) : Option ν := lookupEntry k m.entries

/-- The value of a key, or a default. -/
def getD (m : SortedMap κ ν) (k : κ) (d : ν) : ν := (m.find? k).getD d

/-- Whether a key has a value. -/
def contains (m : SortedMap κ ν) (k : κ) : Bool := (m.find? k).isSome

/-- Whether the map has no entries. -/
def isEmpty (m : SortedMap κ ν) : Bool := m.entries.isEmpty

/-- The keys, in order. -/
def keys (m : SortedMap κ ν) : List κ := m.entries.map Prod.fst

/-- Assignment: the key has the given value afterwards. -/
def insert (m : SortedMap κ ν) (k : κ) (v : ν) : SortedMap κ ν :=
  ⟨insertEntry k v m.entries, insertEntry_sorted k v m.sorted⟩

/-- Assignment unless the key already has a value. -/
def tryEmplace (m : SortedMap κ ν) (k : κ) (v : ν) : SortedMap κ ν :=
  if m.contains k then m else m.insert k v

/-- Update of the value of a key; a missing entry counts as `d`. -/
def alterD (m : SortedMap κ ν) (k : κ) (d : ν) (f : ν → ν) : SortedMap κ ν :=
  m.insert k (f (m.getD k d))

/-- Removal of a key. -/
def erase (m : SortedMap κ ν) (k : κ) : SortedMap κ ν :=
  ⟨m.entries.filter (fun e => decide (e.1 ≠ k)), m.sorted.filter _⟩

/-- The map of a list of assignments, made from left to right. -/
def ofList (l : List (κ × ν)) : SortedMap κ ν :=
  l.foldl (fun m e => m.insert e.1 e.2) empty

/-- The map of the values a function gives, without the keys it gives none
for. -/
def filterMap {μ : Type*} (m : SortedMap κ ν) (f : κ → ν → Option μ) : SortedMap κ μ :=
  ⟨m.entries.filterMap fun e => (f e.1 e.2).map fun v => (e.1, v),
    m.sorted.filterMap _ fun a b hab a' ha' b' hb' => by
      obtain ⟨v, -, rfl⟩ := Option.map_eq_some_iff.mp ha'
      obtain ⟨w, -, rfl⟩ := Option.map_eq_some_iff.mp hb'
      exact hab⟩

/-! ## Lookups -/

@[simp] theorem find?_empty (k : κ) : (empty : SortedMap κ ν).find? k = none := rfl

variable (m : SortedMap κ ν)

theorem mem_entries_iff (k : κ) (v : ν) : (k, v) ∈ m.entries ↔ m.find? k = some v :=
  (lookupEntry_eq_some_iff m.sorted k v).symm

theorem find?_insert (k k' : κ) (v : ν) :
    (m.insert k v).find? k' = if k' = k then some v else m.find? k' :=
  lookupEntry_insertEntry k k' v m.entries

@[simp] theorem find?_insert_self (k : κ) (v : ν) : (m.insert k v).find? k = some v := by
  rw [find?_insert, if_pos rfl]

variable {k : κ} {k' : κ}

theorem find?_insert_of_ne (h : k' ≠ k) (v : ν) : (m.insert k v).find? k' = m.find? k' := by
  rw [find?_insert, if_neg h]

variable {v w : ν}

/-- An entry of a map after an insertion is the new one or an old one. -/
theorem find?_insert_cases {m : SortedMap κ ν}
    (h : (m.insert k v).find? k' = some w) : (k' = k ∧ w = v) ∨ m.find? k' = some w := by
  rw [find?_insert] at h
  split_ifs at h with hk
  · cases h
    exact .inl ⟨hk, rfl⟩
  · exact .inr h

/-- An insertion loses no key. -/
theorem isSome_find?_insert {m : SortedMap κ ν} (h : m.find? k' = some w)
    (k : κ) (v : ν) : ((m.insert k v).find? k').isSome = true := by
  rw [find?_insert]
  split
  · rfl
  · rw [h]
    rfl

/-- A new key makes the map one longer. -/
theorem length_entries_insert (h : m.find? k = none) (v : ν) :
    (m.insert k v).entries.length = m.entries.length + 1 := by
  show (insertEntry k v m.entries).length = _
  replace h : lookupEntry k m.entries = none := h
  generalize m.entries = l at h ⊢
  induction l with
  | nil => rfl
  | cons e l ih =>
    rw [lookupEntry] at h
    split at h
    · cases h
    · rename_i hk
      rw [insertEntry, if_neg hk]
      split
      · rfl
      · rw [length_cons, ih h, length_cons]

theorem find?_erase (k k' : κ) : (m.erase k).find? k' = if k' = k then none else m.find? k' := by
  have key : ∀ l : List (κ × ν), lookupEntry k' (l.filter fun e => decide (e.1 ≠ k))
      = if k' = k then none else lookupEntry k' l := by
    intro l
    induction l with
    | nil => simp [lookupEntry]
    | cons a l ih =>
      by_cases ha : a.1 = k
      · rw [filter_cons_of_neg (by simp [ha]), ih, lookupEntry, ha]
        split_ifs with h <;> rfl
      · rw [filter_cons_of_pos (by simp [ha]), lookupEntry, lookupEntry, ih]
        split_ifs with h₁ h₂
        · exact absurd (h₁.symm.trans h₂) ha
        · rfl
        · rfl
        · rfl
  exact key m.entries

theorem find?_alterD (k k' : κ) (d : ν) (f : ν → ν) :
    (m.alterD k d f).find? k' = if k' = k then some (f (m.getD k d)) else m.find? k' :=
  find?_insert m k k' _

theorem find?_tryEmplace (k k' : κ) (v : ν) :
    (m.tryEmplace k v).find? k' = (m.find? k').or (if k' = k then some v else none) := by
  unfold tryEmplace contains
  by_cases hk : k' = k
  · subst hk
    cases hf : m.find? k' with
    | none => simp
    | some w => simp [hf]
  · rw [if_neg hk, Option.or_none]
    split
    · rfl
    · exact find?_insert_of_ne m hk v

/-- After a series of assignments that keep existing values, a key has its
old value, or else the first one given. -/
theorem find?_foldl_tryEmplace (l : List (κ × ν)) (m : SortedMap κ ν) (k : κ) :
    (l.foldl (fun m e => m.tryEmplace e.1 e.2) m).find? k = (m.find? k).or (lookupEntry k l) := by
  induction l generalizing m with
  | nil => simp [lookupEntry]
  | cons e l ih =>
    rw [foldl_cons, ih, find?_tryEmplace, Option.or_assoc, lookupEntry]
    by_cases hk : k = e.1 <;> simp [hk]

/-- What a map of a list of assignments holds was assigned. -/
theorem mem_of_find?_ofList {l : List (κ × ν)} (h : (ofList l).find? k = some v) : (k, v) ∈ l := by
  have key : ∀ (l : List (κ × ν)) (m : SortedMap κ ν),
      (l.foldl (fun m e => m.insert e.1 e.2) m).find? k = some v →
      (k, v) ∈ l ∨ m.find? k = some v := by
    intro l
    induction l with
    | nil =>
      intro m hm
      exact .inr hm
    | cons e l ih =>
      intro m hm
      rw [foldl_cons] at hm
      obtain hl | hm := ih _ hm
      · exact .inl (mem_cons_of_mem e hl)
      · rw [find?_insert] at hm
        split_ifs at hm with hk
        · cases hm
          exact .inl (hk ▸ mem_cons_self)
        · exact .inr hm
  obtain hl | he := key l empty h
  · exact hl
  · cases he

/-- After a series of assignments to different keys, a key has the value it
was given, or else its old one. -/
theorem find?_foldl_insert {l : List (κ × ν)} (h : (l.map Prod.fst).Nodup) (m : SortedMap κ ν)
    (k : κ) : (l.foldl (fun m e => m.insert e.1 e.2) m).find? k
      = (lookupEntry k l).or (m.find? k) := by
  induction l generalizing m with
  | nil => rfl
  | cons e l ih =>
    rw [map_cons, nodup_cons] at h
    rw [foldl_cons, ih h.2, find?_insert, lookupEntry]
    by_cases hk : k = e.1
    · have hn : lookupEntry k l = none := by
        rw [Option.eq_none_iff_forall_ne_some]
        intro v hv
        refine h.1 (hk ▸ mem_map_of_mem ((lookupEntry_eq_some_iff_of_unique ?_ v).mp hv))
        exact fun v w hv hw => congrArg Prod.snd
          (inj_on_of_nodup_map h.2 hv hw rfl)
      rw [hn, if_pos hk, if_pos hk]
      rfl
    · rw [if_neg hk, if_neg hk]

variable {μ : Type*}

theorem find?_filterMap (f : κ → ν → Option μ) (k : κ) :
    (m.filterMap f).find? k = (m.find? k).bind (f k) := by
  refine Option.ext fun v => ?_
  rw [← mem_entries_iff, Option.bind_eq_some_iff]
  show (k, v) ∈ m.entries.filterMap (fun e => (f e.1 e.2).map fun v => (e.1, v)) ↔ _
  rw [mem_filterMap]
  constructor
  · rintro ⟨⟨k', w⟩, hm, h⟩
    obtain ⟨v', hv', h⟩ := Option.map_eq_some_iff.mp h
    cases h
    exact ⟨w, (m.mem_entries_iff k' w).mp hm, hv'⟩
  · rintro ⟨w, hw, h⟩
    exact ⟨(k, w), (m.mem_entries_iff k w).mpr hw, by rw [h]; rfl⟩

/-- **Maps with the same lookups are equal.** -/
theorem ext_find? {m₁ m₂ : SortedMap κ ν} (h : ∀ k, m₁.find? k = m₂.find? k) : m₁ = m₂ := by
  obtain ⟨l₁, s₁⟩ := m₁
  obtain ⟨l₂, s₂⟩ := m₂
  have hm : ∀ e : κ × ν, e ∈ l₁ ↔ e ∈ l₂ := by
    intro e
    rw [← lookupEntry_eq_some_iff s₁, ← lookupEntry_eq_some_iff s₂]
    exact iff_of_eq (congrArg (· = some e.2) (h e.1))
  have hnd : ∀ {l : List (κ × ν)}, l.Pairwise (fun a b => a.1 < b.1) → l.Nodup :=
    fun s => s.imp fun hlt he => absurd (he ▸ hlt) (lt_irrefl _)
  have hp := (perm_ext_iff_of_nodup (hnd s₁) (hnd s₂)).mpr hm
  have heq : l₁ = l₂ :=
    hp.eq_of_pairwise (fun _ _ _ _ hab hba => absurd hab hba.asymm) s₁ s₂
  subst heq
  rfl

/-- No key occurs twice. -/
theorem nodup_keys : (m.entries.map Prod.fst).Nodup :=
  (pairwise_map.mpr m.sorted).imp fun h => ne_of_lt h

/-- A map is the map of its entries. -/
theorem ofList_entries : ofList m.entries = m :=
  ext_find? fun k => (find?_foldl_insert m.nodup_keys empty k).trans Option.or_none

/-- The values of a map whose values are replaced. -/
theorem map_snd_entries_filterMap (f : ν → μ) :
    (m.filterMap fun _ v => some (f v)).entries.map Prod.snd
      = (m.entries.map Prod.snd).map f := by
  show (m.entries.filterMap fun e => (some (f e.2)).map fun v => (e.1, v)).map Prod.snd = _
  induction m.entries with
  | nil => rfl
  | cons e l ih => simp

/-- **Maps whose lookups are related** have related entries, as the two sides of
one list of pairs. -/
theorem exists_pairs {R : ν → μ → Prop} {m : SortedMap κ ν} {m' : SortedMap κ μ}
    (h : ∀ k, Option.Rel R (m.find? k) (m'.find? k)) :
    ∃ pairs : List (ν × μ), (∀ p ∈ pairs, R p.1 p.2)
      ∧ m.entries.map Prod.snd = pairs.map Prod.fst
      ∧ m'.entries.map Prod.snd = pairs.map Prod.snd := by
  -- the map of the pairs, of which both maps are projections
  let both : SortedMap κ (ν × μ) := m.filterMap fun k v => (m'.find? k).map (Prod.mk v)
  have hf : ∀ k, both.find? k = (m.find? k).bind fun v => (m'.find? k).map (Prod.mk v) :=
    fun k => find?_filterMap m _ k
  have hfst : both.filterMap (fun _ p => some p.1) = m := by
    refine ext_find? fun k => ?_
    rw [find?_filterMap, hf]
    have hk := h k
    revert hk
    generalize m.find? k = o
    generalize m'.find? k = o'
    rintro (_ | _) <;> rfl
  have hsnd : both.filterMap (fun _ p => some p.2) = m' := by
    refine ext_find? fun k => ?_
    rw [find?_filterMap, hf]
    have hk := h k
    revert hk
    generalize m.find? k = o
    generalize m'.find? k = o'
    rintro (_ | _) <;> rfl
  refine ⟨both.entries.map Prod.snd, ?_, ?_, ?_⟩
  · rintro ⟨v, w⟩ hm
    obtain ⟨⟨k, p⟩, hp, rfl⟩ := mem_map.mp hm
    obtain ⟨v', hv', hw'⟩ := Option.bind_eq_some_iff.mp ((hf k).symm.trans
      ((both.mem_entries_iff k _).mp hp))
    obtain ⟨w', hw', heq⟩ := Option.map_eq_some_iff.mp hw'
    cases heq
    have hk := h k
    rw [hv', hw'] at hk
    cases hk with
    | some hk => exact hk
  · rw [← map_snd_entries_filterMap, hfst]
  · rw [← map_snd_entries_filterMap, hsnd]

/-! ## Sums -/

/-- The sum of a measure over the entries. -/
def sumBy (m : SortedMap κ ν) (f : κ → ν → ℕ) : ℕ :=
  (m.entries.map fun e => f e.1 e.2).sum

@[simp] theorem sumBy_empty (f : κ → ν → ℕ) : (empty : SortedMap κ ν).sumBy f = 0 := rfl

variable {f : κ → ν → ℕ}

/-- Sums are monotone in the measure. -/
theorem sumBy_le_sumBy {g : κ → ν → ℕ} (h : ∀ k v, f k v ≤ g k v) : m.sumBy f ≤ m.sumBy g := by
  unfold sumBy
  induction m.entries with
  | nil => exact le_rfl
  | cons e l ih =>
    simp only [map_cons, sum_cons]
    exact Nat.add_le_add (h e.1 e.2) ih

/-- A sum over a map without entries. -/
theorem sumBy_eq_zero {m : SortedMap κ ν} (h : ∀ k, m.find? k = none) (f : κ → ν → ℕ) :
    m.sumBy f = 0 := by
  have hm : m = empty := ext_find? fun k => by rw [h k, find?_empty]
  rw [hm, sumBy_empty]

/-- A sum of zeros. -/
theorem sumBy_eq_zero_of {m : SortedMap κ ν} (h : ∀ k v, m.find? k = some v → f k v = 0) :
    m.sumBy f = 0 := by
  unfold sumBy
  refine sum_eq_zero fun n hn => ?_
  obtain ⟨e, he, rfl⟩ := mem_map.mp hn
  exact h e.1 e.2 ((m.mem_entries_iff e.1 e.2).mp he)

/-- The sum without a key. -/
theorem sumBy_erase (k : κ) (f : κ → ν → ℕ) :
    (m.erase k).sumBy f + (m.find? k).elim 0 (f k) = m.sumBy f := by
  have key : ∀ l : List (κ × ν), l.Pairwise (fun a b => a.1 < b.1) →
      ((l.filter fun e => decide (e.1 ≠ k)).map fun e => f e.1 e.2).sum
          + (lookupEntry k l).elim 0 (f k)
        = (l.map fun e => f e.1 e.2).sum := by
    intro l hl
    induction l with
    | nil => simp [lookupEntry]
    | cons a l ih =>
      obtain ⟨ha, hl⟩ := pairwise_cons.mp hl
      have ih := ih hl
      rw [lookupEntry]
      by_cases h : k = a.1
      · -- the other keys are larger, so there is nothing else to remove
        have hr : (l.filter fun e => decide (e.1 ≠ k)) = l := by
          rw [filter_eq_self]
          intro e he
          exact decide_eq_true (h ▸ (ha e he).ne')
        rw [if_pos h, filter_cons_of_neg (by simp [h]), hr, map_cons, sum_cons,
          h, Option.elim_some]
        exact Nat.add_comm _ _
      · rw [if_neg h, filter_cons_of_pos (by simp [Ne.symm h]), map_cons, map_cons,
          sum_cons, sum_cons]
        omega
  exact key m.entries m.sorted

/-- An assignment replaces the contribution of its key to a sum. -/
theorem sumBy_insert (k : κ) (v : ν) (f : κ → ν → ℕ) :
    (m.insert k v).sumBy f + (m.find? k).elim 0 (f k) = m.sumBy f + f k v := by
  have key : ∀ l : List (κ × ν), l.Pairwise (fun a b => a.1 < b.1) →
      ((insertEntry k v l).map fun e => f e.1 e.2).sum + (lookupEntry k l).elim 0 (f k)
        = (l.map fun e => f e.1 e.2).sum + f k v := by
    intro l hl
    induction l with
    | nil => simp [insertEntry, lookupEntry]
    | cons a l ih =>
      obtain ⟨ha, hl⟩ := pairwise_cons.mp hl
      rw [insertEntry, lookupEntry]
      by_cases h₁ : k < a.1
      · -- below the first key there is no entry to replace
        have hn : lookupEntry k l = none := by
          cases hlk : lookupEntry k l with
          | none => rfl
          | some w =>
            have hm := (lookupEntry_eq_some_iff hl k w).mp hlk
            exact absurd (h₁.trans (ha _ hm)) (lt_irrefl k)
        rw [if_pos h₁, if_neg h₁.ne, hn]
        simp only [map_cons, sum_cons, Option.elim_none]
        omega
      rw [if_neg h₁]
      by_cases h₂ : k = a.1
      · rw [if_pos h₂, if_pos h₂]
        simp only [map_cons, sum_cons, Option.elim_some, h₂]
        omega
      · rw [if_neg h₂, if_neg h₂]
        simp only [map_cons, sum_cons]
        have := ih hl
        omega
  exact key m.entries m.sorted

/-- Rewriting an entry to one that counts no more. -/
theorem sumBy_insert_le {m : SortedMap κ ν} (hv : m.find? k = some v) (h : f k w ≤ f k v) :
    (m.insert k w).sumBy f ≤ m.sumBy f := by
  have hsm := m.sumBy_insert k w f
  rw [hv, Option.elim_some] at hsm
  omega

end SortedMap
