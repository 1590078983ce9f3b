import NeoGraph.Lib.Json

/-!
# Objects by their lookups

How code reads and rebuilds JSON objects: `get?` and `contains` look a name
up, `elements` iterates over members, and `put` assigns a member.

Up to the order of members an object without duplicate names is given by
its lookups. `normalize_obj_eq_iff` says so for normal forms, and the lemmas
here give the lookups of every way of building an object.
-/

namespace NeoGraph.Json

open List Option

variable {S : Type}

/-! ## Reading -/

/-- The members of an object. -/
def members : Json S → List (S × Json S)
  | .obj members => members
  | _ => []

/-- The values a loop over a value visits. -/
def elements : Json S → List (Json S)
  | .arr items => items
  | .obj members => members.map Prod.snd
  | _ => []

/-- The members a loop over a value visits; items of an array have an empty
name. -/
def items [Inhabited S] : Json S → List (S × Json S)
  | .arr items => items.map fun v => (default, v)
  | .obj members => members
  | _ => []

def isObject : Json S → Bool
  | .obj _ => true
  | _ => false

def isArray : Json S → Bool
  | .arr _ => true
  | _ => false

section Lookup

variable [DecidableEq S]

/-- The first member of a name. -/
def get? (v : Json S) (name : S) : Option (Json S) := v.members.lookup name

def contains (v : Json S) (name : S) : Bool := (v.get? name).isSome

/-! ## Building -/

/-- A member is assigned. -/
def put (members : List (S × Json S)) (name : S) (v : Json S) : List (S × Json S) :=
  if (members.lookup name).isSome then
    members.map fun m => if m.1 = name then (name, v) else m
  else members ++ [(name, v)]

/-- A member is assigned if there is a value. -/
def put? (members : List (S × Json S)) (name : S) : Option (Json S) → List (S × Json S)
  | some v => put members name v
  | none => members

/-- An object is rebuilt member by member. -/
def rebuild (members : List (S × Json S)) : List (S × Json S) :=
  members.foldl (fun out m => put out m.1 m.2) []

/-- The members that have a value. -/
def present (members : List (S × Option (Json S))) : List (S × Json S) :=
  members.filterMap fun m => m.2.map fun v => (m.1, v)

variable (members : List (S × Json S))

theorem mem_names_iff (name : S) :
    name ∈ members.map Prod.fst ↔ (members.lookup name).isSome = true := by
  induction members with
  | nil => simp
  | cons m members ih =>
    rw [map_cons, mem_cons, ih, lookup_cons]
    by_cases hnm : name = m.1
    · simp [hnm]
    · rw [beq_false_of_ne hnm]
      simp [hnm]

theorem names_put (name : S) (v : Json S) : (put members name v).map Prod.fst
      = if (members.lookup name).isSome then members.map Prod.fst
        else members.map Prod.fst ++ [name] := by
  unfold put
  split
  · rw [List.map_map]
    refine map_congr_left fun m _ => ?_
    show (if m.1 = name then (name, v) else m).1 = m.1
    split
    · symm
      assumption
    · rfl
  · rw [map_append]
    rfl

theorem nodup_put {members : List (S × Json S)} (h : (members.map Prod.fst).Nodup) (name : S)
    (v : Json S) : ((put members name v).map Prod.fst).Nodup := by
  rw [names_put]
  split_ifs with hn
  · exact h
  rw [← mem_names_iff] at hn
  exact nodup_append.mpr ⟨h, nodup_singleton name, fun a ha b hb hab => by
      rw [mem_singleton.mp hb] at hab
      exact hn (hab ▸ ha)⟩

theorem lookup_append (members members' : List (S × Json S)) (name : S) :
    (members ++ members').lookup name = (members.lookup name).or (members'.lookup name) := by
  induction members with
  | nil => rfl
  | cons m members ih =>
    rw [cons_append, lookup_cons, lookup_cons]
    split
    · rfl
    · exact ih

theorem lookup_replace_of_ne {name name' : S} (h : name' ≠ name) (v : Json S) :
    (members.map fun m => if m.1 = name then (name, v) else m).lookup name'
      = members.lookup name' := by
  induction members with
  | nil => rfl
  | cons m members ih =>
    rw [map_cons, lookup_cons, lookup_cons, ih]
    by_cases hm : m.1 = name
    · rw [if_pos hm, beq_false_of_ne h, beq_false_of_ne (show name' ≠ m.1 from hm ▸ h)]
    · rw [if_neg hm]

theorem lookup_replace_self {members : List (S × Json S)} {name : S}
    (h : (members.lookup name).isSome = true) (v : Json S) :
    (members.map fun m => if m.1 = name then (name, v) else m).lookup name = some v := by
  induction members with
  | nil => cases h
  | cons m members ih =>
    rw [map_cons, lookup_cons]
    by_cases hm : m.1 = name
    · rw [if_pos hm, beq_self_eq_true]
    · rw [if_neg hm, beq_false_of_ne (Ne.symm hm)]
      rw [lookup_cons, beq_false_of_ne (Ne.symm hm)] at h
      exact ih h

/-- **Lookup after an assignment.** -/
theorem lookup_put (name name' : S) (v : Json S) :
    (put members name v).lookup name' = if name' = name then some v else members.lookup name' := by
  unfold put
  by_cases hnm : name' = name
  · subst hnm
    rw [if_pos rfl]
    split_ifs with hs
    · exact lookup_replace_self hs v
    · rw [lookup_append, not_isSome_iff_eq_none.mp hs, none_or, lookup_cons, beq_self_eq_true]
  · rw [if_neg hnm]
    split
    · exact lookup_replace_of_ne members hnm v
    · rw [lookup_append, lookup_cons, beq_false_of_ne hnm, lookup_nil, or_none]

theorem nodup_foldl_put {members : List (S × Json S)} (h : (members.map Prod.fst).Nodup)
    (more : List (S × Json S)) :
    ((more.foldl (fun out m => put out m.1 m.2) members).map Prod.fst).Nodup := by
  induction more generalizing members with
  | nil => exact h
  | cons m more ih => exact ih (nodup_put h m.1 m.2)

/-- Lookup after the members of another object were assigned. -/
theorem lookup_foldl_put {more : List (S × Json S)} (h : (more.map Prod.fst).Nodup)
    (members : List (S × Json S)) (name : S) :
    (more.foldl (fun out m => put out m.1 m.2) members).lookup name
      = (more.lookup name).or (members.lookup name) := by
  induction more generalizing members with
  | nil => rfl
  | cons m more ih =>
    rw [map_cons, nodup_cons, mem_names_iff, not_isSome_iff_eq_none] at h
    rw [foldl_cons, ih h.2, lookup_put, lookup_cons]
    by_cases hnm : name = m.1
    · rw [if_pos hnm, beq_iff_eq.mpr hnm, hnm, h.1]
      rfl
    · rw [if_neg hnm, beq_false_of_ne hnm]

/-- Without duplicate names an object is rebuilt as it is. -/
theorem rebuild_of_nodup {members : List (S × Json S)} (h : (members.map Prod.fst).Nodup) :
    rebuild members = members := by
  have hf : ∀ out : List (S × Json S), ((out ++ members).map Prod.fst).Nodup →
      members.foldl (fun out m => put out m.1 m.2) out = out ++ members := by
    clear h
    induction members with
    | nil =>
      intro out _
      rw [foldl_nil, append_nil]
    | cons m members ih =>
      intro out ho
      have hput : put out m.1 m.2 = out ++ [m] := by
        unfold put
        rw [if_neg]
        rw [← mem_names_iff]
        intro hm
        rw [map_append, nodup_append] at ho
        exact ho.2.2 _ hm _ (mem_map_of_mem mem_cons_self) rfl
      rw [foldl_cons, hput, ih _ (by rwa [append_assoc]), append_assoc]
      rfl
  exact hf [] h

theorem nodup_rebuild : ((rebuild members).map Prod.fst).Nodup :=
  nodup_foldl_put (show (([] : List (S × Json S)).map Prod.fst).Nodup from nodup_nil) members

omit [DecidableEq S] in
theorem mem_of_mem_present {members : List (S × Option (Json S))} {m : S × Json S}
    (h : m ∈ present members) : (m.1, some m.2) ∈ members := by
  obtain ⟨n, hn, hm⟩ := mem_filterMap.mp h
  obtain ⟨v, hv, rfl⟩ := map_eq_some_iff.mp hm
  rw [← hv]
  exact hn

omit [DecidableEq S] in
theorem nodup_present {members : List (S × Option (Json S))}
    (h : (members.map Prod.fst).Nodup) : ((present members).map Prod.fst).Nodup := by
  induction members with
  | nil => exact h
  | cons m members ih =>
    obtain ⟨name, v⟩ := m
    rw [map_cons, nodup_cons] at h
    cases v with
    | none => exact ih h.2
    | some v =>
      show (name :: (present members).map Prod.fst).Nodup
      refine nodup_cons.mpr ⟨fun hm => h.1 ?_, ih h.2⟩
      obtain ⟨n, hn, hnm⟩ := mem_map.mp hm
      exact mem_map.mpr ⟨_, mem_of_mem_present hn, hnm⟩

theorem lookup_present {members : List (S × Option (Json S))} (h : (members.map Prod.fst).Nodup)
    (name : S) : (present members).lookup name = (members.lookup name).join := by
  induction members with
  | nil => rfl
  | cons m members ih =>
    obtain ⟨name', v⟩ := m
    rw [map_cons, nodup_cons] at h
    have hr := ih h.2
    rw [lookup_cons]
    by_cases hnm : name = name'
    · subst hnm
      rw [beq_self_eq_true]
      cases v with
      | none =>
        show (present members).lookup name = none
        by_contra hs
        have hm := (mem_names_iff _ name).mpr (isSome_iff_ne_none.mpr hs)
        obtain ⟨n, hn, hnm⟩ := mem_map.mp hm
        exact h.1 (mem_map.mpr ⟨_, mem_of_mem_present hn, hnm⟩)
      | some v =>
        show lookup name ((name, v) :: present members) = some v
        rw [lookup_cons, beq_self_eq_true]
    · rw [beq_false_of_ne hnm]
      cases v with
      | none => exact hr
      | some v =>
        show lookup name ((name', v) :: present members) = _
        rw [lookup_cons, beq_false_of_ne hnm]
        exact hr

theorem lookup_present_pair {a b : S} (h : a ≠ b) (x y : Option (Json S)) (name : S) :
    (present [(a, x), (b, y)]).lookup name
      = if name = a then x else if name = b then y else none := by
  rw [lookup_present (by simpa using h), lookup_cons, lookup_cons, lookup_nil]
  by_cases ha : name = a
  · rw [if_pos ha, beq_iff_eq.mpr ha]
    exact join_some
  rw [if_neg ha, beq_false_of_ne ha]
  by_cases hb : name = b
  · rw [if_pos hb, beq_iff_eq.mpr hb]
    exact join_some
  · rw [if_neg hb, beq_false_of_ne hb]
    rfl

/-- A member that passes a test on names is found among those that do. -/
theorem lookup_filter_name (p : S → Bool) (name : S) : (members.filter fun m => p m.1).lookup name
      = if p name then members.lookup name else none := by
  induction members with
  | nil => simp
  | cons m members ih =>
    rw [filter_cons, lookup_cons]
    by_cases hnm : name = m.1
    · subst hnm
      rw [beq_self_eq_true]
      by_cases hp : p m.1 = true
      · rw [if_pos hp, if_pos hp, lookup_cons, beq_self_eq_true]
      · rw [if_neg hp, if_neg hp, ih, if_neg hp]
    · rw [beq_false_of_ne hnm]
      split
      · rw [lookup_cons, beq_false_of_ne hnm]
        exact ih
      · exact ih

end Lookup

/-! ## Nesting -/

mutual

/-- How deep arrays and objects are nested in a value. -/
def nesting : Json S → ℕ
  | .arr items => nestingItems items + 1
  | .obj members => nestingMembers members + 1
  | _ => 0

def nestingItems : List (Json S) → ℕ
  | [] => 0
  | v :: items => max (nesting v) (nestingItems items)

def nestingMembers : List (S × Json S) → ℕ
  | [] => 0
  | (_, v) :: members => max (nesting v) (nestingMembers members)

end

variable (items : List (Json S))

theorem nestingItems_le_iff (n : ℕ) : nestingItems items ≤ n ↔ ∀ v ∈ items, nesting v ≤ n := by
  induction items with
  | nil => simp [nestingItems]
  | cons v items ih => rw [nestingItems, Nat.max_le, ih, forall_mem_cons]

theorem nestingMembers_le_iff (members : List (S × Json S)) (n : ℕ) :
    nestingMembers members ≤ n ↔ ∀ m ∈ members, nesting m.2 ≤ n := by
  induction members with
  | nil => simp [nestingMembers]
  | cons m members ih => rw [nestingMembers, Nat.max_le, ih, forall_mem_cons]

theorem nesting_arr_le_iff (n : ℕ) : nesting (.arr items) ≤ n + 1 ↔ ∀ v ∈ items, nesting v ≤ n := by
  rw [nesting, Nat.add_le_add_iff_right, nestingItems_le_iff]

theorem nesting_obj_le_iff (members : List (S × Json S)) (n : ℕ) :
    nesting (.obj members) ≤ n + 1 ↔ ∀ m ∈ members, nesting m.2 ≤ n := by
  rw [nesting, Nat.add_le_add_iff_right, nestingMembers_le_iff]

theorem noDuplicates_arr_iff : (arr items).NoDuplicates ↔ ∀ v ∈ items, v.NoDuplicates := by
  unfold NoDuplicates
  rw [All, allItems_iff]
  exact and_iff_right trivial

theorem noDuplicates_obj_iff (members : List (S × Json S)) : (obj members).NoDuplicates
      ↔ (members.map Prod.fst).Nodup ∧ ∀ m ∈ members, m.2.NoDuplicates := by
  unfold NoDuplicates
  rw [All, allMembers_iff]
  rfl

/-! ## Distinct names -/

section NoDuplicates

variable {v : Json S}

theorem NoDuplicates.elements (h : v.NoDuplicates) : ∀ w ∈ v.elements, w.NoDuplicates := by
  cases v with
  | arr items => exact (noDuplicates_arr_iff items).mp h
  | obj members =>
    intro w hw
    obtain ⟨m, hm, rfl⟩ := mem_map.mp hw
    exact ((noDuplicates_obj_iff members).mp h).2 m hm
  | _ =>
    intro w hw
    cases hw

theorem NoDuplicates.members (h : v.NoDuplicates) : ∀ m ∈ v.members, m.2.NoDuplicates := by
  cases v with
  | obj members => exact ((noDuplicates_obj_iff members).mp h).2
  | _ =>
    intro m hm
    cases hm

theorem NoDuplicates.nodup (h : v.NoDuplicates) : (v.members.map Prod.fst).Nodup := by
  cases v with
  | obj members => exact ((noDuplicates_obj_iff members).mp h).1
  | _ => exact nodup_nil

variable [DecidableEq S] {name : S}

theorem NoDuplicates.get? (h : v.NoDuplicates) {w : Json S} (hw : v.get? name = some w) :
    w.NoDuplicates :=
  h.members (name, w) ((lookup_eq_some_iff h.nodup).mp hw)

variable {members : List (S × Json S)} {m : S × Json S}

theorem mem_put (h : m ∈ put members name v) : m = (name, v) ∨ m ∈ members := by
  unfold put at h
  split at h
  · obtain ⟨n, hn, rfl⟩ := mem_map.mp h
    split
    · exact .inl rfl
    · exact .inr hn
  · rw [mem_append, mem_singleton] at h
    exact h.symm

theorem mem_of_mem_rebuild (h : m ∈ rebuild members) : m ∈ members := by
  have hf : ∀ out : List (S × Json S),
      m ∈ members.foldl (fun out m => put out m.1 m.2) out → m ∈ out ∨ m ∈ members := by
    clear h
    induction members with
    | nil => exact fun out h => .inl h
    | cons n members ih =>
      intro out h
      obtain h | h := ih _ h
      · obtain rfl | h := mem_put h
        · exact .inr mem_cons_self
        · exact .inl h
      · exact .inr (mem_cons_of_mem n h)
  exact (hf [] h).resolve_left not_mem_nil

end NoDuplicates

/-! ## Normal forms and lookups -/

section NormalForms

variable [DecidableEq S] [LE S] [DecidableLE S] {α : Type} {β : Type}

omit [LE S] [DecidableLE S] in
theorem lookup_map_value (f : α → β) (members : List (S × α)) (name : S) :
    (members.map fun m => (m.1, f m.2)).lookup name = (members.lookup name).map f := by
  induction members with
  | nil => rfl
  | cons m members ih =>
    rw [map_cons, lookup_cons, lookup_cons, ih]
    split <;> rfl

omit [DecidableEq S] [LE S] [DecidableLE S] in
theorem names_map_value (f : α → β) (members : List (S × α)) :
    (members.map fun m => (m.1, f m.2)).map Prod.fst = members.map Prod.fst := by
  rw [List.map_map]
  rfl

omit [LE S] [DecidableLE S] in
/-- Lookups do not depend on the order of members without duplicate
names. -/
theorem lookup_eq_of_perm {members members' : List (S × α)} (hnd : (members.map Prod.fst).Nodup)
    (h : members.Perm members') (name : S) : members.lookup name = members'.lookup name := by
  have hnd' : (members'.map Prod.fst).Nodup := (h.map Prod.fst).nodup_iff.mp hnd
  refine Option.ext fun v => ?_
  rw [lookup_eq_some_iff hnd, lookup_eq_some_iff hnd', h.mem_iff]

theorem lookup_sortMembers {members : List (S × α)} (hnd : (members.map Prod.fst).Nodup)
    (name : S) : (sortMembers members).lookup name = members.lookup name :=
  (lookup_eq_of_perm hnd (sortMembers_perm members).symm name).symm

theorem get?_normalize {v : Json S} (hv : v.NoDuplicates) (name : S) :
    v.normalize.get? name = (v.get? name).map normalize := by
  unfold get?
  cases v with
  | obj members =>
    rw [normalize, normalizeMembers_eq_map]
    show (sortMembers _).lookup name = _
    rw [lookup_sortMembers (by rw [names_map_value]; exact hv.1), lookup_map_value]
    rfl
  | sint n =>
    rw [normalize]
    split <;> rfl
  | _ => rfl

variable [Std.IsLinearOrder S]

/-- **An object is given by its lookups.** -/
theorem normalize_obj_eq_iff {members members' : List (S × Json S)}
    (hnd : (members.map Prod.fst).Nodup) (hnd' : (members'.map Prod.fst).Nodup) :
    normalize (.obj members) = normalize (.obj members')
      ↔ ∀ name, (members.lookup name).map normalize = (members'.lookup name).map normalize := by
  rw [normalize, normalize, obj.injEq, normalizeMembers_eq_map, normalizeMembers_eq_map]
  have hm := names_map_value normalize members
  have hm' := names_map_value normalize members'
  constructor
  · intro h name
    have hlk := congrArg (lookup name) h
    rwa [lookup_sortMembers (by rwa [hm]), lookup_sortMembers (by rwa [hm']),
      lookup_map_value, lookup_map_value] at hlk
  · intro h
    refine sortMembers_eq_of_perm (by rwa [hm]) ?_
    refine (perm_ext_iff_of_nodup (List.Nodup.of_map Prod.fst (by rwa [hm]))
      (List.Nodup.of_map Prod.fst (by rwa [hm']))).mpr fun m => ?_
    obtain ⟨name, v⟩ := m
    rw [← lookup_eq_some_iff (by rwa [hm]), ← lookup_eq_some_iff (by rwa [hm']),
      lookup_map_value, lookup_map_value, h name]

end NormalForms

end NeoGraph.Json
