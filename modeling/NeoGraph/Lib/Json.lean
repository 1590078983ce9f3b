import Mathlib

/-!
# JSON values

A JSON value as a document library keeps it: integers in an unsigned or a
signed machine word, reals by their bits, and objects as lists of members
in document order, where a name may occur twice. The type of strings is a
parameter – bytes for a writer, text for a reader of typed fields.

`equals` is the comparison such a library offers: integers are equal when
their values are, and objects when they have the same number of members
and every member of the one is found, equal, in the other. On values
without duplicate names it is equality up to the order of members:
`equals_iff_normalize` compares the forms with sorted members and integers
of one kind.
-/

namespace NeoGraph

open List

/-- A JSON value. -/
inductive Json (S : Type) where
  | null
  | bool (b : Bool)
  | uint (n : UInt64)
  | sint (n : Int64)
  | real (bits : UInt64)
  | str (s : S)
  | arr (items : List (Json S))
  | obj (members : List (S × Json S))

/-! ## Lists of members -/

section Members

variable {S α β : Type} [LE S] [DecidableLE S]

/-- Members sorted by name. -/
def sortMembers (members : List (S × α)) : List (S × α) :=
  members.insertionSort fun m n => m.1 ≤ n.1

theorem sortMembers_perm (members : List (S × α)) : (sortMembers members).Perm members :=
  perm_insertionSort _ members

/-- Sorting does not look at the values. -/
theorem sortMembers_map (f : α → β) (members : List (S × α)) :
    sortMembers (members.map fun m => (m.1, f m.2))
      = (sortMembers members).map fun m => (m.1, f m.2) :=
  (map_insertionSort (fun m n : S × α => m.1 ≤ n.1) (fun m n : S × β => m.1 ≤ n.1)
    (fun m => (m.1, f m.2)) members fun _ _ _ _ => Iff.rfl).symm

variable {members : List (S × α)}

theorem sortMembers_of_pairwise (h : members.Pairwise fun m n => m.1 ≤ n.1) :
    sortMembers members = members :=
  h.insertionSort_eq

variable [Std.IsLinearOrder S]

theorem sortMembers_pairwise (members : List (S × α)) :
    (sortMembers members).Pairwise fun m n => m.1 ≤ n.1 := by
  have total : Std.Total fun m n : S × α => m.1 ≤ n.1 := ⟨fun _ _ => Std.le_total⟩
  have trans : IsTrans (S × α) fun m n => m.1 ≤ n.1 := ⟨fun _ _ _ => Std.le_trans⟩
  exact pairwise_insertionSort _ members

omit [LE S] [DecidableLE S] [Std.IsLinearOrder S] in
/-- Without duplicate names a name determines its member. -/
theorem eq_of_name_eq (hnd : (members.map Prod.fst).Nodup) {m n : S × α} (hm : m ∈ members)
    (hn : n ∈ members) (h : m.1 = n.1) : m = n :=
  inj_on_of_nodup_map hnd hm hn h

/-- Without duplicate names the sorted form is determined by the members. -/
theorem sortMembers_eq_of_perm {members' : List (S × α)} (hnd : (members.map Prod.fst).Nodup)
    (h : members.Perm members') : sortMembers members = sortMembers members' := by
  refine List.Perm.eq_of_pairwise ?_ (sortMembers_pairwise members) (sortMembers_pairwise members')
    ((sortMembers_perm members).trans (h.trans (sortMembers_perm members').symm))
  intro m n hm hn hmn hnm
  exact eq_of_name_eq hnd ((sortMembers_perm members).mem_iff.mp hm)
    (h.mem_iff.mpr ((sortMembers_perm members').mem_iff.mp hn)) (Std.le_antisymm hmn hnm)

end Members

namespace Json

variable {S : Type}

/-- Induction on a value, with the hypothesis for every item and every
member. -/
theorem ind {P : Json S → Prop} (null : P .null) (bool : ∀ b, P (.bool b))
    (uint : ∀ n, P (.uint n)) (sint : ∀ n, P (.sint n)) (real : ∀ bits, P (.real bits))
    (str : ∀ s, P (.str s)) (arr : ∀ items, (∀ v ∈ items, P v) → P (.arr items))
    (obj : ∀ members, (∀ m ∈ members, P m.2) → P (.obj members)) (v : Json S) : P v := by
  refine @Json.rec S P (fun items => ∀ v ∈ items, P v) (fun members => ∀ m ∈ members, P m.2)
    (fun m => P m.2) null bool uint sint real str arr obj ?_ ?_ ?_ ?_ ?_ v
  · intro v hv
    cases hv
  · intro v items hv his w hw
    obtain rfl | hw := mem_cons.mp hw
    · exact hv
    · exact his w hw
  · intro m hm
    cases hm
  · intro m members hm hmbr n hn
    obtain rfl | hn := mem_cons.mp hn
    · exact hm
    · exact hmbr n hn
  · intro _ v hv
    exact hv

/-! ## Equality up to the order of members -/

section Equals

variable [DecidableEq S]

mutual

/-- Equality as a document library decides it. -/
def equals : Json S → Json S → Bool
  | .null, .null => true
  | .bool a, .bool b => a = b
  | .uint a, .uint b => a = b
  | .sint a, .sint b => a = b
  | .sint a, .uint b => 0 ≤ a && a.toUInt64 = b
  | .uint a, .sint b => 0 ≤ b && a = b.toUInt64
  | .real a, .real b => a = b
  | .str a, .str b => a = b
  | .arr a, .arr b => equalsItems a b
  | .obj a, .obj b => a.length = b.length && equalsMembers a b
  | _, _ => false

def equalsItems : List (Json S) → List (Json S) → Bool
  | [], [] => true
  | v :: items, w :: items' => equals v w && equalsItems items items'
  | _, _ => false

def equalsMembers : List (S × Json S) → List (S × Json S) → Bool
  | [], _ => true
  | (name, v) :: members, members' =>
    (match members'.lookup name with
      | some w => equals v w
      | none => false) && equalsMembers members members'

end

end Equals

/-! ## The normal form -/

section Normalize

variable [LE S] [DecidableLE S]

mutual

/-- The value with sorted members, and with integers unsigned when they can
be. -/
def normalize : Json S → Json S
  | .sint n => if 0 ≤ n then .uint n.toUInt64 else .sint n
  | .arr items => .arr (normalizeItems items)
  | .obj members => .obj (sortMembers (normalizeMembers members))
  | v => v

def normalizeItems : List (Json S) → List (Json S)
  | [] => []
  | v :: items => normalize v :: normalizeItems items

def normalizeMembers : List (S × Json S) → List (S × Json S)
  | [] => []
  | (name, v) :: members => (name, normalize v) :: normalizeMembers members

end

theorem normalizeItems_eq_map (items : List (Json S)) :
    normalizeItems items = items.map normalize := by
  induction items with
  | nil => rfl
  | cons v items ih => rw [normalizeItems, ih, map_cons]

theorem normalizeMembers_eq_map (members : List (S × Json S)) :
    normalizeMembers members = members.map fun m => (m.1, normalize m.2) := by
  induction members with
  | nil => rfl
  | cons m members ih => rw [normalizeMembers, ih, map_cons]

end Normalize

/-! ## Properties of all parts of a value -/

section All

variable (P : Json S → Prop)

mutual

/-- The property holds of the value and of all its parts. -/
def All : Json S → Prop
  | .arr items => P (.arr items) ∧ AllItems items
  | .obj members => P (.obj members) ∧ AllMembers members
  | v => P v

def AllItems : List (Json S) → Prop
  | [] => True
  | v :: items => All v ∧ AllItems items

def AllMembers : List (S × Json S) → Prop
  | [] => True
  | (_, v) :: members => All v ∧ AllMembers members

end

variable {P}

theorem allItems_iff (items : List (Json S)) : AllItems P items ↔ ∀ v ∈ items, All P v := by
  induction items with
  | nil => simp [AllItems]
  | cons v items ih => rw [AllItems, ih, forall_mem_cons]

theorem allMembers_iff (members : List (S × Json S)) :
    AllMembers P members ↔ ∀ m ∈ members, All P m.2 := by
  induction members with
  | nil => simp [AllMembers]
  | cons m members ih => rw [AllMembers, ih, forall_mem_cons]

end All

/-- An object without duplicate names, or no object. -/
def DistinctNames : Json S → Prop
  | .obj members => (members.map Prod.fst).Nodup
  | _ => True

/-- No object in the value has a name twice. -/
def NoDuplicates (v : Json S) : Prop := v.All DistinctNames

/-- Not a floating-point number. -/
def NotReal : Json S → Prop
  | .real _ => False
  | _ => True

/-- No number in the value is a floating-point number. -/
def FloatFree (v : Json S) : Prop := v.All NotReal

theorem floatFree_normalize [LE S] [DecidableLE S] {v : Json S} (h : v.FloatFree) :
    (normalize v).FloatFree := by
  unfold FloatFree at h ⊢
  induction v using Json.ind with
  | null | bool b | uint n | real bits | str s => exact h
  | sint n =>
    rw [normalize]
    split
    · exact trivial
    · exact h
  | arr items ih =>
    have his := (allItems_iff items).mp h.2
    rw [normalize, normalizeItems_eq_map]
    refine ⟨trivial, (allItems_iff _).mpr ?_⟩
    intro w hw
    obtain ⟨v, hv, rfl⟩ := mem_map.mp hw
    exact ih v hv (his v hv)
  | obj members ih =>
    have hmbr := (allMembers_iff members).mp h.2
    rw [normalize, normalizeMembers_eq_map]
    refine ⟨trivial, (allMembers_iff _).mpr ?_⟩
    intro n hn
    obtain ⟨m, hm, rfl⟩ := mem_map.mp ((sortMembers_perm _).mem_iff.mp hn)
    exact ih m hm (hmbr m hm)

/-! ## Equality is equality of normal forms -/

section EqualsNormalize

variable [DecidableEq S] [LE S] [DecidableLE S] [Std.IsLinearOrder S]

theorem toUInt64_inj {a b : Int64} : a.toUInt64 = b.toUInt64 ↔ a = b :=
  ⟨fun h => by rw [← Int64.toInt64_toUInt64 a, h, Int64.toInt64_toUInt64], fun h => by rw [h]⟩

omit [LE S] [DecidableLE S] [Std.IsLinearOrder S] in
theorem equalsMembers_iff (members members' : List (S × Json S)) :
    equalsMembers members members' = true
      ↔ ∀ m ∈ members, ∃ w, members'.lookup m.1 = some w ∧ equals m.2 w = true := by
  induction members with
  | nil => simp [equalsMembers]
  | cons m members ih =>
    obtain ⟨name, v⟩ := m
    rw [equalsMembers, Bool.and_eq_true, ih, forall_mem_cons]
    refine and_congr_left fun _ => ?_
    cases members'.lookup name with
    | none | some w => simp

omit [LE S] [DecidableLE S] [Std.IsLinearOrder S] in
theorem lookup_eq_some_iff {α : Type} {members : List (S × α)}
    (hnd : (members.map Prod.fst).Nodup) {name : S} {v : α} :
    members.lookup name = some v ↔ (name, v) ∈ members := by
  induction members with
  | nil => simp
  | cons m members ih =>
    obtain ⟨name', v'⟩ := m
    rw [map_cons, nodup_cons] at hnd
    rw [lookup_cons, mem_cons]
    by_cases hnm : name = name'
    · subst hnm
      have hn : (name, v) ∉ members :=
        fun hm => hnd.1 (mem_map.mpr ⟨(name, v), hm, rfl⟩)
      simp [hn, eq_comm]
    · rw [beq_false_of_ne hnm]
      simp [hnm, ih hnd.2]

omit [Std.IsLinearOrder S] in
theorem equalsItems_iff_map {items items' : List (Json S)}
    (ih : ∀ v ∈ items, ∀ w ∈ items', (equals v w = true ↔ normalize v = normalize w)) :
    equalsItems items items' = true ↔ normalizeItems items = normalizeItems items' := by
  induction items generalizing items' with
  | nil =>
    cases items' with
    | nil => simp [equalsItems]
    | cons w items' => simp [equalsItems, normalizeItems]
  | cons v items ih' =>
    cases items' with
    | nil => simp [equalsItems, normalizeItems]
    | cons w items' =>
      rw [equalsItems, Bool.and_eq_true, normalizeItems, normalizeItems, cons.injEq,
        ih v mem_cons_self w mem_cons_self,
        ih' fun v hv w hw => ih v (mem_cons_of_mem _ hv) w (mem_cons_of_mem _ hw)]

/-- Two lists of members that agree up to the values' normal forms have the
same sorted form, and conversely. -/
theorem equalsMembers_iff_sortMembers {members members' : List (S × Json S)}
    (hnd : (members.map Prod.fst).Nodup) (hnd' : (members'.map Prod.fst).Nodup)
    (ih : ∀ m ∈ members, ∀ w, (∃ m' ∈ members', m'.2 = w) →
      (equals m.2 w = true ↔ normalize m.2 = normalize w)) :
    (members.length = members'.length ∧ equalsMembers members members' = true)
      ↔ sortMembers (normalizeMembers members) = sortMembers (normalizeMembers members') := by
  rw [normalizeMembers_eq_map, normalizeMembers_eq_map, equalsMembers_iff]
  have hnms : ∀ members : List (S × Json S),
      (members.map fun m => (m.1, normalize m.2)).map Prod.fst = members.map Prod.fst := by
    intro members
    rw [map_map]
    rfl
  constructor
  · rintro ⟨hl, hf⟩
    refine sortMembers_eq_of_perm (by rw [hnms]; exact hnd) ?_
    have hs : (members.map fun m => (m.1, normalize m.2))
        ⊆ members'.map fun m => (m.1, normalize m.2) := by
      intro n hn
      obtain ⟨m, hm, rfl⟩ := mem_map.mp hn
      obtain ⟨w, hlk, heq⟩ := hf m hm
      have hw := (lookup_eq_some_iff hnd').mp hlk
      rw [(ih m hm w ⟨_, hw, rfl⟩).mp heq]
      exact mem_map.mpr ⟨(m.1, w), hw, rfl⟩
    have hnd'' : (members.map fun m => (m.1, normalize m.2)).Nodup :=
      List.Nodup.of_map Prod.fst (by rw [hnms]; exact hnd)
    exact (subperm_of_subset hnd'' hs).perm_of_length_le (by simp [hl])
  · intro hsort
    have hp : (members.map fun m => (m.1, normalize m.2)).Perm
        (members'.map fun m => (m.1, normalize m.2)) :=
      (sortMembers_perm _).symm.trans (hsort ▸ sortMembers_perm _)
    refine ⟨by simpa using hp.length_eq, fun m hm => ?_⟩
    have hmm := hp.mem_iff.mp (mem_map.mpr ⟨m, hm, rfl⟩)
    obtain ⟨m', hm', heq⟩ := mem_map.mp hmm
    obtain ⟨hnm, hv⟩ := Prod.mk.injEq .. ▸ heq
    refine ⟨m'.2, (lookup_eq_some_iff hnd').mpr (hnm ▸ hm'), ?_⟩
    exact (ih m hm m'.2 ⟨m', hm', rfl⟩).mpr hv.symm

/-- **Equality is equality of normal forms**, for values without duplicate
names. -/
theorem equals_iff_normalize (v w : Json S) (hv : v.NoDuplicates) (hw : w.NoDuplicates) :
    equals v w = true ↔ normalize v = normalize w := by
  induction v using Json.ind generalizing w with
  | null | bool b | real bits | str s =>
    cases w <;> simp [equals, normalize]
    split <;> simp
  | uint n =>
    cases w <;> simp [equals, normalize]
    split <;> simp [*]
  | sint n =>
    cases w with
    | uint m =>
      simp only [equals, normalize]
      split <;> simp [*]
    | sint m =>
      simp only [equals, normalize]
      split <;> split <;> simp [*, toUInt64_inj]
      all_goals
        rintro rfl
        contradiction
    | _ =>
      simp only [equals, normalize]
      split <;> simp
  | arr items ih =>
    cases w with
    | arr items' =>
      have hv := (allItems_iff items).mp hv.2
      have hw := (allItems_iff items').mp hw.2
      rw [equals, normalize, normalize, arr.injEq]
      exact equalsItems_iff_map fun v hm w hm' => ih v hm w (hv v hm) (hw w hm')
    | sint n =>
      simp only [equals, normalize]
      split <;> simp
    | _ => simp [equals, normalize]
  | obj members ih =>
    cases w with
    | obj members' =>
      obtain ⟨hnd, hv⟩ := hv
      obtain ⟨hnd', hw⟩ := hw
      have hv := (allMembers_iff members).mp hv
      have hw := (allMembers_iff members').mp hw
      rw [equals, normalize, normalize, obj.injEq, Bool.and_eq_true, decide_eq_true_iff]
      refine equalsMembers_iff_sortMembers hnd hnd' ?_
      rintro m hm w ⟨m', hm', rfl⟩
      exact ih m hm m'.2 (hv m hm) (hw m' hm')
    | sint n =>
      simp only [equals, normalize]
      split <;> simp
    | _ => simp [equals, normalize]

end EqualsNormalize

end Json

end NeoGraph
