import NeoGraph.Lib.JsonObject

/-!
# Floating-point numbers in a value

A writer may print a floating-point number in the text of an integer, and a
reader then gives an integer back. `mapReal` replaces the floating-point
numbers of a value by the numbers they are read as, and leaves everything
else in place: names, strings, nesting and the order of members. Together
with `normalize` it says what a value becomes when it is written with sorted
members and read again.
-/

namespace NeoGraph.Json

open List

variable {S : Type}

/-- A number. -/
def isNumber : Json S → Bool
  | .uint _ => true
  | .sint _ => true
  | .real _ => true
  | _ => false

/-- An integer. -/
def isInteger : Json S → Bool
  | .uint _ => true
  | .sint _ => true
  | _ => false

/-- What a value is at its top, as far as code that only reads names,
strings and nesting can tell. -/
inductive Kind (S : Type) where
  | null
  | bool (b : Bool)
  | number
  | str (s : S)
  | arr
  | obj

def kind : Json S → Kind S
  | .null => .null
  | .bool b => .bool b
  | .uint _ => .number
  | .sint _ => .number
  | .real _ => .number
  | .str s => .str s
  | .arr _ => .arr
  | .obj _ => .obj

/-- A map that changes numbers and the order of members at most. -/
structure ShapeMap [DecidableEq S] (g : Json S → Json S) : Prop where
  nodup : ∀ v, v.NoDuplicates → (g v).NoDuplicates
  kind : ∀ v, (g v).kind = v.kind
  get? : ∀ v, v.NoDuplicates → ∀ name, (g v).get? name = (v.get? name).map g
  elements : ∀ v, ((g v).elements).Perm (v.elements.map g)
  members : ∀ v, ((g v).members).Perm (v.members.map fun m => (m.1, g m.2))

section MapReal

variable (f : UInt64 → Json S)

mutual

/-- The value with its floating-point numbers replaced. -/
def mapReal : Json S → Json S
  | .real bits => f bits
  | .arr items => .arr (mapRealItems items)
  | .obj members => .obj (mapRealMembers members)
  | v => v

def mapRealItems : List (Json S) → List (Json S)
  | [] => []
  | v :: items => mapReal v :: mapRealItems items

def mapRealMembers : List (S × Json S) → List (S × Json S)
  | [] => []
  | (name, v) :: members => (name, mapReal v) :: mapRealMembers members

end

theorem mapRealItems_eq_map (items : List (Json S)) :
    mapRealItems f items = items.map (mapReal f) := by
  induction items with
  | nil => rfl
  | cons v items ih => rw [mapRealItems, ih, map_cons]

theorem mapRealMembers_eq_map (members : List (S × Json S)) :
    mapRealMembers f members = members.map fun m => (m.1, mapReal f m.2) := by
  induction members with
  | nil => rfl
  | cons m members ih => rw [mapRealMembers, ih, map_cons]

variable {v : Json S}

variable {f}

/-- Numbers in place of numbers add no duplicate names. -/
theorem NoDuplicates.mapReal (hf : ∀ bits, (f bits).isNumber = true)
    (h : v.NoDuplicates) : (v.mapReal f).NoDuplicates := by
  unfold NoDuplicates at h ⊢
  induction v using Json.ind with
  | real bits =>
    have hnum := hf bits
    show (f bits).All DistinctNames
    cases hb : f bits with
    | uint n | sint n | real bits => exact trivial
    | _ =>
      rw [hb] at hnum
      cases hnum
  | arr items ih =>
    have his := (allItems_iff items).mp h.2
    rw [Json.mapReal, mapRealItems_eq_map]
    refine ⟨trivial, (allItems_iff _).mpr fun w hw => ?_⟩
    obtain ⟨v, hv, rfl⟩ := mem_map.mp hw
    exact ih v hv (his v hv)
  | obj members ih =>
    have hmbr := (allMembers_iff members).mp h.2
    rw [Json.mapReal, mapRealMembers_eq_map]
    refine ⟨?_, (allMembers_iff _).mpr fun n hn => ?_⟩
    · show (map Prod.fst _).Nodup
      rw [names_map_value]
      exact h.1
    · obtain ⟨m, hm, rfl⟩ := mem_map.mp hn
      exact ih m hm (hmbr m hm)
  | _ => exact h

theorem get?_mapReal [DecidableEq S] (hf : ∀ bits, (f bits).isNumber = true) (v : Json S)
    (name : S) : (v.mapReal f).get? name = (v.get? name).map (mapReal f) := by
  unfold get?
  cases v with
  | obj members =>
    rw [mapReal, mapRealMembers_eq_map]
    exact lookup_map_value (mapReal f) members name
  | real bits =>
    have hn := hf bits
    show (f bits).members.lookup name = _
    cases hb : f bits with
    | obj members =>
      rw [hb] at hn
      cases hn
    | _ => rfl
  | _ => rfl

theorem kind_of_isNumber (h : v.isNumber = true) :
    v.kind = .number ∧ v.elements = [] ∧ v.members = [] := by
  cases v with
  | uint n | sint n | real bits => exact ⟨rfl, rfl, rfl⟩
  | _ => cases h

theorem shapeMap_mapReal [DecidableEq S] (hf : ∀ bits, (f bits).isNumber = true) :
    ShapeMap (mapReal f) where
  nodup v h := h.mapReal hf
  kind v := by
    cases v with
    | real bits => exact (kind_of_isNumber (hf bits)).1
    | _ => rfl
  get? v _ := get?_mapReal hf v
  elements v := by
    cases v with
    | real bits =>
      rw [mapReal, (kind_of_isNumber (hf bits)).2.1]
      exact List.Perm.refl []
    | arr items =>
      rw [mapReal, mapRealItems_eq_map]
      exact List.Perm.refl _
    | obj members =>
      rw [mapReal, mapRealMembers_eq_map, elements, elements, map_map, map_map]
      exact List.Perm.refl _
    | _ => exact List.Perm.refl []
  members v := by
    cases v with
    | real bits =>
      rw [mapReal, (kind_of_isNumber (hf bits)).2.2]
      exact List.Perm.refl []
    | obj members =>
      rw [mapReal, mapRealMembers_eq_map]
      exact List.Perm.refl _
    | _ => exact List.Perm.refl []

end MapReal

/-! ## The normal form is normal -/

section Normal

variable [LE S] [DecidableLE S] [Std.IsLinearOrder S]

omit [Std.IsLinearOrder S] in
theorem NoDuplicates.normalize {v : Json S} (h : v.NoDuplicates) : v.normalize.NoDuplicates := by
  unfold NoDuplicates at h ⊢
  induction v using Json.ind with
  | sint n =>
    rw [Json.normalize]
    split <;> exact trivial
  | arr items ih =>
    have his := (allItems_iff items).mp h.2
    rw [Json.normalize, normalizeItems_eq_map]
    refine ⟨trivial, (allItems_iff _).mpr fun w hw => ?_⟩
    obtain ⟨v, hv, rfl⟩ := mem_map.mp hw
    exact ih v hv (his v hv)
  | obj members ih =>
    have hmbr := (allMembers_iff members).mp h.2
    rw [Json.normalize, normalizeMembers_eq_map]
    refine ⟨?_, (allMembers_iff _).mpr fun n hn => ?_⟩
    · have hp := (sortMembers_perm (members.map fun m => (m.1, m.2.normalize))).map Prod.fst
      refine hp.nodup_iff.mpr ?_
      rw [names_map_value]
      exact h.1
    · obtain ⟨m, hm, rfl⟩ := mem_map.mp ((sortMembers_perm _).mem_iff.mp hn)
      exact ih m hm (hmbr m hm)
  | _ => exact h

theorem normalize_normalize (v : Json S) : v.normalize.normalize = v.normalize := by
  induction v using Json.ind with
  | sint n =>
    by_cases hn : 0 ≤ n <;> simp [normalize, hn]
  | arr items ih =>
    have hsm : ∀ v ∈ items, (Json.normalize ∘ Json.normalize) v = v.normalize := ih
    rw [normalize, normalize, normalizeItems_eq_map, normalizeItems_eq_map, map_map,
      map_congr_left hsm]
  | obj members ih =>
    have hsm : ∀ m ∈ sortMembers members,
        ((fun m : S × Json S => (m.1, m.2.normalize)) ∘ fun m => (m.1, m.2.normalize)) m
          = (m.1, m.2.normalize) :=
      fun m hm => Prod.ext rfl (ih m ((sortMembers_perm members).mem_iff.mp hm))
    have hs : (obj members).normalize
        = .obj ((sortMembers members).map fun m => (m.1, m.2.normalize)) := by
      rw [normalize, normalizeMembers_eq_map, sortMembers_map normalize]
    have hpairwise : ((sortMembers members).map fun m => (m.1, m.2.normalize)).Pairwise
        fun m n => m.1 ≤ n.1 :=
      pairwise_map.mpr (sortMembers_pairwise members)
    rw [hs, normalize, normalizeMembers_eq_map, map_map, map_congr_left hsm,
      sortMembers_of_pairwise hpairwise]
  | _ => rfl

/-- Equality looks at normal forms only. -/
theorem equals_normalize [DecidableEq S] {v w : Json S} (hv : v.NoDuplicates)
    (hw : w.NoDuplicates) : equals v.normalize w.normalize = equals v w := by
  rw [Bool.eq_iff_iff, equals_iff_normalize _ _ hv.normalize hw.normalize,
    equals_iff_normalize _ _ hv hw, normalize_normalize, normalize_normalize]

omit [Std.IsLinearOrder S] in
theorem shapeMap_normalize [DecidableEq S] : ShapeMap (normalize (S := S)) where
  nodup v h := h.normalize
  kind v := by
    cases v with
    | sint n =>
      rw [normalize]
      split <;> rfl
    | _ => rfl
  get? v h := get?_normalize h
  elements v := by
    cases v with
    | sint n =>
      rw [normalize]
      split <;> exact List.Perm.refl []
    | arr items =>
      rw [normalize, normalizeItems_eq_map]
      exact List.Perm.refl _
    | obj members =>
      rw [normalize, normalizeMembers_eq_map, elements, elements, map_map]
      have hp := (sortMembers_perm (members.map fun m => (m.1, m.2.normalize))).map Prod.snd
      rw [map_map] at hp
      exact hp
    | _ => exact List.Perm.refl []
  members v := by
    cases v with
    | sint n =>
      rw [normalize]
      split <;> exact List.Perm.refl []
    | obj members =>
      rw [normalize, normalizeMembers_eq_map]
      exact sortMembers_perm _
    | _ => exact List.Perm.refl []

end Normal

end NeoGraph.Json
