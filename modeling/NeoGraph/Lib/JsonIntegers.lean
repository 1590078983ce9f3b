import NeoGraph.Lib.JsonObject

/-!
# Integers without sign

A document that was written and read again is the same document, except that
an integer that is not negative is read without sign. `unsigned` is the value
as it is read. The library takes it for equal to the value before.
-/

namespace NeoGraph.Json

open List

variable {S : Type}

mutual

/-- The value with its integers unsigned when they can be. -/
def unsigned : Json S → Json S
  | .sint n => if 0 ≤ n then .uint n.toUInt64 else .sint n
  | .arr items => .arr (unsignedItems items)
  | .obj members => .obj (unsignedMembers members)
  | v => v

def unsignedItems : List (Json S) → List (Json S)
  | [] => []
  | v :: items => unsigned v :: unsignedItems items

def unsignedMembers : List (S × Json S) → List (S × Json S)
  | [] => []
  | (name, v) :: members => (name, unsigned v) :: unsignedMembers members

end

theorem unsignedItems_eq_map (items : List (Json S)) :
    unsignedItems items = items.map unsigned := by
  induction items with
  | nil => rfl
  | cons v items ih => rw [unsignedItems, ih, map_cons]

theorem unsignedMembers_eq_map (members : List (S × Json S)) :
    unsignedMembers members = members.map fun m => (m.1, m.2.unsigned) := by
  induction members with
  | nil => rfl
  | cons m members ih => rw [unsignedMembers, ih, map_cons]

@[simp] theorem unsigned_str (s : S) : (str s : Json S).unsigned = .str s := rfl

@[simp] theorem unsigned_uint (n : UInt64) : (uint n : Json S).unsigned = .uint n := rfl

@[simp] theorem unsigned_arr (items : List (Json S)) :
    (arr items).unsigned = .arr (items.map unsigned) := by
  rw [unsigned, unsignedItems_eq_map]

@[simp] theorem unsigned_obj (members : List (S × Json S)) :
    (obj members).unsigned = .obj (members.map fun m => (m.1, m.2.unsigned)) := by
  rw [unsigned, unsignedMembers_eq_map]

/-- Reading a value again changes nothing more. -/
@[simp] theorem unsigned_unsigned (v : Json S) : v.unsigned.unsigned = v.unsigned := by
  induction v using Json.ind with
  | sint n =>
    rw [unsigned]
    split_ifs with hn
    · rfl
    · rw [unsigned, if_neg hn]
  | arr items ih =>
    rw [unsigned_arr, unsigned_arr, map_map]
    exact congrArg arr (map_congr_left ih)
  | obj members ih =>
    rw [unsigned_obj, unsigned_obj, map_map]
    refine congrArg obj (map_congr_left fun m hm => ?_)
    exact Prod.ext rfl (ih m hm)
  | _ => rfl

@[simp] theorem isObject_unsigned (v : Json S) : v.unsigned.isObject = v.isObject := by
  cases v with
  | sint n =>
    rw [unsigned]
    split <;> rfl
  | _ => rfl

@[simp] theorem isArray_unsigned (v : Json S) : v.unsigned.isArray = v.isArray := by
  cases v with
  | sint n =>
    rw [unsigned]
    split <;> rfl
  | _ => rfl

/-- **A member** is read as it was written. -/
theorem get?_unsigned [DecidableEq S] (v : Json S) (name : S) :
    v.unsigned.get? name = (v.get? name).map unsigned := by
  unfold get?
  cases v with
  | obj members =>
    rw [unsigned_obj, Json.members, Json.members]
    induction members with
    | nil => rfl
    | cons m members ih =>
      rw [map_cons, lookup_cons, lookup_cons, ih]
      cases name == m.1 with
      | true | false => rfl
  | sint n =>
    rw [unsigned]
    split <;> rfl
  | _ => rfl

section Equals

variable [DecidableEq S]

theorem equalsItems_unsigned {items : List (Json S)}
    (ih : ∀ v ∈ items, ∀ w : Json S, equals v w.unsigned = equals v w) (items' : List (Json S)) :
    equalsItems items (items'.map unsigned) = equalsItems items items' := by
  induction items generalizing items' with
  | nil =>
    cases items' with
    | nil | cons w items' => rfl
  | cons v items ih' =>
    cases items' with
    | nil => rfl
    | cons w items' =>
      rw [map_cons, equalsItems, equalsItems, ih v mem_cons_self,
        ih' fun v hv => ih v (mem_cons_of_mem _ hv)]

theorem lookup_unsigned (members : List (S × Json S)) (name : S) :
    (members.map fun m => (m.1, m.2.unsigned)).lookup name
      = (members.lookup name).map unsigned := by
  have h := get?_unsigned (.obj members) name
  rw [unsigned_obj] at h
  exact h

theorem equalsMembers_unsigned {members : List (S × Json S)}
    (ih : ∀ m ∈ members, ∀ w : Json S, equals m.2 w.unsigned = equals m.2 w)
    (members' : List (S × Json S)) :
    equalsMembers members (members'.map fun m => (m.1, m.2.unsigned))
      = equalsMembers members members' := by
  induction members with
  | nil => rfl
  | cons m members ih' =>
    obtain ⟨name, v⟩ := m
    rw [equalsMembers, equalsMembers, ih' fun m hm => ih m (mem_cons_of_mem _ hm), lookup_unsigned]
    cases members'.lookup name with
    | none => rfl
    | some w =>
      rw [Option.map_some]
      dsimp only
      rw [ih (name, v) mem_cons_self]

/-- **The library does not tell** a value that was read from the value that was
written. -/
theorem equals_unsigned (v w : Json S) : equals v w.unsigned = equals v w := by
  induction v using Json.ind generalizing w with
  | arr items ih =>
    cases w with
    | arr items' =>
      rw [unsigned_arr, equals, equals]
      exact equalsItems_unsigned ih items'
    | sint n =>
      rw [unsigned]
      split <;> rfl
    | _ => rfl
  | obj members ih =>
    cases w with
    | obj members' =>
      rw [unsigned_obj, equals, equals, length_map, equalsMembers_unsigned ih]
    | sint n =>
      rw [unsigned]
      split <;> rfl
    | _ => rfl
  | uint x =>
    cases w with
    | sint y =>
      rw [unsigned]
      split_ifs with hy
      · simp [equals, hy]
      · rfl
    | _ => rfl
  | sint x =>
    cases w with
    | sint y =>
      rw [unsigned]
      split_ifs with hy
      · rw [equals, equals]
        by_cases hx : x = y
        · simp [hx, hy]
        · have hne : x.toUInt64 ≠ y.toUInt64 := fun h => hx (toUInt64_inj.mp h)
          simp [hx, hne]
      · rfl
    | _ => rfl
  | _ =>
    cases w with
    | sint n =>
      rw [unsigned]
      split <;> rfl
    | _ => rfl

end Equals

end NeoGraph.Json
