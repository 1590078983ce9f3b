import NeoGraph.Lib.JsonReals

/-!
# Values over another kind of text

A value may be kept with one kind of text and written with another, such as
the bytes of an encoding. `mapText` replaces all texts of a value, names
included. When texts stay distinct, so do names, and members are found under
their new names.
-/

namespace NeoGraph.Json

open List

variable {S T : Type} (f : S → T)

mutual

/-- The value with all its texts replaced. -/
def mapText : Json S → Json T
  | .null => .null
  | .bool b => .bool b
  | .uint n => .uint n
  | .sint n => .sint n
  | .real bits => .real bits
  | .str s => .str (f s)
  | .arr items => .arr (mapTextItems items)
  | .obj members => .obj (mapTextMembers members)

def mapTextItems : List (Json S) → List (Json T)
  | [] => []
  | v :: items => mapText v :: mapTextItems items

def mapTextMembers : List (S × Json S) → List (T × Json T)
  | [] => []
  | (name, v) :: members => (f name, mapText v) :: mapTextMembers members

end

theorem mapTextItems_eq_map (items : List (Json S)) :
    mapTextItems f items = items.map (mapText f) := by
  induction items with
  | nil => rfl
  | cons v items ih => rw [mapTextItems, ih, map_cons]

theorem mapTextMembers_eq_map (members : List (S × Json S)) :
    mapTextMembers f members = members.map fun m => (f m.1, mapText f m.2) := by
  induction members with
  | nil => rfl
  | cons m members ih => rw [mapTextMembers, ih, map_cons]

variable {f}

/-- **Lookup under the new name.** -/
theorem get?_mapText [DecidableEq S] [DecidableEq T] (hf : Function.Injective f) (v : Json S)
    (name : S) : (v.mapText f).get? (f name) = (v.get? name).map (mapText f) := by
  unfold get?
  cases v with
  | obj members =>
    rw [mapText, mapTextMembers_eq_map, Json.members, Json.members]
    induction members with
    | nil => rfl
    | cons m members ih =>
      rw [map_cons, lookup_cons, lookup_cons, ih]
      by_cases hnm : name = m.1
      · rw [hnm, beq_self_eq_true, beq_self_eq_true]
        rfl
      · rw [beq_false_of_ne hnm, beq_false_of_ne fun h => hnm (hf h)]
  | _ => rfl

end NeoGraph.Json
