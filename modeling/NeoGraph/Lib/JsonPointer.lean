import NeoGraph.Lib.JsonObject

/-!
# JSON pointers

A pointer names a place in a document by the names on the way to it, each
after a slash and with `~` and `/` escaped. `readPointer` reads a pointer
back, so a place has one pointer (`pointerOf_injective`).

`at?` looks a place up in a value that may be absent, and `replaceAll`
replaces the values at some places by those another document has there,
which may add and remove members. What this makes of an object is told
member by member (`replaceAll_obj`). A part of a value nests less than the
value (`nesting_lt_of_get?`), which bounds every walk from part to part.
-/

namespace NeoGraph.Json

open List

/-! ## Tokens -/

/-- The two characters that a token escapes. -/
def escapeByte (b : UInt8) : List UInt8 :=
  if b = 0x7E then [0x7E, 0x30] else if b = 0x2F then [0x7E, 0x31] else [b]

def escapeToken (token : List UInt8) : List UInt8 := token.flatMap escapeByte

/-- A token is read back. A tilde only starts an escape. -/
def unescapeToken : List UInt8 → Option (List UInt8)
  | [] => some []
  | [b] => if b = 0x7E then none else some [b]
  | b :: c :: rest =>
    if b ≠ 0x7E then (unescapeToken (c :: rest)).map (b :: ·)
    else if c = 0x30 then (unescapeToken rest).map (0x7E :: ·)
    else if c = 0x31 then (unescapeToken rest).map (0x2F :: ·)
    else none

theorem unescapeToken_cons {b : UInt8} (h : b ≠ 0x7E) (rest : List UInt8) :
    unescapeToken (b :: rest) = (unescapeToken rest).map (b :: ·) := by
  cases rest with
  | nil =>
    show (if b = 0x7E then none else some [b]) = _
    rw [if_neg h]
    rfl
  | cons c rest => rw [unescapeToken, if_pos h]

theorem unescapeToken_escapeByte (b : UInt8) (rest : List UInt8) :
    unescapeToken (escapeByte b ++ rest) = (unescapeToken rest).map (b :: ·) := by
  unfold escapeByte
  split
  · rename_i htilde
    rw [htilde]
    rfl
  · rename_i htilde
    split
    · rename_i hs
      rw [hs]
      rfl
    · exact unescapeToken_cons htilde rest

variable (token : List UInt8)

theorem unescapeToken_escapeToken : unescapeToken (escapeToken token) = some token := by
  unfold escapeToken
  induction token with
  | nil => rfl
  | cons b token ih =>
    rw [flatMap_cons, unescapeToken_escapeByte, ih]
    rfl

/-- An escaped token has no slash. -/
theorem slash_notMem_escapeToken : (0x2F : UInt8) ∉ escapeToken token := by
  unfold escapeToken
  rw [mem_flatMap]
  rintro ⟨b, -, hb⟩
  unfold escapeByte at hb
  split at hb
  · simp at hb
  · split_ifs at hb with hs
    · simp at hb
    · exact hs (mem_singleton.mp hb).symm

/-! ## Pointers -/

/-- The pointer of a path of names. -/
def pointerOf (path : List (List UInt8)) : List UInt8 :=
  path.flatMap fun token => 0x2F :: escapeToken token

/-- A pointer is read back. -/
def readPointer : List UInt8 → Option (List (List UInt8))
  | [] => some []
  | b :: rest => if b = 0x2F then (rest.splitOn 0x2F).mapM unescapeToken else none

theorem splitOn_tokens (path : List (List UInt8)) :
    (escapeToken token ++ pointerOf path).splitOn 0x2F
      = escapeToken token :: path.map escapeToken := by
  induction path generalizing token with
  | nil =>
    rw [pointerOf, flatMap_nil, append_nil, map_nil]
    exact splitOn_eq_singleton (slash_notMem_escapeToken token)
  | cons token' path ih =>
    rw [pointerOf, flatMap_cons, cons_append,
      splitOn_append_cons_self_of_not_mem (slash_notMem_escapeToken token), map_cons]
    exact congrArg _ (ih token')

theorem readPointer_pointerOf (path : List (List UInt8)) :
    readPointer (pointerOf path) = some path := by
  cases path with
  | nil => rfl
  | cons token path =>
    show ((escapeToken token ++ pointerOf path).splitOn 0x2F).mapM unescapeToken = _
    rw [splitOn_tokens, ← map_cons]
    induction token :: path with
    | nil => rfl
    | cons token path ih =>
      rw [map_cons, mapM_cons, unescapeToken_escapeToken, ih]
      rfl

theorem pointerOf_injective : Function.Injective pointerOf := by
  intro path path' h
  have hrd := congrArg readPointer h
  rw [readPointer_pointerOf, readPointer_pointerOf] at hrd
  exact Option.some.inj hrd

section At

variable {S : Type}

/-! ## Parts nest less -/

variable {v : Json S}

theorem nesting_lt_of_mem_members {m : S × Json S} (h : m ∈ v.members) :
    m.2.nesting < v.nesting := by
  cases v with
  | obj members => exact Nat.lt_succ_of_le ((nestingMembers_le_iff members _).mp le_rfl m h)
  | _ => cases h

variable {w : Json S}

theorem nesting_lt_of_mem_elements (h : w ∈ v.elements) : w.nesting < v.nesting := by
  cases v with
  | arr items => exact Nat.lt_succ_of_le ((nestingItems_le_iff items _).mp le_rfl w h)
  | obj members =>
    obtain ⟨m, hm, rfl⟩ := mem_map.mp h
    exact nesting_lt_of_mem_members hm
  | _ => cases h

variable [DecidableEq S] {name : S}

theorem mem_members_of_get? (h : v.get? name = some w) : (name, w) ∈ v.members := by
  unfold get? at h
  generalize v.members = members at h ⊢
  induction members with
  | nil => cases h
  | cons m members ih =>
    rw [lookup_cons] at h
    split at h
    · rename_i hnm
      cases h
      rw [beq_iff_eq.mp hnm]
      exact mem_cons_self
    · exact mem_cons_of_mem _ (ih h)

theorem nesting_lt_of_get? (h : v.get? name = some w) :
    w.nesting < v.nesting := nesting_lt_of_mem_members (mem_members_of_get? h)

theorem get?_put (members : List (S × Json S)) (name name' : S) (v : Json S) :
    (obj (put members name v)).get? name'
      = if name' = name then some v else (obj members).get? name' :=
  lookup_put members name name' v

theorem get?_singleton (name name' : S) (v : Json S) :
    (obj [(name, v)]).get? name' = if name' = name then some v else none := by
  unfold get? members
  rw [lookup_cons]
  by_cases hnm : name' = name
  · rw [if_pos hnm, beq_iff_eq.mpr hnm]
  · rw [if_neg hnm, beq_false_of_ne hnm]
    rfl

/-! ## Places in a value that may be absent -/

/-- The value at a path of names. -/
def at? : List S → Option (Json S) → Option (Json S)
  | [], v => v
  | name :: path, v => at? path (v.bind fun v => v.get? name)

/-- The members with the value of one name replaced; no value removes it. -/
def assign (members : List (S × Json S)) (name : S) : Option (Json S) → List (S × Json S)
  | some v => put members name v
  | none => members.filter fun m => decide (m.1 ≠ name)

/-- The value at a path is replaced. -/
def replaceAt : List S → Option (Json S) → Option (Json S) → Option (Json S)
  | [], new, _ => new
  | name :: path, new, some (.obj members) =>
    some (.obj (assign members name (replaceAt path new (members.lookup name))))
  | _ :: _, _, v => v

/-- The values at the paths are replaced by those of another document. -/
def replaceAll (paths : List (List S)) (target source : Option (Json S)) : Option (Json S) :=
  paths.foldl (fun v path => replaceAt path (at? path target) v) source

/-- What is left of the paths that go through a member. -/
def pathsBelow (name : S) (paths : List (List S)) : List (List S) :=
  paths.filterMap fun path =>
    match path with
    | [] => none
    | name' :: path => if name' = name then some path else none

theorem pathsBelow_cons_self (name : S) (path : List S) (paths : List (List S)) :
    pathsBelow name ((name :: path) :: paths) = path :: pathsBelow name paths := by
  unfold pathsBelow
  exact filterMap_cons_some (if_pos rfl)

theorem pathsBelow_cons_of_ne {name' : S} (h : name' ≠ name) (path : List S) (paths : List (List S))
    : pathsBelow name ((name' :: path) :: paths) = pathsBelow name paths := by
  unfold pathsBelow
  exact filterMap_cons_none (if_neg h)

theorem pathsBelow_append (name : S) (paths paths' : List (List S)) :
    pathsBelow name (paths ++ paths') = pathsBelow name paths ++ pathsBelow name paths' :=
  filterMap_append

theorem pathsBelow_map_cons (name name' : S) (paths : List (List S)) :
    pathsBelow name (paths.map (name' :: ·)) = if name' = name then paths else [] := by
  induction paths with
  | nil => exact (ite_self []).symm
  | cons path paths ih =>
    rw [map_cons]
    by_cases hnm : name' = name
    · subst hnm
      rw [pathsBelow_cons_self, ih, if_pos rfl, if_pos rfl]
    · rw [pathsBelow_cons_of_ne hnm, ih, if_neg hnm, if_neg hnm]

/-- The paths below a member are those found below it, if the members are
walked once each. -/
theorem pathsBelow_flatMap {names : List S} (hnd : names.Nodup) (paths : S → List (List S))
    (name : S) : pathsBelow name (names.flatMap fun n => (paths n).map (n :: ·))
      = if name ∈ names then paths name else [] := by
  induction names with
  | nil => rfl
  | cons n names ih =>
    obtain ⟨hn, hnd⟩ := nodup_cons.mp hnd
    rw [flatMap_cons, pathsBelow_append, pathsBelow_map_cons, ih hnd]
    by_cases hnm : n = name
    · subst hnm
      rw [if_pos rfl, if_neg hn, append_nil, if_pos mem_cons_self]
    · rw [if_neg hnm, nil_append]
      refine if_congr ?_ rfl rfl
      rw [mem_cons, or_iff_right (Ne.symm hnm)]

theorem lookup_assign (members : List (S × Json S)) (name name' : S) (v : Option (Json S)) :
    (assign members name v).lookup name' = if name' = name then v else members.lookup name' := by
  cases v with
  | some v => exact lookup_put members name name' v
  | none =>
    show (members.filter fun m => decide (m.1 ≠ name)).lookup name' = _
    rw [lookup_filter_name members (fun n => decide (n ≠ name)) name']
    by_cases hnm : name' = name
    · rw [if_pos hnm, if_neg (by simp [hnm])]
    · rw [if_neg hnm, if_pos (by simp [hnm])]

variable {members : List (S × Json S)}

theorem nodup_assign (h : (members.map Prod.fst).Nodup) (name : S)
    (v : Option (Json S)) : ((assign members name v).map Prod.fst).Nodup := by
  cases v with
  | some v => exact nodup_put h name v
  | none => exact h.sublist (filter_sublist.map Prod.fst)

/-- **Replacing in an object** is replacing in its members: each member is
replaced at what is left of the paths through it, in their order. -/
theorem replaceAll_obj {paths : List (List S)} (hpts : [] ∉ paths)
    (h : (members.map Prod.fst).Nodup) (target : Option (Json S)) :
    ∃ members', replaceAll paths target (some (.obj members)) = some (.obj members')
      ∧ (members'.map Prod.fst).Nodup
      ∧ ∀ name, members'.lookup name
        = replaceAll (pathsBelow name paths) (target.bind fun v => v.get? name)
          (members.lookup name) := by
  induction paths generalizing members with
  | nil => exact ⟨members, rfl, h, fun name => rfl⟩
  | cons path paths ih =>
    rw [mem_cons, not_or] at hpts
    cases path with
    | nil => exact absurd rfl hpts.1
    | cons name path =>
      let v := replaceAt path (at? (name :: path) target) (members.lookup name)
      obtain ⟨members', hr, hnd, hlk⟩ := ih hpts.2 (nodup_assign h name v)
      refine ⟨members', hr, hnd, fun name' => ?_⟩
      rw [hlk, lookup_assign]
      by_cases hnm : name' = name
      · subst hnm
        rw [if_pos rfl, pathsBelow_cons_self]
        rfl
      · rw [if_neg hnm, pathsBelow_cons_of_ne (Ne.symm hnm)]

end At

end NeoGraph.Json
