import NeoGraph.CanonicalJson.Strict
import NeoGraph.Lib.JsonText

/-!
# Canonical bytes of documents

A document has text as its strings; its canonical bytes are those of the
value with all texts in UTF-8. Documents with the same canonical bytes are
the same up to the order of members and how numbers are kept, and `SameBytes`
is that relation: it is taken apart member by member and item by item.
-/

namespace NeoGraph.CanonicalJson

open Json List

/-- The bytes of a text. -/
def utf8 (s : String) : Bytes := s.toUTF8.data.toList

theorem utf8_injective : Function.Injective utf8 := by
  intro s t h
  have hd : s.toUTF8.data = t.toUTF8.data := Array.toList_inj.mp h
  exact String.toByteArray_inj.mp (ByteArray.ext hd)

/-- The canonical bytes of a document. -/
def documentBytes (appendFloat : UInt64 → Except Exn Bytes) (v : Json String) :
    Except Exn Bytes :=
  canonicalJsonBytes appendFloat (v.mapText utf8)

/-- The same canonical value, without duplicate names. -/
structure SameBytes (readFloat : UInt64 → Json Bytes) (v w : Json String) : Prop where
  left : (v.mapText utf8).NoDuplicates
  right : (w.mapText utf8).NoDuplicates
  same : canonical readFloat (v.mapText utf8) = canonical readFloat (w.mapText utf8)

variable {appendFloat : UInt64 → Except Exn Bytes}
  {readFloat : UInt64 → Json Bytes}
  {parseText : Bytes → Option (Json Bytes)}

/-- **Canonical bytes determine a document**, up to the order of members and
how numbers are kept. -/
theorem sameBytes_of_documentBytes (hf : Format appendFloat readFloat parseText)
    {v w : Json String} {bytes : Bytes} (hv : documentBytes appendFloat v = .ok bytes)
    (hw : documentBytes appendFloat w = .ok bytes) : SameBytes readFloat v w :=
  ⟨noDuplicates_of_appendValue (canonicalJsonBytes_eq_ok.mp hv).2,
    noDuplicates_of_appendValue (canonicalJsonBytes_eq_ok.mp hw).2,
    canonical_eq_of_bytes hf hv hw⟩

namespace SameBytes

theorem str {s t : String} (h : SameBytes readFloat (.str s) (.str t)) : s = t := by
  have hsm : (Json.str (utf8 s) : Json Bytes) = .str (utf8 t) := h.same
  exact utf8_injective (Json.str.inj hsm)

/-- Texts that may be missing agree. -/
theorem str? {o o' : Option String}
    (h : Option.Rel (SameBytes readFloat) (o.map .str) (o'.map .str)) : o = o' := by
  cases o with
  | none =>
    cases o' with
    | none => rfl
    | some t => cases h
  | some s =>
    cases o' with
    | none => cases h
    | some t =>
      cases h with
      | some h => rw [h.str]

theorem canonical_arr (items : List (Json String)) :
    canonical readFloat ((Json.arr items).mapText utf8)
      = .arr (items.map fun v => canonical readFloat (v.mapText utf8)) := by
  unfold canonical
  rw [mapText, mapTextItems_eq_map, mapReal, mapRealItems_eq_map,
    Json.normalize, normalizeItems_eq_map, map_map, map_map]
  rfl

/-- Arrays agree item by item. -/
theorem arr {items items' : List (Json String)}
    (h : SameBytes readFloat (.arr items) (.arr items')) :
    Forall₂ (SameBytes readFloat) items items' := by
  have hsm := h.same
  rw [canonical_arr, canonical_arr, Json.arr.injEq] at hsm
  have hl := h.left
  have hr := h.right
  rw [mapText, mapTextItems_eq_map, noDuplicates_arr_iff, forall_mem_map] at hl hr
  clear h
  induction items generalizing items' with
  | nil =>
    cases items' with
    | nil => exact Forall₂.nil
    | cons v items' => cases hsm
  | cons v items ih =>
    cases items' with
    | nil => cases hsm
    | cons w items' =>
      rw [map_cons, map_cons, List.cons.injEq] at hsm
      rw [forall_mem_cons] at hl hr
      exact Forall₂.cons ⟨hl.1, hr.1, hsm.1⟩ (ih hsm.2 hl.2 hr.2)

section Lookup

variable (hnumber : ∀ bits, (readFloat bits).isNumber = true)
include hnumber

variable {v w : Json String}

/-- The fields of the document that the text is read as. -/
theorem get?_canonical (h : (v.mapText utf8).NoDuplicates) (name : String) :
    (canonical readFloat (v.mapText utf8)).get? (utf8 name)
      = (v.get? name).map fun w => canonical readFloat (w.mapText utf8) := by
  unfold canonical
  rw [shapeMap_normalize.get? _ (h.mapReal hnumber), get?_mapReal hnumber,
    get?_mapText utf8_injective, Option.map_map, Option.map_map]
  rfl

/-- Objects agree member by member. -/
theorem get? (h : SameBytes readFloat v w) (name : String) :
    Option.Rel (SameBytes readFloat) (v.get? name) (w.get? name) := by
  have hsm : (v.get? name).map (fun u => canonical readFloat (u.mapText utf8))
      = (w.get? name).map fun u => canonical readFloat (u.mapText utf8) := by
    rw [← get?_canonical hnumber h.left, ← get?_canonical hnumber h.right, h.same]
  have hnd : ∀ {u u' : Json String}, (u.mapText utf8).NoDuplicates →
      u.get? name = some u' → (u'.mapText utf8).NoDuplicates := by
    intro u u' hu hu'
    have hg : (u.mapText utf8).get? (utf8 name) = some (u'.mapText utf8) := by
      rw [get?_mapText utf8_injective, hu']
      rfl
    exact hu.get? hg
  cases hv : v.get? name with
  | none =>
    cases hw : w.get? name with
    | none => exact Option.Rel.none
    | some w' =>
      rw [hv, hw] at hsm
      cases hsm
  | some v' =>
    cases hw : w.get? name with
    | none =>
      rw [hv, hw] at hsm
      cases hsm
    | some w' =>
      rw [hv, hw] at hsm
      exact Option.Rel.some ⟨hnd h.left hv, hnd h.right hw, Option.some.inj hsm⟩

theorem get?_bind {o o' : Option (Json String)} (h : Option.Rel (SameBytes readFloat) o o')
    (name : String) : Option.Rel (SameBytes readFloat) (o.bind fun v => v.get? name)
      (o'.bind fun v => v.get? name) := by
  cases h with
  | none => exact Option.Rel.none
  | some h => exact h.get? hnumber name

/-- The texts under a name agree. -/
theorem text (h : SameBytes readFloat v w) (name : String) {s t : String}
    (hv : v.get? name = some (.str s)) (hw : w.get? name = some (.str t)) : s = t := by
  have hr := h.get? hnumber name
  rw [hv, hw] at hr
  cases hr with
  | some hsm => exact hsm.str

end Lookup

end SameBytes

end NeoGraph.CanonicalJson
