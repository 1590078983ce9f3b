import NeoGraph.CanonicalJson.Strict

/-!
# Comparing values by their canonical bytes

Values that have canonical bytes have the same ones exactly when they have
the same canonical value, and canonical values are compared member by
member: an object is determined by what is found under each name, and one
object may replace another when their members do. The parts of a value that
has canonical bytes have them too, and an object has them when its names are
distinct, its members have them and it is within the limits.
-/

namespace NeoGraph.CanonicalJson

open List Json

variable {appendFloat : UInt64 → Except Exn Bytes}
  {readFloat : UInt64 → Json Bytes}

/-! ## Identities and members -/

/-- A digest of 64 hexadecimal digits after the name of the hash. -/
def isSha256Identity (value : Bytes) : Bool :=
  value.length = 71 && (ascii "sha256:").isPrefixOf value
    && (value.drop 7).all fun b => isDigit b || (97 ≤ b && b ≤ 102)

/-- ASCII text is UTF-8. -/
theorem validateUtf8Impl_of_ascii {value : Bytes} (h : ∀ b ∈ value, b < 0x80) :
    validateUtf8Impl value = .ok () := by
  unfold validateUtf8Impl
  cases value with
  | nil => rfl
  | cons lead rest =>
    have hp : validatedUtf8PrefixLength (lead :: rest) = .ok (lead :: rest).length := by
      unfold validatedUtf8PrefixLength
      refine (if_pos (h lead mem_cons_self)).trans ?_
      rw [asciiPrefix_eq, takeWhile_eq_self_iff.mpr fun b hb => decide_eq_true (h b hb)]
    rw [length_cons, validateUtf8Loop, if_neg (cons_ne_nil lead rest), hp]
    show validateUtf8Loop _ ((lead :: rest).drop (lead :: rest).length) = _
    rw [drop_length]
    cases rest <;> rfl

/-- A member that must be there. -/
def atKey (value : Json Bytes) (key : String) : Except Exn (Json Bytes) :=
  match value.get? (ascii key) with
  | some v => .ok v
  | none => .error (.runtimeError ("json::at: key not found: " ++ key))

/-- Values are the same JSON: equal up to the order of members and to how a
number is kept. -/
def SameJson (readFloat : UInt64 → Json Bytes) (v w : Json Bytes) : Prop :=
  canonical readFloat v = canonical readFloat w

/-! ## Values that have canonical bytes -/

/-- A value that has canonical bytes. -/
def Written (appendFloat : UInt64 → Except Exn Bytes) (v : Json Bytes) : Prop :=
  ∃ bytes, canonicalJsonBytes appendFloat v = .ok bytes

variable {v : Json Bytes}

theorem Written.noDuplicates (h : Written appendFloat v) : v.NoDuplicates := by
  obtain ⟨bytes, h⟩ := h
  exact noDuplicates_of_appendValue (canonicalJsonBytes_eq_ok.mp h).2

theorem withinDepth_of_le {depth depth' : ℕ} (h : WithinDepth v depth) (hle : depth' ≤ depth) :
    WithinDepth v depth' := by
  induction v using Json.ind generalizing depth depth' with
  | arr items ih =>
    rw [WithinDepth, withinDepthItems_iff] at h ⊢
    exact ⟨hle.trans h.1, fun v hv => ih v hv (h.2 v hv) (Nat.succ_le_succ hle)⟩
  | obj members ih =>
    rw [WithinDepth, withinDepthMembers_iff] at h ⊢
    exact ⟨hle.trans h.1, fun m hm => ih m hm (h.2 m hm) (Nat.succ_le_succ hle)⟩
  | _ => exact hle.trans h

variable {members : List (Bytes × Json Bytes)}

theorem valueSize_le_membersSize {m : Bytes × Json Bytes} (hm : m ∈ members)
    (first : Bool) : valueSize m.2 ≤ membersSize members first := by
  induction members generalizing first with
  | nil => cases hm
  | cons n members ih =>
    rw [membersSize]
    obtain rfl | hm := mem_cons.mp hm
    · omega
    · have := ih hm false
      omega

variable {w : Json Bytes} {name : Bytes}

/-- The parts of a value that has a text have one. -/
theorem Written.get? (h : Written appendFloat v) (hw : v.get? name = some w) :
    Written appendFloat w := by
  obtain ⟨bytes, h⟩ := h
  obtain ⟨⟨hdp, hsz⟩, ht⟩ := canonicalJsonBytes_eq_ok.mp h
  have hnd := noDuplicates_of_appendValue ht
  have hm : (name, w) ∈ v.members := (lookup_eq_some_iff hnd.nodup).mp hw
  cases v with
  | obj members =>
    obtain ⟨text, ht⟩ := written_of_obj ht (name, w) hm
    rw [WithinDepth, withinDepthMembers_iff] at hdp
    have hle : valueSize w ≤ membersSize members true := valueSize_le_membersSize hm true
    rw [valueSize] at hsz
    exact ⟨text, canonicalJsonBytes_eq_ok.mpr
      ⟨⟨withinDepth_of_le (hdp.2 _ hm) (by omega), by omega⟩, ht⟩⟩
  | _ => cases hm

variable {items : List (Json Bytes)}

theorem valueSize_le_itemsSize (hw : w ∈ items) (first : Bool) :
    valueSize w ≤ itemsSize items first := by
  induction items generalizing first with
  | nil => cases hw
  | cons item items ih =>
    rw [itemsSize]
    obtain rfl | hw := mem_cons.mp hw
    · omega
    · have := ih hw false
      omega

theorem Written.of_mem (h : Written appendFloat (.arr items))
    (hw : w ∈ items) : Written appendFloat w := by
  obtain ⟨bytes, h⟩ := h
  obtain ⟨⟨hdp, hsz⟩, ht⟩ := canonicalJsonBytes_eq_ok.mp h
  rw [appendValue] at ht
  obtain ⟨body, hb, -⟩ := bind_eq_ok.mp ht
  obtain ⟨text, ht⟩ := written_of_appendItems hb w hw
  rw [WithinDepth, withinDepthItems_iff] at hdp
  have hle : valueSize w ≤ itemsSize items true := valueSize_le_itemsSize hw true
  rw [valueSize] at hsz
  exact ⟨text, canonicalJsonBytes_eq_ok.mpr
    ⟨⟨withinDepth_of_le (hdp.2 w hw) (by omega), by omega⟩, ht⟩⟩

/-! ## Objects that have canonical bytes -/

/-- Distinct names have no equal neighbours. -/
theorem not_hasAdjacentEqual_of_nodup {α : Type} {members : List (Bytes × α)}
    (h : (members.map Prod.fst).Nodup) : hasAdjacentEqual members = false := by
  induction members with
  | nil => rfl
  | cons m members ih =>
    rw [map_cons, nodup_cons] at h
    cases members with
    | nil => rfl
    | cons n members =>
      rw [hasAdjacentEqual, ih h.2, Bool.or_false, decide_eq_false_iff_not]
      intro heq
      exact h.1 (heq ▸ mem_map_of_mem mem_cons_self)

/-- Fields have a text when every name and every value has one. -/
theorem exists_appendFields_iff {fields : List (Bytes × Except Exn Bytes)}
    (first : Bool) : (∃ body, appendFields fields first = .ok body)
      ↔ ∀ f ∈ fields, (∃ name, appendEscaped f.1 = .ok name) ∧ ∃ text, f.2 = .ok text := by
  induction fields generalizing first with
  | nil => exact ⟨fun _ _ => nofun, fun _ => ⟨[], rfl⟩⟩
  | cons f fields ih =>
    obtain ⟨name, value⟩ := f
    rw [forall_mem_cons, ← ih false]
    constructor
    · rintro ⟨body, hb⟩
      rw [appendFields] at hb
      simp only [bind_eq_ok] at hb
      obtain ⟨nameText, hnm, text, ht, rest, hr, -⟩ := hb
      exact ⟨⟨⟨nameText, hnm⟩, ⟨text, ht⟩⟩, ⟨rest, hr⟩⟩
    · rintro ⟨⟨⟨nameText, hnm⟩, ⟨text, ht⟩⟩, ⟨rest, hr⟩⟩
      rw [appendFields]
      exact ⟨_, bind_eq_ok.mpr ⟨nameText, hnm, bind_eq_ok.mpr
        ⟨text, ht, bind_eq_ok.mpr ⟨rest, hr, rfl⟩⟩⟩⟩

/-- An object is written when its names are distinct and its members are
written. -/
theorem exists_appendValue_obj_iff : (∃ text, appendValue appendFloat (.obj members) = .ok text)
      ↔ (members.map Prod.fst).Nodup ∧ ∀ m ∈ members, (∃ name, appendEscaped m.1 = .ok name)
        ∧ ∃ text, appendValue appendFloat m.2 = .ok text := by
  have hp := sortMembers_perm members
  have hf : (∀ f ∈ (sortMembers members).map fun m => (m.1, appendValue appendFloat m.2),
        (∃ name, appendEscaped f.1 = .ok name) ∧ ∃ text, f.2 = .ok text)
      ↔ ∀ m ∈ members, (∃ name, appendEscaped m.1 = .ok name)
        ∧ ∃ text, appendValue appendFloat m.2 = .ok text := by
    rw [forall_mem_map]
    exact forall_congr' fun m => by rw [hp.mem_iff]
  rw [appendValue]
  constructor
  · rintro ⟨text, h⟩
    obtain ⟨hd, body, hb, -⟩ := appendObject_eq_ok h
    exact ⟨(hp.map Prod.fst).nodup_iff.mp
      (nodup_of_not_hasAdjacentEqual (sortMembers_pairwise members) hd),
      hf.mp ((exists_appendFields_iff true).mp ⟨body, hb⟩)⟩
  · rintro ⟨hnd, hm⟩
    obtain ⟨body, hb⟩ := (exists_appendFields_iff true).mpr (hf.mpr hm)
    refine ⟨[0x7B] ++ body ++ [0x7D], ?_⟩
    unfold appendObject
    rw [memberTexts_eq_map, sortMembers_map (appendValue appendFloat)]
    dsimp only
    rw [hasAdjacentEqual_map (appendValue appendFloat),
      not_hasAdjacentEqual_of_nodup ((hp.map Prod.fst).nodup_iff.mpr hnd),
      if_neg Bool.false_ne_true, hb]
    rfl

/-- Whether an object has canonical bytes. -/
theorem written_obj_iff : Written appendFloat (.obj members)
      ↔ WithinLimits (.obj members) ∧ (members.map Prod.fst).Nodup
        ∧ ∀ m ∈ members, (∃ name, appendEscaped m.1 = .ok name)
          ∧ ∃ text, appendValue appendFloat m.2 = .ok text := by
  rw [← exists_appendValue_obj_iff]
  constructor
  · rintro ⟨bytes, h⟩
    obtain ⟨hl, h⟩ := canonicalJsonBytes_eq_ok.mp h
    exact ⟨hl, bytes, h⟩
  · rintro ⟨hl, bytes, h⟩
    exact ⟨bytes, canonicalJsonBytes_eq_ok.mpr ⟨hl, h⟩⟩

/-- A number takes the place of another. -/
theorem Written.replace {before after : List (Bytes × Json Bytes)} {n : UInt64}
    (h : Written appendFloat (.obj (before ++ (name, .uint n) :: after))) (n' : UInt64) :
    Written appendFloat (.obj (before ++ (name, .uint n') :: after)) := by
  obtain ⟨⟨hdp, hsz⟩, hnd, hm⟩ := written_obj_iff.mp h
  rw [WithinDepth, withinDepthMembers_iff, forall_mem_append, forall_mem_cons] at hdp
  rw [valueSize, membersSize_eq_sum, map_append, map_cons, length_append] at hsz
  rw [forall_mem_append, forall_mem_cons] at hm
  refine written_obj_iff.mpr ⟨⟨?_, ?_⟩, ?_, ?_⟩
  · rw [WithinDepth, withinDepthMembers_iff, forall_mem_append, forall_mem_cons]
    exact ⟨hdp.1, hdp.2.1, hdp.2.2.1, hdp.2.2.2⟩
  · rw [valueSize, membersSize_eq_sum, map_append, map_cons, length_append]
    exact hsz
  · rw [map_append, map_cons] at hnd ⊢
    exact hnd
  · rw [forall_mem_append, forall_mem_cons]
    exact ⟨hm.1, ⟨hm.2.1.1, _, rfl⟩, hm.2.2⟩

/-- A string is written behind the other members, when there is room. -/
theorem Written.concat {s : Bytes} (h : Written appendFloat (.obj members))
    (hnm : name ∉ members.map Prod.fst) (hnameText : ∃ text, appendEscaped name = .ok text)
    (hs : ∃ text, appendEscaped s = .ok text)
    (hsz : valueSize (.obj (members ++ [(name, .str s)])) ≤ maxJsonBytes) :
    Written appendFloat (.obj (members ++ [(name, .str s)])) := by
  obtain ⟨⟨hdp, -⟩, hnd, hm⟩ := written_obj_iff.mp h
  refine written_obj_iff.mpr ⟨⟨?_, hsz⟩, ?_, ?_⟩
  · rw [WithinDepth, withinDepthMembers_iff] at hdp ⊢
    rw [forall_mem_append, forall_mem_singleton]
    exact ⟨hdp.1, hdp.2, show 1 + 1 ≤ maxJsonDepth by decide⟩
  · rw [map_append]
    refine nodup_append.mpr ⟨hnd, nodup_singleton name, ?_⟩
    rintro a ha b hb rfl
    rw [mem_singleton.mp hb] at ha
    exact hnm ha
  · rw [forall_mem_append, forall_mem_singleton]
    exact ⟨hm, hnameText, hs⟩

/-- The canonical value of an array. -/
theorem canonical_arr (items : List (Json Bytes)) :
    canonical readFloat (.arr items) = .arr (items.map (canonical readFloat)) := by
  unfold canonical
  rw [mapReal, mapRealItems_eq_map, Json.normalize, normalizeItems_eq_map, map_map]
  rfl

section Number

variable (hnumber : ∀ bits, (readFloat bits).isNumber = true)
include hnumber

theorem kind_canonical (v : Json Bytes) : (canonical readFloat v).kind = v.kind := by
  unfold canonical
  rw [shapeMap_normalize.kind, (shapeMap_mapReal hnumber).kind]

/-- The member of a canonical value. -/
theorem get?_canonical {v : Json Bytes} (h : v.NoDuplicates) (name : Bytes) :
    (canonical readFloat v).get? name = (v.get? name).map (canonical readFloat) := by
  unfold canonical
  rw [shapeMap_normalize.get? _ (h.mapReal hnumber), get?_mapReal hnumber, Option.map_map]
  rfl

end Number

variable {members' : List (Bytes × Json Bytes)}

/-- **Objects are compared member by member.** -/
theorem canonical_obj_eq_iff
    (hnd : (members.map Prod.fst).Nodup) (hnd' : (members'.map Prod.fst).Nodup) :
    canonical readFloat (.obj members) = canonical readFloat (.obj members')
      ↔ ∀ name, ((obj members).get? name).map (canonical readFloat)
        = ((obj members').get? name).map (canonical readFloat) := by
  unfold canonical
  rw [mapReal, mapReal, mapRealMembers_eq_map, mapRealMembers_eq_map]
  have hn := names_map_value (mapReal readFloat) members
  have hn' := names_map_value (mapReal readFloat) members'
  refine (normalize_obj_eq_iff (hn.symm ▸ hnd) (hn'.symm ▸ hnd')).trans
    (forall_congr' fun name => ?_)
  rw [lookup_map_value, lookup_map_value, Option.map_map, Option.map_map]
  rfl

/-- Members that have the same canonical values replace each other. -/
theorem canonical_obj_congr
    (h : Forall₂ (fun m n => m.1 = n.1 ∧ canonical readFloat m.2 = canonical readFloat n.2)
      members members') :
    canonical readFloat (.obj members) = canonical readFloat (.obj members') := by
  have hmap : (members.map fun m => (m.1, canonical readFloat m.2))
      = members'.map fun m => (m.1, canonical readFloat m.2) := by
    induction h with
    | nil => rfl
    | cons hm _ ih => rw [map_cons, map_cons, ih, hm.1, hm.2]
  have ho : ∀ l : List (Bytes × Json Bytes), canonical readFloat (.obj l)
      = .obj (sortMembers (l.map fun m => (m.1, canonical readFloat m.2))) := by
    intro l
    unfold canonical
    rw [mapReal, mapRealMembers_eq_map, Json.normalize, normalizeMembers_eq_map, map_map]
    rfl
  rw [ho, ho, hmap]

section Format

variable {parseText : Bytes → Option (Json Bytes)}
  (hformat : Format appendFloat readFloat parseText)
include hformat

variable {v : Json Bytes}

/-- Values with the same canonical value have the same canonical bytes. -/
theorem canonicalJsonBytes_congr {w : Json Bytes}
    (h : canonical readFloat v = canonical readFloat w) {bytes : Bytes}
    (hw : canonicalJsonBytes appendFloat w = .ok bytes) :
    canonicalJsonBytes appendFloat v = .ok bytes := by
  rw [← canonicalJsonBytes_canonical hformat, h, canonicalJsonBytes_canonical hformat, hw]

/-- **Canonical bytes are compared by the canonical value.** -/
theorem canonicalJsonBytes_eq_iff {w : Json Bytes} (hw : Written appendFloat w) :
    canonicalJsonBytes appendFloat v = canonicalJsonBytes appendFloat w
      ↔ canonical readFloat v = canonical readFloat w := by
  obtain ⟨bytes, hbs⟩ := hw
  constructor
  · intro h
    exact canonical_eq_of_bytes hformat (h.trans hbs) hbs
  · intro h
    rw [canonicalJsonBytes_congr hformat h hbs, hbs]

/-- A canonical value is its own canonical value. -/
theorem canonical_canonical (h : Written appendFloat v) :
    canonical readFloat (canonical readFloat v) = canonical readFloat v := by
  obtain ⟨bytes, hbs⟩ := h
  exact canonical_eq_of_bytes hformat ((canonicalJsonBytes_canonical hformat).mpr hbs) hbs

end Format

end NeoGraph.CanonicalJson
