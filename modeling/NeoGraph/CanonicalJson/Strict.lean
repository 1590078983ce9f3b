import NeoGraph.CanonicalJson.Limits
import NeoGraph.CanonicalJson.Values
import NeoGraph.Lib.JsonReals

/-!
# Strict reading of canonical texts

Two values without floating-point numbers have the same canonical bytes
exactly when they are equal up to the order of object members
(`canonical_identity`).

Stored records are JSON texts. Reading one back is strict: the text is
scanned for its size and its nesting before it is parsed (`parseText`, the
document library), duplicate names are rejected, and the value must have
canonical bytes itself. Values handed in by a caller pass the same limits
when they are copied.

What a canonical text is read as is the value with its members sorted, its
integers of one kind and its floating-point numbers as the writer prints
them (`canonical`): the text of a floating-point number of integral value
is that of an integer. `Format` states what is relied on of the printing of
floating-point numbers and of the document library.
-/

namespace NeoGraph.CanonicalJson

open JsonReader

variable {appendFloat : UInt64 → Except Exn Bytes}

theorem endsNumber_nil : EndsNumber [] := by
  rintro b ⟨⟩

variable {v : Json Bytes}

/-- A text that reads as a value is the text of that value alone. -/
theorem ReadsAs.read_eq {text : Bytes} (h : ReadsAs v text) : JsonReader.read text = some v := by
  have hrd := h.read (text.length + 1) [] (Nat.lt_succ_self _) endsNumber_nil
  rw [List.append_nil] at hrd
  unfold JsonReader.read
  rw [hrd]
  rfl

/-- **Canonical bytes.** A value that has them has no duplicate names; they
are read as its normal form, which has the same bytes. -/
theorem canonicalJsonBytes_spec (hf : v.FloatFree)
    {bytes : Bytes} (h : canonicalJsonBytes appendFloat v = .ok bytes) :
    v.NoDuplicates ∧ read bytes = some v.normalize
      ∧ canonicalJsonBytes appendFloat v.normalize = .ok bytes := by
  obtain ⟨n, hl, h⟩ := bind_eq_ok.mp h
  obtain ⟨hnd, hrd, hnrm⟩ := appendValue_spec hf h
  exact ⟨hnd, hrd.read_eq,
    bind_eq_ok.mpr ⟨n, validateJsonValueLimits_normalize hl, hnrm⟩⟩

/-- **Canonical JSON is a faithful identity**, with any parser that gives
each text the value the standard gives it. -/
theorem canonical_identity (parse : List UInt8 → Option (Json (List UInt8)))
    (hp : ∀ text v, read text = some v → parse text = some v)
    {v w : Json (List UInt8)} (hv : v.FloatFree) (hw : w.FloatFree)
    {bytes bytes' : List UInt8} (h : canonicalJsonBytes appendFloat v = .ok bytes)
    (h' : canonicalJsonBytes appendFloat w = .ok bytes') :
    (bytes = bytes' ↔ Json.equals v w = true)
      ∧ ∃ u, parse bytes = some u ∧ Json.equals u v = true
        ∧ canonicalJsonBytes appendFloat u = .ok bytes := by
  obtain ⟨hnd, hrd, hnrm⟩ := canonicalJsonBytes_spec hv h
  obtain ⟨hnd', hrd', hnrm'⟩ := canonicalJsonBytes_spec hw h'
  constructor
  · rw [Json.equals_iff_normalize v w hnd hnd']
    constructor
    · rintro rfl
      exact Option.some.inj (hrd.symm.trans hrd')
    · intro heq
      rw [heq] at hnrm
      exact Except.ok.inj (hnrm.symm.trans hnrm')
  · -- the normal form is what is read, and it is its own normal form
    obtain ⟨hnd'', hrd'', -⟩ :=
      canonicalJsonBytes_spec (Json.floatFree_normalize hv) hnrm
    refine ⟨v.normalize, hp bytes _ hrd, ?_, hnrm⟩
    rw [Json.equals_iff_normalize _ _ hnd'' hnd]
    exact Option.some.inj (hrd''.symm.trans hrd)

/-- Two spellings of one value: members in another order, and a positive
integer kept as a signed one. -/
theorem canonical_identity_reordered :
    Json.equals (S := List UInt8)
        (.obj [(ascii "b", .arr [.uint 1, .sint (-20), .bool true]), (ascii "a\n", .null)])
        (.obj [(ascii "a\n", .null), (ascii "b", .arr [.sint 1, .sint (-20), .bool true])])
      = true := by
  have hf : canonicalJsonBytes (fun _ => .ok [])
      (.obj [(ascii "b", .arr [.uint 1, .sint (-20), .bool true]), (ascii "a\n", .null)])
        = .ok (ascii "\x7b\"a\\n\":null,\"b\":[1,-20,true]\x7d") := by
    decide +kernel
  have hsec : canonicalJsonBytes (fun _ => .ok [])
      (.obj [(ascii "a\n", .null), (ascii "b", .arr [.sint 1, .sint (-20), .bool true])])
        = .ok (ascii "\x7b\"a\\n\":null,\"b\":[1,-20,true]\x7d") := by
    decide +kernel
  refine (canonical_identity read (fun _ _ h => h) ?_ ?_ hf hsec).1.mp rfl
  · exact ⟨trivial, ⟨trivial, trivial, trivial, trivial, trivial⟩, trivial, trivial⟩
  · exact ⟨trivial, trivial, ⟨trivial, trivial, trivial, trivial, trivial⟩, trivial⟩

end NeoGraph.CanonicalJson

namespace NeoGraph.CanonicalJson

open JsonReader List Json

/-! ## Limits of a text -/

/-- The loop over the bytes of a text: the nesting depth outside of
strings. -/
def textLimitsLoop : Bytes → ℕ → Bool → Bool → Except Exn Unit
  | [], _, _, _ => .ok ()
  | b :: bytes, depth, inString, escaped =>
    if inString then
      if escaped then textLimitsLoop bytes depth true false
      else if b = 0x5C then textLimitsLoop bytes depth true true
      else if b = 0x22 then textLimitsLoop bytes depth false false
      else textLimitsLoop bytes depth true false
    else if b = 0x22 then textLimitsLoop bytes depth true escaped
    else if b = 0x7B || b = 0x5B then
      if maxJsonDepth < depth + 1 then .error depthExceeded
      else textLimitsLoop bytes (depth + 1) false escaped
    else if b = 0x7D || b = 0x5D then textLimitsLoop bytes (depth - 1) false escaped
    else textLimitsLoop bytes depth false escaped

/-- The text is not too long and its brackets are not nested too deep. -/
def validateJsonTextLimits (bytes : Bytes) : Except Exn Unit :=
  if maxJsonBytes < bytes.length then
    .error (.invalidArgument "Program JSON exceeds the 16 MiB input limit")
  else textLimitsLoop bytes 0 false false

/-! ## Duplicate names -/

mutual

/-- No object of the document has a name twice. -/
def validateStrictTree : Json Bytes → Except Exn Unit
  | .obj members => validateStrictMembers members []
  | .arr items => validateStrictItems items
  | _ => .ok ()

def validateStrictItems : List (Json Bytes) → Except Exn Unit
  | [] => .ok ()
  | item :: items => do
    validateStrictTree item
    validateStrictItems items

/-- No name occurs twice. -/
def validateStrictMembers :
    List (Bytes × Json Bytes) → List Bytes → Except Exn Unit
  | [], _ => .ok ()
  | (name, item) :: members, fields =>
    if name ∈ fields then
      .error (.invalidArgument ("Program JSON contains duplicate object field '"
        ++ bytesText name ++ "'"))
    else do
      validateStrictTree item
      validateStrictMembers members (name :: fields)

end

/-- A copy of a caller's value: the same value, if it is within the limits
and has no duplicate names. -/
def ownedJsonCopy (value : Json Bytes) : Except Exn (Json Bytes) := do
  let _ ← validateJsonValueLimits value 1
  validateStrictTree value
  .ok value

/-! ## Tokens and fields -/

/-- A token is text without control characters and without blanks at its ends.
-/
def validateToken (value : Bytes) (field : String) : Except Exn Unit :=
  if value = [] then .error (.invalidArgument (field ++ " must not be empty"))
  else do
    validateUtf8Impl value
    if value.any fun b => b < 0x20 || b = 0x7F then
      .error (.invalidArgument (field ++ " must not contain control characters"))
    else if value.head? = some 0x20 || value.getLast? = some 0x20 then
      .error (.invalidArgument (field ++ " must not have leading or trailing whitespace"))
    else .ok ()

/-- An object has no other fields than these. -/
def rejectUnknownFields (value : Json Bytes) (objectName : String)
    (allowed : List Bytes) : Except Exn Unit :=
  if !value.isObject then .error (.invalidArgument (objectName ++ " must be an object"))
  else match value.members.find? fun m => decide (m.1 ∉ allowed) with
    | some m => .error (.invalidArgument (objectName ++ " contains undeclared field '"
        ++ bytesText m.1 ++ "'"))
    | none => .ok ()

section Parse

variable (appendFloat : UInt64 → Except Exn Bytes)
  (parseText : Bytes → Option (Json Bytes))

/-- **Reading a stored text.** -/
def parseJsonStrict (bytes : Bytes) : Except Exn (Json Bytes) := do
  validateJsonTextLimits bytes
  match parseText bytes with
  | none => .error (.runtimeError "JSON parse error")
  | some value => do
    validateStrictTree value
    let _ ← canonicalJsonBytes appendFloat value
    .ok value

end Parse

/-- A byte of the text of a number. -/
def isNumberByte (b : UInt8) : Bool := isDigit b || b = 0x2D || b = 0x2E || b = 0x65

/-- What a value is read as when its canonical bytes are. -/
def canonical (readFloat : UInt64 → Json Bytes) (value : Json Bytes) :
    Json Bytes :=
  (value.mapReal readFloat).normalize

/-- What the code relies on: a floating-point number is printed by a short
text of digits, which is read as a number that is printed in the same way,
and the document library reads canonical texts as JSON. -/
structure Format (appendFloat : UInt64 → Except Exn Bytes)
    (readFloat : UInt64 → Json Bytes)
    (parseText : Bytes → Option (Json Bytes)) : Prop where
  number : ∀ bits, (readFloat bits).isNumber = true
  printed : ∀ bits, appendValue appendFloat (readFloat bits) = appendFloat bits
  short : ∀ bits text, appendFloat bits = .ok text → text.length ≤ 32
  plain : ∀ bits text, appendFloat bits = .ok text → ∀ b ∈ text, isNumberByte b = true
  parsed : ∀ value bytes, canonicalJsonBytes appendFloat value = .ok bytes →
    parseText bytes = some (canonical readFloat value)

/-! ## Duplicate names, by the value -/

theorem validateStrictItems_eq_ok {items : List (Json Bytes)}
    (h : ∀ v ∈ items, (validateStrictTree v = .ok () ↔ v.NoDuplicates)) :
    validateStrictItems items = .ok () ↔ ∀ v ∈ items, v.NoDuplicates := by
  induction items with
  | nil => simp [validateStrictItems]
  | cons item items ih =>
    rw [validateStrictItems, bind_unit_eq_ok, h item mem_cons_self,
      ih fun v hv => h v (mem_cons_of_mem item hv), forall_mem_cons]

/-- The check of members, if each value is checked as it should be. -/
theorem validateStrictMembers_eq_ok {members : List (Bytes × Json Bytes)}
    (h : ∀ m ∈ members, (validateStrictTree m.2 = .ok () ↔ m.2.NoDuplicates))
    (fields : List Bytes) : validateStrictMembers members fields = .ok ()
      ↔ ((members.map Prod.fst).Nodup ∧ ∀ m ∈ members, m.1 ∉ fields)
        ∧ ∀ m ∈ members, m.2.NoDuplicates := by
  induction members generalizing fields with
  | nil => simp [validateStrictMembers]
  | cons m members ih =>
    obtain ⟨name, item⟩ := m
    rw [validateStrictMembers]
    split_ifs with hmm
    · constructor
      · rintro ⟨⟩
      · rintro ⟨⟨-, hfr⟩, -⟩
        exact absurd hmm (hfr _ mem_cons_self)
    · rw [bind_unit_eq_ok, h _ mem_cons_self,
        ih (fun n hn => h n (mem_cons_of_mem _ hn)), map_cons, nodup_cons,
        forall_mem_cons, forall_mem_cons]
      have hnms : name ∉ members.map Prod.fst ↔ ∀ m ∈ members, m.1 ≠ name := by
        simp only [mem_map, not_exists, not_and, ne_eq]
      rw [hnms]
      constructor
      · rintro ⟨hi, ⟨hnd, hfr⟩, hmbr⟩
        refine ⟨⟨⟨fun m hm heq => hfr m hm (heq ▸ mem_cons_self), hnd⟩, hmm,
          fun m hm hfld => hfr m hm (mem_cons_of_mem _ hfld)⟩, hi, hmbr⟩
      · rintro ⟨⟨⟨hd, hnd⟩, -, hfr⟩, hi, hmbr⟩
        refine ⟨hi, ⟨hnd, fun m hm hmm' => ?_⟩, hmbr⟩
        obtain heq | hfld := mem_cons.mp hmm'
        · exact hd m hm heq
        · exact hfr m hm hfld

theorem validateStrictTree_eq_ok (v : Json Bytes) :
    validateStrictTree v = .ok () ↔ v.NoDuplicates := by
  induction v using Json.ind with
  | arr items ih =>
    rw [validateStrictTree, validateStrictItems_eq_ok ih, noDuplicates_arr_iff]
  | obj members ih =>
    rw [validateStrictTree, validateStrictMembers_eq_ok ih, noDuplicates_obj_iff]
    simp
  | _ =>
    constructor
    · intro _
      exact trivial
    · intro _
      rfl

/-- A copy is made of values within the limits and without duplicate
names. -/
theorem ownedJsonCopy_eq_ok {v w : Json Bytes} : ownedJsonCopy v = .ok w
      ↔ (WithinDepth v 1 ∧ valueSize v ≤ maxJsonBytes) ∧ v.NoDuplicates ∧ w = v := by
  unfold ownedJsonCopy
  rw [bind_eq_ok]
  constructor
  · rintro ⟨n, hl, h⟩
    obtain ⟨hstr, h⟩ := bind_unit_eq_ok.mp h
    cases h
    obtain ⟨hdp, hsz, -⟩ := (checked v 1 n).mp hl
    exact ⟨⟨hdp, hsz⟩, (validateStrictTree_eq_ok v).mp hstr, rfl⟩
  · rintro ⟨⟨hdp, hsz⟩, hnd, rfl⟩
    exact ⟨_, (checked w 1 _).mpr ⟨hdp, hsz, rfl⟩,
      bind_unit_eq_ok.mpr ⟨(validateStrictTree_eq_ok w).mpr hnd, rfl⟩⟩

/-! ## The canonical value is written in the same way -/

section Written

variable {appendFloat : UInt64 → Except Exn Bytes} {f : Json Bytes → Json Bytes}
  {items : List (Json Bytes)}

theorem appendItems_congr
    (h : ∀ v ∈ items, appendValue appendFloat (f v) = appendValue appendFloat v) (first : Bool) :
    appendItems appendFloat (items.map f) first = appendItems appendFloat items first := by
  induction items generalizing first with
  | nil => rfl
  | cons item items ih =>
    rw [map_cons, appendItems, appendItems, h item mem_cons_self,
      ih fun v hv => h v (mem_cons_of_mem item hv)]

variable {members : List (Bytes × Json Bytes)}

theorem memberTexts_congr
    (h : ∀ m ∈ members, appendValue appendFloat (f m.2) = appendValue appendFloat m.2) :
    memberTexts appendFloat (members.map fun m => (m.1, f m.2))
      = memberTexts appendFloat members := by
  rw [memberTexts_eq_map, memberTexts_eq_map, map_map]
  exact map_congr_left fun m hm => Prod.ext rfl (h m hm)

/-- Members are sorted before they are written. -/
theorem appendObject_sortMembers (fields : List (Bytes × Except Exn Bytes)) :
    appendObject (sortMembers fields) = appendObject fields := by
  unfold appendObject
  rw [sortMembers_of_pairwise (sortMembers_pairwise fields)]

/-- The text does not depend on the order of members. -/
theorem appendValue_normalize (v : Json Bytes) :
    appendValue appendFloat v.normalize = appendValue appendFloat v := by
  induction v using Json.ind with
  | sint n =>
    by_cases hn : 0 ≤ n
    · rw [Json.normalize, if_pos hn, appendValue, appendValue, if_pos hn,
        Int64.toNat_toUInt64_of_le hn]
      rfl
    · rw [Json.normalize, if_neg hn]
  | arr items ih =>
    rw [Json.normalize, normalizeItems_eq_map, appendValue, appendValue, appendItems_congr ih]
  | obj members ih =>
    rw [Json.normalize, normalizeMembers_eq_map, appendValue, appendValue,
      memberTexts_eq_map (sortMembers _),
      ← sortMembers_map (appendValue appendFloat), appendObject_sortMembers,
      ← memberTexts_eq_map, memberTexts_congr ih]
  | _ => rfl

variable {readFloat : UInt64 → Json Bytes}

theorem appendValue_mapReal
    (h : ∀ bits, appendValue appendFloat (readFloat bits) = appendFloat bits) (v : Json Bytes) :
    appendValue appendFloat (v.mapReal readFloat) = appendValue appendFloat v := by
  induction v using Json.ind with
  | real bits => exact h bits
  | arr items ih =>
    rw [mapReal, mapRealItems_eq_map, appendValue, appendValue, appendItems_congr ih]
  | obj members ih =>
    rw [mapReal, mapRealMembers_eq_map, appendValue, appendValue, memberTexts_congr ih]
  | _ => rfl

variable {text : Bytes}

/-- The members of an object that is written are written. -/
theorem written_of_obj (h : appendValue appendFloat (.obj members) = .ok text) :
    ∀ m ∈ members, ∃ text, appendValue appendFloat m.2 = .ok text := by
  rw [appendValue] at h
  obtain ⟨-, body, hb, -⟩ := appendObject_eq_ok h
  intro m hm
  exact written_of_appendFields hb m ((sortMembers_perm members).mem_iff.mpr hm)

variable {v : Json Bytes}

/-- A value that is written has no duplicate names. -/
theorem noDuplicates_of_appendValue (h : appendValue appendFloat v = .ok text) :
    v.NoDuplicates := by
  induction v using Json.ind generalizing text with
  | arr items ih =>
    rw [appendValue] at h
    obtain ⟨body, hb, -⟩ := bind_eq_ok.mp h
    refine (noDuplicates_arr_iff items).mpr fun v hv => ?_
    obtain ⟨text, ht⟩ := written_of_appendItems hb v hv
    exact ih v hv ht
  | obj members ih =>
    rw [appendValue] at h
    obtain ⟨hd, body, hb, -⟩ := appendObject_eq_ok h
    have hp := sortMembers_perm members
    have hnd := nodup_of_not_hasAdjacentEqual (sortMembers_pairwise members) hd
    refine (noDuplicates_obj_iff members).mpr
      ⟨(hp.map Prod.fst).nodup_iff.mp hnd, fun m hm => ?_⟩
    obtain ⟨text, ht⟩ := written_of_appendFields hb m (hp.mem_iff.mpr hm)
    exact ih m hm ht
  | _ => exact trivial

/-! ## The canonical value has the same size and depth -/

theorem valueSize_of_isNumber (h : v.isNumber = true) :
    valueSize v = 32 ∧ ∀ depth, WithinDepth v depth ↔ depth ≤ maxJsonDepth := by
  cases v with
  | uint n | sint n | real bits => exact ⟨rfl, fun depth => Iff.rfl⟩
  | _ => cases h

theorem itemsSize_map_congr (h : ∀ v ∈ items, valueSize (f v) = valueSize v) (first : Bool) :
    itemsSize (items.map f) first = itemsSize items first := by
  induction items generalizing first with
  | nil => rfl
  | cons item items ih =>
    rw [map_cons, itemsSize, itemsSize, h item mem_cons_self,
      ih fun v hv => h v (mem_cons_of_mem item hv)]

theorem membersSize_map_congr (h : ∀ m ∈ members, valueSize (f m.2) = valueSize m.2) :
    membersSize (members.map fun m => (m.1, f m.2)) true = membersSize members true := by
  rw [membersSize_eq_sum, membersSize_eq_sum, map_map, length_map, map_congr_left fun m hm => by
      show stringSize m.1 + 1 + valueSize (f m.2) = stringSize m.1 + 1 + valueSize m.2
      rw [h m hm]]

/-- Neither size nor depth depend on how numbers are read. -/
theorem size_depth_mapReal (hf : ∀ bits, (readFloat bits).isNumber = true) (v : Json Bytes) :
    valueSize (v.mapReal readFloat) = valueSize v
      ∧ ∀ depth, WithinDepth (v.mapReal readFloat) depth ↔ WithinDepth v depth := by
  induction v using Json.ind with
  | real bits =>
    obtain ⟨hsz, hdp⟩ := valueSize_of_isNumber (hf bits)
    exact ⟨hsz, hdp⟩
  | arr items ih =>
    rw [mapReal, mapRealItems_eq_map, valueSize, valueSize,
      itemsSize_map_congr fun v hv => (ih v hv).1]
    refine ⟨rfl, fun depth => ?_⟩
    rw [WithinDepth, WithinDepth, withinDepthItems_iff, withinDepthItems_iff, forall_mem_map]
    exact and_congr_right fun _ => forall₂_congr fun v hv => (ih v hv).2 _
  | obj members ih =>
    rw [mapReal, mapRealMembers_eq_map, valueSize, valueSize,
      membersSize_map_congr fun m hm => (ih m hm).1]
    refine ⟨rfl, fun depth => ?_⟩
    rw [WithinDepth, WithinDepth, withinDepthMembers_iff, withinDepthMembers_iff, forall_mem_map]
    exact and_congr_right fun _ => forall₂_congr fun m hm => (ih m hm).2 _
  | _ => exact ⟨rfl, fun depth => Iff.rfl⟩

theorem withinDepth_normalize_iff (v : Json Bytes) (depth : ℕ) :
    WithinDepth v.normalize depth ↔ WithinDepth v depth := by
  induction v using Json.ind generalizing depth with
  | sint n =>
    rw [Json.normalize]
    split <;> exact Iff.rfl
  | arr items ih =>
    rw [Json.normalize, normalizeItems_eq_map, WithinDepth, WithinDepth,
      withinDepthItems_iff, withinDepthItems_iff, forall_mem_map]
    exact and_congr_right fun _ => forall₂_congr fun v hv => ih v hv _
  | obj members ih =>
    rw [Json.normalize, normalizeMembers_eq_map, WithinDepth, WithinDepth,
      withinDepthMembers_iff, withinDepthMembers_iff]
    refine and_congr_right fun _ => ?_
    have hmm : ∀ m, m ∈ sortMembers (members.map fun m => (m.1, m.2.normalize))
        ↔ m ∈ members.map fun m => (m.1, m.2.normalize) :=
      fun m => (sortMembers_perm _).mem_iff
    simp only [hmm, forall_mem_map]
    exact forall₂_congr fun m hm => ih m hm _
  | _ => exact Iff.rfl

variable {parseText : Bytes → Option (Json Bytes)}

/-- The value is within the limits of size and depth. -/
def WithinLimits (v : Json Bytes) : Prop :=
  WithinDepth v 1 ∧ valueSize v ≤ maxJsonBytes

theorem withinLimits_canonical (hf : ∀ bits, (readFloat bits).isNumber = true)
    (v : Json Bytes) : WithinLimits (canonical readFloat v) ↔ WithinLimits v := by
  obtain ⟨hsz, hdp⟩ := size_depth_mapReal hf v
  unfold WithinLimits canonical
  rw [withinDepth_normalize_iff, hdp, (size_depth_normalize _).1, hsz]

variable {bytes : Bytes}

theorem canonicalJsonBytes_eq_ok : canonicalJsonBytes appendFloat v = .ok bytes
      ↔ WithinLimits v ∧ appendValue appendFloat v = .ok bytes := by
  unfold canonicalJsonBytes WithinLimits
  rw [bind_eq_ok]
  constructor
  · rintro ⟨n, hl, h⟩
    obtain ⟨hdp, hsz, -⟩ := (checked v 1 n).mp hl
    exact ⟨⟨hdp, hsz⟩, h⟩
  · rintro ⟨⟨hdp, hsz⟩, h⟩
    exact ⟨_, (checked v 1 _).mpr ⟨hdp, hsz, rfl⟩, h⟩

variable (hformat : Format appendFloat readFloat parseText)
include hformat

theorem appendValue_canonical (v : Json Bytes) :
    appendValue appendFloat (canonical readFloat v) = appendValue appendFloat v := by
  unfold canonical
  rw [appendValue_normalize, appendValue_mapReal hformat.printed]

/-- **The canonical value has the canonical bytes** of the value it is read
for. -/
theorem canonicalJsonBytes_canonical :
    canonicalJsonBytes appendFloat (canonical readFloat v) = .ok bytes
      ↔ canonicalJsonBytes appendFloat v = .ok bytes := by
  rw [canonicalJsonBytes_eq_ok, canonicalJsonBytes_eq_ok, withinLimits_canonical hformat.number,
    appendValue_canonical hformat]

/-- Canonical bytes determine the canonical value. -/
theorem canonical_eq_of_bytes {w : Json Bytes} (hv : canonicalJsonBytes appendFloat v = .ok bytes)
    (hw : canonicalJsonBytes appendFloat w = .ok bytes) :
    canonical readFloat v = canonical readFloat w :=
  Option.some.inj ((hformat.parsed v bytes hv).symm.trans (hformat.parsed w bytes hw))

end Written

/-! ## Formats without fractions -/

section Integral

variable {appendFloat : UInt64 → Except Exn Bytes}
  {readFloat : UInt64 → Json Bytes}
  (hintegral : ∀ bits text, appendFloat bits = .ok text → (readFloat bits).FloatFree)
include hintegral

variable {v : Json Bytes}

/-- If all numbers that are printed are integers, a value that is written is
read as one without floating-point numbers. -/
theorem floatFree_mapReal_of_appendValue {text : Bytes}
    (h : appendValue appendFloat v = .ok text) : (v.mapReal readFloat).FloatFree := by
  unfold FloatFree
  induction v using Json.ind generalizing text with
  | real bits => exact hintegral bits text h
  | arr items ih =>
    rw [appendValue] at h
    obtain ⟨body, hb, -⟩ := bind_eq_ok.mp h
    rw [mapReal, mapRealItems_eq_map]
    refine ⟨trivial, (allItems_iff _).mpr fun w hw => ?_⟩
    obtain ⟨v, hv, rfl⟩ := mem_map.mp hw
    obtain ⟨text, ht⟩ := written_of_appendItems hb v hv
    exact ih v hv ht
  | obj members ih =>
    rw [mapReal, mapRealMembers_eq_map]
    refine ⟨trivial, (allMembers_iff _).mpr fun n hn => ?_⟩
    obtain ⟨m, hm, rfl⟩ := mem_map.mp hn
    obtain ⟨text, ht⟩ := written_of_obj h m hm
    exact ih m hm ht
  | _ => exact trivial

/-- The canonical bytes are then read as the standard says. -/
theorem read_canonicalJsonBytes (hn : ∀ bits, (readFloat bits).isNumber = true)
    (hprt : ∀ bits, appendValue appendFloat (readFloat bits) = appendFloat bits) {bytes : Bytes}
    (h : canonicalJsonBytes appendFloat v = .ok bytes) :
    JsonReader.read bytes = some (canonical readFloat v) := by
  obtain ⟨hl, happ⟩ := canonicalJsonBytes_eq_ok.mp h
  obtain ⟨hsz, hdp⟩ := size_depth_mapReal hn v
  have hmapped : canonicalJsonBytes appendFloat (v.mapReal readFloat) = .ok bytes := by
    refine canonicalJsonBytes_eq_ok.mpr ⟨?_, ?_⟩
    · unfold WithinLimits
      rw [hdp, hsz]
      exact hl
    · rw [appendValue_mapReal hprt, happ]
  exact (canonicalJsonBytes_spec (floatFree_mapReal_of_appendValue hintegral happ) hmapped).2.1

end Integral

/-- A printing that refuses all floating-point numbers. -/
def refuseFloat (_ : UInt64) : Except Exn Bytes :=
  .error (.invalidArgument "Program canonical JSON rejects non-finite numbers")

theorem format_refuseFloat : Format refuseFloat real JsonReader.read where
  number _ := rfl
  printed _ := rfl
  short _ _ h := nomatch h
  plain _ _ h := nomatch h
  parsed _ _ h := by
    refine read_canonicalJsonBytes ?_ (fun _ => rfl) (fun _ => rfl) h
    rintro _ _ ⟨⟩

end NeoGraph.CanonicalJson
