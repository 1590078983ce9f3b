import NeoGraph.CanonicalJson.TextLimits

/-!
# Result schemas of pending calls

A pending call carries a JSON Schema for its result. The schema itself is
checked when the call is recorded (`validateSchema`), results when they are
submitted (`validateInstance`); both count the levels they descend in the
schema, up to 64. A check fails by an exception, and the text of the
exception is what the submitter is told.

Both checks read objects by their names, so neither depends on the order of
members (`validateSchema_shapeMap`, `validateInstance_normalize`). The
check of a schema does not look at numbers either, but the check of a
result does: an integer is not equal to a floating-point number of the same
value, and only the former has the type `integer`.
-/

namespace NeoGraph.Program.Pending

open CanonicalJson Json List

/-! ## The checks -/

/-- The number of levels below which a schema is not followed. -/
def maxSchemaDepth : ℕ := 64

/-- A loop that stops at the first failing check. -/
def forEach {α : Type} : List α → (α → Except Exn Unit) → Except Exn Unit
  | [], _ => .ok ()
  | a :: l, check => do
    check a
    forEach l check

/-- A check of a member, if it is there. -/
def checkMember (schema : Json Bytes) (name : String)
    (check : Json Bytes → Except Exn Unit) : Except Exn Unit :=
  match schema.get? (ascii name) with
  | some v => check v
  | none => .ok ()

/-- A condition that is an error when it fails. -/
def require (condition : Bool) (what : String) : Except Exn Unit :=
  if condition then .ok () else .error (.invalidArgument what)

def isBoolean : Json Bytes → Bool
  | .bool _ => true
  | _ => false

/-- The string of a value that was checked to be one. -/
def stringOf : Json Bytes → Bytes
  | .str s => s
  | _ => []

def isString : Json Bytes → Bool
  | .str _ => true
  | _ => false

/-- The types a schema can name. -/
def schemaTypes : List Bytes :=
  [ascii "null", ascii "boolean", ascii "object", ascii "array", ascii "number",
    ascii "integer", ascii "string"]

/-- A value is of a type. -/
def schemaTypeMatches (value : Json Bytes) (type : Bytes) : Except Exn Bool :=
  if type = ascii "null" then .ok (match value with | .null => true | _ => false)
  else if type = ascii "boolean" then .ok (isBoolean value)
  else if type = ascii "object" then .ok value.isObject
  else if type = ascii "array" then .ok value.isArray
  else if type = ascii "number" then .ok value.isNumber
  else if type = ascii "integer" then .ok value.isInteger
  else if type = ascii "string" then .ok (isString value)
  else .error (.invalidArgument
    ("Unsupported Program pending JSON Schema type: " ++ bytesText type))

local instance lawfulBEq_bytes : LawfulBEq Bytes := inferInstance

def validateTypeName (path : String) (type : Json Bytes) : Except Exn Unit := do
  require (isString type)
    ("Program pending JSON Schema type at " ++ path ++ " must contain strings")
  require (stringOf type ∈ schemaTypes)
    ("Unsupported Program pending JSON Schema type: " ++ bytesText (stringOf type))

/-- A type, or a list of types with one at least. -/
def validateSchemaType (path : String) (type : Json Bytes) : Except Exn Unit :=
  if isString type then validateTypeName path type
  else if type.isArray then do
    require (!type.elements.isEmpty)
      ("Program pending JSON Schema type array at " ++ path ++ " must not be empty")
    forEach type.elements (validateTypeName path)
  else .error (.invalidArgument
    ("Program pending JSON Schema type at " ++ path ++ " must be a string or array"))

/-- The checks of `oneOf`, `anyOf` and `allOf`. -/
def validateAlternatives (sub : String → Json Bytes → Except Exn Unit) (path : String)
    (schema : Json Bytes) (keyword : String) : Except Exn Unit :=
  checkMember schema keyword fun alternatives => do
    require (alternatives.isArray && !alternatives.elements.isEmpty)
      ("Program pending JSON Schema " ++ keyword ++ " at " ++ path ++ " must be a non-empty array")
    forEach alternatives.elements.zipIdx fun item =>
      sub (path ++ "/" ++ keyword ++ "/" ++ toString item.2) item.1

/-- The checks of a schema at one level, given the check one level down. -/
def checkSchema (sub : String → Json Bytes → Except Exn Unit) (path : String)
    (schema : Json Bytes) : Except Exn Unit := do
  require schema.isObject ("Program pending JSON Schema at " ++ path ++ " must be an object")
  checkMember schema "type" (validateSchemaType path)
  checkMember schema "enum" fun values =>
    require values.isArray ("Program pending JSON Schema enum at " ++ path ++ " must be an array")
  checkMember schema "required" fun required => do
    require required.isArray
      ("Program pending JSON Schema required at " ++ path ++ " must be an array")
    forEach required.elements fun item => require (isString item)
      ("Program pending JSON Schema required at " ++ path ++ " must contain strings")
  checkMember schema "properties" fun properties => do
    require properties.isObject
      ("Program pending JSON Schema properties at " ++ path ++ " must be an object")
    forEach properties.members fun m => sub (path ++ "/properties/" ++ bytesText m.1) m.2
  checkMember schema "items" (sub (path ++ "/items"))
  checkMember schema "additionalProperties" fun additional => do
    require (isBoolean additional || additional.isObject)
      ("Program pending JSON Schema additionalProperties at " ++ path
        ++ " must be a boolean or object")
    if additional.isObject then sub (path ++ "/additionalProperties") additional else .ok ()
  validateAlternatives sub path schema "oneOf"
  validateAlternatives sub path schema "anyOf"
  validateAlternatives sub path schema "allOf"

def tooDeep (path : String) : Exn :=
  .invalidArgument ("Program pending JSON Schema exceeds 64 levels at " ++ path)

/-- The check of a schema, with the number of levels it may still
descend. -/
def validateSchema : ℕ → String → Json Bytes → Except Exn Unit
  | 0, path, _ => .error (tooDeep path)
  | levels + 1, path, schema => checkSchema (validateSchema levels) path schema

/-- Some of the types is that of the value. -/
def anyTypeMatches (value : Json Bytes) : List (Json Bytes) → Except Exn Bool
  | [] => .ok false
  | type :: types => do
    let matched ← schemaTypeMatches value (stringOf type)
    if matched then .ok true else anyTypeMatches value types

/-- A value is of one of the types. -/
def typesMatch (value types : Json Bytes) : Except Exn Bool :=
  if isString types then schemaTypeMatches value (stringOf types)
  else anyTypeMatches value types.elements

/-- A check passed. -/
def passes (check : Except Exn Unit) : Bool :=
  match check with
  | .ok _ => true
  | .error _ => false

/-- The checks of an object's members. -/
def checkMembers (sub : String → Json Bytes → Json Bytes → Except Exn Unit)
    (path : String) (value schema : Json Bytes) : Except Exn Unit := do
  let properties := (schema.get? (ascii "properties")).getD (.obj [])
  checkMember schema "required" fun required =>
    forEach required.elements fun name => require (value.contains (stringOf name))
      ("value at " ++ path ++ " is missing required property " ++ bytesText (stringOf name))
  forEach properties.members fun m =>
    match value.get? m.1 with
    | some v => sub (path ++ "/" ++ bytesText m.1) v m.2
    | none => .ok ()
  checkMember schema "additionalProperties" fun additional =>
    forEach value.members fun m =>
      if properties.contains m.1 then .ok ()
      else match additional with
        | .bool false => .error (.invalidArgument
            ("value at " ++ path ++ " has unexpected property " ++ bytesText m.1))
        | .obj members => sub (path ++ "/" ++ bytesText m.1) m.2 (.obj members)
        | _ => .ok ()

/-- The checks of a value against a schema at one level, given the check
one level down. -/
def checkInstance (sub : String → Json Bytes → Json Bytes → Except Exn Unit)
    (path : String) (value schema : Json Bytes) : Except Exn Unit := do
  checkMember schema "const" fun constant =>
    require (equals value constant) ("value at " ++ path ++ " does not match const")
  checkMember schema "enum" fun values =>
    require (values.elements.any fun candidate => equals candidate value)
      ("value at " ++ path ++ " is not in enum")
  checkMember schema "type" fun types => do
    let matched ← typesMatch value types
    require matched ("value at " ++ path ++ " has the wrong JSON type")
  checkMember schema "oneOf" fun alternatives =>
    require (alternatives.elements.countP (fun candidate => passes (sub path value candidate)) = 1)
      ("value at " ++ path ++ " does not match exactly one oneOf branch")
  checkMember schema "anyOf" fun alternatives =>
    require (alternatives.elements.any fun candidate => passes (sub path value candidate))
      ("value at " ++ path ++ " does not match any anyOf branch")
  checkMember schema "allOf" fun alternatives =>
    forEach alternatives.elements fun candidate => sub path value candidate
  if value.isObject then checkMembers sub path value schema
  else if value.isArray then
    checkMember schema "items" fun items =>
      forEach value.elements.zipIdx fun item => sub (path ++ "/" ++ toString item.2) item.1 items
  else .ok ()

/-- The check of a value, with the number of levels it may still descend
in the schema. -/
def validateInstance : ℕ → String → Json Bytes → Json Bytes → Except Exn Unit
  | 0, path, _, _ => .error (tooDeep path)
  | levels + 1, path, value, schema => checkInstance (validateInstance levels) path value schema

/-- The check of a submitted result. -/
def valueMatchesSchema (value schema : Json Bytes) : Except Exn Unit :=
  validateInstance (maxSchemaDepth + 1) "$" value schema

/-! ## What the checks ask for -/

theorem forEach_eq_ok {α : Type} {l : List α} {check : α → Except Exn Unit} :
    forEach l check = .ok () ↔ ∀ a ∈ l, check a = .ok () := by
  induction l with
  | nil => simp [forEach]
  | cons a l ih => rw [forEach, bind_unit_eq_ok, ih, forall_mem_cons]

theorem require_eq_ok {condition : Bool} {what : String} :
    require condition what = .ok () ↔ condition = true := by
  unfold require
  split_ifs with h
  · simp [h]
  · simp [h]

theorem passes_iff {check : Except Exn Unit} : passes check = true ↔ check = .ok () := by
  cases check with
  | error e | ok u => simp [passes]

variable {schema v : Json Bytes}

theorem checkMember_eq_ok {name : String} {check : Json Bytes → Except Exn Unit} :
    checkMember schema name check = .ok ()
      ↔ ∀ v, schema.get? (ascii name) = some v → check v = .ok () := by
  unfold checkMember
  cases schema.get? (ascii name) with
  | none | some v => simp

/-! ## The order of members -/

section ShapeMap

variable {g : Json Bytes → Json Bytes} (hg : ShapeMap g)
include hg

variable {schema : Json Bytes} {check check' : Json Bytes → Except Exn Unit}

theorem checkMember_shapeMap (hs : schema.NoDuplicates) {name : String}
    (h : ∀ v, schema.get? (ascii name) = some v → v.NoDuplicates →
      (check v = .ok () ↔ check' (g v) = .ok ())) :
    checkMember schema name check = .ok () ↔ checkMember (g schema) name check' = .ok () := by
  unfold checkMember
  rw [hg.get? schema hs]
  cases hget : schema.get? (ascii name) with
  | none => exact Iff.rfl
  | some v => exact h v hget (hs.get? hget)

variable (v : Json Bytes)

theorem isObject_shapeMap : (g v).isObject = v.isObject := by
  have hkd : ∀ w : Json Bytes, w.isObject = match w.kind with | .obj => true | _ => false := by
    intro w
    cases w <;> rfl
  rw [hkd, hkd v, hg.kind]

theorem isArray_shapeMap : (g v).isArray = v.isArray := by
  have hkd : ∀ w : Json Bytes, w.isArray = match w.kind with | .arr => true | _ => false := by
    intro w
    cases w <;> rfl
  rw [hkd, hkd v, hg.kind]

theorem isBoolean_shapeMap : isBoolean (g v) = isBoolean v := by
  have hkd : ∀ w, isBoolean w = match w.kind with | .bool _ => true | _ => false := by
    intro w
    cases w <;> rfl
  rw [hkd, hkd v, hg.kind]

theorem isString_shapeMap : isString (g v) = isString v ∧ stringOf (g v) = stringOf v := by
  have hkd : ∀ w, isString w = match w.kind with | .str _ => true | _ => false := by
    intro w
    cases w <;> rfl
  have hstr : ∀ w, stringOf w = match w.kind with | .str s => s | _ => [] := by
    intro w
    cases w <;> rfl
  rw [hkd, hkd v, hstr, hstr v, hg.kind]
  exact ⟨rfl, rfl⟩

theorem isEmpty_elements_shapeMap : (g v).elements.isEmpty = v.elements.isEmpty := by
  rw [(hg.elements v).isEmpty_eq, isEmpty_map]

omit hg in
theorem forEach_map_perm {α β : Type} {f : α → β} {l : List α} {l' : List β}
    (hp : l'.Perm (l.map f)) {check : α → Except Exn Unit} {check' : β → Except Exn Unit}
    (h : ∀ a ∈ l, (check a = .ok () ↔ check' (f a) = .ok ())) :
    forEach l check = .ok () ↔ forEach l' check' = .ok () := by
  rw [forEach_eq_ok, forEach_eq_ok]
  simp only [hp.mem_iff, forall_mem_map]
  exact forall₂_congr h

theorem forEach_elements {v : Json Bytes} (hv : v.NoDuplicates)
    (h : ∀ w ∈ v.elements, w.NoDuplicates → (check w = .ok () ↔ check' (g w) = .ok ())) :
    forEach v.elements check = .ok () ↔ forEach (g v).elements check' = .ok () :=
  forEach_map_perm (hg.elements v) fun w hw => h w hw (hv.elements w hw)

theorem forEach_zipIdx_elements {v : Json Bytes} (hv : v.NoDuplicates)
    (check check' : ℕ → Json Bytes → Except Exn Unit)
    (h : ∀ i j w, w.NoDuplicates → (check i w = .ok () ↔ check' j (g w) = .ok ())) :
    forEach v.elements.zipIdx (fun item => check item.2 item.1) = .ok ()
      ↔ forEach (g v).elements.zipIdx (fun item => check' item.2 item.1) = .ok () := by
  -- every element has an index, and the index does not matter
  have hix : ∀ (l : List (Json Bytes)) (w : Json Bytes), w ∈ l →
      ∃ i, (w, i) ∈ l.zipIdx := by
    intro l w hw
    obtain ⟨i, hi⟩ := mem_iff_getElem?.mp hw
    exact ⟨i, mk_mem_zipIdx_iff_getElem?.mpr hi⟩
  rw [forEach_eq_ok, forEach_eq_ok]
  constructor
  · rintro ha ⟨w', j⟩ hm
    obtain ⟨w, hw, rfl⟩ :=
      mem_map.mp ((hg.elements v).mem_iff.mp (fst_mem_of_mem_zipIdx hm))
    obtain ⟨i, hi⟩ := hix _ w hw
    exact (h i j w (hv.elements w hw)).mp (ha _ hi)
  · rintro ha ⟨w, i⟩ hm
    have hw : w ∈ v.elements := fst_mem_of_mem_zipIdx hm
    obtain ⟨j, hj⟩ := hix (g v).elements (g w) ((hg.elements v).mem_iff.mpr (mem_map_of_mem hw))
    exact (h i j w (hv.elements w hw)).mpr (ha _ hj)

theorem forEach_members {v : Json Bytes} (hv : v.NoDuplicates)
    {check check' : Bytes × Json Bytes → Except Exn Unit} (h : ∀ m ∈ v.members, m.2.NoDuplicates →
      (check m = .ok () ↔ check' (m.1, g m.2) = .ok ())) :
    forEach v.members check = .ok () ↔ forEach (g v).members check' = .ok () :=
  forEach_map_perm (hg.members v) fun m hm => h m hm (hv.members m hm)

omit hg in
theorem bind_unit_congr {x x' : Except Exn Unit} {y y' : Except Exn Unit}
    (h : x = .ok () ↔ x' = .ok ()) (h' : y = .ok () ↔ y' = .ok ()) :
    (x >>= fun _ => y) = .ok () ↔ (x' >>= fun _ => y') = .ok () := by
  rw [bind_unit_eq_ok, bind_unit_eq_ok, h, h']

omit hg in
theorem require_congr {condition condition' : Bool} {what what' : String}
    (h : condition = condition') :
    require condition what = .ok () ↔ require condition' what' = .ok () := by
  rw [require_eq_ok, require_eq_ok, h]

theorem validateTypeName_shapeMap (path path' : String) (type : Json Bytes) :
    validateTypeName path type = .ok () ↔ validateTypeName path' (g type) = .ok () := by
  obtain ⟨hstr, hnm⟩ := isString_shapeMap hg type
  unfold validateTypeName
  exact bind_unit_congr (require_congr hstr.symm) (require_congr (by rw [hnm]))

theorem validateSchemaType_shapeMap (path path' : String) {type : Json Bytes}
    (ht : type.NoDuplicates) :
    validateSchemaType path type = .ok () ↔ validateSchemaType path' (g type) = .ok () := by
  unfold validateSchemaType
  rw [(isString_shapeMap hg type).1, isArray_shapeMap hg]
  split
  · exact validateTypeName_shapeMap hg path path' type
  split
  · exact bind_unit_congr (require_congr (by rw [isEmpty_elements_shapeMap hg]))
      (forEach_elements hg ht fun w _ _ => validateTypeName_shapeMap hg path path' w)
  · constructor <;> rintro ⟨⟩

variable {sub : String → Json Bytes → Except Exn Unit}

theorem validateAlternatives_shapeMap
    (hsub : ∀ path path' s, s.NoDuplicates → (sub path s = .ok () ↔ sub path' (g s) = .ok ()))
    (path path' : String) (hs : schema.NoDuplicates) (keyword : String) :
    validateAlternatives sub path schema keyword = .ok ()
      ↔ validateAlternatives sub path' (g schema) keyword = .ok () := by
  unfold validateAlternatives
  refine checkMember_shapeMap hg hs fun alternatives _ halternatives => ?_
  refine bind_unit_congr (require_congr ?_) ?_
  · rw [isArray_shapeMap hg, isEmpty_elements_shapeMap hg]
  exact forEach_zipIdx_elements hg halternatives
    (fun i w => sub (path ++ "/" ++ keyword ++ "/" ++ toString i) w)
    (fun j w => sub (path' ++ "/" ++ keyword ++ "/" ++ toString j) w)
    fun i j w hw => hsub _ _ w hw

/-- Nor does the form of the numbers. -/
theorem checkSchema_shapeMap
    (hsub : ∀ path path' s, s.NoDuplicates → (sub path s = .ok () ↔ sub path' (g s) = .ok ()))
    (path path' : String) (hs : schema.NoDuplicates) :
    checkSchema sub path schema = .ok () ↔ checkSchema sub path' (g schema) = .ok () := by
  unfold checkSchema
  refine bind_unit_congr (require_congr (isObject_shapeMap hg schema).symm) ?_
  refine bind_unit_congr (checkMember_shapeMap hg hs fun type _ ht =>
    validateSchemaType_shapeMap hg path path' ht) ?_
  refine bind_unit_congr (checkMember_shapeMap hg hs fun values _ _ =>
    require_congr (isArray_shapeMap hg values).symm) ?_
  refine bind_unit_congr (checkMember_shapeMap hg hs fun required _ hr => ?_) ?_
  · exact bind_unit_congr (require_congr (isArray_shapeMap hg required).symm)
      (forEach_elements hg hr fun w _ _ => require_congr (isString_shapeMap hg w).1.symm)
  refine bind_unit_congr (checkMember_shapeMap hg hs fun properties _ hp => ?_) ?_
  · exact bind_unit_congr (require_congr (isObject_shapeMap hg properties).symm)
      (forEach_members hg hp fun m _ hm => hsub _ _ m.2 hm)
  refine bind_unit_congr (checkMember_shapeMap hg hs fun items _ his =>
    hsub _ _ items his) ?_
  refine bind_unit_congr (checkMember_shapeMap hg hs fun additional _ ha => ?_) ?_
  · refine bind_unit_congr (require_congr ?_) ?_
    · rw [isBoolean_shapeMap hg, isObject_shapeMap hg]
    rw [isObject_shapeMap hg]
    split
    · exact hsub _ _ additional ha
    · exact Iff.rfl
  refine bind_unit_congr (validateAlternatives_shapeMap hg hsub path path' hs "oneOf") ?_
  exact bind_unit_congr (validateAlternatives_shapeMap hg hsub path path' hs "anyOf")
    (validateAlternatives_shapeMap hg hsub path path' hs "allOf")

/-- **The check of a schema looks at names, strings and nesting only.** -/
theorem validateSchema_shapeMap (levels : ℕ) (path path' : String) {schema : Json Bytes}
    (hsch : schema.NoDuplicates) : validateSchema levels path schema = .ok ()
      ↔ validateSchema levels path' (g schema) = .ok () := by
  induction levels generalizing path path' schema with
  | zero =>
    constructor <;> rintro ⟨⟩
  | succ levels ih =>
    exact checkSchema_shapeMap hg (fun path path' s hs => @ih path path' s hs) path path' hsch

end ShapeMap

/-! ## Results up to the order of members -/

variable (value : Json Bytes)

theorem schemaTypeMatches_normalize (type : Bytes) :
    schemaTypeMatches value.normalize type = schemaTypeMatches value type := by
  cases value with
  | sint n =>
    rw [Json.normalize]
    split <;> rfl
  | _ => rfl

/-- The types of a schema are matched in the order of their list. -/
theorem anyTypeMatches_normalize (types : List (Json Bytes)) :
    anyTypeMatches value.normalize (types.map normalize) = anyTypeMatches value types := by
  induction types with
  | nil => rfl
  | cons type types ih =>
    rw [map_cons, anyTypeMatches, anyTypeMatches, schemaTypeMatches_normalize,
      (isString_shapeMap shapeMap_normalize type).2, ih]

theorem typesMatch_normalize {types : Json Bytes}
    (ht : isString types = true ∨ types.isArray = true) :
    typesMatch value.normalize types.normalize = typesMatch value types := by
  unfold typesMatch
  obtain ⟨hstr, hnm⟩ := isString_shapeMap shapeMap_normalize types
  rw [hstr, hnm, schemaTypeMatches_normalize]
  split_ifs with hn
  · rfl
  cases types with
  | arr items =>
    rw [Json.normalize, normalizeItems_eq_map]
    exact anyTypeMatches_normalize value items
  | _ => simp_all [isArray]

/-- The parts of a checked schema that a value is checked against. -/
structure CheckedSchema (levels : ℕ) (schema : Json Bytes) : Prop where
  types : ∀ types, schema.get? (ascii "type") = some types →
    isString types = true ∨ types.isArray = true
  properties : ∀ properties, schema.get? (ascii "properties") = some properties →
    ∀ m ∈ properties.members, ∃ path, validateSchema levels path m.2 = .ok ()
  items : ∀ items, schema.get? (ascii "items") = some items →
    ∃ path, validateSchema levels path items = .ok ()
  additional : ∀ additional, schema.get? (ascii "additionalProperties") = some additional →
    additional.isObject = true → ∃ path, validateSchema levels path additional = .ok ()
  alternatives : ∀ keyword ∈ ["oneOf", "anyOf", "allOf"], ∀ alternatives,
    schema.get? (ascii keyword) = some alternatives →
      ∀ s ∈ alternatives.elements, ∃ path, validateSchema levels path s = .ok ()

variable {path : String} {levels : ℕ}

theorem validateAlternatives_eq_ok {keyword : String}
    (h : validateAlternatives (validateSchema levels) path schema keyword = .ok ())
    {alternatives : Json Bytes} (hget : schema.get? (ascii keyword) = some alternatives) :
    ∀ s ∈ alternatives.elements, ∃ path, validateSchema levels path s = .ok () := by
  intro s hs
  unfold validateAlternatives at h
  have h := checkMember_eq_ok.mp h alternatives hget
  obtain ⟨-, h⟩ := bind_unit_eq_ok.mp h
  obtain ⟨i, hi⟩ := mem_iff_getElem?.mp hs
  exact ⟨_, forEach_eq_ok.mp h _ (mk_mem_zipIdx_iff_getElem?.mpr hi)⟩

/-- What the check of a schema leaves to the check of a value. -/
theorem checkedSchema_of_validateSchema
    (h : validateSchema (levels + 1) path schema = .ok ()) : CheckedSchema levels schema := by
  rw [validateSchema] at h
  unfold checkSchema at h
  simp only [bind_unit_eq_ok] at h
  obtain ⟨-, ht, -, -, hp, his, ha, honeOf, hanyOf, hallOf⟩ := h
  refine ⟨fun types hget => ?_, fun properties hget m hm => ?_, fun items hget => ?_,
    fun additional hget ho => ?_, fun keyword hkw alternatives hget => ?_⟩
  · have h := checkMember_eq_ok.mp ht types hget
    unfold validateSchemaType at h
    split at h
    · rename_i hstr
      exact .inl hstr
    split at h
    · rename_i harray
      exact .inr harray
    · cases h
  · have h := checkMember_eq_ok.mp hp properties hget
    obtain ⟨-, h⟩ := bind_unit_eq_ok.mp h
    exact ⟨_, forEach_eq_ok.mp h m hm⟩
  · exact ⟨_, checkMember_eq_ok.mp his items hget⟩
  · have h := checkMember_eq_ok.mp ha additional hget
    obtain ⟨-, h⟩ := bind_unit_eq_ok.mp h
    rw [if_pos ho] at h
    exact ⟨_, h⟩
  · simp only [mem_cons, not_mem_nil, or_false] at hkw
    obtain rfl | rfl | rfl := hkw
    · exact validateAlternatives_eq_ok honeOf hget
    · exact validateAlternatives_eq_ok hanyOf hget
    · exact validateAlternatives_eq_ok hallOf hget

theorem passes_congr {check check' : Except Exn Unit} (h : check = .ok () ↔ check' = .ok ()) :
    passes check = passes check' := by
  rw [Bool.eq_iff_iff, passes_iff, passes_iff, h]

variable {p q : Json Bytes → Bool}

theorem any_elements_normalize (h : ∀ w ∈ v.elements, q w.normalize = p w) :
    v.normalize.elements.any q = v.elements.any p := by
  rw [(shapeMap_normalize.elements v).any_eq, any_map]
  rw [Bool.eq_iff_iff, any_eq_true, any_eq_true]
  refine exists_congr fun w => and_congr_right fun hw => ?_
  rw [Function.comp_apply, h w hw]

theorem countP_elements_normalize (h : ∀ w ∈ v.elements, q w.normalize = p w) :
    v.normalize.elements.countP q = v.elements.countP p := by
  rw [(shapeMap_normalize.elements v).countP_eq, countP_map]
  exact countP_congr fun w hw => by rw [Function.comp_apply, h w hw]

section Instance

variable {levels : ℕ} {sub : String → Json Bytes → Json Bytes → Except Exn Unit}
  (hsub : ∀ path path' v s, v.NoDuplicates → s.NoDuplicates →
    (∃ path, validateSchema levels path s = .ok ()) →
      (sub path v s = .ok () ↔ sub path' v.normalize s.normalize = .ok ()))
include hsub

theorem checkMembers_normalize (path path' : String) {value schema : Json Bytes}
    (hval : value.NoDuplicates) (hs : schema.NoDuplicates)
    (hchk : CheckedSchema levels schema) : checkMembers sub path value schema = .ok ()
      ↔ checkMembers sub path' value.normalize schema.normalize = .ok () := by
  have hsh := shapeMap_normalize (S := Bytes)
  unfold checkMembers
  dsimp only
  -- the properties, an empty object when there are none
  have hp : ((schema.normalize).get? (ascii "properties")).getD (.obj [])
      = normalize ((schema.get? (ascii "properties")).getD (.obj [])) := by
    rw [get?_normalize hs]
    cases schema.get? (ascii "properties") <;> rfl
  have hnd : ((schema.get? (ascii "properties")).getD (.obj [])).NoDuplicates := by
    cases hget : schema.get? (ascii "properties") with
    | none => exact (noDuplicates_obj_iff []).mpr ⟨nodup_nil, by simp⟩
    | some properties => exact hs.get? hget
  have hvd : ∀ m ∈ ((schema.get? (ascii "properties")).getD (.obj [])).members,
      ∃ path, validateSchema levels path m.2 = .ok () := by
    intro m hm
    cases hget : schema.get? (ascii "properties") with
    | none =>
      rw [hget] at hm
      cases hm
    | some properties =>
      rw [hget] at hm
      exact hchk.properties properties hget m hm
  rw [hp]
  have hc : ∀ v : Json Bytes, v.NoDuplicates → ∀ name,
      v.normalize.contains name = v.contains name := by
    intro v hv name
    unfold Json.contains
    rw [get?_normalize hv, Option.isSome_map]
  refine bind_unit_congr (checkMember_shapeMap hsh hs fun required _ hr => ?_) ?_
  · refine forEach_elements hsh hr fun name _ _ => require_congr ?_
    rw [(isString_shapeMap hsh name).2, hc value hval]
  refine bind_unit_congr (forEach_members hsh hnd fun m hm hm' => ?_) ?_
  · dsimp only
    rw [get?_normalize hval]
    cases hget : value.get? m.1 with
    | none => exact Iff.rfl
    | some v => exact hsub _ _ v m.2 (hval.get? hget) hm' (hvd m hm)
  refine checkMember_shapeMap hsh hs fun additional hget ha => ?_
  refine forEach_members hsh hval fun m _ hm => ?_
  dsimp only
  rw [hc _ hnd]
  split
  · exact Iff.rfl
  cases additional with
  | obj members =>
    exact hsub _ _ m.2 _ hm ha (hchk.additional _ hget rfl)
  | bool b =>
    cases b with
    | true => exact Iff.rfl
    | false =>
      constructor <;> rintro ⟨⟩
  | sint n =>
    rw [Json.normalize]
    by_cases hn : 0 ≤ n
    · rw [if_pos hn]
    · rw [if_neg hn]
  | _ => exact Iff.rfl

/-- The order of the members does not matter. -/
theorem checkInstance_normalize (path path' : String) {value schema : Json Bytes}
    (hv : value.NoDuplicates) (hsch : schema.NoDuplicates)
    (hc : CheckedSchema levels schema) : checkInstance sub path value schema = .ok ()
      ↔ checkInstance sub path' value.normalize schema.normalize = .ok () := by
  have hsh := shapeMap_normalize (S := Bytes)
  have halt : ∀ keyword ∈ ["oneOf", "anyOf", "allOf"], ∀ alternatives,
      schema.get? (ascii keyword) = some alternatives → alternatives.NoDuplicates →
      ∀ s ∈ alternatives.elements,
        (sub path value s = .ok () ↔ sub path' value.normalize s.normalize = .ok ()) :=
    fun keyword hkw alternatives hget hnd s hs => hsub _ _ value s hv
      (hnd.elements s hs) (hc.alternatives keyword hkw alternatives hget s hs)
  unfold checkInstance
  refine bind_unit_congr (checkMember_shapeMap hsh hsch fun constant _ hconstant =>
    require_congr (equals_normalize hv hconstant).symm) ?_
  refine bind_unit_congr (checkMember_shapeMap hsh hsch fun values _ hvs =>
    require_congr ?_) ?_
  · have hequals : ∀ w ∈ values.elements, equals w.normalize value.normalize = equals w value :=
      fun w hw => equals_normalize (hvs.elements w hw) hv
    exact (any_elements_normalize hequals).symm
  refine bind_unit_congr (checkMember_shapeMap hsh hsch fun types hget _ => ?_) ?_
  · rw [typesMatch_normalize value (hc.types types hget), bind_eq_ok, bind_eq_ok]
    exact exists_congr fun matched => and_congr_right fun _ => require_congr rfl
  refine bind_unit_congr (checkMember_shapeMap hsh hsch fun alternatives hget hnd =>
    require_congr ?_) ?_
  · rw [countP_elements_normalize fun w hw =>
      (passes_congr (halt "oneOf" (by simp) alternatives hget hnd w hw)).symm]
  refine bind_unit_congr (checkMember_shapeMap hsh hsch fun alternatives hget hnd =>
    require_congr ?_) ?_
  · exact (any_elements_normalize fun w hw =>
      (passes_congr (halt "anyOf" (by simp) alternatives hget hnd w hw)).symm).symm
  refine bind_unit_congr (checkMember_shapeMap hsh hsch fun alternatives hget hnd =>
    forEach_elements hsh hnd fun w hw _ =>
      halt "allOf" (by simp) alternatives hget hnd w hw) ?_
  rw [isObject_shapeMap hsh, isArray_shapeMap hsh]
  split
  · exact checkMembers_normalize hsub path path' hv hsch hc
  split
  · refine checkMember_shapeMap hsh hsch fun items hget his => ?_
    exact forEach_zipIdx_elements hsh hv (fun i w => sub (path ++ "/" ++ toString i) w items)
      (fun j w => sub (path' ++ "/" ++ toString j) w items.normalize)
      fun i j w hw => hsub _ _ w items hw his (hc.items items hget)
  · exact Iff.rfl

end Instance

/-- **The check of a result does not depend on the order of members**, nor
on how an integer is kept. -/
theorem validateInstance_normalize (levels : ℕ) (path path' : String)
    {value schema : Json Bytes} (hval : value.NoDuplicates)
    (hsch : schema.NoDuplicates) (hvd : ∃ path, validateSchema levels path schema = .ok ()) :
    validateInstance levels path value schema = .ok ()
      ↔ validateInstance levels path' value.normalize schema.normalize = .ok () := by
  induction levels generalizing path path' value schema with
  | zero =>
    constructor <;> rintro ⟨⟩
  | succ levels ih =>
    obtain ⟨_, hvd⟩ := hvd
    exact checkInstance_normalize
      (fun path path' v s hv hs hvd => @ih path path' v s hv hs hvd) path path' hval
      hsch (checkedSchema_of_validateSchema hvd)

/-- Results with one normal form pass schemas with one normal form alike. -/
theorem valueMatchesSchema_congr {value value' schema schema' : Json Bytes}
    (hval : value.NoDuplicates) (hval' : value'.NoDuplicates)
    (hsch : schema.NoDuplicates) (hsch' : schema'.NoDuplicates)
    (hvd : ∃ path, validateSchema (maxSchemaDepth + 1) path schema = .ok ())
    (hvd' : ∃ path, validateSchema (maxSchemaDepth + 1) path schema' = .ok ())
    (hv : value.normalize = value'.normalize) (hs : schema.normalize = schema'.normalize) :
    valueMatchesSchema value schema = .ok () ↔ valueMatchesSchema value' schema' = .ok () := by
  unfold valueMatchesSchema
  rw [validateInstance_normalize _ "$" "$" hval hsch hvd, hv, hs,
    ← validateInstance_normalize _ "$" "$" hval' hsch' hvd']

end NeoGraph.Program.Pending
