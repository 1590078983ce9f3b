import NeoGraph.Lib.JsonPointer
import NeoGraph.Program.PendingSchema

/-!
# Results satisfy their schemas

What a JSON Schema of the supported subset asks of a value, as a recursion
on the schema that knows neither levels nor exceptions: every keyword that
the schema uses is a condition on the value (`Keywords`), stated with the
conditions of the subschemas it lists (`Satisfies`).

The check of a result evaluates the branches of `oneOf` and `anyOf` by
catching exceptions, and a branch that fails because the schema is too deep
looks like one the value does not match. `valueMatches_spec` says that this
never happens: a schema that `validateSchema` accepted has as many levels
as the check of a result may descend, so the result of the check is that of
the recursion, whatever a check beyond the last level would have said.
-/

namespace NeoGraph.Program.Pending

open CanonicalJson List Json

variable {schema value : Json Bytes} {path : String}

/-! ## The subset of JSON Schema -/

/-- The types a value has. -/
def typesOf : Json Bytes → List Bytes
  | .null => [ascii "null"]
  | .bool _ => [ascii "boolean"]
  | .obj _ => [ascii "object"]
  | .arr _ => [ascii "array"]
  | .uint _ => [ascii "number", ascii "integer"]
  | .sint _ => [ascii "number", ascii "integer"]
  | .real _ => [ascii "number"]
  | .str _ => [ascii "string"]

/-- The names a `type` keyword lists. -/
def typeNames (types : Json Bytes) : List Bytes :=
  if isString types then [stringOf types] else types.elements.map stringOf

/-- Values are the same up to the order of the members of objects. Integers
are compared as numbers. -/
def Same (v w : Json Bytes) : Prop := v.normalize = w.normalize

/-- **The conditions of a schema's keywords** on a value, where `R s v` says
that the value `v` satisfies the subschema `s`. A keyword that the schema
does not use asks for nothing. -/
structure Keywords (R : Json Bytes → Json Bytes → Prop)
    (schema value : Json Bytes) : Prop where
  const : ∀ constant, schema.get? (ascii "const") = some constant → Same value constant
  enum : ∀ values, schema.get? (ascii "enum") = some values →
    ∃ candidate ∈ values.elements, Same candidate value
  type : ∀ types, schema.get? (ascii "type") = some types →
    ∃ name ∈ typeNames types, name ∈ typesOf value
  /-- One branch and no other, also where two branches are the same. -/
  oneOf : ∀ alternatives, schema.get? (ascii "oneOf") = some alternatives →
    ∃! i : ℕ, ∃ s, alternatives.elements[i]? = some s ∧ R s value
  anyOf : ∀ alternatives, schema.get? (ascii "anyOf") = some alternatives →
    ∃ s ∈ alternatives.elements, R s value
  allOf : ∀ alternatives, schema.get? (ascii "allOf") = some alternatives →
    ∀ s ∈ alternatives.elements, R s value
  required : ∀ names, schema.get? (ascii "required") = some names → value.isObject = true →
    ∀ name, .str name ∈ names.elements → value.contains name = true
  properties : ∀ properties, schema.get? (ascii "properties") = some properties →
    ∀ m ∈ properties.members, ∀ v, value.get? m.1 = some v → R m.2 v
  /-- Only the members that `properties` does not name are additional. -/
  additional : ∀ additional, schema.get? (ascii "additionalProperties") = some additional →
    ∀ m ∈ value.members,
      (∀ properties, schema.get? (ascii "properties") = some properties →
        properties.contains m.1 = false) →
      additional = .bool true ∨ additional.isObject = true ∧ R additional m.2
  items : ∀ items, schema.get? (ascii "items") = some items → value.isArray = true →
    ∀ v ∈ value.elements, R items v

attribute [mk_iff] Keywords

/-- **A value satisfies a schema**: the conditions of all keywords hold, with
subschemas satisfied in turn. The recursion is on the nesting of the
schema; every subschema nests less (`Subschema.nesting_lt`), so the bound
in it excludes nothing (`satisfies_iff`). -/
def Satisfies (schema value : Json Bytes) : Prop :=
  Keywords (fun s v => ∃ _ : s.nesting < schema.nesting, Satisfies s v) schema value
termination_by schema.nesting

/-- The schemas that the keywords of a schema list. -/
inductive Subschema (schema : Json Bytes) : Json Bytes → Prop
  | alternative {keyword : String} {alternatives s : Json Bytes}
      (hkeyword : keyword ∈ ["oneOf", "anyOf", "allOf"])
      (hget : schema.get? (ascii keyword) = some alternatives) (hs : s ∈ alternatives.elements) :
      Subschema schema s
  | property {properties : Json Bytes} {m : Bytes × Json Bytes}
      (hget : schema.get? (ascii "properties") = some properties) (hm : m ∈ properties.members) :
      Subschema schema m.2
  | additional {s : Json Bytes}
      (hget : schema.get? (ascii "additionalProperties") = some s)
      (hobject : s.isObject = true) : Subschema schema s
  | items {s : Json Bytes} (hget : schema.get? (ascii "items") = some s) :
      Subschema schema s

/-- A condition on subschemas matters at subschemas only. -/
theorem Keywords.congr {R R' : Json Bytes → Json Bytes → Prop}
    (h : ∀ s v, Subschema schema s → (R s v ↔ R' s v)) :
    Keywords R schema value ↔ Keywords R' schema value := by
  rw [keywords_iff, keywords_iff]
  refine and_congr .rfl (and_congr .rfl (and_congr .rfl (and_congr ?oneOf (and_congr ?anyOf
    (and_congr ?allOf (and_congr .rfl (and_congr ?properties (and_congr ?additional ?items))))))))
  all_goals refine forall₂_congr fun s hg => ?_
  case oneOf =>
    exact existsUnique_congr fun i => exists_congr fun t => and_congr_right fun ht =>
      h t value (.alternative (by simp) hg (mem_of_getElem? ht))
  case anyOf =>
    exact exists_congr fun t => and_congr_right fun ht =>
      h t value (.alternative (by simp) hg ht)
  case allOf => exact forall₂_congr fun t ht => h t value (.alternative (by simp) hg ht)
  case properties =>
    exact forall₂_congr fun m hm => forall₂_congr fun v _ => h m.2 v (.property hg hm)
  case additional =>
    exact forall₂_congr fun m _ => imp_congr_right fun _ => or_congr_right
      (and_congr_right fun ho => h s m.2 (.additional hg ho))
  case items => exact imp_congr_right fun _ => forall₂_congr fun v _ => h s v (.items hg)

variable {s : Json Bytes}

theorem Subschema.nesting_lt (h : Subschema schema s) : s.nesting < schema.nesting := by
  cases h with
  | alternative hkw hg hs =>
    exact (nesting_lt_of_mem_elements hs).trans (nesting_lt_of_get? hg)
  | property hg hm =>
    exact (nesting_lt_of_mem_members hm).trans (nesting_lt_of_get? hg)
  | additional hg ho | items hg => exact nesting_lt_of_get? hg

/-- The recursion equation of `Satisfies`. -/
theorem satisfies_iff : Satisfies schema value ↔ Keywords Satisfies schema value := by
  rw [Satisfies]
  refine Keywords.congr fun s v hs => ?_
  exact ⟨fun ⟨_, h⟩ => h, fun h => ⟨hs.nesting_lt, h⟩⟩

/-! ## What an accepted schema lists -/

theorem schemaTypeMatches_eq {type : Bytes} (h : type ∈ schemaTypes) :
    schemaTypeMatches value type = .ok (decide (type ∈ typesOf value)) := by
  simp only [schemaTypes, mem_cons, not_mem_nil, or_false] at h
  obtain rfl | rfl | rfl | rfl | rfl | rfl | rfl := h <;> cases value <;> rfl

/-- A value is of a type that is named. -/
theorem anyTypeMatches_eq {types : List (Json Bytes)}
    (h : ∀ type ∈ types, stringOf type ∈ schemaTypes) : anyTypeMatches value types
      = .ok (decide (∃ name ∈ types.map stringOf, name ∈ typesOf value)) := by
  induction types with
  | nil => rfl
  | cons type types ih =>
    obtain ⟨ht, hty⟩ := forall_mem_cons.mp h
    rw [anyTypeMatches, schemaTypeMatches_eq ht, ih hty, map_cons]
    by_cases hm : stringOf type ∈ typesOf value
    · show (if decide (stringOf type ∈ typesOf value) = true then _ else _) = _
      rw [if_pos (decide_eq_true hm), decide_eq_true]
      exact ⟨_, mem_cons_self, hm⟩
    · show (if decide (stringOf type ∈ typesOf value) = true then _ else _) = _
      rw [if_neg (by rw [decide_eq_true_iff]; exact hm)]
      simp [hm]

variable {types : Json Bytes}

theorem typesMatch_eq (h : ∀ name ∈ typeNames types, name ∈ schemaTypes) :
    typesMatch value types = .ok (decide (∃ name ∈ typeNames types, name ∈ typesOf value)) := by
  unfold typesMatch typeNames at *
  split_ifs with hstr
  · rw [if_pos hstr] at h
    rw [schemaTypeMatches_eq (h _ mem_cons_self)]
    simp
  · rw [if_neg hstr] at h
    exact anyTypeMatches_eq (forall_mem_map.mp h)

/-- What the check of a schema found out about the keywords that list no
schemas. -/
structure ReadableSchema (schema : Json Bytes) : Prop where
  types : ∀ types, schema.get? (ascii "type") = some types →
    ∀ name ∈ typeNames types, name ∈ schemaTypes
  required : ∀ names, schema.get? (ascii "required") = some names →
    ∀ item ∈ names.elements, ∃ name, item = .str name
  additional : ∀ additional, schema.get? (ascii "additionalProperties") = some additional →
    isBoolean additional = true ∨ additional.isObject = true

theorem validateTypeName_eq_ok {type : Json Bytes}
    (h : validateTypeName path type = .ok ()) : stringOf type ∈ schemaTypes := by
  unfold validateTypeName at h
  obtain ⟨-, h⟩ := bind_unit_eq_ok.mp h
  exact of_decide_eq_true (require_eq_ok.mp h)

theorem validateSchemaType_eq_ok (h : validateSchemaType path types = .ok ()) :
    ∀ name ∈ typeNames types, name ∈ schemaTypes := by
  unfold validateSchemaType at h
  unfold typeNames
  split at h
  · rename_i hstr
    rw [if_pos hstr]
    exact forall_mem_singleton.mpr (validateTypeName_eq_ok h)
  · rename_i hstr
    rw [if_neg hstr]
    split at h
    · obtain ⟨-, h⟩ := bind_unit_eq_ok.mp h
      exact forall_mem_map.mpr fun type ht =>
        validateTypeName_eq_ok (forEach_eq_ok.mp h type ht)
    · cases h

theorem isString_iff {v : Json Bytes} : isString v = true ↔ ∃ name, v = .str name := by
  cases v with
  | str s => exact ⟨fun _ => ⟨s, rfl⟩, fun _ => rfl⟩
  | _ => simp [isString]

variable {levels : ℕ}

/-- A schema that passes its check can be read. -/
theorem readableSchema_of_validateSchema (h : validateSchema (levels + 1) path schema = .ok ()) :
    ReadableSchema schema := by
  rw [validateSchema] at h
  unfold checkSchema at h
  simp only [bind_unit_eq_ok] at h
  obtain ⟨-, ht, -, hr, -, -, ha, -⟩ := h
  refine ⟨fun types hg => validateSchemaType_eq_ok (checkMember_eq_ok.mp ht types hg),
    fun names hg item hi => ?_, fun additional hg => ?_⟩
  · obtain ⟨-, h⟩ := bind_unit_eq_ok.mp (checkMember_eq_ok.mp hr names hg)
    exact isString_iff.mp (require_eq_ok.mp (forEach_eq_ok.mp h item hi))
  · obtain ⟨h, -⟩ := bind_unit_eq_ok.mp (checkMember_eq_ok.mp ha additional hg)
    exact (Bool.or_eq_true _ _).mp (require_eq_ok.mp h)

/-- The schemas that an accepted schema lists are accepted one level down. -/
theorem Subschema.accepted (hs : Subschema schema s)
    (h : ∃ path, validateSchema (levels + 1) path schema = .ok ()) :
    ∃ path, validateSchema levels path s = .ok () := by
  obtain ⟨path, h⟩ := h
  have hc := checkedSchema_of_validateSchema h
  cases hs with
  | alternative hkw hg hs => exact hc.alternatives _ hkw _ hg s hs
  | property hg hm => exact hc.properties _ hg _ hm
  | additional hg ho => exact hc.additional _ hg ho
  | items hg => exact hc.items _ hg

theorem Subschema.noDuplicates (hs : Subschema schema s) (h : schema.NoDuplicates) :
    s.NoDuplicates := by
  cases hs with
  | alternative hkw hg hs => exact (h.get? hg).elements s hs
  | property hg hm => exact (h.get? hg).members _ hm
  | additional hg ho | items hg => exact h.get? hg

/-! ## One level of the check -/

variable {α : Type} {l : List α}

/-- One member of a list passes exactly when there is one position of a
member that does. -/
theorem countP_eq_one_iff {p : α → Bool} :
    l.countP p = 1 ↔ ∃! i : ℕ, ∃ a, l[i]? = some a ∧ p a = true := by
  induction l with
  | nil => simp
  | cons a l ih =>
    by_cases ha : p a = true
    · rw [countP_cons_of_pos ha, Nat.add_eq_right, countP_eq_zero]
      constructor
      · intro hn
        refine ⟨0, ⟨a, rfl, ha⟩, ?_⟩
        rintro (_ | i) ⟨b, hb, hpb⟩
        · rfl
        · exact absurd hpb (hn b (mem_of_getElem? hb))
      · rintro ⟨i, -, hu⟩ b hb hpb
        obtain ⟨j, hj⟩ := mem_iff_getElem?.mp hb
        have hz := hu 0 ⟨a, rfl, ha⟩
        have hs := hu (j + 1) ⟨b, hj, hpb⟩
        omega
    · rw [countP_cons_of_neg ha, ih]
      constructor
      · rintro ⟨i, hi, hu⟩
        refine ⟨i + 1, hi, ?_⟩
        rintro (_ | j) ⟨b, hb, hpb⟩
        · cases hb
          exact absurd hpb ha
        · exact congrArg (· + 1) (hu j ⟨b, hb, hpb⟩)
      · rintro ⟨_ | i, ⟨b, hb, hpb⟩, hu⟩
        · cases hb
          exact absurd hpb ha
        · exact ⟨i, ⟨b, hb, hpb⟩, fun j hj => Nat.succ_injective (hu (j + 1) hj)⟩

theorem forEach_zipIdx_eq_ok {check : α × ℕ → Except Exn Unit} {P : α → Prop}
    (h : ∀ a ∈ l, ∀ i, check (a, i) = .ok () ↔ P a) :
    forEach l.zipIdx check = .ok () ↔ ∀ a ∈ l, P a := by
  rw [forEach_eq_ok]
  constructor
  · intro hall a ha
    obtain ⟨i, hi⟩ := mem_iff_getElem?.mp ha
    exact (h a ha i).mp (hall _ (mk_mem_zipIdx_iff_getElem?.mpr hi))
  · rintro hall ⟨a, i⟩ hm
    have ha := mem_of_getElem? (mk_mem_zipIdx_iff_getElem?.mp hm)
    exact (h a ha i).mpr (hall a ha)

section Level

variable {R : Json Bytes → Json Bytes → Prop}
  {sub : String → Json Bytes → Json Bytes → Except Exn Unit}
  (hsub : ∀ path s v, Subschema schema s → v.NoDuplicates → (sub path v s = .ok () ↔ R s v))
include hsub

/-- The checks of an object's members are the conditions of `required`,
`properties` and `additionalProperties`. -/
theorem checkMembers_eq_ok_iff (hval : value.NoDuplicates) (hrd : ReadableSchema schema) :
    checkMembers sub path value schema = .ok ()
      ↔ (∀ names, schema.get? (ascii "required") = some names →
          ∀ name, .str name ∈ names.elements → value.contains name = true)
        ∧ (∀ properties, schema.get? (ascii "properties") = some properties →
          ∀ m ∈ properties.members, ∀ v, value.get? m.1 = some v → R m.2 v)
        ∧ ∀ additional, schema.get? (ascii "additionalProperties") = some additional →
          ∀ m ∈ value.members, (∀ properties, schema.get? (ascii "properties") = some properties →
              properties.contains m.1 = false) →
            additional = .bool true ∨ additional.isObject = true ∧ R additional m.2 := by
  unfold checkMembers
  rw [bind_unit_eq_ok, bind_unit_eq_ok, checkMember_eq_ok, forEach_eq_ok, checkMember_eq_ok]
  refine and_congr ?_ (and_congr ?_ ?_)
  · refine forall₂_congr fun names hg => ?_
    rw [forEach_eq_ok]
    constructor
    · intro h name hnm
      exact require_eq_ok.mp (h _ hnm)
    · intro h item hi
      obtain ⟨name, rfl⟩ := hrd.required names hg item hi
      exact require_eq_ok.mpr (h name hi)
  · cases hg : schema.get? (ascii "properties") with
    | none => simp [members]
    | some properties =>
      rw [Option.getD_some]
      simp only [Option.some.injEq, forall_eq']
      refine forall₂_congr fun m hm => ?_
      cases hv : value.get? m.1 with
      | none => simp
      | some v =>
        simp only [Option.some.injEq, forall_eq']
        exact hsub _ m.2 v (.property hg hm) (hval.get? hv)
  · refine forall₂_congr fun additional hg => ?_
    rw [forEach_eq_ok]
    refine forall₂_congr fun m hm => ?_
    have hnamed : (∀ properties, schema.get? (ascii "properties") = some properties →
          properties.contains m.1 = false)
        ↔ ((schema.get? (ascii "properties")).getD (.obj [])).contains m.1 = false := by
      cases schema.get? (ascii "properties") with
      | none => simp [Json.contains, Json.get?, Json.members]
      | some properties => simp
    rw [hnamed]
    split_ifs with hc
    · simp [hc]
    rw [imp_iff_right (by simpa using hc)]
    obtain hb | ho := hrd.additional additional hg
    · cases additional with
      | bool b => cases b <;> simp [isObject]
      | _ => simp [isBoolean] at hb
    · cases additional with
      | obj members =>
        simp only [reduceCtorEq, false_or, isObject, true_and]
        exact hsub _ _ m.2 (.additional hg rfl) (hval.members m hm)
      | _ => simp [isObject] at ho

/-- **One level of the check** asks for the conditions of the keywords. -/
theorem checkInstance_eq_ok_iff (hval : value.NoDuplicates) (hsch : schema.NoDuplicates)
    (hrd : ReadableSchema schema) :
    checkInstance sub path value schema = .ok () ↔ Keywords R schema value := by
  have halt : ∀ keyword ∈ ["oneOf", "anyOf", "allOf"], ∀ alternatives,
      schema.get? (ascii keyword) = some alternatives → ∀ s ∈ alternatives.elements,
        (sub path value s = .ok () ↔ R s value) :=
    fun keyword hkw alternatives hg s hs =>
      hsub path s value (.alternative hkw hg hs) hval
  have heq : ∀ {v w : Json Bytes}, v.NoDuplicates → w.NoDuplicates →
      (equals v w = true ↔ Same v w) := fun hv hw => equals_iff_normalize _ _ hv hw
  unfold checkInstance
  rw [bind_unit_eq_ok, bind_unit_eq_ok, bind_unit_eq_ok, bind_unit_eq_ok, bind_unit_eq_ok,
    bind_unit_eq_ok, keywords_iff]
  simp only [checkMember_eq_ok]
  refine and_congr (forall₂_congr fun constant hg => ?const)
    (and_congr (forall₂_congr fun values hg => ?enum)
      (and_congr (forall₂_congr fun types hg => ?type)
        (and_congr (forall₂_congr fun alternatives hg => ?oneOf)
          (and_congr (forall₂_congr fun alternatives hg => ?anyOf)
            (and_congr (forall₂_congr fun alternatives hg => ?allOf) ?members)))))
  case const => exact require_eq_ok.trans (heq hval (hsch.get? hg))
  case enum =>
    rw [require_eq_ok, any_eq_true]
    exact exists_congr fun candidate => and_congr_right fun hm =>
      heq ((hsch.get? hg).elements candidate hm) hval
  case type =>
    rw [typesMatch_eq (hrd.types types hg)]
    exact require_eq_ok.trans (decide_eq_true_iff ..)
  case oneOf =>
    rw [require_eq_ok, decide_eq_true_iff, countP_eq_one_iff]
    refine existsUnique_congr fun i => exists_congr fun s => and_congr_right fun hs => ?_
    rw [passes_iff]
    exact halt "oneOf" (by simp) alternatives hg s (mem_of_getElem? hs)
  case anyOf =>
    rw [require_eq_ok, any_eq_true]
    refine exists_congr fun s => and_congr_right fun hs => ?_
    rw [passes_iff]
    exact halt "anyOf" (by simp) alternatives hg s hs
  case allOf =>
    rw [forEach_eq_ok]
    exact forall₂_congr fun s hs => halt "allOf" (by simp) alternatives hg s hs
  case members =>
    cases value with
    | obj members =>
      rw [if_pos (show isObject (.obj members) = true from rfl),
        checkMembers_eq_ok_iff hsub hval hrd]
      simp [isObject, isArray]
    | arr items =>
      rw [if_neg (show ¬isObject (.arr items) = true from Bool.false_ne_true),
        if_pos (show isArray (.arr items) = true from rfl), checkMember_eq_ok]
      have his : ∀ s, schema.get? (ascii "items") = some s →
          (forEach (arr items).elements.zipIdx
              (fun item => sub (path ++ "/" ++ toString item.2) item.1 s) = .ok ()
            ↔ ∀ v ∈ (arr items).elements, R s v) :=
        fun s hg => forEach_zipIdx_eq_ok fun v hv i =>
          hsub _ s v (.items hg) (hval.elements v hv)
      rw [forall₂_congr his]
      simp [isObject, isArray, get?, members]
    | _ => simp [isObject, isArray, get?, members]

end Level

/-! ## The limit on levels -/

/-- `validateInstance` with any other check in place of the exception at the
limit on levels. -/
def validateInstanceOr (beyond : String → Json Bytes → Json Bytes → Except Exn Unit) :
    ℕ → String → Json Bytes → Json Bytes → Except Exn Unit
  | 0, path, value, schema => beyond path value schema
  | levels + 1, path, value, schema =>
    checkInstance (validateInstanceOr beyond levels) path value schema

theorem forEach_congr {check check' : α → Except Exn Unit} (h : ∀ a ∈ l, check a = check' a) :
    forEach l check = forEach l check' := by
  induction l with
  | nil => rfl
  | cons a l ih =>
    obtain ⟨ha, hl⟩ := forall_mem_cons.mp h
    rw [forEach, forEach, ha, ih hl]

variable {name : String}

theorem checkMember_congr {check check' : Json Bytes → Except Exn Unit}
    (h : ∀ v, schema.get? (ascii name) = some v → check v = check' v) :
    checkMember schema name check = checkMember schema name check' := by
  unfold checkMember
  cases hg : schema.get? (ascii name) with
  | none => rfl
  | some v => exact h v hg

/-- One level of the check calls the check one level down at subschemas
only. -/
theorem checkInstance_congr {sub sub' : String → Json Bytes → Json Bytes → Except Exn Unit}
    (h : ∀ path v s, Subschema schema s → sub path v s = sub' path v s) :
    checkInstance sub path value schema = checkInstance sub' path value schema := by
  have halt : ∀ keyword ∈ ["oneOf", "anyOf", "allOf"], ∀ alternatives,
      schema.get? (ascii keyword) = some alternatives → ∀ s ∈ alternatives.elements,
        sub path value s = sub' path value s :=
    fun keyword hkw alternatives hg s hs =>
      h path value s (.alternative hkw hg hs)
  have hmbr : checkMembers sub path value schema = checkMembers sub' path value schema := by
    unfold checkMembers
    refine congrArg _ (funext fun _ => congr (congrArg _ (forEach_congr fun m hm => ?_)) ?_)
    · cases hp : schema.get? (ascii "properties") with
      | none =>
        rw [hp] at hm
        cases hm
      | some properties =>
        rw [hp] at hm
        cases value.get? m.1 with
        | none => rfl
        | some v => exact h _ v m.2 (.property hp hm)
    · refine funext fun _ => checkMember_congr fun additional hg => forEach_congr fun m _ => ?_
      split
      · rfl
      cases additional with
      | bool b => cases b <;> rfl
      | obj members => exact h _ m.2 _ (.additional hg rfl)
      | _ => rfl
  unfold checkInstance
  refine congrArg _ (funext fun _ => congrArg _ (funext fun _ => congrArg _ (funext fun _ => ?_)))
  refine congr (congrArg _ (checkMember_congr fun alternatives hg => ?_)) (funext fun _ => ?_)
  · refine congrArg (fun n : ℕ => require (n = 1) _) (countP_congr fun s hs => ?_)
    rw [halt "oneOf" (by simp) alternatives hg s hs]
  refine congr (congrArg _ (checkMember_congr fun alternatives hg => ?_)) (funext fun _ => ?_)
  · refine congrArg (require · _) ?_
    rw [Bool.eq_iff_iff, any_eq_true, any_eq_true]
    refine exists_congr fun s => and_congr_right fun hs => ?_
    rw [halt "anyOf" (by simp) alternatives hg s hs]
  refine congr (congrArg _ (checkMember_congr fun alternatives hg => ?_)) (funext fun _ => ?_)
  · exact forEach_congr (halt "allOf" (by simp) alternatives hg)
  rw [hmbr, checkMember_congr fun items hg => forEach_congr fun item _ =>
    h _ item.1 items (.items hg)]

/-- **The limit is never reached** on an accepted schema: the result of the
check does not depend on what happens there. -/
theorem validateInstanceOr_eq {beyond beyond' : String → Json Bytes → Json Bytes → Except Exn Unit}
    (h : ∃ path, validateSchema levels path schema = .ok ()) :
    validateInstanceOr beyond levels path value schema
      = validateInstanceOr beyond' levels path value schema := by
  induction levels generalizing path value schema with
  | zero =>
    obtain ⟨_, h⟩ := h
    cases h
  | succ levels ih => exact checkInstance_congr fun path v s hs => ih (hs.accepted h)

theorem validateInstance_eq_or (levels : ℕ) :
    validateInstance levels
      = validateInstanceOr (fun path _ _ => .error (tooDeep path)) levels := by
  induction levels with
  | zero => rfl
  | succ levels ih =>
    funext path value schema
    rw [validateInstance, validateInstanceOr, ih]

/-- The check of a result decides satisfaction. -/
theorem validateInstance_eq_ok_iff (h : ∃ path, validateSchema levels path schema = .ok ())
    (hval : value.NoDuplicates) (hsch : schema.NoDuplicates) :
    validateInstance levels path value schema = .ok () ↔ Satisfies schema value := by
  induction levels generalizing path value schema with
  | zero =>
    obtain ⟨_, h⟩ := h
    cases h
  | succ levels ih =>
    have hrd : ReadableSchema schema := h.elim fun _ => readableSchema_of_validateSchema
    rw [satisfies_iff, validateInstance]
    exact checkInstance_eq_ok_iff
      (fun path s v hs hv => ih (hs.accepted h) hv (hs.noDuplicates hsch)) hval hsch
      hrd

/-! ## The caught exceptions -/

/-- A check that fails does so by an invalid argument, which is what the
check of a result catches. -/
def Refuses {α : Type} (check : Except Exn α) : Prop :=
  ∀ e, check = .error e → ∃ what, e = .invalidArgument what

theorem refuses_ok (a : α) : Refuses (.ok a : Except Exn α) := fun _ h => by cases h

theorem refuses_invalidArgument (what : String) :
    Refuses (.error (.invalidArgument what) : Except Exn α) := by
  rintro e ⟨⟩
  exact ⟨what, rfl⟩

theorem Refuses.bind {β : Type} {check : Except Exn α} {rest : α → Except Exn β}
    (hc : Refuses check) (hr : ∀ a, Refuses (rest a)) : Refuses (check >>= rest) := by
  intro e h
  cases check with
  | error e' =>
    obtain ⟨what, rfl⟩ := hc e' rfl
    cases h
    exact ⟨what, rfl⟩
  | ok a => exact hr a e h

theorem refuses_require (condition : Bool) (what : String) : Refuses (require condition what) := by
  unfold require
  split
  · exact refuses_ok ()
  · exact refuses_invalidArgument what

theorem refuses_forEach {check : α → Except Exn Unit} (h : ∀ a, Refuses (check a)) (l : List α) :
    Refuses (forEach l check) := by
  induction l with
  | nil => exact refuses_ok ()
  | cons a l ih => exact (h a).bind fun _ => ih

theorem refuses_checkMember {check : Json Bytes → Except Exn Unit}
    (h : ∀ v, Refuses (check v)) : Refuses (checkMember schema name check) := by
  unfold checkMember
  split
  · exact h _
  · exact refuses_ok ()

theorem refuses_schemaTypeMatches (value : Json Bytes) (type : Bytes) :
    Refuses (schemaTypeMatches value type) := by
  unfold schemaTypeMatches
  repeat' split
  all_goals first
    | exact refuses_ok _
    | exact refuses_invalidArgument _

theorem refuses_typesMatch (value types : Json Bytes) : Refuses (typesMatch value types) := by
  unfold typesMatch
  split
  · exact refuses_schemaTypeMatches value _
  induction types.elements with
  | nil => exact refuses_ok false
  | cons type types ih =>
    refine (refuses_schemaTypeMatches value _).bind fun matched => ?_
    split
    · exact refuses_ok true
    · exact ih

/-- A value that is refused is refused with a text. -/
theorem refuses_validateInstance (levels : ℕ) (path : String) (value schema : Json Bytes) :
    Refuses (validateInstance levels path value schema) := by
  induction levels generalizing path value schema with
  | zero => exact refuses_invalidArgument _
  | succ levels ih =>
    rw [validateInstance]
    unfold checkInstance
    refine (refuses_checkMember fun _ => refuses_require _ _).bind fun _ => ?_
    refine (refuses_checkMember fun _ => refuses_require _ _).bind fun _ => ?_
    refine (refuses_checkMember fun _ => (refuses_typesMatch _ _).bind fun _ =>
      refuses_require _ _).bind fun _ => ?_
    refine (refuses_checkMember fun _ => refuses_require _ _).bind fun _ => ?_
    refine (refuses_checkMember fun _ => refuses_require _ _).bind fun _ => ?_
    refine (refuses_checkMember fun _ => refuses_forEach (fun _ => ih _ _ _) _).bind fun _ => ?_
    split
    · unfold checkMembers
      refine (refuses_checkMember fun _ => refuses_forEach (fun _ => refuses_require _ _) _).bind
        fun _ => ?_
      refine Refuses.bind (refuses_forEach (fun m => ?_) _) fun _ =>
        refuses_checkMember fun additional => refuses_forEach (fun m => ?_) _
      · split
        · exact ih _ _ _
        · exact refuses_ok ()
      · split
        · exact refuses_ok ()
        split
        · exact refuses_invalidArgument _
        · exact ih _ _ _
        · exact refuses_ok ()
    · split
      · exact refuses_checkMember fun _ => refuses_forEach (fun _ => ih _ _ _) _
      · exact refuses_ok ()

/-! ## The check of a result -/

/-- What `value_matches_schema` answers: no exception is no error, an
invalid argument is one, and no other exception is caught. -/
def valueMatches (value schema : Json Bytes) : Except Exn Bool :=
  match valueMatchesSchema value schema with
  | .ok () => .ok true
  | .error (.invalidArgument _) => .ok false
  | .error e => .error e

/-- **The check of a result is the JSON Schema subset.** For a schema that
`validateSchema` accepts the check answers, and it answers yes exactly when
the value satisfies the schema; and the limit on levels has no part in the
answer, since any other check in its place gives the same. -/
theorem valueMatches_spec (h : validateSchema (maxSchemaDepth + 1) path schema = .ok ())
    (hv : value.NoDuplicates) (hs : schema.NoDuplicates) :
    (∃ matched, valueMatches value schema = .ok matched
      ∧ (matched = true ↔ Satisfies schema value))
    ∧ ∀ beyond, validateInstanceOr beyond (maxSchemaDepth + 1) "$" value schema
      = valueMatchesSchema value schema := by
  have hiff : valueMatchesSchema value schema = .ok () ↔ Satisfies schema value :=
    validateInstance_eq_ok_iff ⟨path, h⟩ hv hs
  have hr : Refuses (valueMatchesSchema value schema) := refuses_validateInstance _ _ _ _
  refine ⟨?_, fun beyond => ?_⟩
  · unfold valueMatches
    cases hc : valueMatchesSchema value schema with
    | ok =>
      exact ⟨true, rfl, fun _ => hiff.mp hc, fun _ => rfl⟩
    | error e =>
      obtain ⟨what, rfl⟩ := hr e hc
      refine ⟨false, rfl, Bool.noConfusion, fun hsat => ?_⟩
      rw [hiff.mpr hsat] at hc
      cases hc
  · unfold valueMatchesSchema
    rw [validateInstance_eq_or]
    exact validateInstanceOr_eq ⟨path, h⟩

/-- An integer or a string. -/
def integerOrString : Json Bytes :=
  .obj [(ascii "oneOf", .arr [.obj [(ascii "type", .str (ascii "integer"))],
    .obj [(ascii "type", .str (ascii "string"))]])]

theorem satisfies_integerOrString : Satisfies integerOrString (.uint 5) := by
  have ha : validateSchema (maxSchemaDepth + 1) "$schema" integerOrString = .ok () := by
    rfl
  have hnd : integerOrString.NoDuplicates := by
    simp [integerOrString, NoDuplicates, All, AllMembers, AllItems,
      DistinctNames]
  obtain ⟨⟨matched, hmatched, hiff⟩, -⟩ := @valueMatches_spec integerOrString (.uint 5) "$schema"
    ha trivial hnd
  have ht : valueMatches (.uint 5) integerOrString = .ok true := by rfl
  cases hmatched.symm.trans ht
  exact hiff.mp rfl

end NeoGraph.Program.Pending
