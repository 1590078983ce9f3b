import NeoGraph.Lib.JsonPointer
import NeoGraph.Program.MigrationPlan

/-!
# Storing a migration plan again

A plan that was read can be written, and what is written should be read as
the same plan. Reading completes the data, and completing is idempotent, so
this comes down to the id: `restorable_iff` says that a plan is read again
exactly when its record is within the limits of canonical JSON and its
version is the current or the previous one. A legacy record keeps its version
when it is read, so it is written as a legacy record whose id is the hash of
members that legacy ids leave out, and is then refused.
-/

namespace NeoGraph.Program.Migration

open CanonicalJson Pending Json List Written Function Except

/-! ## Small readers -/

theorem orInvalid_eq_ok {α : Type} {part : Option α} {message : String} {a : α} :
    orInvalid part message = .ok a ↔ part = some a := by
  cases part with
  | none => exact ⟨nofun, nofun⟩
  | some b =>
    unfold orInvalid
    rw [ok.injEq, Option.some.injEq]

theorem migrationDimensionFromString_text (d : MigrationDimension) :
    migrationDimensionFromString d.text = .ok d := by
  cases d <;> rfl

theorem compatibilityFromString_text {c : MigrationCompatibility} (h : c.foldAlias = c)
    (legacy : Bool) : compatibilityFromString c.text legacy = .ok c := by
  cases c <;> first | rfl | cases h

theorem ne_nil_of_validateToken {value : Bytes} {field : String}
    (h : validateToken value field = .ok ()) : value ≠ [] := by
  rintro rfl
  cases h

theorem filter_nonempty {value : Bytes} (h : value ≠ []) :
    (textOf (some (.str value))).filter (fun s => !s.isEmpty) = some value := by
  unfold textOf
  rw [Option.filter_some, if_pos]
  cases value with
  | nil => exact absurd rfl h
  | cons b value => rfl

variable {value : Json Bytes} {name : String}

theorem requiredString_eq_ok {s : Bytes} (hg : value.get? (ascii name) = some (.str s))
    (hs : s ≠ []) : requiredString value name = .ok s := by
  unfold requiredString
  rw [hg, filter_nonempty hs]
  rfl

variable {v : Json Bytes}

theorem atKey_eq_ok (hg : value.get? (ascii name) = some v) : atKey value name = .ok v := by
  unfold atKey
  rw [hg]

theorem parseDimension_text (d : MigrationDimension) : parseDimension (.str d.text) = .ok d :=
  migrationDimensionFromString_text d

theorem contains_of_get? {name : Bytes}
    (hg : value.get? name = some v) : value.contains name = true := by
  unfold Json.contains
  rw [hg]
  rfl

/-! ## Data in canonical form -/

section Canonical

variable (readFloat : UInt64 → Json Bytes)

/-- The diagnostic a reader gets back. -/
def canonicalDiagnostic (d : MigrationDiagnostic) : MigrationDiagnostic :=
  { d with source := canonical readFloat d.source, target := canonical readFloat d.target }

def canonicalMapping (m : MigrationMapping) : MigrationMapping :=
  { m with source := canonical readFloat m.source, target := canonical readFloat m.target }

/-- The data a reader gets back. -/
def canonicalData (data : MigrationPlanData) : MigrationPlanData :=
  { data with
    diagnostics := data.diagnostics.map (canonicalDiagnostic readFloat)
    mappings := data.mappings.map (canonicalMapping readFloat) }

/-- Diagnostics are equal: in all parts, and as JSON in the witnesses. -/
structure SameDiagnostic (d d' : MigrationDiagnostic) : Prop where
  dimension : d.dimension = d'.dimension
  code : d.code = d'.code
  message : d.message = d'.message
  source : SameJson readFloat d.source d'.source
  target : SameJson readFloat d.target d'.target

/-- Two mappings that agree, up to the forms of their numbers. -/
structure SameMapping (m m' : MigrationMapping) : Prop where
  dimension : m.dimension = m'.dimension
  rule : m.rule = m'.rule
  source : SameJson readFloat m.source m'.source
  target : SameJson readFloat m.target m'.target

/-- Plans with the same id, class, blockers, diagnostics and mappings. -/
structure SamePlan (plan plan' : MigrationPlan) : Prop where
  id : plan.id = plan'.id
  compatibility : plan.data.compatibility = plan'.data.compatibility
  blockers : plan.data.blockers = plan'.data.blockers
  diagnostics : Forall₂ (SameDiagnostic readFloat) plan.data.diagnostics
    plan'.data.diagnostics
  mappings : Forall₂ (SameMapping readFloat) plan.data.mappings plan'.data.mappings

variable {data : MigrationPlanData}

theorem complete_canonicalData (h : data.Complete) : (canonicalData readFloat data).Complete where
  compatibility := h.compatibility
  compatible := h.compatible
  explained hf := by
    obtain ⟨hb, hd⟩ := h.explained hf
    exact ⟨hb, fun hn => hd (map_eq_nil_iff.mp hn)⟩

/-! ## Completing keeps the checks -/

theorem validateData_eq_ok : validateData data = .ok ()
      ↔ (CanonicalJson.isSha256Identity data.sourceVersionId
          && CanonicalJson.isSha256Identity data.targetVersionId) = true
        ∧ validateToken data.ownerScope "Migration owner scope" = .ok ()
        ∧ (∀ b ∈ data.blockers, validateToken b "Migration blocker" = .ok ())
        ∧ (∀ d ∈ data.diagnostics, validateToken d.code "Migration diagnostic code" = .ok ()
          ∧ validateToken d.message "Migration diagnostic message" = .ok ())
        ∧ ∀ m ∈ data.mappings, validateToken m.rule "Migration mapping rule" = .ok () := by
  unfold validateData
  rw [bind_unit_eq_ok, bind_unit_eq_ok, bind_unit_eq_ok, bind_unit_eq_ok, require_eq_ok,
    forEach_eq_ok, forEach_eq_ok, forEach_eq_ok]
  simp only [bind_unit_eq_ok]

variable {readFloat} in
theorem validateData_canonicalData (h : validateData data = .ok ()) :
    validateData (canonicalData readFloat data) = .ok () := by
  obtain ⟨hids, how, hb, hd, hm⟩ := validateData_eq_ok.mp h
  exact validateData_eq_ok.mpr ⟨hids, how, hb, forall_mem_map.mpr hd,
    forall_mem_map.mpr hm⟩

/-- Only the text of the error depends on the field that is checked. -/
theorem validateToken_field {value : Bytes} {field : String}
    (h : validateToken value field = .ok ()) (field' : String) :
    validateToken value field' = .ok () := by
  unfold validateToken at h ⊢
  split at h
  · cases h
  rename_i hne
  rw [if_neg hne]
  obtain ⟨hutf8, h⟩ := bind_unit_eq_ok.mp h
  refine bind_unit_eq_ok.mpr ⟨hutf8, ?_⟩
  split at h
  · cases h
  rename_i hctl
  rw [if_neg hctl]
  split at h
  · cases h
  · rename_i hs
    rw [if_neg hs]

/-- A plan that passes its checks passes them completed. -/
theorem validateData_completed (h : validateData data = .ok ()) :
    validateData data.completed = .ok () := by
  obtain ⟨hids, how, hblk, hdg, hm⟩ := validateData_eq_ok.mp h
  unfold MigrationPlanData.completed
  by_cases hfr : data.compatibility.foldAlias = .forkCompatible
  · rw [if_pos hfr]
    exact validateData_eq_ok.mpr ⟨hids, how, hblk, hdg, hm⟩
  rw [if_neg hfr]
  have hf : ∀ b ∈ (if data.blockers.isEmpty then blockersFrom data.diagnostics
      else data.blockers), validateToken b "Migration blocker" = .ok () := by
    split
    · intro b hb
      unfold blockersFrom at hb
      split at hb
      · rw [mem_singleton.mp hb]
        decide
      · obtain ⟨d, hd, rfl⟩ := mem_map.mp hb
        exact validateToken_field (hdg d hd).1 _
    · exact hblk
  refine validateData_eq_ok.mpr ⟨hids, how, hf, ?_, hm⟩
  dsimp only
  split
  · intro d hd
    obtain ⟨b, hb, rfl⟩ := mem_map.mp hd
    refine ⟨validateToken_field (hf b hb) _, ?_⟩
    show validateToken (ascii "Migration requires explicit handling") _ = .ok ()
    decide
  · exact hdg

end Canonical

/-! ## Reading the parts back -/

section Parts

variable {appendFloat : UInt64 → Except Exn Bytes}
  {readFloat : UInt64 → Json Bytes}
  {parseText : Bytes → Option (Json Bytes)}
  (hformat : Format appendFloat readFloat parseText)
include hformat

variable {d : MigrationDiagnostic}

/-- A part of a plan is read as it was written. -/
theorem parseDiagnostic_canonical
    (h : Written appendFloat (encodeDiagnostic d)) (hc : d.code ≠ []) (hmsg : d.message ≠ []) :
    parseDiagnostic (canonical readFloat (encodeDiagnostic d))
      = .ok (canonicalDiagnostic readFloat d) := by
  have hg : ∀ name, (canonical readFloat (encodeDiagnostic d)).get? name
      = ((encodeDiagnostic d).get? name).map (canonical readFloat) :=
    get?_canonical hformat.number h.noDuplicates
  have hsrc : (canonical readFloat (encodeDiagnostic d)).get? (ascii "source")
      = some (canonical readFloat d.source) := hg _
  have ht : (canonical readFloat (encodeDiagnostic d)).get? (ascii "target")
      = some (canonical readFloat d.target) := hg _
  refine bind_unit_eq_ok.mpr ⟨require_eq_ok.mpr ?_, bind_unit_eq_ok.mpr
    ⟨rejectUnknownFields_eq_ok hformat.number ?_, bind_unit_eq_ok.mpr
      ⟨require_eq_ok.mpr ?_, ?_⟩⟩⟩
  · rw [isObject_shapeMap (canonical_shapeMap hformat.number)]
    rfl
  · exact fun n hn => hn
  · rw [contains_of_get? hsrc, contains_of_get? ht]
    rfl
  exact bind_eq_ok.mpr ⟨_, atKey_eq_ok (hg _), bind_eq_ok.mpr
    ⟨_, parseDimension_text d.dimension, bind_eq_ok.mpr
      ⟨_, requiredString_eq_ok (hg _) hc, bind_eq_ok.mpr
        ⟨_, requiredString_eq_ok (hg _) hmsg, bind_eq_ok.mpr
          ⟨_, atKey_eq_ok hsrc, bind_eq_ok.mpr ⟨_, atKey_eq_ok ht, rfl⟩⟩⟩⟩⟩⟩

variable {m : MigrationMapping}

theorem parseMapping_canonical (h : Written appendFloat (encodeMapping m)) (hrule : m.rule ≠ []) :
    parseMapping (canonical readFloat (encodeMapping m)) = .ok (canonicalMapping readFloat m) := by
  have hg : ∀ name, (canonical readFloat (encodeMapping m)).get? name
      = ((encodeMapping m).get? name).map (canonical readFloat) :=
    get?_canonical hformat.number h.noDuplicates
  have hsrc : (canonical readFloat (encodeMapping m)).get? (ascii "source")
      = some (canonical readFloat m.source) := hg _
  have ht : (canonical readFloat (encodeMapping m)).get? (ascii "target")
      = some (canonical readFloat m.target) := hg _
  refine bind_unit_eq_ok.mpr ⟨require_eq_ok.mpr ?_, bind_unit_eq_ok.mpr
    ⟨rejectUnknownFields_eq_ok hformat.number ?_, bind_unit_eq_ok.mpr
      ⟨require_eq_ok.mpr ?_, ?_⟩⟩⟩
  · rw [isObject_shapeMap (canonical_shapeMap hformat.number)]
    rfl
  · exact fun n hn => hn
  · rw [contains_of_get? hsrc, contains_of_get? ht]
    rfl
  exact bind_eq_ok.mpr ⟨_, atKey_eq_ok (hg _), bind_eq_ok.mpr
    ⟨_, parseDimension_text m.dimension, bind_eq_ok.mpr
      ⟨_, requiredString_eq_ok (hg _) hrule, bind_eq_ok.mpr
        ⟨_, atKey_eq_ok hsrc, bind_eq_ok.mpr ⟨_, atKey_eq_ok ht, rfl⟩⟩⟩⟩⟩

theorem encodeDiagnostic_canonical (h : Written appendFloat (encodeDiagnostic d)) :
    SameJson readFloat (encodeDiagnostic (canonicalDiagnostic readFloat d)) (encodeDiagnostic d) :=
  canonical_obj_congr (.cons ⟨rfl, rfl⟩ (.cons ⟨rfl, rfl⟩ (.cons ⟨rfl, rfl⟩
    (.cons ⟨rfl, canonical_canonical hformat (@get? _ _ d.source (ascii "source") h rfl)⟩
      (.cons ⟨rfl, canonical_canonical hformat (@get? _ _ d.target (ascii "target") h rfl)⟩
        .nil)))))

theorem encodeMapping_canonical (h : Written appendFloat (encodeMapping m)) :
    SameJson readFloat (encodeMapping (canonicalMapping readFloat m)) (encodeMapping m) :=
  canonical_obj_congr (.cons ⟨rfl, rfl⟩ (.cons ⟨rfl, rfl⟩
    (.cons ⟨rfl, canonical_canonical hformat (@get? _ _ m.source (ascii "source") h rfl)⟩
      (.cons ⟨rfl, canonical_canonical hformat (@get? _ _ m.target (ascii "target") h rfl)⟩
        .nil))))

end Parts

/-! ## Reading a record back -/

section Records

variable {appendFloat : UInt64 → Except Exn Bytes}
  {readFloat : UInt64 → Json Bytes}
  {parseText : Bytes → Option (Json Bytes)}
  {sha256Identity : String → Bytes → Bytes}
  (hformat : Format appendFloat readFloat parseText)

theorem names_bodyFor (data : MigrationPlanData) (version : UInt32) :
    (bodyFor data version).map Prod.fst
      = [ascii "format", ascii "storage_schema_version", ascii "source_version_id",
        ascii "target_version_id", ascii "owner_scope", ascii "compatibility", ascii "blockers",
        ascii "diagnostics", ascii "mappings"] := rfl

/-- The id is written behind the members. -/
theorem record_eq (data : MigrationPlanData) (version : UInt32) (id : Bytes) :
    record data version id = bodyFor data version ++ [(ascii "id", .str id)] := by
  unfold record put
  rw [if_neg]
  rw [← mem_names_iff, names_bodyFor]
  decide

variable {data : MigrationPlanData} {version : UInt32}

theorem get?_record {id name : Bytes} (hnm : name ≠ ascii "id") :
    (obj (record data version id)).get? name = (obj (bodyFor data version)).get? name := by
  unfold record
  rw [get?_put, if_neg hnm]

theorem written_diagnostic (h : Written appendFloat (.obj (bodyFor data version))) :
    ∀ d ∈ data.diagnostics, Written appendFloat (encodeDiagnostic d) := by
  intro d hd
  have his : Written appendFloat (.arr (data.diagnostics.map encodeDiagnostic)) :=
    @get? _ _ _ (ascii "diagnostics") h rfl
  exact his.of_mem (mem_map_of_mem hd)

theorem written_mapping (h : Written appendFloat (.obj (bodyFor data version))) :
    ∀ m ∈ data.mappings, Written appendFloat (encodeMapping m) := by
  intro m hm
  have his : Written appendFloat (.arr (data.mappings.map encodeMapping)) :=
    @get? _ _ _ (ascii "mappings") h rfl
  exact his.of_mem (mem_map_of_mem hm)

/-- The versions a reader knows. -/
def KnownVersion (version : UInt32) : Prop :=
  version = legacyStorageSchemaVersion ∨ version = previousStorageSchemaVersion
    ∨ version = storageSchemaVersion

/-- A written version is read back if it is known. -/
theorem storedVersion_eq_ok {value : Json Bytes} {stored : StoredVersion}
    (hg : ∀ name, name ≠ ascii "id" → value.get? name
      = ((obj (bodyFor data version)).get? name).map (canonical readFloat)) :
    storedVersion value = .ok stored
      ↔ KnownVersion version ∧ stored = ⟨version, version = legacyStorageSchemaVersion⟩ := by
  have hformatText : textOf (value.get? (ascii "format")) = some planFormat := by
    rw [hg _ (by decide)]
    rfl
  have hv : unsignedOf (value.get? (ascii "storage_schema_version"))
      = some version.toUInt64 := by
    rw [hg _ (by decide)]
    rfl
  have hmarker : value.get? (ascii "legacy_schema_version") = none := by
    rw [hg _ (by decide)]
    rfl
  have hkn : (decide (version = legacyStorageSchemaVersion) || false
      || decide (version = previousStorageSchemaVersion)
      || decide (version = storageSchemaVersion)) = true ↔ KnownVersion version := by
    rw [Bool.or_false, Bool.or_eq_true, Bool.or_eq_true, decide_eq_true_iff, decide_eq_true_iff,
      decide_eq_true_iff, or_assoc]
    rfl
  unfold storedVersion Json.contains
  rw [hformatText, hv, hmarker, bind_unit_eq_ok, bind_eq_ok]
  constructor
  · rintro ⟨-, number, hn, h⟩
    obtain rfl := Option.some.inj (orInvalid_eq_ok.mp hn)
    rw [UInt32.toUInt32_toUInt64] at h
    simp only [bind_unit_eq_ok] at h
    obtain ⟨hr, -, h⟩ := h
    cases h
    refine ⟨hkn.mp (require_eq_ok.mp hr), ?_⟩
    rw [StoredVersion.mk.injEq]
    exact ⟨rfl, Bool.or_false _⟩
  · rintro ⟨hv, rfl⟩
    refine ⟨require_eq_ok.mpr (decide_eq_true rfl), version.toUInt64, rfl, ?_⟩
    rw [UInt32.toUInt32_toUInt64]
    refine bind_unit_eq_ok.mpr ⟨require_eq_ok.mpr (hkn.mpr hv), bind_unit_eq_ok.mpr
      ⟨require_eq_ok.mpr ?_, ?_⟩⟩
    · simp
    · rw [ok.injEq, StoredVersion.mk.injEq]
      exact ⟨rfl, Bool.or_false _⟩

include hformat in
/-- **The data of a record is read back**, in canonical form. -/
theorem storedData_record {value : Json Bytes} (hc : data.Complete)
    (hv : validateData data = .ok ())
    (hwr : Written appendFloat (.obj (bodyFor data version)))
    (hg : ∀ name, name ≠ ascii "id" → value.get? name
      = ((obj (bodyFor data version)).get? name).map (canonical readFloat))
    (legacy : Bool) :
    storedData value legacy = .ok ⟨data.compatibility.text, canonicalData readFloat data⟩ := by
  obtain ⟨hids, how, hblk, hdg, hmp⟩ := validateData_eq_ok.mp hv
  have his : value.get? (ascii "diagnostics")
      = some (.arr ((data.diagnostics.map encodeDiagnostic).map (canonical readFloat))) := by
    rw [← canonical_arr, hg _ (by decide)]
    rfl
  have his' : value.get? (ascii "mappings")
      = some (.arr ((data.mappings.map encodeMapping).map (canonical readFloat))) := by
    rw [← canonical_arr, hg _ (by decide)]
    rfl
  have hn : value.get? (ascii "blockers")
      = some (.arr ((data.blockers.map str).map (canonical readFloat))) := by
    rw [← canonical_arr, hg _ (by decide)]
    rfl
  have ht : ∀ {name : String} {s : Bytes}, ascii name ≠ ascii "id" →
      (obj (bodyFor data version)).get? (ascii name) = some (.str s) → s ≠ [] →
      requiredString value name = .ok s := fun hnm h hs =>
    requiredString_eq_ok (by rw [hg _ hnm, h]; rfl) hs
  have hid : ∀ {id : Bytes}, CanonicalJson.isSha256Identity id = true → id ≠ [] := by
    rintro id h rfl
    cases h
  have hids := Bool.and_eq_true_iff.mp hids
  unfold storedData
  refine bind_eq_ok.mpr ⟨data.compatibility.text, orInvalid_eq_ok.mpr ?_, ?_⟩
  · rw [hg _ (by decide)]
    rfl
  refine bind_eq_ok.mpr ⟨_, orInvalid_eq_ok.mpr (by rw [hn]; rfl), ?_⟩
  dsimp only
  rw [contains_of_get? his, contains_of_get? his']
  refine bind_unit_eq_ok.mpr ⟨require_eq_ok.mpr ?_, bind_unit_eq_ok.mpr
    ⟨require_eq_ok.mpr ?_, bind_eq_ok.mpr ⟨data.blockers, ?_, bind_eq_ok.mpr
      ⟨data.diagnostics.map (canonicalDiagnostic readFloat), ?_, bind_eq_ok.mpr
        ⟨data.mappings.map (canonicalMapping readFloat), ?_, bind_eq_ok.mpr
          ⟨_, ht (by decide) rfl (hid hids.1), bind_eq_ok.mpr
            ⟨_, ht (by decide) rfl (hid hids.2), bind_eq_ok.mpr
              ⟨_, ht (by decide) rfl (ne_nil_of_validateToken how), bind_eq_ok.mpr
                ⟨_, compatibilityFromString_text hc.compatibility legacy, rfl⟩⟩⟩⟩⟩⟩⟩⟩⟩
  · exact Bool.or_true _
  · exact Bool.or_true _
  · rw [map_map, mapM_eq_ok, forall₂_map_left_iff]
    exact forall₂_same.mpr fun b hb => orInvalid_eq_ok.mpr
      (filter_nonempty (ne_nil_of_validateToken (hblk b hb)))
  · unfold storedList
    rw [his]
    refine bind_eq_ok.mpr ⟨_, orInvalid_eq_ok.mpr rfl, ?_⟩
    rw [map_map, mapM_eq_ok, forall₂_map_left_iff, forall₂_map_right_iff]
    exact forall₂_same.mpr fun d hd => parseDiagnostic_canonical hformat
      (written_diagnostic hwr d hd) (ne_nil_of_validateToken (hdg d hd).1)
      (ne_nil_of_validateToken (hdg d hd).2)
  · unfold storedList
    rw [his']
    refine bind_eq_ok.mpr ⟨_, orInvalid_eq_ok.mpr rfl, ?_⟩
    rw [map_map, mapM_eq_ok, forall₂_map_left_iff, forall₂_map_right_iff]
    exact forall₂_same.mpr fun m hm => parseMapping_canonical hformat
      (written_mapping hwr m hm) (ne_nil_of_validateToken (hmp m hm))

include hformat in
/-- The text, and so the digest, of what is read is that of what was written. -/
theorem bodyFor_canonicalData {body : Bytes}
    (h : canonicalJsonBytes appendFloat (.obj (bodyFor data version)) = .ok body) :
    canonicalJsonBytes appendFloat (.obj (bodyFor (canonicalData readFloat data) version))
      = .ok body := by
  have hwr : Written appendFloat (.obj (bodyFor data version)) := ⟨body, h⟩
  have hdg : canonical readFloat
        (.arr ((data.diagnostics.map (canonicalDiagnostic readFloat)).map encodeDiagnostic))
      = canonical readFloat (.arr (data.diagnostics.map encodeDiagnostic)) := by
    rw [canonical_arr, canonical_arr, map_map, map_map, map_map]
    exact congrArg arr (map_congr_left fun d hd =>
      encodeDiagnostic_canonical hformat (written_diagnostic hwr d hd))
  have hmp : canonical readFloat
        (.arr ((data.mappings.map (canonicalMapping readFloat)).map encodeMapping))
      = canonical readFloat (.arr (data.mappings.map encodeMapping)) := by
    rw [canonical_arr, canonical_arr, map_map, map_map, map_map]
    exact congrArg arr (map_congr_left fun m hm =>
      encodeMapping_canonical hformat (written_mapping hwr m hm))
  refine canonicalJsonBytes_congr hformat (canonical_obj_congr ?_) h
  exact rel_append (forall₂_same.mpr fun _ _ => ⟨rfl, rfl⟩)
    (.cons ⟨rfl, hdg⟩ (.cons ⟨rfl, hmp⟩ .nil))

/-- A body that can be written in one version can be written in all. -/
theorem written_bodyFor (h : Written appendFloat (.obj (bodyFor data version))) (version' : UInt32)
    : Written appendFloat (.obj (bodyFor data version')) :=
  @replace _ _ [(ascii "format", .str planFormat)] _ _ h version'.toUInt64

end Records

/-! ## Plans that are made -/

section Made

variable (appendFloat : UInt64 → Except Exn Bytes)
  (sha256Identity : String → Bytes → Bytes)

/-- The id of a plan is the hash of its members. -/
def HasId (plan : MigrationPlan) : Prop :=
  ∃ body, canonicalJsonBytes appendFloat (.obj (bodyFor plan.data plan.schemaVersion)) = .ok body
    ∧ plan.id = sha256Identity "program-migration-plan/v1" body

/-- What is known of a plan that was made. -/
structure Made (plan : MigrationPlan) : Prop where
  valid : validateData plan.data = .ok ()
  hasId : HasId appendFloat sha256Identity plan

/-- The record of data under its id is within the size limit. -/
def Fits (data : MigrationPlanData) (version : UInt32) : Prop :=
  ∀ body, canonicalJsonBytes appendFloat (.obj (bodyFor data version)) = .ok body →
    valueSize (.obj (record data version (sha256Identity "program-migration-plan/v1" body)))
      ≤ maxJsonBytes

variable {appendFloat sha256Identity} {data : MigrationPlanData} {plan : MigrationPlan}

theorem planOf_eq_ok {complete : data.Complete} {version : UInt32} :
    planOf appendFloat sha256Identity data complete version = .ok plan
      ↔ plan.data = data ∧ plan.schemaVersion = version
        ∧ HasId appendFloat sha256Identity plan := by
  unfold planOf HasId
  rw [bind_eq_ok]
  constructor
  · rintro ⟨body, hb, h⟩
    cases h
    exact ⟨rfl, rfl, body, hb, rfl⟩
  · obtain ⟨data', complete', version', id⟩ := plan
    rintro ⟨rfl, rfl, body, hb, rfl⟩
    exact ⟨body, hb, rfl⟩

theorem create_eq_ok : create appendFloat sha256Identity data = .ok plan
      ↔ validateData data = .ok ()
        ∧ (data.compatibility.foldAlias = .forkCompatible → data.blockers = [])
        ∧ plan.data = data.completed ∧ plan.schemaVersion = storageSchemaVersion
        ∧ HasId appendFloat sha256Identity plan := by
  unfold create
  rw [bind_unit_eq_ok]
  split_ifs with hcompatible
  · rw [planOf_eq_ok]
    exact ⟨fun ⟨hv, h⟩ => ⟨hv, hcompatible, h⟩, fun ⟨hv, _, h⟩ => ⟨hv, h⟩⟩
  · exact ⟨fun ⟨_, h⟩ => (nomatch h), fun ⟨_, h, _⟩ => absurd h hcompatible⟩

theorem made_of_create (h : create appendFloat sha256Identity data = .ok plan) :
    Made appendFloat sha256Identity plan ∧ plan.data = data.completed
      ∧ plan.schemaVersion = storageSchemaVersion := by
  obtain ⟨hv, -, hd, hver, hid⟩ := create_eq_ok.mp h
  refine ⟨⟨?_, hid⟩, hd, hver⟩
  rw [hd]
  exact validateData_completed hv

/-- What reading goes through. -/
theorem made_of_parse {parseText : Bytes → Option (Json Bytes)} {bytes : Bytes}
    (h : parse appendFloat parseText sha256Identity bytes = .ok plan) :
    ∃ value stored read id, parseJsonStrict appendFloat parseText bytes = .ok value
      ∧ storedVersion value = .ok stored ∧ storedData value stored.legacy = .ok read
      ∧ Made appendFloat sha256Identity plan ∧ plan.data = read.data.completed
      ∧ plan.schemaVersion = stored.version ∧ textOf (value.get? (ascii "id")) = some id
      ∧ expectedId appendFloat sha256Identity stored read plan = .ok id := by
  obtain ⟨value, hv, h⟩ := bind_eq_ok.mp h
  simp only [bind_unit_eq_ok] at h
  obtain ⟨-, -, h⟩ := h
  simp only [↓bind_unit_eq_ok, bind_eq_ok] at h
  obtain ⟨stored, hst, read, hrd, current, hc, result, hr, id, hid, expected,
    he, hrq, h⟩ := h
  cases h
  obtain rfl := of_decide_eq_true (require_eq_ok.mp hrq)
  obtain ⟨hm, hd, hver⟩ := made_of_create hc
  have hp : plan.data = current.data ∧ plan.schemaVersion = stored.version
      ∧ HasId appendFloat sha256Identity plan := by
    unfold storedPlan at hr
    split_ifs at hr with hcurrentVersion
    · cases hr
      exact ⟨rfl, hver.trans hcurrentVersion.symm, hm.hasId⟩
    · exact planOf_eq_ok.mp hr
  refine ⟨value, stored, read, id, hv, hst, hrd, ⟨?_, hp.2.2⟩,
    hp.1.trans hd, hp.2.1, orInvalid_eq_ok.mp hid, he⟩
  rw [hp.1]
  exact hm.valid

end Made

/-! ## Storing again -/

section Restoring

/-- **A plan can be stored again**: it is written, and read as the same
plan. -/
def Restorable (appendFloat : UInt64 → Except Exn Bytes)
    (readFloat : UInt64 → Json Bytes) (parseText : Bytes → Option (Json Bytes))
    (sha256Identity : String → Bytes → Bytes) (plan : MigrationPlan) : Prop :=
  ∃ bytes plan', plan.serializeCanonical appendFloat = .ok bytes
    ∧ parse appendFloat parseText sha256Identity bytes = .ok plan'
    ∧ SamePlan readFloat plan' plan

variable {appendFloat : UInt64 → Except Exn Bytes}
  {readFloat : UInt64 → Json Bytes}
  {parseText : Bytes → Option (Json Bytes)}
  {sha256Identity : String → Bytes → Bytes}
  (hformat : Format appendFloat readFloat parseText)
  (hutf8 : ∀ domain bytes, validateUtf8Impl (sha256Identity domain bytes) = .ok ())

include hutf8 in
/-- A made plan is written when its record is within the size limit. -/
theorem Made.serialize {plan : MigrationPlan} (h : Made appendFloat sha256Identity plan)
    (hft : Fits appendFloat sha256Identity plan.data plan.schemaVersion) :
    ∃ bytes, plan.serializeCanonical appendFloat = .ok bytes := by
  obtain ⟨body, hb, hid⟩ := h.hasId
  have hsz := hft body hb
  have hnm : ascii "id" ∉ (bodyFor plan.data plan.schemaVersion).map Prod.fst := by
    rw [names_bodyFor]
    decide
  unfold MigrationPlan.serializeCanonical
  rw [← hid, record_eq] at hsz
  rw [record_eq]
  refine concat ⟨body, hb⟩ hnm ⟨_, rfl⟩ ?_ hsz
  rw [hid]
  exact ⟨_, bind_unit_eq_ok.mpr ⟨hutf8 _ _, rfl⟩⟩

variable {bytes : Bytes}

theorem Made.fits {plan : MigrationPlan} (h : Made appendFloat sha256Identity plan)
    (hbs : plan.serializeCanonical appendFloat = .ok bytes) :
    Fits appendFloat sha256Identity plan.data plan.schemaVersion := by
  intro body hb
  obtain ⟨body', hb', hid⟩ := h.hasId
  obtain rfl := ok.inj (hb'.symm.trans hb)
  rw [← hid]
  exact (canonicalJsonBytes_eq_ok.mp hbs).1.2

include hformat

/-- The members of a record are found by its reader. -/
theorem get?_stored {plan : MigrationPlan} (h : plan.serializeCanonical appendFloat = .ok bytes) :
    (∀ name, name ≠ ascii "id" →
      (canonical readFloat (.obj (record plan.data plan.schemaVersion plan.id))).get? name
        = ((obj (bodyFor plan.data plan.schemaVersion)).get? name).map (canonical readFloat))
      ∧ (canonical readFloat (.obj (record plan.data plan.schemaVersion plan.id))).get?
        (ascii "id") = some (.str plan.id) := by
  have hg := get?_canonical hformat.number (noDuplicates ⟨bytes, h⟩)
  refine ⟨fun name hnm => ?_, ?_⟩
  · rw [hg, get?_record hnm]
  · unfold record at hg ⊢
    rw [hg, get?_put, if_pos rfl]
    rfl

theorem rejectUnknownFields_record (plan : MigrationPlan) :
    rejectUnknownFields (canonical readFloat (.obj (record plan.data plan.schemaVersion plan.id)))
      "Stored MigrationPlan" planFields = .ok () := by
  refine rejectUnknownFields_eq_ok hformat.number ?_
  rw [record_eq, map_append, names_bodyFor]
  show ∀ n ∈ _ ++ [ascii "id"], n ∈ planFields
  decide

/-- The data that is read back is the data. -/
theorem Made.samePlan {plan plan' : MigrationPlan} (h : Made appendFloat sha256Identity plan)
    (hdt : plan'.data = canonicalData readFloat plan.data) (hid : plan'.id = plan.id) :
    SamePlan readFloat plan' plan := by
  obtain ⟨body, hb, -⟩ := h.hasId
  have hwr : Written appendFloat (.obj (bodyFor plan.data plan.schemaVersion)) :=
    ⟨body, hb⟩
  refine ⟨hid, by rw [hdt]; rfl, by rw [hdt]; rfl, ?_, ?_⟩
  · rw [hdt]
    refine forall₂_map_left_iff.mpr (forall₂_same.mpr fun d hd => ?_)
    have hd := written_diagnostic hwr d hd
    exact ⟨rfl, rfl, rfl, canonical_canonical hformat (@get? _ _ d.source (ascii "source") hd rfl),
      canonical_canonical hformat (@get? _ _ d.target (ascii "target") hd rfl)⟩
  · rw [hdt]
    refine forall₂_map_left_iff.mpr (forall₂_same.mpr fun m hm => ?_)
    have hm := written_mapping hwr m hm
    exact ⟨rfl, rfl, canonical_canonical hformat (@get? _ _ m.source (ascii "source") hm rfl),
      canonical_canonical hformat (@get? _ _ m.target (ascii "target") hm rfl)⟩

/-- **A written plan of the current or the previous version is read back.** -/
theorem Made.restorable {plan : MigrationPlan} (h : Made appendFloat sha256Identity plan)
    (hv : plan.schemaVersion = previousStorageSchemaVersion
      ∨ plan.schemaVersion = storageSchemaVersion)
    (hbs : plan.serializeCanonical appendFloat = .ok bytes) :
    Restorable appendFloat readFloat parseText sha256Identity plan := by
  obtain ⟨body, hb, hid⟩ := h.hasId
  obtain ⟨hg, hgetId⟩ := get?_stored hformat hbs
  have hwr : Written appendFloat (.obj (bodyFor plan.data plan.schemaVersion)) :=
    ⟨body, hb⟩
  have hc := complete_canonicalData readFloat plan.complete
  -- the data is completed in the current version first
  obtain ⟨body', hb'⟩ := written_bodyFor hwr storageSchemaVersion
  let current : MigrationPlan := ⟨canonicalData readFloat plan.data, hc,
    storageSchemaVersion, sha256Identity "program-migration-plan/v1" body'⟩
  have hcur : create appendFloat sha256Identity (canonicalData readFloat plan.data)
      = .ok current := by
    refine create_eq_ok.mpr ⟨validateData_canonicalData h.valid, fun hf => ?_,
      hc.completed_eq.symm, rfl, body', bodyFor_canonicalData hformat hb', rfl⟩
    exact hc.compatible (hc.compatibility.symm.trans hf)
  let plan' : MigrationPlan := ⟨canonicalData readFloat plan.data, hc,
    plan.schemaVersion, plan.id⟩
  have hp' : storedPlan appendFloat sha256Identity current plan.schemaVersion = .ok plan' := by
    unfold storedPlan
    split_ifs with hcurrentVersion
    · rw [hcurrentVersion] at hb
      obtain rfl := ok.inj (hb.symm.trans hb')
      rw [ok.injEq, MigrationPlan.mk.injEq]
      exact ⟨rfl, hcurrentVersion.symm, hid.symm⟩
    · exact planOf_eq_ok.mpr ⟨rfl, rfl, body, bodyFor_canonicalData hformat hb, hid⟩
  have hm : decide (plan.schemaVersion = legacyStorageSchemaVersion) = false := by
    obtain hv | hv := hv <;> rw [hv] <;> rfl
  refine ⟨bytes, plan', hbs, ?_, h.samePlan hformat rfl rfl⟩
  refine bind_eq_ok.mpr ⟨_, parseJsonStrict_canonicalJsonBytes hformat hbs, ?_⟩
  refine bind_unit_eq_ok.mpr ⟨require_eq_ok.mpr ?_, ?_⟩
  · rw [isObject_shapeMap (canonical_shapeMap hformat.number)]
    rfl
  refine bind_unit_eq_ok.mpr ⟨rejectUnknownFields_record hformat plan, bind_eq_ok.mpr
    ⟨_, (storedVersion_eq_ok hg).mpr ⟨.inr hv, rfl⟩, bind_eq_ok.mpr
      ⟨_, storedData_record hformat plan.complete h.valid hwr hg _, bind_eq_ok.mpr
        ⟨current, hcur, bind_eq_ok.mpr ⟨plan', hp', bind_eq_ok.mpr
          ⟨plan.id, orInvalid_eq_ok.mpr (by rw [hgetId]; rfl),
            bind_eq_ok.mpr ⟨plan.id, ?_, ?_⟩⟩⟩⟩⟩⟩⟩
  · unfold expectedId
    rw [hm]
    rfl
  · exact bind_unit_eq_ok.mpr ⟨require_eq_ok.mpr (decide_eq_true rfl), rfl⟩

/-- A plan of another version is refused: either its version is not known,
or it is legacy and its id is not that of a legacy record. -/
theorem Made.not_restorable (hsha : ∀ domain, Injective (sha256Identity domain))
    {plan : MigrationPlan} (h : Made appendFloat sha256Identity plan)
    (hver : ¬(plan.schemaVersion = previousStorageSchemaVersion
      ∨ plan.schemaVersion = storageSchemaVersion)) :
    ¬Restorable appendFloat readFloat parseText sha256Identity plan := by
  rintro ⟨bytes, plan', hbs, hp, -⟩
  obtain ⟨body, hb, hid⟩ := h.hasId
  obtain ⟨hg, hgetId⟩ := get?_stored hformat hbs
  obtain ⟨value, stored, read, id, hv, hst, hrd, -, -, -, hidText, he⟩ :=
    made_of_parse hp
  obtain rfl := ok.inj
    ((parseJsonStrict_canonicalJsonBytes hformat hbs).symm.trans hv)
  obtain ⟨hkn, rfl⟩ := (storedVersion_eq_ok hg).mp hst
  have hl : plan.schemaVersion = legacyStorageSchemaVersion :=
    hkn.resolve_right hver
  obtain rfl := ok.inj
    ((storedData_record hformat plan.complete h.valid ⟨body, hb⟩ hg _).symm.trans hrd)
  rw [hgetId] at hidText
  obtain rfl := Option.some.inj hidText
  unfold expectedId at he
  rw [if_pos (decide_eq_true hl)] at he
  obtain ⟨body', hb', heq⟩ := bind_eq_ok.mp he
  obtain rfl : body' = body := hsha _ ((ok.inj heq).trans hid)
  -- the bytes are those of members with diagnostics and of members without
  have hcan := congrArg (fun v => get? v (ascii "diagnostics"))
    (canonical_eq_of_bytes hformat hb hb')
  dsimp only at hcan
  rw [get?_canonical hformat.number (noDuplicates ⟨_, hb⟩),
    get?_canonical hformat.number (noDuplicates ⟨_, hb'⟩)] at hcan
  cases hcan

include hutf8

theorem Made.restorable_iff_fits (hsha : ∀ domain, Injective (sha256Identity domain))
    {plan : MigrationPlan} (h : Made appendFloat sha256Identity plan) :
    Restorable appendFloat readFloat parseText sha256Identity plan
      ↔ (plan.schemaVersion = previousStorageSchemaVersion
          ∨ plan.schemaVersion = storageSchemaVersion)
        ∧ Fits appendFloat sha256Identity plan.data plan.schemaVersion := by
  constructor
  · intro hr
    refine ⟨by_contra fun hv => h.not_restorable hformat hsha hv hr, ?_⟩
    obtain ⟨bytes, -, hbs, -⟩ := hr
    exact h.fits hbs
  · rintro ⟨hv, hft⟩
    obtain ⟨bytes, hbs⟩ := h.serialize hutf8 hft
    exact h.restorable hformat hv hbs

end Restoring

/-! ## Which plans can be stored again -/

section Storable

/-- The condition on a stored plan: its version is the current or the
previous one, and the record of its completed data is within the size
limit. -/
def Storable (appendFloat : UInt64 → Except Exn Bytes)
    (parseText : Bytes → Option (Json Bytes))
    (sha256Identity : String → Bytes → Bytes) (bytes : Bytes) : Prop :=
  ∃ value stored read, parseJsonStrict appendFloat parseText bytes = .ok value
    ∧ storedVersion value = .ok stored ∧ storedData value stored.legacy = .ok read
    ∧ (stored.version = previousStorageSchemaVersion ∨ stored.version = storageSchemaVersion)
    ∧ Fits appendFloat sha256Identity read.data.completed stored.version

/-- **The exact condition for storing a plan again.** A plan that was read
can be stored again if and only if it is `Storable`, so never when it was
legacy; a plan that was made can be if and only if its record is within the
size limit. -/
theorem restorable_iff {appendFloat : UInt64 → Except Exn (List UInt8)}
    {readFloat : UInt64 → Json (List UInt8)} {parseText : List UInt8 → Option (Json (List UInt8))}
    {sha256Identity : String → List UInt8 → List UInt8}
    (hformat : Format appendFloat readFloat parseText)
    (hutf8 : ∀ domain bytes, validateUtf8Impl (sha256Identity domain bytes) = .ok ())
    (hsha : ∀ domain, Injective (sha256Identity domain)) :
    (∀ bytes plan, parse appendFloat parseText sha256Identity bytes = .ok plan →
        (Restorable appendFloat readFloat parseText sha256Identity plan
          ↔ Storable appendFloat parseText sha256Identity bytes))
      ∧ ∀ data plan, create appendFloat sha256Identity data = .ok plan →
        (Restorable appendFloat readFloat parseText sha256Identity plan
          ↔ Fits appendFloat sha256Identity data.completed storageSchemaVersion) := by
  constructor
  · intro bytes plan hp
    obtain ⟨value, stored, read, id, hv, hst, hrd, hm, hd, hver, -, -⟩ :=
      made_of_parse hp
    rw [hm.restorable_iff_fits hformat hutf8 hsha, hd, hver]
    constructor
    · rintro ⟨hmd, hft⟩
      exact ⟨value, stored, read, hv, hst, hrd, hmd, hft⟩
    · rintro ⟨value', stored', read', hv', hst', hrd', hmd, hft⟩
      obtain rfl := Except.ok.inj (hv.symm.trans hv')
      obtain rfl := Except.ok.inj (hst.symm.trans hst')
      obtain rfl := Except.ok.inj (hrd.symm.trans hrd')
      exact ⟨hmd, hft⟩
  · intro data plan hcrt
    obtain ⟨hm, hd, hver⟩ := made_of_create hcrt
    rw [hm.restorable_iff_fits hformat hutf8 hsha, hd, hver, and_iff_right (.inr rfl)]

/-- The two halves of a byte, as letters. -/
def halves (b : UInt8) : Bytes := [(b >>> 4) ||| 0x40, (b &&& 0x0F) ||| 0x40]

/-- The byte of two letters. -/
def joined (high low : UInt8) : UInt8 := (high <<< 4) ||| (low &&& 0x0F)

theorem joined_halves (b : UInt8) : joined ((b >>> 4) ||| 0x40) ((b &&& 0x0F) ||| 0x40) = b := by
  refine UInt8.eq_of_toBitVec_eq (BitVec.eq_of_getLsbD_eq fun i hi => ?_)
  have hcs : i = 0 ∨ i = 1 ∨ i = 2 ∨ i = 3 ∨ i = 4 ∨ i = 5 ∨ i = 6 ∨ i = 7 := by omega
  obtain rfl | rfl | rfl | rfl | rfl | rfl | rfl | rfl := hcs <;> simp [joined]

theorem halves_lt {b c : UInt8} (hc : c ∈ halves b) : c < 0x80 := by
  have hor : ∀ c : UInt8, c.toNat < 2 ^ 7 → c ||| 0x40 < 0x80 := fun c hc =>
    UInt8.lt_iff_toNat_lt.mpr (by rw [UInt8.toNat_or]; exact Nat.or_lt_two_pow hc (by decide))
  simp only [halves, mem_cons, not_mem_nil, or_false] at hc
  obtain rfl | rfl := hc
  · refine hor _ ?_
    rw [UInt8.toNat_shiftRight, Nat.shiftRight_eq_div_pow]
    exact lt_of_le_of_lt (Nat.div_le_div_right (Nat.le_of_lt_succ b.toNat_lt)) (by decide)
  · refine hor _ ?_
    rw [UInt8.toNat_and]
    exact lt_of_le_of_lt Nat.and_le_right (by decide)

/-- A digest that loses nothing. -/
def lossless (bytes : Bytes) : Bytes := bytes.flatMap halves

theorem lossless_injective : Injective lossless := by
  intro bytes bytes' h
  induction bytes generalizing bytes' with
  | nil =>
    cases bytes' with
    | nil => rfl
    | cons b' bytes' => cases h
  | cons b bytes ih =>
    cases bytes' with
    | nil => cases h
    | cons b' bytes' =>
      obtain ⟨hh, h⟩ := List.cons.inj h
      obtain ⟨hlow, h⟩ := List.cons.inj h
      have hb : b = b' := by
        rw [← joined_halves b, ← joined_halves b', hh, hlow]
      rw [hb, ih h]

theorem lossless_utf8 (bytes : Bytes) : validateUtf8Impl (lossless bytes) = .ok () := by
  refine validateUtf8Impl_of_ascii fun c hc => ?_
  obtain ⟨b, -, hc⟩ := mem_flatMap.mp hc
  exact halves_lt hc

/-- A plan that is blocked for a reason nobody wrote down. -/
def blockedData : MigrationPlanData where
  sourceVersionId := ascii "sha256:" ++ replicate 64 0x30
  targetVersionId := ascii "sha256:" ++ replicate 64 0x31
  ownerScope := ascii "tenant"
  compatibility := .blocked
  blockers := []
  diagnostics := []
  mappings := []

/-- A made plan without blockers can be stored again. -/
theorem restorable_iff_blocked : ∃ plan,
    create refuseFloat (fun _ => lossless) blockedData = .ok plan
    ∧ Restorable refuseFloat real JsonReader.read (fun _ => lossless) plan := by
  have hr : ∃ bytes, (create refuseFloat (fun _ => lossless) blockedData
      >>= fun plan => plan.serializeCanonical refuseFloat) = .ok bytes :=
    exists_of_isOk (by decide +kernel)
  obtain ⟨bytes, hr⟩ := hr
  obtain ⟨plan, hp, hbs⟩ := bind_eq_ok.mp hr
  obtain ⟨hm, hd, hv⟩ := made_of_create hp
  refine ⟨plan, hp, ((restorable_iff format_refuseFloat (fun _ => lossless_utf8)
    fun _ => lossless_injective).2 blockedData plan hp).mpr ?_⟩
  rw [← hd, ← hv]
  exact hm.fits hbs

/-- The legacy record of a plan of a retired class. -/
def legacyBytes : Except Exn Bytes := do
  let members := legacyBodyFor blockedData (ascii "owner_mismatch") legacyStorageSchemaVersion
  let body ← canonicalJsonBytes refuseFloat (.obj members)
  canonicalJsonBytes refuseFloat (.obj (put members (ascii "id") (.str (lossless body))))

/-- **A legacy plan cannot be stored again.** -/
theorem legacy_not_restorable :
    ¬∀ (appendFloat : UInt64 → Except Exn (List UInt8)) (readFloat : UInt64 → Json (List UInt8))
      (parseText : List UInt8 → Option (Json (List UInt8)))
      (sha256Identity : String → List UInt8 → List UInt8) (bytes : List UInt8)
      (plan : MigrationPlan), Format appendFloat readFloat parseText →
      (∀ domain bytes, validateUtf8Impl (sha256Identity domain bytes) = .ok ()) →
      (∀ domain, Injective (sha256Identity domain)) →
      parse appendFloat parseText sha256Identity bytes = .ok plan →
      Restorable appendFloat readFloat parseText sha256Identity plan := by
  intro ha
  have hr : ∃ u, (do
      let bytes ← legacyBytes
      let plan ← parse refuseFloat JsonReader.read (fun _ => lossless) bytes
      require (plan.schemaVersion = legacyStorageSchemaVersion) "") = .ok u :=
    exists_of_isOk (by decide +kernel)
  obtain ⟨⟨⟩, hr⟩ := hr
  simp only [bind_eq_ok] at hr
  obtain ⟨bytes, -, plan, hp, hr⟩ := hr
  have hv := of_decide_eq_true (require_eq_ok.mp hr)
  obtain ⟨-, -, -, -, -, -, -, hm, -⟩ := made_of_parse hp
  refine hm.not_restorable format_refuseFloat (fun _ => lossless_injective) ?_
    (ha _ _ _ _ bytes plan format_refuseFloat (fun _ => lossless_utf8)
      (fun _ => lossless_injective) hp)
  rw [hv]
  decide

end Storable

end NeoGraph.Program.Migration
