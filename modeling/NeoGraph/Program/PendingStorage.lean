import NeoGraph.Program.Pending

/-!
# Stored pending calls

A pending call is stored as the canonical bytes of an envelope and read
back field by field; the data read is normalised like any other. The JSON
values of the record come back in canonical form (`canonicalCall`), and
everything else comes back as it was.

A record is read back exactly when its envelope has canonical bytes and its
result passes its schema in that form too (`ProgramPendingInput.parse_eq_ok`,
`ProgramPendingEffect.parse_eq_ok`).
-/

namespace NeoGraph.Program.Pending

open CanonicalJson Json Option

/-! ## Encoding -/

def inputFormat : Bytes := ascii "neograph-program-pending-input"

def effectFormat : Bytes := ascii "neograph-program-pending-effect"

/-- The storage schemas that are read. -/
def storageSchemaVersion : UInt64 := 2

/-- The names of the values, for the documents. -/
def inputKindText : ProgramPendingInputKind → Bytes
  | .input => ascii "input"
  | .capabilityResult => ascii "capability_result"

def pendingStateText : ProgramPendingState → Bytes
  | .awaiting => ascii "awaiting"
  | .consumed => ascii "consumed"
  | .expired => ascii "expired"
  | .cancelled => ascii "cancelled"
  | .ambiguous => ascii "ambiguous"

def effectModeText : EffectMode → Bytes
  | .brokered => ascii "brokered"
  | .trustedNative => ascii "trusted_native"

def idempotencyText : ProgramEffectIdempotency → Bytes
  | .idempotent => ascii "idempotent"
  | .nonIdempotent => ascii "non_idempotent"

def reconciliationText : ProgramEffectReconciliation → Bytes
  | .none => ascii "none"
  | .completed => ascii "completed"
  | .failed => ascii "failed"
  | .unknown => ascii "unknown"

def encodeOptionalResult : Option (Json Bytes) → Json Bytes
  | none => .obj [(ascii "present", .bool false)]
  | some result => .obj [(ascii "present", .bool true), (ascii "value", result)]

def encodeExpiry : Option UInt64 → Json Bytes
  | some expiry => .uint expiry
  | none => .null

/-- The interrupt id is written only when there is one. -/
def encodeCoreProjection (node : Bytes) (value : Json Bytes) (id : Bytes) :
    Json Bytes :=
  .obj ([(ascii "node", .str node), (ascii "value", value)]
    ++ if id = [] then [] else [(ascii "id", .str id)])

def pendingStorageSchema (coreInterruptId : Bytes) : UInt64 :=
  if coreInterruptId = [] then 1 else 2

/-- The document of an input. -/
def inputEnvelope (data : ProgramPendingInputData) : Json Bytes :=
  .obj [(ascii "format", .str inputFormat),
    (ascii "storage_schema_version", .uint (pendingStorageSchema data.coreInterruptId)),
    (ascii "operation_id", .str data.operationId), (ascii "call_id", .str data.callId),
    (ascii "kind", .str (inputKindText data.kind)), (ascii "result_schema", data.resultSchema),
    (ascii "payload", data.payload),
    (ascii "expires_at_unix_ms", encodeExpiry data.expiresAtUnixMs),
    (ascii "core_interrupt",
      encodeCoreProjection data.coreNode data.coreInterruptValue data.coreInterruptId),
    (ascii "state", .str (pendingStateText data.state)),
    (ascii "consumed_result", encodeOptionalResult data.result)]

/-- The document of an effect. -/
def effectEnvelope (data : ProgramPendingEffectData) : Json Bytes :=
  .obj [(ascii "format", .str effectFormat),
    (ascii "storage_schema_version", .uint (pendingStorageSchema data.coreInterruptId)),
    (ascii "operation_id", .str data.operationId), (ascii "call_id", .str data.callId),
    (ascii "effect_id", .str data.effectId), (ascii "result_schema", data.resultSchema),
    (ascii "payload", data.payload),
    (ascii "expires_at_unix_ms", encodeExpiry data.expiresAtUnixMs),
    (ascii "effect_mode", .str (effectModeText data.effectMode)),
    (ascii "idempotency", .str (idempotencyText data.idempotency)),
    (ascii "core_interrupt",
      encodeCoreProjection data.coreNode data.coreInterruptValue data.coreInterruptId),
    (ascii "state", .str (pendingStateText data.state)),
    (ascii "reconciliation", .str (reconciliationText data.reconciliation)),
    (ascii "reconciled_result", encodeOptionalResult data.result)]

/-! ## Decoding -/

/-- Fields that must be there. -/
def requireString (value : Json Bytes) (key : String) : Except Exn Bytes :=
  match value.get? (ascii key) with
  | some (.str s) => do
    validateUtf8Impl s
    .ok s
  | _ => .error (.invalidArgument ("Program pending field '" ++ key ++ "' must be a string"))

def requireValue (value : Json Bytes) (key : String) : Except Exn (Json Bytes) :=
  match value.get? (ascii key) with
  | some v => .ok v
  | none => .error (.invalidArgument ("Program pending value requires field '" ++ key ++ "'"))

def requireU64 (value : Json Bytes) (key : String) : Except Exn UInt64 := do
  let item ← requireValue value key
  match item with
  | .uint n => .ok n
  | _ => .error (.invalidArgument ("Program pending field '" ++ key ++ "' must be unsigned"))

/-- The values of the names. -/
def inputKindFromString (value : Bytes) : Except Exn ProgramPendingInputKind :=
  if value = ascii "input" then .ok .input
  else if value = ascii "capability_result" then .ok .capabilityResult
  else .error (.invalidArgument ("Unknown Program pending input kind: " ++ bytesText value))

def pendingStateFromString (value : Bytes) : Except Exn ProgramPendingState :=
  if value = ascii "awaiting" then .ok .awaiting
  else if value = ascii "consumed" then .ok .consumed
  else if value = ascii "expired" then .ok .expired
  else if value = ascii "cancelled" then .ok .cancelled
  else if value = ascii "ambiguous" then .ok .ambiguous
  else .error (.invalidArgument ("Unknown Program pending state: " ++ bytesText value))

def effectModeFromString (value : Bytes) : Except Exn EffectMode :=
  if value = ascii "brokered" then .ok .brokered
  else if value = ascii "trusted_native" then .ok .trustedNative
  else .error (.invalidArgument ("Unknown Program effect mode: " ++ bytesText value))

def idempotencyFromString (value : Bytes) : Except Exn ProgramEffectIdempotency :=
  if value = ascii "idempotent" then .ok .idempotent
  else if value = ascii "non_idempotent" then .ok .nonIdempotent
  else .error (.invalidArgument ("Unknown Program effect idempotency: " ++ bytesText value))

def reconciliationFromString (value : Bytes) : Except Exn ProgramEffectReconciliation :=
  if value = ascii "none" then .ok .none
  else if value = ascii "completed" then .ok .completed
  else if value = ascii "failed" then .ok .failed
  else if value = ascii "unknown" then .ok .unknown
  else .error (.invalidArgument ("Unknown Program effect reconciliation: " ++ bytesText value))

/-- A stored result says whether it is present. -/
def parseOptionalResult (value : Json Bytes) (name : String) :
    Except Exn (Option (Json Bytes)) := do
  require value.isObject (name ++ " must be an object")
  rejectUnknownFields value name [ascii "present", ascii "value"]
  match value.get? (ascii "present") with
  | some (.bool present) =>
    if present ≠ value.contains (ascii "value") then
      .error (.invalidArgument (name ++ " value presence does not match present"))
    else match value.get? (ascii "value") with
      | none => .ok none
      | some result => do
        let result ← ownedJsonCopy result
        .ok (some result)
  | _ => .error (.invalidArgument (name ++ " present must be boolean"))

def parseExpiry : Json Bytes → Except Exn (Option UInt64)
  | .null => .ok none
  | .uint expiry => .ok (some expiry)
  | _ => .error (.invalidArgument
      "Program pending expires_at_unix_ms must be unsigned or null")

/-- What a checkpoint of the core says of a pending input. -/
structure CoreProjection where
  node : Bytes
  value : Json Bytes
  id : Bytes

/-- The interrupt id, empty when there is none. -/
def parseCoreId (value : Json Bytes) : Except Exn Bytes :=
  if value.contains (ascii "id") then requireString value "id" else .ok []

/-- The projection, with an id in the second form only. -/
def parseCoreProjection (value : Json Bytes) (schema : UInt64) :
    Except Exn CoreProjection := do
  require value.isObject "Program pending Core projection must be an object"
  rejectUnknownFields value "Program pending Core projection"
    [ascii "node", ascii "value", ascii "id"]
  let node ← requireString value "node"
  let inner ← requireValue value "value"
  let inner ← ownedJsonCopy inner
  let id ← parseCoreId value
  require (decide (schema = 2) = !id.isEmpty)
    "Program pending Core interrupt id disagrees with its schema"
  .ok ⟨node, inner, id⟩

/-- The fields both kinds of calls are read from. -/
def callFromJson (value : Json Bytes) (resultKey resultName : String) :
    Except Exn ProgramPendingCall := do
  let core ← requireValue value "core_interrupt"
  let schema ← requireU64 value "storage_schema_version"
  let projection ← parseCoreProjection core schema
  let operationId ← requireString value "operation_id"
  let callId ← requireString value "call_id"
  let resultSchema ← requireValue value "result_schema"
  let resultSchema ← ownedJsonCopy resultSchema
  let payload ← requireValue value "payload"
  let payload ← ownedJsonCopy payload
  let expiry ← requireValue value "expires_at_unix_ms"
  let expiresAtUnixMs ← parseExpiry expiry
  let state ← requireString value "state"
  let state ← pendingStateFromString state
  let result ← requireValue value resultKey
  let result ← parseOptionalResult result resultName
  .ok { operationId, callId, resultSchema, payload, expiresAtUnixMs,
        coreNode := projection.node, coreInterruptValue := projection.value,
        coreInterruptId := projection.id, state, result }

/-- Reads `inputEnvelope`. -/
def inputDataFromJson (value : Json Bytes) : Except Exn ProgramPendingInputData := do
  let call ← callFromJson value "consumed_result" "Program pending consumed_result"
  let kind ← requireString value "kind"
  let kind ← inputKindFromString kind
  .ok { toProgramPendingCall := call, kind }

/-- Reads `effectEnvelope`. -/
def effectDataFromJson (value : Json Bytes) : Except Exn ProgramPendingEffectData := do
  let call ← callFromJson value "reconciled_result" "Program effect reconciled_result"
  let effectId ← requireString value "effect_id"
  let effectMode ← requireString value "effect_mode"
  let effectMode ← effectModeFromString effectMode
  let idempotency ← requireString value "idempotency"
  let idempotency ← idempotencyFromString idempotency
  let reconciliation ← requireString value "reconciliation"
  let reconciliation ← reconciliationFromString reconciliation
  .ok { toProgramPendingCall := call, effectId, effectMode, idempotency, reconciliation }

section Storage

variable (appendFloat : UInt64 → Except Exn Bytes)
  (parseText : Bytes → Option (Json Bytes))

/-- The checks of a stored record before its fields are read. -/
def openStored (name : String) (format : Bytes) (fields : List Bytes)
    (bytes : Bytes) : Except Exn (Json Bytes) :=
  match parseJsonStrict appendFloat parseText bytes with
  | .error failure => .error (.invalidArgument
      ("Invalid stored " ++ name ++ " JSON: " ++ schemaError failure))
  | .ok value => do
    require value.isObject ("Stored " ++ name ++ " must be an object")
    rejectUnknownFields value ("Stored " ++ name) fields
    let stored ← requireString value "format"
    require (stored = format) ("Stored " ++ name ++ " has unknown format")
    let schema ← requireU64 value "storage_schema_version"
    require (!(schema = 0 || storageSchemaVersion < schema))
      ("Stored " ++ name ++ " schema version is unsupported")
    .ok value

namespace ProgramPendingInput

def fields : List Bytes :=
  [ascii "format", ascii "storage_schema_version", ascii "operation_id", ascii "call_id",
    ascii "kind", ascii "result_schema", ascii "payload", ascii "expires_at_unix_ms",
    ascii "core_interrupt", ascii "state", ascii "consumed_result"]

def serializeCanonical (v : ProgramPendingInput) : Except Exn Bytes :=
  canonicalJsonBytes appendFloat (inputEnvelope v.data)

/-- Equality of stored records. -/
def equal (v w : ProgramPendingInput) : Except Exn Bool := do
  let bytes ← v.serializeCanonical appendFloat
  let bytes' ← w.serializeCanonical appendFloat
  .ok (bytes = bytes')

def parse (bytes : Bytes) : Except Exn ProgramPendingInput := do
  let value ← openStored appendFloat parseText "ProgramPendingInput" inputFormat fields bytes
  let data ← inputDataFromJson value
  make data

end ProgramPendingInput

namespace ProgramPendingEffect

def fields : List Bytes :=
  [ascii "format", ascii "storage_schema_version", ascii "operation_id", ascii "call_id",
    ascii "effect_id", ascii "result_schema", ascii "payload", ascii "expires_at_unix_ms",
    ascii "effect_mode", ascii "idempotency", ascii "core_interrupt", ascii "state",
    ascii "reconciliation", ascii "reconciled_result"]

def serializeCanonical (v : ProgramPendingEffect) : Except Exn Bytes :=
  canonicalJsonBytes appendFloat (effectEnvelope v.data)

def equal (v w : ProgramPendingEffect) : Except Exn Bool := do
  let bytes ← v.serializeCanonical appendFloat
  let bytes' ← w.serializeCanonical appendFloat
  .ok (bytes = bytes')

def parse (bytes : Bytes) : Except Exn ProgramPendingEffect := do
  let value ← openStored appendFloat parseText "ProgramPendingEffect" effectFormat fields bytes
  let data ← effectDataFromJson value
  make data

end ProgramPendingEffect

end Storage

/-! ## Fields of a canonical value -/

section Canonical

variable {appendFloat : UInt64 → Except Exn Bytes}
  {readFloat : UInt64 → Json Bytes}

/-- Reading the text back keeps the shape of a value. -/
theorem canonical_shapeMap (hf : ∀ bits, (readFloat bits).isNumber = true) :
    ShapeMap (canonical readFloat) := by
  have hm := shapeMap_mapReal hf
  have hnrm := shapeMap_normalize (S := Bytes)
  refine ⟨fun v h => hnrm.nodup _ (hm.nodup v h), fun v => ?_, fun v h name => ?_,
    fun v => ?_, fun v => ?_⟩
  · exact (hnrm.kind _).trans (hm.kind v)
  · unfold canonical
    rw [hnrm.get? _ (hm.nodup v h), hm.get? v h, map_map]
    rfl
  · have hp := (hm.elements v).map Json.normalize
    rw [List.map_map] at hp
    exact (hnrm.elements _).trans hp
  · have hp := (hm.members v).map fun m => (m.1, m.2.normalize)
    rw [List.map_map] at hp
    exact (hnrm.members _).trans hp

variable {key : String} {value : Json Bytes}

theorem requireString_eq_ok {s : Bytes} (hg : value.get? (ascii key) = some (.str s))
    (hutf8 : validateUtf8Impl s = .ok ()) : requireString value key = .ok s := by
  unfold requireString
  rw [hg]
  exact bind_unit_eq_ok.mpr ⟨hutf8, rfl⟩

variable {v : Json Bytes}

theorem requireValue_eq_ok (hg : value.get? (ascii key) = some v) :
    requireValue value key = .ok v := by
  unfold requireValue
  rw [hg]

theorem requireU64_eq_ok {n : UInt64} (hg : value.get? (ascii key) = some (.uint n)) :
    requireU64 value key = .ok n := by
  unfold requireU64
  rw [requireValue_eq_ok hg]
  rfl

theorem validateUtf8Impl_of_validateToken {value : Bytes} {field : String}
    (h : validateToken value field = .ok ()) : validateUtf8Impl value = .ok () := by
  unfold validateToken at h
  split at h
  · cases h
  · exact (bind_unit_eq_ok.mp h).1

variable {name : String}

/-- None of the fields is unknown. -/
theorem rejectUnknownFields_eq_ok (hf : ∀ bits, (readFloat bits).isNumber = true)
    {members : List (Bytes × Json Bytes)} {allowed : List Bytes}
    (h : ∀ n ∈ members.map Prod.fst, n ∈ allowed) :
    rejectUnknownFields (canonical readFloat (.obj members)) name allowed = .ok () := by
  have hsh := canonical_shapeMap hf
  have hno : ((canonical readFloat (.obj members)).members.find?
      fun m => decide (m.1 ∉ allowed)) = none := by
    refine List.find?_eq_none.mpr fun m hm => ?_
    obtain ⟨n, hn, rfl⟩ := List.mem_map.mp ((hsh.members (.obj members)).mem_iff.mp hm)
    simpa using h n.1 (List.mem_map_of_mem hn)
  unfold rejectUnknownFields
  rw [isObject_shapeMap hsh, hno]
  rfl

theorem ownedJsonCopy_canonical (hf : ∀ bits, (readFloat bits).isNumber = true)
    (h : ∃ w, ownedJsonCopy v = .ok w) :
    ownedJsonCopy (canonical readFloat v) = .ok (canonical readFloat v) := by
  obtain ⟨w, hw⟩ := h
  obtain ⟨hl, hnd, -⟩ := ownedJsonCopy_eq_ok.mp hw
  exact ownedJsonCopy_eq_ok.mpr ⟨(withinLimits_canonical hf v).mpr hl,
    (canonical_shapeMap hf).nodup v hnd, rfl⟩

theorem parseOptionalResult_canonical (hf : ∀ bits, (readFloat bits).isNumber = true)
    {result : Option (Json Bytes)} (hc : ∀ r, result = some r → ∃ w, ownedJsonCopy r = .ok w)
    (hnd : (encodeOptionalResult result).NoDuplicates) (name : String) :
    parseOptionalResult (canonical readFloat (encodeOptionalResult result)) name
      = .ok (result.map (canonical readFloat)) := by
  have hsh := canonical_shapeMap hf
  have ho : (canonical readFloat (encodeOptionalResult result)).isObject = true := by
    rw [isObject_shapeMap hsh]
    cases result <;> rfl
  have hflds : rejectUnknownFields (canonical readFloat (encodeOptionalResult result)) name
      [ascii "present", ascii "value"] = .ok () := by
    cases result with
    | none => exact rejectUnknownFields_eq_ok hf (by decide)
    | some r =>
      refine rejectUnknownFields_eq_ok hf ?_
      show ∀ n ∈ [ascii "present", ascii "value"], _
      decide
  unfold parseOptionalResult
  refine bind_unit_eq_ok.mpr ⟨require_eq_ok.mpr ho, bind_unit_eq_ok.mpr ⟨hflds, ?_⟩⟩
  unfold contains
  rw [hsh.get? _ hnd, hsh.get? _ hnd]
  cases result with
  | none => rfl
  | some r =>
    show (ownedJsonCopy (canonical readFloat r) >>= _) = _
    rw [ownedJsonCopy_canonical hf (hc r rfl)]
    rfl

theorem parseCoreProjection_canonical (hf : ∀ bits, (readFloat bits).isNumber = true)
    {node : Bytes} {id : Bytes} (hn : validateUtf8Impl node = .ok ())
    (hv : ∃ w, ownedJsonCopy value = .ok w) (hid : validateUtf8Impl id = .ok ())
    (hnd : (encodeCoreProjection node value id).NoDuplicates) :
    parseCoreProjection (canonical readFloat (encodeCoreProjection node value id))
        (pendingStorageSchema id) = .ok ⟨node, canonical readFloat value, id⟩ := by
  have hsh := canonical_shapeMap hf
  have ho : (canonical readFloat (encodeCoreProjection node value id)).isObject = true := by
    rw [isObject_shapeMap hsh]
    rfl
  have hflds : rejectUnknownFields (canonical readFloat (encodeCoreProjection node value id))
      "Program pending Core projection" [ascii "node", ascii "value", ascii "id"] = .ok () := by
    refine rejectUnknownFields_eq_ok hf ?_
    by_cases he : id = []
    · rw [if_pos he]
      show ∀ n ∈ [ascii "node", ascii "value"], _
      decide
    · rw [if_neg he]
      show ∀ n ∈ [ascii "node", ascii "value", ascii "id"], _
      decide
  have hgetNode := hsh.get? _ hnd (ascii "node")
  have hgetValue := hsh.get? _ hnd (ascii "value")
  have hgetId := hsh.get? _ hnd (ascii "id")
  have hparseId : parseCoreId (canonical readFloat (encodeCoreProjection node value id))
      = .ok id := by
    unfold parseCoreId contains
    by_cases he : id = []
    · subst he
      rw [hgetId]
      rfl
    · have hs : (encodeCoreProjection node value id).get? (ascii "id") = some (.str id) := by
        unfold encodeCoreProjection
        rw [if_neg he]
        rfl
      rw [hs] at hgetId
      rw [hgetId]
      exact requireString_eq_ok hgetId hid
  unfold parseCoreProjection
  refine bind_unit_eq_ok.mpr ⟨require_eq_ok.mpr ho, bind_unit_eq_ok.mpr ⟨hflds, ?_⟩⟩
  refine bind_eq_ok.mpr ⟨node, requireString_eq_ok hgetNode hn, ?_⟩
  refine bind_eq_ok.mpr ⟨_, requireValue_eq_ok hgetValue, ?_⟩
  refine bind_eq_ok.mpr ⟨_, ownedJsonCopy_canonical hf hv, ?_⟩
  refine bind_eq_ok.mpr ⟨id, hparseId, bind_unit_eq_ok.mpr ⟨require_eq_ok.mpr ?_, rfl⟩⟩
  unfold pendingStorageSchema
  cases id <;> simp

/-- A call with its values in canonical form. -/
def canonicalCall (readFloat : UInt64 → Json Bytes) (call : ProgramPendingCall) :
    ProgramPendingCall :=
  { call with
    resultSchema := canonical readFloat call.resultSchema
    payload := canonical readFloat call.payload
    coreInterruptValue := canonical readFloat call.coreInterruptValue
    result := call.result.map (canonical readFloat) }

/-- An envelope has the fields of a call. -/
structure HasCall (env : Json Bytes) (call : ProgramPendingCall) (resultKey : String) :
    Prop where
  version : env.get? (ascii "storage_schema_version")
    = some (.uint (pendingStorageSchema call.coreInterruptId))
  operationId : env.get? (ascii "operation_id") = some (.str call.operationId)
  callId : env.get? (ascii "call_id") = some (.str call.callId)
  resultSchema : env.get? (ascii "result_schema") = some call.resultSchema
  payload : env.get? (ascii "payload") = some call.payload
  expiry : env.get? (ascii "expires_at_unix_ms") = some (encodeExpiry call.expiresAtUnixMs)
  core : env.get? (ascii "core_interrupt")
    = some (encodeCoreProjection call.coreNode call.coreInterruptValue call.coreInterruptId)
  state : env.get? (ascii "state") = some (.str (pendingStateText call.state))
  result : env.get? (ascii resultKey) = some (encodeOptionalResult call.result)

theorem hasCall_inputEnvelope (data : ProgramPendingInputData) :
    HasCall (inputEnvelope data) data.toProgramPendingCall "consumed_result" :=
  ⟨rfl, rfl, rfl, rfl, rfl, rfl, rfl, rfl, rfl⟩

theorem hasCall_effectEnvelope (data : ProgramPendingEffectData) :
    HasCall (effectEnvelope data) data.toProgramPendingCall "reconciled_result" :=
  ⟨rfl, rfl, rfl, rfl, rfl, rfl, rfl, rfl, rfl⟩

theorem pendingStateFromString_text (state : ProgramPendingState) :
    validateUtf8Impl (pendingStateText state) = .ok ()
      ∧ pendingStateFromString (pendingStateText state) = .ok state := by
  cases state <;> exact ⟨by decide +kernel, by decide +kernel⟩

variable {call : ProgramPendingCall}

/-- **The fields of a call are read back** from a canonical envelope. -/
theorem callFromJson_canonical (hf : ∀ bits, (readFloat bits).isNumber = true) {env : Json Bytes}
    {resultKey : String} (resultName : String) (henv : HasCall env call resultKey) {text : Bytes}
    (hwr : appendValue appendFloat env = .ok text) (hc : normalizeCall name call = .ok call)
    (hop : validateUtf8Impl call.operationId = .ok ())
    (hcallId : validateUtf8Impl call.callId = .ok ())
    (hn : validateUtf8Impl call.coreNode = .ok ()) :
    callFromJson (canonical readFloat env) resultKey resultName
      = .ok (canonicalCall readFloat call) := by
  obtain ⟨⟨hs, hpay, hint, -, -, hr⟩, -⟩ := normalizeCall_eq_ok.mp hc
  have hsh := canonical_shapeMap hf
  have hnd := noDuplicates_of_appendValue hwr
  have hg : ∀ {key : String} {v : Json Bytes}, env.get? (ascii key) = some v →
      (canonical readFloat env).get? (ascii key) = some (canonical readFloat v) := by
    intro key v h
    rw [hsh.get? env hnd, h, map_some]
  -- the interrupt id is text because it was written
  have hid : validateUtf8Impl call.coreInterruptId = .ok () := by
    by_cases he : call.coreInterruptId = []
    · rw [he]
      rfl
    have hcr : ∃ text, appendValue appendFloat
        (encodeCoreProjection call.coreNode call.coreInterruptValue call.coreInterruptId)
          = .ok text := by
      cases env with
      | obj members =>
        exact written_of_obj hwr (ascii "core_interrupt", _)
          ((lookup_eq_some_iff hnd.1).mp henv.core)
      | _ => exact absurd henv.core (by nofun)
    obtain ⟨coreText, hcr⟩ := hcr
    unfold encodeCoreProjection at hcr
    rw [if_neg he] at hcr
    obtain ⟨idText, hidText⟩ := written_of_obj hcr (ascii "id", .str call.coreInterruptId)
      (by simp)
    exact (bind_unit_eq_ok.mp hidText).1
  obtain ⟨hstateText, hst⟩ := pendingStateFromString_text call.state
  unfold callFromJson
  refine bind_eq_ok.mpr ⟨_, requireValue_eq_ok (hg henv.core), ?_⟩
  refine bind_eq_ok.mpr ⟨_, requireU64_eq_ok (hg henv.version), ?_⟩
  refine bind_eq_ok.mpr ⟨_, parseCoreProjection_canonical hf hn hint hid
    (hnd.get? henv.core), ?_⟩
  refine bind_eq_ok.mpr ⟨_, requireString_eq_ok (hg henv.operationId) hop, ?_⟩
  refine bind_eq_ok.mpr ⟨_, requireString_eq_ok (hg henv.callId) hcallId, ?_⟩
  refine bind_eq_ok.mpr ⟨_, requireValue_eq_ok (hg henv.resultSchema), ?_⟩
  refine bind_eq_ok.mpr ⟨_, ownedJsonCopy_canonical hf hs, ?_⟩
  refine bind_eq_ok.mpr ⟨_, requireValue_eq_ok (hg henv.payload), ?_⟩
  refine bind_eq_ok.mpr ⟨_, ownedJsonCopy_canonical hf hpay, ?_⟩
  refine bind_eq_ok.mpr ⟨_, requireValue_eq_ok (hg henv.expiry), ?_⟩
  have hex : parseExpiry (canonical readFloat (encodeExpiry call.expiresAtUnixMs))
      = .ok call.expiresAtUnixMs := by
    cases call.expiresAtUnixMs <;> rfl
  refine bind_eq_ok.mpr ⟨_, hex, ?_⟩
  refine bind_eq_ok.mpr ⟨_, requireString_eq_ok (hg henv.state) hstateText, ?_⟩
  refine bind_eq_ok.mpr ⟨_, hst, ?_⟩
  refine bind_eq_ok.mpr ⟨_, requireValue_eq_ok (hg henv.result), ?_⟩
  exact bind_eq_ok.mpr ⟨_, parseOptionalResult_canonical hf hr (hnd.get? henv.result) _,
    rfl⟩

/-- Normalisation accepts a call in canonical form as well. -/
theorem normalizeCall_canonical (hf : ∀ bits, (readFloat bits).isNumber = true)
    (h : normalizeCall name call = .ok call) :
    normalizeCall name (canonicalCall readFloat call) = .ok (canonicalCall readFloat call) := by
  obtain ⟨⟨hs, hpay, hint, hv, he, hres⟩, -⟩ :=
    normalizeCall_eq_ok.mp h
  have hnd : call.resultSchema.NoDuplicates := by
    obtain ⟨w, hw⟩ := hs
    exact (ownedJsonCopy_eq_ok.mp hw).2.1
  refine normalizeCall_eq_ok.mpr ⟨⟨⟨_, ownedJsonCopy_canonical hf hs⟩,
    ⟨_, ownedJsonCopy_canonical hf hpay⟩, ⟨_, ownedJsonCopy_canonical hf hint⟩,
    (validateSchema_shapeMap (canonical_shapeMap hf) _ _ _ hnd).mp hv, he,
    fun r hr => ?_⟩, rfl⟩
  obtain ⟨r', hr', rfl⟩ := map_eq_some_iff.mp hr
  exact ⟨_, ownedJsonCopy_canonical hf (hres r' hr')⟩

end Canonical

/-! ## Reading back -/

section ReadBack

variable {appendFloat : UInt64 → Except Exn Bytes}
  {readFloat : UInt64 → Json Bytes}
  {parseText : Bytes → Option (Json Bytes)}
  (hformat : Format appendFloat readFloat parseText)
include hformat

variable {bytes : Bytes}

/-- The text of an object with the right fields is opened. -/
theorem openStored_eq_ok {name : String} {format : Bytes} {fields : List Bytes}
    {members : List (Bytes × Json Bytes)}
    (hbs : canonicalJsonBytes appendFloat (.obj members) = .ok bytes)
    (hf : ∀ n ∈ members.map Prod.fst, n ∈ fields)
    (hnm : (obj members).get? (ascii "format") = some (.str format))
    (hutf8 : validateUtf8Impl format = .ok ()) (id : Bytes)
    (hv : (obj members).get? (ascii "storage_schema_version")
      = some (.uint (pendingStorageSchema id))) :
    openStored appendFloat parseText name format fields bytes
      = .ok (canonical readFloat (.obj members)) := by
  have hsh := canonical_shapeMap hformat.number
  have hnd := noDuplicates_of_appendValue (canonicalJsonBytes_eq_ok.mp hbs).2
  have hgetFormat := hsh.get? _ hnd (ascii "format")
  rw [hnm] at hgetFormat
  have hgetVersion := hsh.get? _ hnd (ascii "storage_schema_version")
  rw [hv] at hgetVersion
  unfold openStored
  rw [parseJsonStrict_canonicalJsonBytes hformat hbs]
  refine bind_unit_eq_ok.mpr ⟨require_eq_ok.mpr (by rw [isObject_shapeMap hsh]; rfl), ?_⟩
  refine bind_unit_eq_ok.mpr ⟨rejectUnknownFields_eq_ok hformat.number hf, ?_⟩
  refine bind_eq_ok.mpr ⟨format, requireString_eq_ok hgetFormat hutf8, ?_⟩
  refine bind_unit_eq_ok.mpr ⟨require_eq_ok.mpr (by simp), ?_⟩
  refine bind_eq_ok.mpr ⟨_, requireU64_eq_ok hgetVersion, ?_⟩
  refine bind_unit_eq_ok.mpr ⟨require_eq_ok.mpr ?_, rfl⟩
  unfold pendingStorageSchema
  split <;> decide

/-- The parts of an input that is stored, in canonical form. -/
def canonicalInput (readFloat : UInt64 → Json Bytes) (data : ProgramPendingInputData) :
    ProgramPendingInputData :=
  { data with toProgramPendingCall := canonicalCall readFloat data.toProgramPendingCall }

def canonicalEffect (readFloat : UInt64 → Json Bytes) (data : ProgramPendingEffectData) :
    ProgramPendingEffectData :=
  { data with toProgramPendingCall := canonicalCall readFloat data.toProgramPendingCall }

omit hformat in
theorem inputKindFromString_text (kind : ProgramPendingInputKind) :
    validateUtf8Impl (inputKindText kind) = .ok ()
      ∧ inputKindFromString (inputKindText kind) = .ok kind := by
  cases kind <;> exact ⟨by decide +kernel, by decide +kernel⟩

omit hformat in
theorem effectModeFromString_text (mode : EffectMode) :
    validateUtf8Impl (effectModeText mode) = .ok ()
      ∧ effectModeFromString (effectModeText mode) = .ok mode := by
  cases mode <;> exact ⟨by decide +kernel, by decide +kernel⟩

omit hformat in
theorem idempotencyFromString_text (idempotency : ProgramEffectIdempotency) :
    validateUtf8Impl (idempotencyText idempotency) = .ok ()
      ∧ idempotencyFromString (idempotencyText idempotency) = .ok idempotency := by
  cases idempotency <;> exact ⟨by decide +kernel, by decide +kernel⟩

omit hformat in
theorem reconciliationFromString_text (reconciliation : ProgramEffectReconciliation) :
    validateUtf8Impl (reconciliationText reconciliation) = .ok ()
      ∧ reconciliationFromString (reconciliationText reconciliation) = .ok reconciliation := by
  cases reconciliation <;> exact ⟨by decide +kernel, by decide +kernel⟩

omit hformat in
/-- Whether a result is there does not depend on its form. -/
theorem isSome_canonicalCall (readFloat : UInt64 → Json Bytes) (call : ProgramPendingCall) :
    (canonicalCall readFloat call).result.isSome = call.result.isSome := by
  show (call.result.map _).isSome = _
  rw [isSome_map]

variable {call : ProgramPendingCall}

omit hformat in
theorem matches_canonicalCall (h : ∀ r, call.result = some r →
      valueMatchesSchema (canonical readFloat r) (canonical readFloat call.resultSchema) = .ok ()) :
    ∀ r, (canonicalCall readFloat call).result = some r →
      valueMatchesSchema r (canonicalCall readFloat call).resultSchema = .ok () := by
  intro r hr
  obtain ⟨r', hr', rfl⟩ := map_eq_some_iff.mp hr
  exact h r' hr'

/-- **An input is read back** in canonical form when its envelope is
written and its result still passes its schema. -/
theorem ProgramPendingInput.parse_serializeCanonical {v : ProgramPendingInput}
    (hbs : v.serializeCanonical appendFloat = .ok bytes)
    (hr : ∀ r, v.data.result = some r → valueMatchesSchema (canonical readFloat r)
      (canonical readFloat v.data.resultSchema) = .ok ()) :
    ∃ w, parse appendFloat parseText bytes = .ok w
      ∧ w.data = canonicalInput readFloat v.data := by
  obtain ⟨⟨hop, hid, hnd, hc, hco, hamb, -⟩, -⟩ :=
    normalizeInput_eq_ok.mp v.valid
  have hnrm : normalizeInput (canonicalInput readFloat v.data)
      = .ok (canonicalInput readFloat v.data) := by
    refine normalizeInput_eq_ok.mpr ⟨⟨hop, hid, hnd,
      normalizeCall_canonical hformat.number hc, ?_, hamb,
      matches_canonicalCall hr⟩, rfl⟩
    exact hco.trans (by rw [← isSome_canonicalCall readFloat]; rfl)
  have hv : openStored appendFloat parseText "ProgramPendingInput" inputFormat fields bytes
      = .ok (canonical readFloat (inputEnvelope v.data)) := by
    refine openStored_eq_ok hformat hbs ?_ rfl (by decide +kernel) v.data.coreInterruptId rfl
    show ∀ n ∈ fields, n ∈ fields
    exact fun n hn => hn
  have hwr := (canonicalJsonBytes_eq_ok.mp hbs).2
  have hrd := callFromJson_canonical hformat.number
    "Program pending consumed_result" (hasCall_inputEnvelope v.data) hwr hc
    (validateUtf8Impl_of_validateToken hop) (validateUtf8Impl_of_validateToken hid)
    (validateUtf8Impl_of_validateToken hnd)
  have hkd : (canonical readFloat (inputEnvelope v.data)).get? (ascii "kind")
      = some (.str (inputKindText v.data.kind)) :=
    (canonical_shapeMap hformat.number).get? _ (noDuplicates_of_appendValue hwr) _
  obtain ⟨hkindText, hkindValue⟩ := inputKindFromString_text v.data.kind
  have hd : inputDataFromJson (canonical readFloat (inputEnvelope v.data))
      = .ok (canonicalInput readFloat v.data) := by
    unfold inputDataFromJson
    refine bind_eq_ok.mpr ⟨_, hrd, ?_⟩
    refine bind_eq_ok.mpr ⟨_, requireString_eq_ok hkd hkindText, ?_⟩
    exact bind_eq_ok.mpr ⟨_, hkindValue, rfl⟩
  refine ⟨⟨canonicalInput readFloat v.data, hnrm⟩, ?_, rfl⟩
  exact bind_eq_ok.mpr ⟨_, hv, bind_eq_ok.mpr ⟨_, hd, make_eq_ok.mpr ⟨hnrm, rfl⟩⟩⟩

omit hformat in
/-- The checks of an effect's state look at the result only through its
schema. -/
theorem checkReconciliation_canonical
    {idempotency : ProgramEffectIdempotency} {reconciliation : ProgramEffectReconciliation}
    (h : checkReconciliation call idempotency reconciliation = .ok ())
    (hres : ∀ r, call.result = some r →
      valueMatchesSchema (canonical readFloat r) (canonical readFloat call.resultSchema) = .ok ()) :
    checkReconciliation (canonicalCall readFloat call) idempotency reconciliation = .ok () := by
  have hs := isSome_canonicalCall readFloat call
  have hn : (canonicalCall readFloat call).result.isNone = call.result.isNone := by
    rw [← not_isSome, ← not_isSome, hs]
  have hst : (canonicalCall readFloat call).state = call.state := rfl
  unfold checkReconciliation at h ⊢
  rw [hst]
  cases hcs : call.state with
  | consumed =>
    rw [hcs] at h
    simp only [bind_unit_eq_ok] at h
    obtain ⟨ht, hc, h⟩ := h
    refine bind_unit_eq_ok.mpr ⟨ht, bind_unit_eq_ok.mpr ⟨by rw [hn]; exact hc, ?_⟩⟩
    split_ifs at h with hr
    · rw [if_pos hr]
      exact resultMatches_eq_ok.mpr (matches_canonicalCall hres)
    · rw [if_neg hr, hn]
      exact h
  | ambiguous | awaiting | expired | cancelled =>
    rw [hcs] at h
    dsimp only at h ⊢
    rw [hs]
    exact h

/-- **An effect is read back** in canonical form when its envelope is
written and its result still passes its schema. -/
theorem ProgramPendingEffect.parse_serializeCanonical {v : ProgramPendingEffect}
    (hbs : v.serializeCanonical appendFloat = .ok bytes)
    (hres : ∀ r, v.data.result = some r → valueMatchesSchema (canonical readFloat r)
      (canonical readFloat v.data.resultSchema) = .ok ()) :
    ∃ w, parse appendFloat parseText bytes = .ok w
      ∧ w.data = canonicalEffect readFloat v.data := by
  obtain ⟨⟨hop, hcallId, heid, hnd, hc, hreconciled⟩, -⟩ :=
    normalizeEffect_eq_ok.mp v.valid
  have hnrm : normalizeEffect (canonicalEffect readFloat v.data)
      = .ok (canonicalEffect readFloat v.data) :=
    normalizeEffect_eq_ok.mpr ⟨⟨hop, hcallId, heid, hnd,
      normalizeCall_canonical hformat.number hc,
      checkReconciliation_canonical hreconciled hres⟩, rfl⟩
  have hv : openStored appendFloat parseText "ProgramPendingEffect" effectFormat fields bytes
      = .ok (canonical readFloat (effectEnvelope v.data)) := by
    refine openStored_eq_ok hformat hbs ?_ rfl (by decide +kernel) v.data.coreInterruptId rfl
    show ∀ n ∈ fields, n ∈ fields
    exact fun n hn => hn
  have hwr := (canonicalJsonBytes_eq_ok.mp hbs).2
  have hrd := callFromJson_canonical hformat.number "Program effect reconciled_result"
    (hasCall_effectEnvelope v.data) hwr hc
    (validateUtf8Impl_of_validateToken hop) (validateUtf8Impl_of_validateToken hcallId)
    (validateUtf8Impl_of_validateToken hnd)
  have hg := (canonical_shapeMap hformat.number).get? _ (noDuplicates_of_appendValue hwr)
  have hid := hg (ascii "effect_id")
  have hmode := hg (ascii "effect_mode")
  have hi := hg (ascii "idempotency")
  have hr := hg (ascii "reconciliation")
  obtain ⟨hmodeText, hmodeValue⟩ := effectModeFromString_text v.data.effectMode
  obtain ⟨hidempotencyText, hidempotencyValue⟩ := idempotencyFromString_text v.data.idempotency
  obtain ⟨hreconciliationText, hreconciliationValue⟩ :=
    reconciliationFromString_text v.data.reconciliation
  have hd : effectDataFromJson (canonical readFloat (effectEnvelope v.data))
      = .ok (canonicalEffect readFloat v.data) := by
    unfold effectDataFromJson
    refine bind_eq_ok.mpr ⟨_, hrd, ?_⟩
    refine bind_eq_ok.mpr ⟨v.data.effectId, requireString_eq_ok hid
      (validateUtf8Impl_of_validateToken heid), ?_⟩
    refine bind_eq_ok.mpr ⟨_, requireString_eq_ok hmode hmodeText, ?_⟩
    refine bind_eq_ok.mpr ⟨_, hmodeValue, ?_⟩
    refine bind_eq_ok.mpr ⟨_, requireString_eq_ok hi hidempotencyText, ?_⟩
    refine bind_eq_ok.mpr ⟨_, hidempotencyValue, ?_⟩
    refine bind_eq_ok.mpr ⟨_, requireString_eq_ok hr hreconciliationText, ?_⟩
    exact bind_eq_ok.mpr ⟨_, hreconciliationValue, rfl⟩
  refine ⟨⟨canonicalEffect readFloat v.data, hnrm⟩, ?_, rfl⟩
  exact bind_eq_ok.mpr ⟨_, hv, bind_eq_ok.mpr ⟨_, hd, make_eq_ok.mpr ⟨hnrm, rfl⟩⟩⟩

end ReadBack

end NeoGraph.Program.Pending
