import NeoGraph.CanonicalJson.Compare
import NeoGraph.Lib.JsonPointer
import NeoGraph.Program.PendingStorage

/-!
# Stored entries of the command journal

An entry of the command journal is a command at a coordinate, with its
result once there is one. It is stored in the lowest of three versions that
holds its parts: version 2 adds the settled members of a join, version 3 the
starts of timed awaits. A part that only later versions have is left out
when it is absent; an absent result and an absent effect identity are
written as null.

A result may be any JSON value, null included, and a null result is written
as an absent one is. `survives_iff` says that this is the only loss: entries
without a null result are read back as they were, and their ids tell them
apart.
-/

namespace NeoGraph.Program.CommandJournal

open CanonicalJson Pending Json Option List Function

/-! ## Commands -/

/-- What a program asks its host to do. -/
inductive JavaScriptCommandKind where
  | callCore
  | spawn
  | await
  | join
  | emit
  | checkpoint
  | cancelScope
  | hostCapability
deriving DecidableEq, Repr

def JavaScriptCommandKind.text : JavaScriptCommandKind → Bytes
  | callCore => ascii "call_core"
  | spawn => ascii "spawn"
  | await => ascii "await"
  | join => ascii "join"
  | emit => ascii "emit"
  | checkpoint => ascii "checkpoint"
  | cancelScope => ascii "cancel_scope"
  | hostCapability => ascii "host_capability"

/-- A command, as its parts. -/
structure JavaScriptCommand where
  protocolVersion : UInt32
  kind : JavaScriptCommandKind
  importSlot : UInt32
  sourceSite : Bytes
  arguments : Json Bytes

def JavaScriptCommand.toJson (c : JavaScriptCommand) : Json Bytes :=
  .obj [(ascii "protocol_version", .uint c.protocolVersion.toUInt64),
    (ascii "kind", .str c.kind.text), (ascii "import_slot", .uint c.importSlot.toUInt64),
    (ascii "source_site", .str c.sourceSite), (ascii "arguments", c.arguments)]

/-! ## Entries -/

/-- The content of an entry of the journal. -/
structure EntryData where
  sequence : UInt64
  bundleId : Bytes
  commandOrdinal : UInt64
  command : JavaScriptCommand
  effectIdentity : Option Bytes
  /-- Absent for a pending head. -/
  terminalResult : Option (Json Bytes)
  /-- The members of a paused join that settled. -/
  settledMembers : Option (Json Bytes)
  /-- When the awaits of a pending command started. -/
  awaitStartedAt : Option (Json Bytes)

def format : Bytes := ascii "neograph-program-javascript-command-journal-entry"

/-- The oldest form that has the fields of the entry. -/
def storageSchemaVersion (data : EntryData) : UInt64 :=
  if data.awaitStartedAt.isSome then 3 else if data.settledMembers.isSome then 2 else 1

def encodeEffect : Option Bytes → Json Bytes
  | some effect => .str effect
  | none => .null

/-- What the coordinate of a command is made of. -/
def coordinateBody (data : EntryData) : Json Bytes :=
  .obj [(ascii "bundle_id", .str data.bundleId),
    (ascii "command_ordinal", .uint data.commandOrdinal),
    (ascii "protocol_version", .uint data.command.protocolVersion.toUInt64),
    (ascii "kind", .str data.command.kind.text),
    (ascii "import_slot", .uint data.command.importSlot.toUInt64),
    (ascii "source_site", .str data.command.sourceSite),
    (ascii "arguments", data.command.arguments),
    (ascii "effect_identity", encodeEffect data.effectIdentity)]

/-- A member that is left out when it is absent. -/
def optionalMember (name : String) (value : Option (Json Bytes)) :
    List (Bytes × Json Bytes) :=
  (value.map fun v => (ascii name, v)).toList

/-- The members of the document, in order. -/
def entryMembers (data : EntryData) : List (Bytes × Json Bytes) :=
  [(ascii "format", .str format),
    (ascii "storage_schema_version", .uint (storageSchemaVersion data)),
    (ascii "sequence", .uint data.sequence), (ascii "bundle_id", .str data.bundleId),
    (ascii "command_ordinal", .uint data.commandOrdinal),
    (ascii "command", data.command.toJson),
    (ascii "effect_identity", encodeEffect data.effectIdentity),
    (ascii "terminal_result", data.terminalResult.getD .null)]
  ++ (optionalMember "settled_members" data.settledMembers
    ++ optionalMember "await_started_at" data.awaitStartedAt)

/-- Unsigned milliseconds. -/
def isMilliseconds : Json Bytes → Bool
  | .uint _ => true
  | .sint n => 0 ≤ n
  | _ => false

section Entries

variable (appendFloat : UInt64 → Except Exn Bytes)
  (parseText : Bytes → Option (Json Bytes))
  (sha256Identity : String → Bytes → Bytes)
  (fromJson : Json Bytes → Except Exn JavaScriptCommand)

/-- Members settle only while a join is pending, and one at least. -/
def checkSettled (data : EntryData) : Except Exn Unit :=
  match data.settledMembers with
  | none => .ok ()
  | some members => do
    require (!(data.terminalResult.isSome || data.command.kind ≠ .join || !members.isObject
        || members.members.isEmpty))
      "JavaScript command journal settled members belong to a pending join"
    let _ ← canonicalJsonBytes appendFloat members
    .ok ()

/-- Starts are kept, in milliseconds, while the command is pending. -/
def checkStarts (data : EntryData) : Except Exn Unit :=
  match data.awaitStartedAt with
  | none => .ok ()
  | some starts => do
    require (!(data.terminalResult.isSome || !starts.isObject || starts.members.isEmpty))
      "JavaScript command journal await starts belong to a pending command"
    forEach starts.members fun m => require (!(m.1.isEmpty || !isMilliseconds m.2))
      "JavaScript command journal await start must be unsigned milliseconds"

/-- A result must have a canonical text. -/
def checkResult : Option (Json Bytes) → Except Exn Unit
  | none => .ok ()
  | some result => do
    let _ ← canonicalJsonBytes appendFloat result
    .ok ()

/-- **An entry is refused** by the first check that fails. -/
def validateData (data : EntryData) : Except Exn Unit := do
  require (!(data.sequence = 0 || data.commandOrdinal = 0))
    "JavaScript command journal sequence and ordinal must be positive"
  require (CanonicalJson.isSha256Identity data.bundleId)
    "JavaScript command journal bundle_id must be a sha256 identity"
  require (data.effectIdentity.all CanonicalJson.isSha256Identity)
    "JavaScript command journal effect_identity must be a sha256 identity"
  checkResult appendFloat data.terminalResult
  checkSettled appendFloat data
  checkStarts data

/-- A journal entry. -/
structure Entry where
  data : EntryData
  coordinateId : Bytes
  id : Bytes
  canonicalBytes : Bytes

/-- The JSON parts of the data are copied. -/
def copyData (data : EntryData) : Except Exn EntryData := do
  let terminalResult ← copyResult data.terminalResult
  let settledMembers ← copyResult data.settledMembers
  let awaitStartedAt ← copyResult data.awaitStartedAt
  .ok { data with terminalResult, settledMembers, awaitStartedAt }

/-- **An entry is made** of data that passes the checks. -/
def make (data : EntryData) : Except Exn Entry := do
  validateData appendFloat data
  let data ← copyData data
  let coordinate ← canonicalJsonBytes appendFloat (coordinateBody data)
  let body ← canonicalJsonBytes appendFloat (.obj (entryMembers data))
  let id := sha256Identity "program-javascript-command-journal-entry/v1" body
  let canonicalBytes ← canonicalJsonBytes appendFloat
    (.obj (put (entryMembers data) (ascii "id") (.str id)))
  .ok { data, id, canonicalBytes,
        coordinateId := sha256Identity "program-javascript-command-coordinate/v1" coordinate }

namespace Entry

def pending (e : Entry) : Bool := !e.data.terminalResult.isSome

def completed (e : Entry) : Bool := e.data.terminalResult.isSome

def serializeCanonical (e : Entry) : Bytes := e.canonicalBytes

end Entry

/-! ## Reading -/

/-- A field that must be there. -/
def requireString (value : Json Bytes) (key : String) : Except Exn Bytes :=
  match value.get? (ascii key) with
  | some (.str s) => .ok s
  | _ => .error (.invalidArgument
      ("JavaScript command journal field '" ++ key ++ "' must be a string"))

def requireUInt64 (value : Json Bytes) (key : String) : Except Exn UInt64 :=
  match value.get? (ascii key) with
  | some (.uint n) => .ok n
  | _ => .error (.invalidArgument
      ("JavaScript command journal field '" ++ key ++ "' must be unsigned"))

/-- An unsigned number of 32 bits, kept in 64. -/
def requireUInt32 (value : Json Bytes) (key : String) : Except Exn UInt64 := do
  let number ← requireUInt64 value key
  require (!(0xFFFFFFFF < number)) "JavaScript command journal integer exceeds uint32 range"
  .ok number

def entryFields : List Bytes :=
  [ascii "format", ascii "storage_schema_version", ascii "id", ascii "sequence",
    ascii "bundle_id", ascii "command_ordinal", ascii "command", ascii "effect_identity",
    ascii "terminal_result", ascii "settled_members", ascii "await_started_at"]

/-- Each version holds exactly the members that select it. -/
def versionHolds (version : UInt64) (value : Json Bytes) : Bool :=
  !(decide (version = 3) ≠ value.contains (ascii "await_started_at")
    || (version = 2 && !value.contains (ascii "settled_members"))
    || (version = 1 && value.contains (ascii "settled_members")))

/-- The effect identity, null when there is none. -/
def readEffect (value : Json Bytes) : Except Exn (Option Bytes) := do
  let effect ← atKey value "effect_identity"
  match effect with
  | .null => .ok none
  | _ => do
    let effect ← requireString value "effect_identity"
    .ok (some effect)

/-- The result, null when there is none. -/
def readResult (value : Json Bytes) : Except Exn (Option (Json Bytes)) := do
  let result ← atKey value "terminal_result"
  match result with
  | .null => .ok none
  | result => copyResult (some result)

/-- **A stored entry is read.** -/
def parse (bytes : Bytes) : Except Exn Entry := do
  let value ← parseJsonStrict appendFloat parseText bytes
  require value.isObject "Stored JavaScript command journal entry has unknown format"
  let stored ← requireString value "format"
  require (stored = format) "Stored JavaScript command journal entry has unknown format"
  rejectUnknownFields value "Stored JavaScript command journal entry" entryFields
  let version ← requireUInt32 value "storage_schema_version"
  require (!(version = 0 || 3 < version)) "Stored JavaScript command journal schema unsupported"
  require (versionHolds version value)
    ("Stored JavaScript command journal settled members or await starts disagree with its "
      ++ "schema")
  let effectIdentity ← readEffect value
  let terminalResult ← readResult value
  let sequence ← requireUInt64 value "sequence"
  let bundleId ← requireString value "bundle_id"
  let commandOrdinal ← requireUInt64 value "command_ordinal"
  let command ← atKey value "command"
  let command ← fromJson command
  let settledMembers ← copyResult (value.get? (ascii "settled_members"))
  let awaitStartedAt ← copyResult (value.get? (ascii "await_started_at"))
  let parsed ← make appendFloat sha256Identity ⟨sequence, bundleId, commandOrdinal, command,
    effectIdentity, terminalResult, settledMembers, awaitStartedAt⟩
  let id ← requireString value "id"
  require (parsed.id = id) "Stored JavaScript command journal entry id mismatch"
  .ok parsed

end Entries

/-! ## What is kept -/

section Kept

variable (readFloat : UInt64 → Json Bytes)

/-- Optional values are both absent, or there and the same. -/
def SameOptional (o o' : Option (Json Bytes)) : Prop :=
  o.map (canonical readFloat) = o'.map (canonical readFloat)

/-- Data is equal in every part. -/
structure SameData (data data' : EntryData) : Prop where
  sequence : data.sequence = data'.sequence
  bundleId : data.bundleId = data'.bundleId
  commandOrdinal : data.commandOrdinal = data'.commandOrdinal
  protocolVersion : data.command.protocolVersion = data'.command.protocolVersion
  kind : data.command.kind = data'.command.kind
  importSlot : data.command.importSlot = data'.command.importSlot
  sourceSite : data.command.sourceSite = data'.command.sourceSite
  arguments : SameJson readFloat data.command.arguments data'.command.arguments
  effectIdentity : data.effectIdentity = data'.effectIdentity
  terminalResult : SameOptional readFloat data.terminalResult data'.terminalResult
  settledMembers : SameOptional readFloat data.settledMembers data'.settledMembers
  awaitStartedAt : SameOptional readFloat data.awaitStartedAt data'.awaitStartedAt

/-- A command is read back from its JSON, however that is spelled. -/
def Inverts (fromJson : Json Bytes → Except Exn JavaScriptCommand)
    (c : JavaScriptCommand) : Prop :=
  ∀ v, SameJson readFloat v c.toJson →
    ∃ c', fromJson v = .ok c' ∧ SameJson readFloat c'.toJson c.toJson

end Kept

/-- **An entry survives storage**: it is read back, equal in every
accessor. -/
def Survives (appendFloat : UInt64 → Except Exn Bytes)
    (readFloat : UInt64 → Json Bytes) (parseText : Bytes → Option (Json Bytes))
    (sha256Identity : String → Bytes → Bytes)
    (fromJson : Json Bytes → Except Exn JavaScriptCommand) (e : Entry) : Prop :=
  ∃ e', parse appendFloat parseText sha256Identity fromJson e.serializeCanonical = .ok e'
    ∧ SameData readFloat e'.data e.data ∧ e'.pending = e.pending ∧ e'.completed = e.completed
    ∧ e'.coordinateId = e.coordinateId ∧ e'.id = e.id

/-! ## The members of a stored entry -/

section Members

variable {appendFloat : UInt64 → Except Exn Bytes}
  {readFloat : UInt64 → Json Bytes}
  (hnumber : ∀ bits, (readFloat bits).isNumber = true)

/-- What is found in a value that an entry was written to. -/
structure HasData (value : Json Bytes) (data : EntryData) : Prop where
  format : value.get? (ascii "format") = some (.str format)
  version : value.get? (ascii "storage_schema_version")
    = some (.uint (storageSchemaVersion data))
  sequence : value.get? (ascii "sequence") = some (.uint data.sequence)
  bundleId : value.get? (ascii "bundle_id") = some (.str data.bundleId)
  commandOrdinal : value.get? (ascii "command_ordinal") = some (.uint data.commandOrdinal)
  command : value.get? (ascii "command") = some data.command.toJson
  effectIdentity : value.get? (ascii "effect_identity")
    = some (encodeEffect data.effectIdentity)
  terminalResult : value.get? (ascii "terminal_result")
    = some (data.terminalResult.getD .null)
  settledMembers : value.get? (ascii "settled_members") = data.settledMembers
  awaitStartedAt : value.get? (ascii "await_started_at") = data.awaitStartedAt

theorem hasData_entryMembers (data : EntryData) : HasData (.obj (entryMembers data)) data := by
  obtain ⟨sequence, bundleId, commandOrdinal, command, effect, result, settled, starts⟩ := data
  refine ⟨rfl, rfl, rfl, rfl, rfl, rfl, rfl, rfl, ?_, ?_⟩ <;> cases settled <;> cases starts <;> rfl

/-- The names of an entry's members. -/
theorem names_entryMembers (data : EntryData) :
    ∀ name ∈ (entryMembers data).map Prod.fst, name ∈ entryFields ∧ name ≠ ascii "id" := by
  obtain ⟨sequence, bundleId, commandOrdinal, command, effect, result, settled, starts⟩ := data
  cases settled <;> cases starts <;>
    simp only [entryMembers, optionalMember, map_none, map_some, toList_none,
      toList_some, append_nil, nil_append, cons_append, map_cons,
      map_nil] <;>
    decide

end Members

/-! ## Making an entry -/

section Making

variable {appendFloat : UInt64 → Except Exn Bytes}
  {sha256Identity : String → Bytes → Bytes}

/-- A part that can be copied, or is absent. -/
def Copyable (part : Option (Json Bytes)) : Prop :=
  ∀ v, part = some v → ∃ w, ownedJsonCopy v = .ok w

theorem copyResult_eq_ok {part part' : Option (Json Bytes)} :
    copyResult part = .ok part' ↔ Copyable part ∧ part' = part := by
  cases part with
  | none =>
    constructor
    · rintro ⟨⟩
      exact ⟨fun _ => nofun, rfl⟩
    · rintro ⟨-, rfl⟩
      rfl
  | some v =>
    unfold copyResult
    rw [bind_eq_ok]
    constructor
    · rintro ⟨w, hw, h⟩
      cases h
      obtain ⟨-, -, rfl⟩ := ownedJsonCopy_eq_ok.mp hw
      exact ⟨fun u hu => Option.some.inj hu ▸ ⟨_, hw⟩, rfl⟩
    · rintro ⟨hc, rfl⟩
      obtain ⟨w, hw⟩ := hc v rfl
      obtain ⟨-, -, rfl⟩ := ownedJsonCopy_eq_ok.mp hw
      exact ⟨w, hw, rfl⟩

/-- What an entry's data went through. -/
structure Made (appendFloat : UInt64 → Except Exn Bytes)
    (sha256Identity : String → Bytes → Bytes) (data : EntryData) (e : Entry) : Prop where
  valid : validateData appendFloat data = .ok ()
  terminalResult : Copyable data.terminalResult
  settledMembers : Copyable data.settledMembers
  awaitStartedAt : Copyable data.awaitStartedAt
  data_eq : e.data = data
  coordinate : ∃ bytes, canonicalJsonBytes appendFloat (coordinateBody data) = .ok bytes
    ∧ e.coordinateId = sha256Identity "program-javascript-command-coordinate/v1" bytes
  body : ∃ bytes, canonicalJsonBytes appendFloat (.obj (entryMembers data)) = .ok bytes
    ∧ e.id = sha256Identity "program-javascript-command-journal-entry/v1" bytes
  bytes : canonicalJsonBytes appendFloat
    (.obj (put (entryMembers data) (ascii "id") (.str e.id))) = .ok e.canonicalBytes

/-- An entry is made of data that pass their checks. -/
theorem make_eq_ok {data : EntryData} {e : Entry} :
    make appendFloat sha256Identity data = .ok e ↔ Made appendFloat sha256Identity data e := by
  unfold make copyData
  constructor
  · intro h
    obtain ⟨hv, h⟩ := bind_unit_eq_ok.mp h
    obtain ⟨data', hcp, h⟩ := bind_eq_ok.mp h
    obtain ⟨result, hr, hcp⟩ := bind_eq_ok.mp hcp
    obtain ⟨settled, hs, hcp⟩ := bind_eq_ok.mp hcp
    obtain ⟨starts, hsts, hcp⟩ := bind_eq_ok.mp hcp
    obtain ⟨hcopyResult, rfl⟩ := copyResult_eq_ok.mp hr
    obtain ⟨hcopySettled, rfl⟩ := copyResult_eq_ok.mp hs
    obtain ⟨hcopyStarts, rfl⟩ := copyResult_eq_ok.mp hsts
    cases hcp
    simp only [bind_eq_ok] at h
    obtain ⟨coordinate, hc, body, hb, bytes, hbs, h⟩ := h
    cases h
    exact ⟨hv, hcopyResult, hcopySettled, hcopyStarts, rfl, ⟨coordinate, hc, rfl⟩,
      ⟨body, hb, rfl⟩, hbs⟩
  · rintro ⟨hv, hr, hs, hsts, rfl, ⟨coordinate, hc, hcid⟩,
      ⟨body, hb, hid⟩, hbs⟩
    refine bind_unit_eq_ok.mpr ⟨hv, bind_eq_ok.mpr ⟨e.data, ?_, ?_⟩⟩
    · exact bind_eq_ok.mpr ⟨_, copyResult_eq_ok.mpr ⟨hr, rfl⟩, bind_eq_ok.mpr
        ⟨_, copyResult_eq_ok.mpr ⟨hs, rfl⟩, bind_eq_ok.mpr
          ⟨_, copyResult_eq_ok.mpr ⟨hsts, rfl⟩, rfl⟩⟩⟩
    · refine bind_eq_ok.mpr ⟨coordinate, hc, bind_eq_ok.mpr ⟨body, hb, ?_⟩⟩
      rw [hid] at hbs
      refine bind_eq_ok.mpr ⟨e.canonicalBytes, hbs, ?_⟩
      rw [← hid, ← hcid]

end Making

/-! ## The same data makes the same entry -/

section Same

variable {readFloat : UInt64 → Json Bytes}

theorem kindText_injective : Injective JavaScriptCommandKind.text := by
  intro k k' h
  cases k <;> cases k' <;> first | rfl | exact absurd h (by decide)

variable {c c' : JavaScriptCommand}

/-- The JSON of a command tells its parts. -/
theorem parts_of_sameJson (h : SameJson readFloat c.toJson c'.toJson) :
    c.protocolVersion = c'.protocolVersion ∧ c.kind = c'.kind ∧ c.importSlot = c'.importSlot
      ∧ c.sourceSite = c'.sourceSite ∧ SameJson readFloat c.arguments c'.arguments := by
  have hn : ∀ c : JavaScriptCommand, (c.toJson.members.map Prod.fst).Nodup := by
    intro c
    show [ascii "protocol_version", ascii "kind", ascii "import_slot", ascii "source_site",
      ascii "arguments"].Nodup
    decide
  have hpts := (canonical_obj_eq_iff (hn c) (hn c')).mp h
  have hv := Option.some.inj (hpts (ascii "protocol_version"))
  have hkd := Option.some.inj (hpts (ascii "kind"))
  have hsl := Option.some.inj (hpts (ascii "import_slot"))
  have hs := Option.some.inj (hpts (ascii "source_site"))
  exact ⟨UInt32.toUInt64_inj.mp (uint.inj hv), kindText_injective (str.inj hkd),
    UInt32.toUInt64_inj.mp (uint.inj hsl), str.inj hs,
    Option.some.inj (hpts (ascii "arguments"))⟩

theorem sameJson_toJson (hv : c.protocolVersion = c'.protocolVersion)
    (hkd : c.kind = c'.kind) (hsl : c.importSlot = c'.importSlot)
    (hs : c.sourceSite = c'.sourceSite)
    (ha : SameJson readFloat c.arguments c'.arguments) :
    SameJson readFloat c.toJson c'.toJson := by
  refine canonical_obj_congr ?_
  rw [hv, hkd, hsl, hs]
  exact .cons ⟨rfl, rfl⟩ (.cons ⟨rfl, rfl⟩ (.cons ⟨rfl, rfl⟩ (.cons ⟨rfl, rfl⟩
    (.cons ⟨rfl, ha⟩ .nil))))

variable {o o' : Option (Json Bytes)}

theorem isSome_eq_of_same (h : SameOptional readFloat o o') : o.isSome = o'.isSome := by
  have hs := congrArg isSome h
  rwa [isSome_map, isSome_map] at hs

variable {data data' : EntryData}

theorem SameData.version_eq (h : SameData readFloat data data') :
    storageSchemaVersion data = storageSchemaVersion data' := by
  unfold storageSchemaVersion
  rw [isSome_eq_of_same h.awaitStartedAt, isSome_eq_of_same h.settledMembers]

theorem optionalMember_same (name : String) (h : SameOptional readFloat o o') :
    Forall₂ (fun m n => m.1 = n.1 ∧ canonical readFloat m.2 = canonical readFloat n.2)
      (optionalMember name o) (optionalMember name o') := by
  cases o with
  | none =>
    cases o' with
    | none => exact .nil
    | some v' => cases h
  | some v =>
    cases o' with
    | none => cases h
    | some v' => exact .cons ⟨rfl, Option.some.inj h⟩ .nil

/-- A missing value is null. -/
theorem getD_null_same (h : SameOptional readFloat o o') :
    SameJson readFloat (o.getD .null) (o'.getD .null) := by
  cases o with
  | none =>
    cases o' with
    | none => rfl
    | some v' => cases h
  | some v =>
    cases o' with
    | none => cases h
    | some v' => exact Option.some.inj h

/-- **Equal data is written alike.** -/
theorem SameData.entryMembers (h : SameData readFloat data data') :
    Forall₂ (fun m n => m.1 = n.1 ∧ canonical readFloat m.2 = canonical readFloat n.2)
      (entryMembers data) (entryMembers data') := by
  have hcmd := sameJson_toJson h.protocolVersion h.kind h.importSlot h.sourceSite h.arguments
  refine rel_append ?_ (rel_append (optionalMember_same _ h.settledMembers)
    (optionalMember_same _ h.awaitStartedAt))
  rw [h.version_eq, h.sequence, h.bundleId, h.commandOrdinal, h.effectIdentity]
  exact .cons ⟨rfl, rfl⟩ (.cons ⟨rfl, rfl⟩ (.cons ⟨rfl, rfl⟩ (.cons ⟨rfl, rfl⟩
    (.cons ⟨rfl, rfl⟩ (.cons ⟨rfl, hcmd⟩ (.cons ⟨rfl, rfl⟩
      (.cons ⟨rfl, getD_null_same h.terminalResult⟩ .nil)))))))

theorem SameData.coordinateBody (h : SameData readFloat data data') :
    SameJson readFloat (coordinateBody data) (coordinateBody data') := by
  refine canonical_obj_congr ?_
  rw [h.bundleId, h.commandOrdinal, h.protocolVersion, h.kind, h.importSlot, h.sourceSite,
    h.effectIdentity]
  exact .cons ⟨rfl, rfl⟩ (.cons ⟨rfl, rfl⟩ (.cons ⟨rfl, rfl⟩ (.cons ⟨rfl, rfl⟩
    (.cons ⟨rfl, rfl⟩ (.cons ⟨rfl, rfl⟩ (.cons ⟨rfl, h.arguments⟩ (.cons ⟨rfl, rfl⟩ .nil)))))))

end Same

/-! ## Data in canonical form -/

section Canonical

variable {appendFloat : UInt64 → Except Exn Bytes}
  {readFloat : UInt64 → Json Bytes}
  {parseText : Bytes → Option (Json Bytes)}
  {sha256Identity : String → Bytes → Bytes}
  (hformat : Format appendFloat readFloat parseText)

/-- The data a reader gets back: the JSON parts are in canonical form, and
the command is the one that was read. -/
def canonicalData (readFloat : UInt64 → Json Bytes) (data : EntryData)
    (command : JavaScriptCommand) : EntryData :=
  { data with
    command := command
    terminalResult := data.terminalResult.map (canonical readFloat)
    settledMembers := data.settledMembers.map (canonical readFloat)
    awaitStartedAt := data.awaitStartedAt.map (canonical readFloat) }

variable {v : Json Bytes}

theorem isMilliseconds_canonical (h : isMilliseconds v = true) :
    isMilliseconds (canonical readFloat v) = true := by
  cases v with
  | uint n => rfl
  | sint n =>
    show isMilliseconds (normalize (.sint n)) = true
    rw [Json.normalize, if_pos (of_decide_eq_true h)]
    rfl
  | _ => cases h

variable {data : EntryData}

theorem validateData_eq_ok : validateData appendFloat data = .ok ()
      ↔ (!(data.sequence = 0 || data.commandOrdinal = 0)) = true
        ∧ CanonicalJson.isSha256Identity data.bundleId = true
          ∧ data.effectIdentity.all CanonicalJson.isSha256Identity = true
        ∧ checkResult appendFloat data.terminalResult = .ok ()
        ∧ checkSettled appendFloat data = .ok () ∧ checkStarts data = .ok () := by
  unfold validateData
  rw [bind_unit_eq_ok, bind_unit_eq_ok, bind_unit_eq_ok, bind_unit_eq_ok, bind_unit_eq_ok,
    require_eq_ok, require_eq_ok, require_eq_ok]

include hformat

theorem isEmpty_members_canonical (v : Json Bytes) :
    (canonical readFloat v).members.isEmpty = v.members.isEmpty := by
  have hl := ((canonical_shapeMap hformat.number).members v).length_eq
  rw [length_map] at hl
  rw [Bool.eq_iff_iff, isEmpty_iff_length_eq_zero, isEmpty_iff_length_eq_zero, hl]

theorem checkResult_canonical {result : Option (Json Bytes)}
    (h : checkResult appendFloat result = .ok ()) :
    checkResult appendFloat (result.map (canonical readFloat)) = .ok () := by
  cases result with
  | none => rfl
  | some r =>
    obtain ⟨bytes, hbs, -⟩ := bind_eq_ok.mp h
    exact bind_eq_ok.mpr ⟨bytes, (canonicalJsonBytes_canonical hformat).mpr hbs, rfl⟩

variable {command : JavaScriptCommand}

/-- So do the members that settled. -/
theorem checkSettled_canonical (h : checkSettled appendFloat data = .ok ())
    (hkd : command.kind = data.command.kind) :
    checkSettled appendFloat (canonicalData readFloat data command) = .ok () := by
  unfold checkSettled at h
  show (match data.settledMembers.map (canonical readFloat) with
    | none => _
    | some _ => _) = _
  cases hs : data.settledMembers with
  | none => rfl
  | some members =>
    rw [hs] at h
    simp only [↓bind_unit_eq_ok, bind_eq_ok] at h
    obtain ⟨hr, bytes, hbs, -⟩ := h
    refine bind_unit_eq_ok.mpr ⟨require_eq_ok.mpr ?_, bind_eq_ok.mpr
      ⟨bytes, (canonicalJsonBytes_canonical hformat).mpr hbs, rfl⟩⟩
    have hr := require_eq_ok.mp hr
    rw [isObject_shapeMap (canonical_shapeMap hformat.number), isEmpty_members_canonical hformat]
    show (!((data.terminalResult.map _).isSome || decide (command.kind ≠ .join) || _ || _)) = true
    rw [isSome_map, hkd]
    exact hr

/-- The starts pass their check again when they are read. -/
theorem checkStarts_canonical (h : checkStarts data = .ok ()) (command : JavaScriptCommand) :
    checkStarts (canonicalData readFloat data command) = .ok () := by
  unfold checkStarts at h
  show (match data.awaitStartedAt.map (canonical readFloat) with
    | none => _
    | some _ => _) = _
  cases hsts : data.awaitStartedAt with
  | none => rfl
  | some starts =>
    rw [hsts] at h
    obtain ⟨hr, h⟩ := bind_unit_eq_ok.mp h
    refine bind_unit_eq_ok.mpr ⟨require_eq_ok.mpr ?_, forEach_eq_ok.mpr fun m hm =>
      require_eq_ok.mpr ?_⟩
    · rw [isObject_shapeMap (canonical_shapeMap hformat.number), isEmpty_members_canonical hformat]
      show (!((data.terminalResult.map _).isSome || _ || _)) = true
      rw [isSome_map]
      exact require_eq_ok.mp hr
    · obtain ⟨n, hn, rfl⟩ := mem_map.mp
        (((canonical_shapeMap hformat.number).members starts).mem_iff.mp hm)
      have hp := require_eq_ok.mp (forEach_eq_ok.mp h n hn)
      simp only [Bool.not_eq_true', Bool.or_eq_false_iff, Bool.not_eq_false'] at hp ⊢
      exact ⟨hp.1, isMilliseconds_canonical hp.2⟩

variable {part : Option (Json Bytes)}

theorem copyable_canonical (h : Copyable part) : Copyable (part.map (canonical readFloat)) := by
  intro v hv
  obtain ⟨w, hw, rfl⟩ := map_eq_some_iff.mp hv
  exact ⟨_, ownedJsonCopy_canonical hformat.number (h w hw)⟩

/-- An optional part in canonical form is the same. -/
theorem sameOptional_canonical (h : ∀ v, part = some v → Written appendFloat v) :
    SameOptional readFloat (part.map (canonical readFloat)) part := by
  cases part with
  | none => rfl
  | some v => exact congrArg some (canonical_canonical hformat (h v rfl))

variable {e : Entry}

omit hformat in
/-- The members of an entry's data are written with it. -/
theorem Made.written (h : Made appendFloat sha256Identity data e) {name : String}
    (hg : (obj (entryMembers data)).get? (ascii name) = some v) : Written appendFloat v := by
  obtain ⟨bytes, hbs, -⟩ := h.body
  exact Written.get? ⟨bytes, hbs⟩ hg

/-- What is read back is the data of the entry. -/
theorem Made.sameData (h : Made appendFloat sha256Identity data e)
    (hcmd : SameJson readFloat command.toJson data.command.toJson) :
    SameData readFloat (canonicalData readFloat data command) data := by
  obtain ⟨hver, hkd, hsl, hs, ha⟩ := parts_of_sameJson hcmd
  have hd := hasData_entryMembers data
  refine ⟨rfl, rfl, rfl, hver, hkd, hsl, hs, ha, rfl,
    sameOptional_canonical hformat fun v hv => h.written (hd.terminalResult.trans ?_),
    sameOptional_canonical hformat fun v hv => h.written (hd.settledMembers.trans hv),
    sameOptional_canonical hformat fun v hv => h.written (hd.awaitStartedAt.trans hv)⟩
  rw [hv]
  rfl

omit hformat in
/-- The id is written behind the data. -/
theorem put_id (data : EntryData) (v : Json Bytes) :
    put (entryMembers data) (ascii "id") v = entryMembers data ++ [(ascii "id", v)] := by
  unfold put
  rw [if_neg]
  rw [← mem_names_iff]
  exact fun hm => (names_entryMembers data _ hm).2 rfl

/-- **The data a reader gets back makes the same entry.** -/
theorem Made.canonicalData (h : Made appendFloat sha256Identity data e)
    (hcmd : SameJson readFloat command.toJson data.command.toJson) :
    ∃ e', Made appendFloat sha256Identity (canonicalData readFloat data command) e'
      ∧ e'.coordinateId = e.coordinateId ∧ e'.id = e.id := by
  have hsm := h.sameData hformat hcmd
  obtain ⟨hpositive, hbun, heff, hr, hs, hsts⟩ :=
    validateData_eq_ok.mp h.valid
  obtain ⟨coordinate, hc, hcid⟩ := h.coordinate
  obtain ⟨body, hb, hid⟩ := h.body
  have hbs := h.bytes
  rw [put_id] at hbs
  refine ⟨⟨_, e.coordinateId, e.id, e.canonicalBytes⟩, ⟨?_, copyable_canonical hformat
    h.terminalResult, copyable_canonical hformat h.settledMembers,
    copyable_canonical hformat h.awaitStartedAt, rfl, ⟨coordinate, ?_, hcid⟩,
    ⟨body, ?_, hid⟩, ?_⟩, rfl, rfl⟩
  · exact validateData_eq_ok.mpr ⟨hpositive, hbun, heff,
      checkResult_canonical hformat hr,
      checkSettled_canonical hformat hs (parts_of_sameJson hcmd).2.1,
      checkStarts_canonical hformat hsts command⟩
  · exact canonicalJsonBytes_congr hformat hsm.coordinateBody hc
  · exact canonicalJsonBytes_congr hformat (canonical_obj_congr hsm.entryMembers) hb
  · rw [put_id]
    exact canonicalJsonBytes_congr hformat (canonical_obj_congr
      (rel_append hsm.entryMembers (.cons ⟨rfl, rfl⟩ .nil))) hbs

/-- The members a reader finds are those of the data, in canonical form. -/
theorem Made.get? (h : Made appendFloat sha256Identity data e) {key : String}
    (hk : ascii key ≠ ascii "id") : (canonical readFloat
        (.obj (put (entryMembers data) (ascii "id") (.str e.id)))).get? (ascii key)
      = ((obj (entryMembers data)).get? (ascii key)).map (canonical readFloat) := by
  rw [get?_canonical hformat.number (Written.noDuplicates ⟨_, h.bytes⟩), get?_put, if_neg hk]

omit hformat in
theorem canonical_encodeEffect (effect : Option Bytes) :
    canonical readFloat (encodeEffect effect) = encodeEffect effect := by
  cases effect <;> rfl

theorem isNull_canonical (h : canonical readFloat v = .null) : v = .null := by
  have hkd := kind_canonical hformat.number v
  rw [h] at hkd
  cases v <;> first | rfl | cases hkd

variable {fromJson : Json Bytes → Except Exn JavaScriptCommand}

/-- **A stored entry is read** as the data it was written from, when its
result is not null and its command is read back. -/
theorem Made.parse (h : Made appendFloat sha256Identity data e)
    (hcmd : Inverts readFloat fromJson data.command)
    (hr : data.terminalResult ≠ some .null) :
    Survives appendFloat readFloat parseText sha256Identity fromJson e := by
  have hnumber := hformat.number
  have hd := hasData_entryMembers data
  let value := canonical readFloat
    (.obj (Json.put (entryMembers data) (ascii "id") (.str e.id)))
  obtain ⟨bytes, hbs, -⟩ := h.body
  have hrd : SameJson readFloat (canonical readFloat data.command.toJson)
      data.command.toJson := canonical_canonical hformat (h.written hd.command)
  obtain ⟨command, hfr, hsm⟩ := hcmd _ hrd
  obtain ⟨e', hm, hcid, hid⟩ := h.canonicalData hformat hsm
  have hd' := h.sameData hformat hsm
  have hformatText : requireString value "format" = .ok format := by
    unfold requireString
    rw [h.get? hformat (by decide), hd.format]
    rfl
  have hver : requireUInt32 value "storage_schema_version"
      = .ok (storageSchemaVersion data) := by
    unfold requireUInt32 requireUInt64
    rw [h.get? hformat (by decide), hd.version]
    refine bind_unit_eq_ok.mpr ⟨require_eq_ok.mpr ?_, rfl⟩
    unfold storageSchemaVersion
    cases data.awaitStartedAt <;> cases data.settledMembers <;> rfl
  have hf : rejectUnknownFields value "Stored JavaScript command journal entry" entryFields
      = .ok () := by
    refine rejectUnknownFields_eq_ok hnumber fun n hn => ?_
    rw [put_id, List.map_append, List.mem_append] at hn
    obtain hn | hn := hn
    · exact (names_entryMembers data n hn).1
    · rw [List.mem_singleton.mp hn]
      show ascii "id" ∈ entryFields
      decide
  have hset : value.get? (ascii "settled_members")
      = data.settledMembers.map (canonical readFloat) := by
    rw [h.get? hformat (by decide), hd.settledMembers]
  have hsts : value.get? (ascii "await_started_at")
      = data.awaitStartedAt.map (canonical readFloat) := by
    rw [h.get? hformat (by decide), hd.awaitStartedAt]
  have hh : versionHolds (storageSchemaVersion data) value = true := by
    unfold versionHolds Json.contains storageSchemaVersion
    rw [hset, hsts]
    cases data.awaitStartedAt <;> cases data.settledMembers <;> rfl
  have heff : readEffect value = .ok data.effectIdentity := by
    unfold readEffect atKey requireString
    rw [h.get? hformat (by decide), hd.effectIdentity, Option.map_some, canonical_encodeEffect]
    cases data.effectIdentity <;> rfl
  have ht : readResult value = .ok (data.terminalResult.map (canonical readFloat)) := by
    unfold readResult atKey
    rw [h.get? hformat (by decide), hd.terminalResult]
    cases hs : data.terminalResult with
    | none => rfl
    | some r =>
      have hnl : canonical readFloat r ≠ .null := fun hnl =>
        hr (hs.trans (congrArg some (isNull_canonical hformat hnl)))
      have hc : copyResult (some (canonical readFloat r)) = .ok (some (canonical readFloat r)) :=
        copyResult_eq_ok.mpr
          ⟨copyable_canonical hformat fun v hv => h.terminalResult v (hs.trans hv), rfl⟩
      show (match canonical readFloat r with
        | .null => _
        | result => copyResult (some result)) = _
      split
      · rename_i heq
        exact absurd heq hnl
      · exact hc
  have hid' : requireString value "id" = .ok e.id := by
    unfold requireString
    rw [get?_canonical hnumber (Written.noDuplicates ⟨_, h.bytes⟩), Json.get?_put, if_pos rfl]
    rfl
  have hs : e'.data.terminalResult.isSome = e.data.terminalResult.isSome := by
    rw [hm.data_eq, h.data_eq]
    exact Option.isSome_map
  refine ⟨e', ?_, ?_, congrArg not hs, hs, hcid, hid⟩
  · have ho : value.isObject = true := by
      rw [isObject_shapeMap (canonical_shapeMap hnumber)]
      rfl
    unfold CommandJournal.parse
    simp only [↓bind_unit_eq_ok, bind_eq_ok, require_eq_ok]
    refine ⟨value, ?_⟩
    rw [hset, hsts]
    refine ⟨parseJsonStrict_canonicalJsonBytes hformat h.bytes, ho, _, hformatText,
      by simp, hf, _, hver, ?_, hh, _, heff, _, ht, data.sequence, ?_,
      data.bundleId, ?_, data.commandOrdinal, ?_, canonical readFloat data.command.toJson, ?_,
      command, hfr, _, copyResult_eq_ok.mpr ⟨copyable_canonical hformat h.settledMembers, rfl⟩, _,
      copyResult_eq_ok.mpr ⟨copyable_canonical hformat h.awaitStartedAt, rfl⟩, e',
      make_eq_ok.mpr hm, e.id, hid', decide_eq_true hid, rfl⟩
    · unfold storageSchemaVersion
      cases data.awaitStartedAt <;> cases data.settledMembers <;> rfl
    · unfold requireUInt64
      rw [h.get? hformat (by decide), hd.sequence]
      rfl
    · unfold requireString
      rw [h.get? hformat (by decide), hd.bundleId]
      rfl
    · unfold requireUInt64
      rw [h.get? hformat (by decide), hd.commandOrdinal]
      rfl
    · unfold atKey
      rw [h.get? hformat (by decide), hd.command]
      rfl
  · rw [hm.data_eq, h.data_eq]
    exact hd'

/-- A null result is read back as none. -/
theorem Made.not_survives (h : Made appendFloat sha256Identity data e)
    (hr : data.terminalResult = some .null) :
    ¬Survives appendFloat readFloat parseText sha256Identity fromJson e := by
  rintro ⟨e', hp, -, -, hc, -⟩
  obtain ⟨value, hv, hp⟩ := bind_eq_ok.mp hp
  obtain rfl := Except.ok.inj
    ((parseJsonStrict_canonicalJsonBytes hformat h.bytes).symm.trans hv)
  simp only [↓bind_unit_eq_ok, bind_eq_ok] at hp
  obtain ⟨-, _, -, -, -, _, -, -, -, _, -, result, hrd, _, -, _, -, _, -, _, -, _, -, _, -, _, -,
    parsed, hmake, _, -, -, hok⟩ := hp
  have hn : result = none := by
    unfold readResult atKey at hrd
    rw [h.get? hformat (by decide), (hasData_entryMembers data).terminalResult, hr] at hrd
    exact (Except.ok.inj hrd).symm
  subst hn
  cases hok
  unfold Entry.completed at hc
  rw [(make_eq_ok.mp hmake).data_eq, h.data_eq, hr] at hc
  cases hc

/-! ## Ids -/

omit hformat in
theorem eq_of_getD_null {o o' : Option (Json Bytes)} (h : o ≠ some .null)
    (h' : o' ≠ some .null) (hsm : SameJson readFloat (o.getD .null) (o'.getD .null))
    (hn : ∀ v : Json Bytes, canonical readFloat v = .null → v = .null) :
    SameOptional readFloat o o' := by
  cases o with
  | none =>
    cases o' with
    | none => rfl
    | some v' => exact absurd (congrArg some (hn v' hsm.symm)) h'
  | some v =>
    cases o' with
    | none => exact absurd (congrArg some (hn v hsm)) h
    | some v' => exact congrArg some hsm

omit hformat in
theorem encodeEffect_injective : Injective encodeEffect := by
  intro o o' h
  cases o with
  | none =>
    cases o' with
    | none => rfl
    | some effect' => cases h
  | some effect =>
    cases o' with
    | none => cases h
    | some effect' => exact congrArg some (str.inj h)

/-- **The id tells entries apart** whose results are not null. -/
theorem Made.sameData_of_id (hsha : ∀ domain, Injective (sha256Identity domain))
    {data' : EntryData} {e' : Entry} (h : Made appendFloat sha256Identity data e)
    (h' : Made appendFloat sha256Identity data' e') (hid : e.id = e'.id)
    (hr : data.terminalResult ≠ some .null) (hr' : data'.terminalResult ≠ some .null) :
    SameData readFloat data data' := by
  obtain ⟨body, hb, hidBody⟩ := h.body
  obtain ⟨body', hb', hidBody'⟩ := h'.body
  obtain rfl : body = body' := hsha _ (hidBody.symm.trans (hid.trans hidBody'))
  have hcan := canonical_eq_of_bytes hformat hb hb'
  have hg : ∀ key : String, ((obj (entryMembers data)).get? (ascii key)).map (canonical readFloat)
        = ((obj (entryMembers data')).get? (ascii key)).map (canonical readFloat) := by
    intro key
    rw [← get?_canonical hformat.number (Written.noDuplicates ⟨_, hb⟩), hcan,
      get?_canonical hformat.number (Written.noDuplicates ⟨_, hb'⟩)]
  have hd := hasData_entryMembers data
  have hd' := hasData_entryMembers data'
  have hseq := hg "sequence"
  have hbun := hg "bundle_id"
  have ho := hg "command_ordinal"
  have hcmd := hg "command"
  have heff := hg "effect_identity"
  have ht := hg "terminal_result"
  have hs := hg "settled_members"
  have hsts := hg "await_started_at"
  rw [hd.sequence, hd'.sequence] at hseq
  rw [hd.bundleId, hd'.bundleId] at hbun
  rw [hd.commandOrdinal, hd'.commandOrdinal] at ho
  rw [hd.command, hd'.command] at hcmd
  rw [hd.effectIdentity, hd'.effectIdentity, map_some, map_some,
    canonical_encodeEffect, canonical_encodeEffect] at heff
  rw [hd.terminalResult, hd'.terminalResult] at ht
  rw [hd.settledMembers, hd'.settledMembers] at hs
  rw [hd.awaitStartedAt, hd'.awaitStartedAt] at hsts
  obtain ⟨hv, hkd, hsl, hst, ha⟩ := parts_of_sameJson (Option.some.inj hcmd)
  exact ⟨uint.inj (Option.some.inj hseq), str.inj (Option.some.inj hbun),
    uint.inj (Option.some.inj ho), hv, hkd, hsl, hst, ha,
    encodeEffect_injective (Option.some.inj heff),
    eq_of_getD_null hr hr' (Option.some.inj ht)
      fun _ hn => isNull_canonical hformat hn,
    hs, hsts⟩

/-- **The exact condition for storage to keep entries.** Two entries survive
storage and are told apart by their ids if and only if neither has a null
result. -/
theorem survives_iff (hsha : ∀ domain, Injective (sha256Identity domain))
    {fromJson : Json (List UInt8) → Except Exn JavaScriptCommand} {data data' : EntryData}
    {e e' : Entry} (h : make appendFloat sha256Identity data = .ok e)
    (h' : make appendFloat sha256Identity data' = .ok e')
    (hcmd : Inverts readFloat fromJson data.command)
    (hcmd' : Inverts readFloat fromJson data'.command) :
    (Survives appendFloat readFloat parseText sha256Identity fromJson e
        ∧ Survives appendFloat readFloat parseText sha256Identity fromJson e'
        ∧ (e.id = e'.id → SameData readFloat data data'))
      ↔ data.terminalResult ≠ some .null ∧ data'.terminalResult ≠ some .null := by
  have h := make_eq_ok.mp h
  have h' := make_eq_ok.mp h'
  constructor
  · rintro ⟨hsurvives, hsurvives', -⟩
    exact ⟨fun hn => h.not_survives hformat hn hsurvives,
      fun hn => h'.not_survives hformat hn hsurvives'⟩
  · rintro ⟨hr, hr'⟩
    exact ⟨h.parse hformat hcmd hr, h'.parse hformat hcmd' hr',
      fun hid => h.sameData_of_id hformat hsha h' hid hr hr'⟩

end Canonical

/-- A call of the core, without an input, and its result. -/
def callData (terminalResult : Option (Json Bytes)) : EntryData where
  sequence := 1
  bundleId := ascii "sha256:" ++ replicate 64 48
  commandOrdinal := 1
  command :=
    { protocolVersion := 1
      kind := .callCore
      importSlot := 0
      sourceSite := ascii "main:1"
      arguments := .obj [(ascii "name", .str (ascii "main")), (ascii "input", .obj [])] }
  effectIdentity := none
  terminalResult := terminalResult
  settledMembers := none
  awaitStartedAt := none

theorem inverts_callData (terminalResult : Option (Json Bytes)) :
    Inverts real (fun _ => .ok (callData none).command) (callData terminalResult).command :=
  fun _ _ => ⟨_, rfl, rfl⟩

/-- A completed entry survives, and has another id than its pending head. -/
theorem survives_iff_completed : ∃ e e',
    make refuseFloat (fun _ bytes => bytes) (callData none) = .ok e
      ∧ make refuseFloat (fun _ bytes => bytes) (callData (some (.bool true))) = .ok e'
      ∧ Survives refuseFloat real JsonReader.read (fun _ bytes => bytes)
        (fun _ => .ok (callData none).command) e'
      ∧ e.id ≠ e'.id := by
  obtain ⟨e, h⟩ : ∃ e, make refuseFloat (fun _ bytes => bytes) (callData none) = .ok e :=
    exists_of_isOk (by decide +kernel)
  obtain ⟨e', h'⟩ : ∃ e', make refuseFloat (fun _ bytes => bytes)
      (callData (some (.bool true))) = .ok e' := exists_of_isOk (by decide +kernel)
  have hk := (survives_iff format_refuseFloat (fun _ => injective_id) h h'
    (inverts_callData none) (inverts_callData _)).mpr ⟨nofun, nofun⟩
  refine ⟨e, e', h, h', hk.2.1, fun hid => ?_⟩
  have hsm := isSome_eq_of_same (hk.2.2 hid).terminalResult
  cases hsm

/-- **A null result is lost.** A command that completed with null is read
back as pending. -/
theorem null_result_not_survives :
    ¬∀ (appendFloat : UInt64 → Except Exn (List UInt8)) (readFloat : UInt64 → Json (List UInt8))
      (parseText : List UInt8 → Option (Json (List UInt8)))
      (sha256Identity : String → List UInt8 → List UInt8)
      (fromJson : Json (List UInt8) → Except Exn JavaScriptCommand) (data : EntryData) (e : Entry),
      Format appendFloat readFloat parseText →
      (∀ domain, Injective (sha256Identity domain)) →
      make appendFloat sha256Identity data = .ok e → Inverts readFloat fromJson data.command →
      Survives appendFloat readFloat parseText sha256Identity fromJson e := by
  intro ha
  obtain ⟨e, h⟩ : ∃ e, make refuseFloat (fun _ bytes => bytes) (callData (some .null)) = .ok e :=
    exists_of_isOk (by decide +kernel)
  exact (make_eq_ok.mp h).not_survives format_refuseFloat rfl
    (ha _ _ _ _ _ _ e format_refuseFloat (fun _ => injective_id) h
      (inverts_callData (some .null)))

end NeoGraph.Program.CommandJournal
