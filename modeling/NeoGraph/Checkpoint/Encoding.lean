import NeoGraph.CanonicalJson.Strict

/-!
# The durable encoding of a checkpoint

A store keeps a checkpoint in three parts: the values of channels with a
usable version as blobs, the rest of the channels and the counter as a shape
document, and all other fields of the state in an envelope around the
metadata. Reading takes the shape, puts the blobs back into it and then takes
the envelope apart.

What is read is the checkpoint that was written, up to the order of members
– unless the shape is not read at all. It is copied within limits that were
not checked when it was written, so a state that is too deep or too large
outside of its blobs can be stored and not be loaded again
(`restored_iff_storable`).
-/

namespace NeoGraph.CheckpointEncoding

open CanonicalJson Json List Option Json CheckpointEncoding

/-- A JSON document. -/
abbrev Document : Type := Json Bytes

/-- The first member of a name. -/
def field (members : List (Bytes × Document)) (name : Bytes) : Option Document :=
  (obj members).get? name

/-- The fields of a checkpoint that the encoding takes apart. -/
structure Checkpoint where
  channelValues : Document
  channelVersions : Document
  metadata : Document
  /-- Messages or writes that are only held in memory. -/
  nativeCustody : Bool := false

/-! ## Writing -/

def providerKey : Bytes := ascii "_neograph_provider_checkpoint"

/-- A flag of an object, or false where there is none. -/
def flag (v : Document) (name : Bytes) : Bool :=
  match v.get? name with
  | some (.bool b) => b
  | _ => false

/-- The fields of a state besides its channels and its counter. -/
def providerFields (v : Document) : List (Bytes × Document) :=
  rebuild (v.members.filter fun m => m.1 ≠ ascii "channels" && m.1 ≠ ascii "global_version")

/-- The metadata that is stored: with what a provider left in the values. -/
def checkpointStorageMetadata (cp : Checkpoint) : Except Exn Document :=
  if cp.nativeCustody || flag cp.channelValues (ascii "native_checkpoint_required") then
    .error (.invalidArgument
      "In-memory native custody requires explicit archive serialization before durable storage")
  else if cp.metadata.contains providerKey then
    .error (.invalidArgument "Checkpoint metadata uses a reserved provider custody key")
  else if providerFields cp.channelValues = [] then .ok cp.metadata
  else .ok (obj [(providerKey, obj [
    (ascii "schema", .str (ascii "neograph.checkpoint-provider-state/v1")),
    (ascii "metadata", cp.metadata),
    (ascii "state", obj (providerFields cp.channelValues))])])

/-- A channel whose value is kept as a blob: it has a value, and a version
that a store can have as a key. -/
def checkpointChannelBlobEligible (channel : Document) : Bool :=
  match channel.get? (ascii "version"), channel.get? (ascii "value") with
  | some (.uint n), some _ => n.toNat ≤ 2 ^ 63 - 1
  | some (.sint n), some _ => 0 ≤ n
  | _, _ => false

/-- What the shape keeps of a channel. -/
def residualChannel (channel : Document) : Document :=
  if checkpointChannelBlobEligible channel then
    obj (rebuild (channel.members.filter fun m => m.1 ≠ ascii "value"))
  else channel

/-- What the shape keeps of the channels. -/
def residualChannels (channels : Document) : Document :=
  match channels with
  | .obj members => obj (rebuild (members.map fun m => (m.1, residualChannel m.2)))
  | channels => channels

/-- What the shape keeps of a state. -/
def residualState (state : Document) : Document :=
  match state with
  | .obj members => obj (present [
      (ascii "global_version", field members (ascii "global_version")),
      (ascii "channels", (field members (ascii "channels")).map residualChannels)])
  | state => state

/-- The channels whose values are blobs. -/
def blobChannels (state : Document) : List (Bytes × Document) :=
  (((state.get? (ascii "channels")).elim [] members).filter
    fun m => checkpointChannelBlobEligible m.2)

def shapeSchema : Bytes := ascii "neograph.checkpoint-state-shape/v1"

/-- The channels without their values, which are stored apart. -/
def checkpointStorageShape (cp : Checkpoint) : Document :=
  obj [(ascii "schema", .str shapeSchema),
    (ascii "channel_values", residualState cp.channelValues),
    (ascii "channel_versions", cp.channelVersions),
    (ascii "blob_channels", .arr ((blobChannels cp.channelValues).map fun m => .str m.1))]

/-- One blob for each such channel. -/
def checkpointBlobs (cp : Checkpoint) : List (Bytes × Document) :=
  (blobChannels cp.channelValues).map fun m => (m.1, (m.2.get? (ascii "value")).getD .null)

/-! ## Reading -/

def corruptShape : Exn := .runtimeError "Corrupt or unsupported checkpoint state shape"

/-- A check of a stored shape. -/
def requireShape (condition : Bool) : Except Exn Unit :=
  if condition then .ok () else .error corruptShape

/-- The value of a blob is put back into its channel. -/
def restoreBlob (blobs : List (Bytes × Document)) (residual : Document)
    (name : Bytes) : Except Exn Document :=
  match residual with
  | .obj fields =>
    match field fields (ascii "channels") with
    | some (.obj channels) =>
      match field channels name with
      | some (.obj channel) => do
        requireShape ((field channel (ascii "version")).isSome
          && (field channel (ascii "value")).isNone)
        requireShape (checkpointChannelBlobEligible (obj [
          (ascii "version", (field channel (ascii "version")).getD .null),
          (ascii "value", .null)]))
        match field blobs name with
        | none => .error (.runtimeError "Checkpoint state shape requires a missing channel blob")
        | some value => .ok (obj (put fields (ascii "channels")
            (obj (put channels name (obj (put channel (ascii "value") value))))))
      | _ => .error corruptShape
    | _ => .error corruptShape
  | _ => .error corruptShape

local instance lawfulBEq_bytes : LawfulBEq Bytes := inferInstance

/-- The blobs are put back one by one; none is named twice. -/
def restoreBlobs (blobs : List (Bytes × Document)) :
    List Document → List Bytes → Document → Except Exn Document
  | [], _, residual => .ok residual
  | item :: items, seen, residual =>
    match item with
    | .str name =>
      if name ∈ seen then .error corruptShape
      else do
        let residual ← restoreBlob blobs residual name
        restoreBlobs blobs items (name :: seen) residual
    | _ => .error corruptShape

/-- A shape is read back, with the blobs of its channels: the state and the
versions. -/
def restoreCheckpointStorageShape (shape : Document) (blobs : List (Bytes × Document)) :
    Except Exn (Document × Document) := do
  requireShape (shape.members.length = 4)
  match shape.get? (ascii "schema"), shape.get? (ascii "channel_values"),
      shape.get? (ascii "channel_versions"), shape.get? (ascii "blob_channels") with
  | some schema, some residual, some versions, some (.arr names) => do
    requireShape (schema.equals (.str shapeSchema))
    let residual ← ownedJsonCopy residual
    let values ← restoreBlobs blobs names [] residual
    let versions ← ownedJsonCopy versions
    .ok (values, versions)
  | _, _, _, _ => .error corruptShape

/-- A field is assigned to a state; it makes null an object. -/
def assignField (state : Document) (m : Bytes × Document) : Document :=
  match state with
  | .obj fields => obj (put fields m.1 m.2)
  | .null => obj [m]
  | state => state

def invalidEnvelope : Exn := .invalidArgument "Invalid durable provider checkpoint envelope"

/-- The envelope around metadata is taken apart: the state and the
metadata. -/
def restoreCheckpointStorageEnvelope (state metadata : Document) :
    Except Exn (Document × Document) :=
  match metadata.get? providerKey with
  | none => .ok (state, metadata)
  | some envelope =>
    match envelope.get? (ascii "schema"), envelope.get? (ascii "metadata"),
        envelope.get? (ascii "state") with
    | some (.str schema), some metadata, some (.obj fields) =>
      if schema ≠ ascii "neograph.checkpoint-provider-state/v1" then .error invalidEnvelope
      else if fields.any fun m => m.1 = ascii "channels" || m.1 = ascii "global_version" then
        .error (.invalidArgument "Provider checkpoint envelope cannot replace state channels")
      else .ok (fields.foldl assignField state, metadata)
    | _, _, _ => .error invalidEnvelope

/-- A checkpoint is written and read back. -/
def writtenAndRead (cp : Checkpoint) : Except Exn Checkpoint := do
  let metadata ← checkpointStorageMetadata cp
  let (values, versions) ← restoreCheckpointStorageShape (checkpointStorageShape cp)
    (checkpointBlobs cp)
  let (values, metadata) ← restoreCheckpointStorageEnvelope values metadata
  .ok { channelValues := values, channelVersions := versions, metadata := metadata }

/-! ## States that can be stored -/

/-- A channel without the value that is kept as a blob. -/
def keptChannel (channel : Document) : Document :=
  if checkpointChannelBlobEligible channel then
    obj (channel.members.filter fun m => m.1 ≠ ascii "value")
  else channel

/-- The channels with what is kept of each. -/
def keptChannels : Document → Document
  | .obj members => obj (members.map fun m => (m.1, keptChannel m.2))
  | channels => channels

/-- The counter and the channels of a state, without what is kept
elsewhere. -/
def keptState : Document → Document
  | .obj members => obj (present [
      (ascii "global_version", field members (ascii "global_version")),
      (ascii "channels", (field members (ascii "channels")).map keptChannels)])
  | state => state

/-- No name occurs twice in a state, in its channels, or in one of them. -/
structure UniqueNames (state : Document) : Prop where
  fields : (state.members.map Prod.fst).Nodup
  channels : ∀ channels, state.get? (ascii "channels") = some channels →
    (channels.members.map Prod.fst).Nodup
      ∧ ∀ m ∈ channels.members, (m.2.members.map Prod.fst).Nodup

/-- The names of a state are unique, and what is kept of it outside of its
blobs can be copied within the limits, as can the versions. -/
structure Storable (cp : Checkpoint) : Prop where
  names : UniqueNames cp.channelValues
  state : ownedJsonCopy (keptState cp.channelValues) = .ok (keptState cp.channelValues)
  versions : ownedJsonCopy cp.channelVersions = .ok cp.channelVersions

variable {v w : Document}

theorem ownedJsonCopy_self (h : ownedJsonCopy v = .ok w) : w = v :=
  (ownedJsonCopy_eq_ok.mp h).2.2

theorem field_put (members : List (Bytes × Document)) (name name' : Bytes) (v : Document) :
    field (put members name v) name' = if name' = name then some v else field members name' :=
  lookup_put members name name' v

theorem rebuild_filter {members : List (Bytes × Document)} (h : (members.map Prod.fst).Nodup)
    (p : Bytes × Document → Bool) : rebuild (members.filter p) = members.filter p :=
  rebuild_of_nodup (h.sublist (List.Sublist.map _ List.filter_sublist))

variable {state : Document}

/-- With unique names the shape keeps what there is to keep. -/
theorem residualState_eq (h : UniqueNames state) : residualState state = keptState state := by
  cases state with
  | obj members =>
    unfold residualState keptState
    dsimp only
    cases hc : field members (ascii "channels") with
    | none => rfl
    | some channels =>
      obtain ⟨hn, ha⟩ := h.channels channels hc
      have hsm : residualChannels channels = keptChannels channels := by
        cases channels with
        | obj channels =>
          have hmap : (channels.map fun m => (m.1, residualChannel m.2))
              = channels.map fun m => (m.1, keptChannel m.2) := by
            refine map_congr_left fun m hm => ?_
            unfold residualChannel keptChannel
            rw [rebuild_filter (ha m hm)]
          unfold residualChannels keptChannels
          dsimp only
          rw [rebuild_of_nodup (by rw [names_map_value]; exact hn), hmap]
        | _ => rfl
      rw [map_some, map_some, hsm]
  | _ => rfl

/-! ## Putting the blobs back -/

/-- A channel with a blob as its value. -/
def fill (blobs : List (Bytes × Document)) (name : Bytes) (channel : Document) :
    Document :=
  obj (put channel.members (ascii "value") ((field blobs name).getD .null))

/-- A channel of a shape that waits for its blob. -/
structure Waiting (blobs : List (Bytes × Document)) (channels : List (Bytes × Document))
    (name : Bytes) : Prop where
  channel : ∃ channel, field channels name = some (obj channel)
    ∧ ((field channel (ascii "version")).isSome
      && (field channel (ascii "value")).isNone) = true
    ∧ checkpointChannelBlobEligible (obj [
      (ascii "version", (field channel (ascii "version")).getD .null),
      (ascii "value", .null)]) = true
  blob : (field blobs name).isSome = true

variable {name : Bytes} {blobs channels : List (Bytes × Document)}

/-- A channel that waits for its value gets it. -/
theorem restoreBlob_of_waiting {fields : List (Bytes × Document)}
    (hf : field fields (ascii "channels") = some (obj channels))
    (h : Waiting blobs channels name) :
    ∃ channel, field channels name = some channel
      ∧ restoreBlob blobs (obj fields) name = .ok (obj (put fields (ascii "channels")
        (obj (put channels name (fill blobs name channel))))) := by
  obtain ⟨channel, hc, hver, he⟩ := h.channel
  obtain ⟨value, hv⟩ := isSome_iff_exists.mp h.blob
  refine ⟨_, hc, ?_⟩
  unfold restoreBlob fill
  dsimp only
  rw [hf]
  dsimp only
  rw [hc]
  dsimp only
  rw [hver, he, hv]
  rfl

/-- **Blobs are put back** into the channels that wait for them, and nothing
else changes. -/
theorem restoreBlobs_of_waiting {names : List Bytes} {seen : List Bytes}
    {fields : List (Bytes × Document)} (hnd : names.Nodup) (hsn : ∀ name ∈ names, name ∉ seen)
    (hf : field fields (ascii "channels") = some (obj channels))
    (hw : ∀ name ∈ names, Waiting blobs channels name) :
    ∃ fields' channels', restoreBlobs blobs (names.map .str) seen (obj fields) = .ok (obj fields')
      ∧ field fields' (ascii "channels") = some (obj channels')
      ∧ (∀ key, key ≠ ascii "channels" → field fields' key = field fields key)
      ∧ (∀ name, field channels' name
        = if name ∈ names then (field channels name).map (fill blobs name)
          else field channels name)
      ∧ ((fields.map Prod.fst).Nodup → (fields'.map Prod.fst).Nodup)
      ∧ ((channels.map Prod.fst).Nodup → (channels'.map Prod.fst).Nodup) := by
  induction names generalizing seen fields channels with
  | nil => exact ⟨fields, channels, rfl, hf, fun _ _ => rfl, fun name => by simp, id, id⟩
  | cons name names ih =>
    rw [nodup_cons] at hnd
    obtain ⟨channel, hc, hs⟩ :=
      restoreBlob_of_waiting hf (hw name mem_cons_self)
    have hnx : ∀ name' ∈ names,
        Waiting blobs (put channels name (fill blobs name channel)) name' := by
      intro name' hnm'
      have hne : name' ≠ name := fun heq => hnd.1 (heq ▸ hnm')
      have hold := hw name' (mem_cons_of_mem _ hnm')
      refine ⟨?_, hold.blob⟩
      rw [field_put, if_neg hne]
      exact hold.channel
    have hunseen : ∀ name' ∈ names, name' ∉ name :: seen := by
      intro name' hnm' hm
      obtain heq | hm := mem_cons.mp hm
      · exact hnd.1 (heq ▸ hnm')
      · exact hsn name' (mem_cons_of_mem _ hnm') hm
    have hf' : field (put fields (ascii "channels")
        (obj (put channels name (fill blobs name channel)))) (ascii "channels")
        = some (obj (put channels name (fill blobs name channel))) := by
      rw [field_put, if_pos rfl]
    obtain ⟨fields', channels', hr, hf', hot, hlk, hn, hn'⟩ :=
      ih hnd.2 hunseen hf' hnx
    refine ⟨fields', channels', ?_, hf', fun key hk => ?_, fun name' => ?_,
      fun h => hn (nodup_put h _ _), fun h => hn' (nodup_put h _ _)⟩
    · rw [map_cons, restoreBlobs, if_neg (hsn name mem_cons_self), hs]
      exact hr
    · rw [hot key hk, field_put, if_neg hk]
    · rw [hlk, field_put]
      by_cases hnm : name' = name
      · subst hnm
        rw [if_neg hnd.1, if_pos rfl, if_pos mem_cons_self, hc]
        rfl
      · rw [if_neg hnm]
        by_cases hm : name' ∈ names
        · rw [if_pos hm, if_pos (mem_cons_of_mem _ hm)]
        · rw [if_neg hm, if_neg (by simp [hnm, hm])]

/-! ## What a storable state is read as -/

/-- Two documents are equal up to the order of members. -/
def Same (v w : Document) : Prop := v.normalize = w.normalize

theorem same_obj_iff {members members' : List (Bytes × Document)}
    (h : (members.map Prod.fst).Nodup) (h' : (members'.map Prod.fst).Nodup) :
    Same (obj members) (obj members')
      ↔ ∀ name, (field members name).map Json.normalize
        = (field members' name).map Json.normalize :=
  normalize_obj_eq_iff h h'

theorem field_eq_some_iff {members : List (Bytes × Document)}
    (h : (members.map Prod.fst).Nodup) : field members name = some v ↔ (name, v) ∈ members :=
  lookup_eq_some_iff h

theorem field_map (f : Document → Document) (members : List (Bytes × Document)) (name : Bytes) :
    field (members.map fun m => (m.1, f m.2)) name = (field members name).map f :=
  lookup_map_value f members name

theorem field_filter_name (members : List (Bytes × Document)) (p : Bytes → Bool) (name : Bytes) :
    field (members.filter fun m => p m.1) name = if p name then field members name else none :=
  lookup_filter_name members p name

variable {channel : Document}

/-- An eligible channel is an object with a version and a value. -/
theorem eligible_iff : checkpointChannelBlobEligible channel = true
      ↔ ∃ members version value, channel = obj members
        ∧ field members (ascii "version") = some version
        ∧ field members (ascii "value") = some value
        ∧ checkpointChannelBlobEligible (obj [(ascii "version", version),
          (ascii "value", .null)]) = true := by
  constructor
  · intro h
    unfold checkpointChannelBlobEligible at h
    split at h
    · rename_i n value hver hv
      cases channel with
      | obj members =>
        exact ⟨members, _, _, rfl, hver, hv, h⟩
      | _ => cases hver
    · rename_i n value hver hv
      cases channel with
      | obj members =>
        exact ⟨members, _, _, rfl, hver, hv, h⟩
      | _ => cases hver
    · cases h
  · rintro ⟨members, version, value, rfl, hver, hv, h⟩
    unfold checkpointChannelBlobEligible
    rw [show (obj members).get? (ascii "version") = some version from hver,
      show (obj members).get? (ascii "value") = some value from hv]
    cases version with
    | uint n | sint n => exact h
    | _ => cases h

/-- An eligible channel, kept without its value and filled with it. -/
theorem same_fill (hn : (channel.members.map Prod.fst).Nodup)
    (h : checkpointChannelBlobEligible channel = true)
    (hb : field blobs name = channel.get? (ascii "value")) :
    Same (fill blobs name (keptChannel channel)) channel := by
  obtain ⟨members, version, value, rfl, -, hv, -⟩ := eligible_iff.mp h
  replace hn : (members.map Prod.fst).Nodup := hn
  have hflt : ((members.filter fun m => m.1 ≠ ascii "value").map Prod.fst).Nodup :=
    hn.sublist (List.Sublist.map _ List.filter_sublist)
  have hkp : keptChannel (obj members)
      = obj (members.filter fun m => m.1 ≠ ascii "value") := if_pos h
  rw [hkp]
  unfold fill
  refine (same_obj_iff (nodup_put hflt _ _) hn).mpr fun key => ?_
  rw [hb, field_put]
  by_cases hk : key = ascii "value"
  · rw [if_pos hk, hk, show (obj members).get? (ascii "value") = some value from hv, hv]
    rfl
  · rw [if_neg hk]
    show (field (members.filter fun m => decide (m.1 ≠ ascii "value")) key).map _ = _
    rw [field_filter_name members fun name => decide (name ≠ ascii "value"),
      if_pos (by simpa using hk)]

/-- A channel that has a blob waits for it in what is kept. -/
theorem waiting_of_mem (hn : (channels.map Prod.fst).Nodup) (hm : (name, channel) ∈ channels)
    (h : checkpointChannelBlobEligible channel = true) (hb : (field blobs name).isSome = true) :
    Waiting blobs (channels.map fun m => (m.1, keptChannel m.2)) name := by
  refine ⟨?_, hb⟩
  obtain ⟨members, version, value, rfl, hver, hv, he⟩ := eligible_iff.mp h
  have hfld : field channels name = some (obj members) := (field_eq_some_iff hn).mpr hm
  have hflt := field_filter_name members fun name => decide (name ≠ ascii "value")
  have hver' : field (members.filter fun m => decide (m.1 ≠ ascii "value")) (ascii "version")
      = some version := by
    rw [hflt, if_pos (by decide), hver]
  have hv' : field (members.filter fun m => decide (m.1 ≠ ascii "value")) (ascii "value")
      = none := by
    rw [hflt, if_neg (by decide)]
  refine ⟨members.filter fun m => m.1 ≠ ascii "value", ?_, ?_, ?_⟩
  · rw [field_map, hfld, map_some]
    exact congrArg some (if_pos h)
  · rw [hver', hv']
    rfl
  · rw [hver']
    exact he

variable {m : Bytes × Document}

theorem field_blobs (hn : (channels.map Prod.fst).Nodup) (hm : m ∈ channels)
    (h : checkpointChannelBlobEligible m.2 = true) :
    field ((channels.filter fun m => checkpointChannelBlobEligible m.2).map
        fun m => (m.1, (m.2.get? (ascii "value")).getD .null)) m.1
      = m.2.get? (ascii "value") := by
  obtain ⟨members, _, value, hc, -, hv, -⟩ := eligible_iff.mp h
  have hv' : m.2.get? (ascii "value") = some value := by
    rw [hc]
    exact hv
  have hflt : ((channels.filter fun m => checkpointChannelBlobEligible m.2).map
      Prod.fst).Nodup := hn.sublist (List.Sublist.map _ List.filter_sublist)
  rw [hv', field_map (fun v => (v.get? (ascii "value")).getD .null),
    (field_eq_some_iff hflt).mpr (mem_filter.mpr ⟨hm, h⟩), map_some, hv']
  rfl

/-- The fields that are kept of a state. -/
def keptFields (members : List (Bytes × Document)) : List (Bytes × Document) :=
  present [(ascii "global_version", field members (ascii "global_version")),
    (ascii "channels", (field members (ascii "channels")).map keptChannels)]

theorem nodup_keptFields (members : List (Bytes × Document)) :
    ((keptFields members).map Prod.fst).Nodup := by
  refine nodup_present ?_
  show [ascii "global_version", ascii "channels"].Nodup
  decide

theorem field_keptFields (members : List (Bytes × Document)) (key : Bytes) :
    field (keptFields members) key
      = if key = ascii "global_version" then field members key
        else if key = ascii "channels" then (field members key).map keptChannels
        else none := by
  refine (lookup_present_pair (by decide) _ _ key).trans ?_
  by_cases hv : key = ascii "global_version"
  · rw [if_pos hv, if_pos hv, hv]
  rw [if_neg hv, if_neg hv]
  by_cases hc : key = ascii "channels"
  · rw [if_pos hc, if_pos hc, hc]
  · rw [if_neg hc, if_neg hc]

/-- Channels that are filled again are the channels. -/
theorem same_filledChannels {channels' : List (Bytes × Document)} {names : List Bytes}
    (hn : (channels.map Prod.fst).Nodup) (hn' : (channels'.map Prod.fst).Nodup)
    (ha : ∀ m ∈ channels, (m.2.members.map Prod.fst).Nodup)
    (hm : ∀ m ∈ channels, m.1 ∈ names ↔ checkpointChannelBlobEligible m.2 = true)
    (hb : ∀ m ∈ channels, checkpointChannelBlobEligible m.2 = true →
      field blobs m.1 = m.2.get? (ascii "value"))
    (hlk : ∀ name, field channels' name = if name ∈ names
      then (field (channels.map fun m => (m.1, keptChannel m.2)) name).map (fill blobs name)
      else field (channels.map fun m => (m.1, keptChannel m.2)) name) :
    Same (obj channels') (obj channels) := by
  refine (same_obj_iff hn' hn).mpr fun name => ?_
  rw [hlk, field_map]
  cases hfld : field channels name with
  | none =>
    split <;> rfl
  | some channel =>
    have hin : (name, channel) ∈ channels := (field_eq_some_iff hn).mp hfld
    by_cases he : checkpointChannelBlobEligible channel = true
    · rw [if_pos ((hm _ hin).mpr he), map_some, map_some, map_some, map_some]
      exact congrArg some
        (same_fill (ha _ hin) he (hb (name, channel) hin he))
    · rw [if_neg fun h => he ((hm _ hin).mp h), map_some]
      unfold keptChannel
      rw [if_neg he]

/-- The blobs of a state, by channel. -/
abbrev blobsOf (state : Document) : List (Bytes × Document) :=
  (blobChannels state).map fun m => (m.1, (m.2.get? (ascii "value")).getD .null)

/-- The channels of a state are read as they were written. -/
theorem restoreBlobs_kept {members : List (Bytes × Document)} (hst : UniqueNames (obj members)) :
    ∃ fields, restoreBlobs (blobsOf (obj members))
        ((blobChannels (obj members)).map fun m => .str m.1) [] (obj (keptFields members))
          = .ok (obj fields)
      ∧ (fields.map Prod.fst).Nodup
      ∧ ∀ key, (field fields key).map Json.normalize
        = if key = ascii "global_version" ∨ key = ascii "channels" then
            (field members key).map Json.normalize
          else none := by
  -- without an object of channels there are no blobs, and all of it is kept
  have hpl : (∀ channels, field members (ascii "channels") ≠ some (obj channels)) →
      blobChannels (obj members) = [] ∧ ∀ key, field (keptFields members) key
        = if key = ascii "global_version" ∨ key = ascii "channels" then field members key
          else none := by
    intro hnot
    have hkp : (field members (ascii "channels")).map keptChannels
        = field members (ascii "channels") := by
      cases hc : field members (ascii "channels") with
      | none => rfl
      | some channels =>
        cases channels with
        | obj channels => exact absurd hc (hnot channels)
        | _ => rfl
    refine ⟨?_, fun key => ?_⟩
    · unfold blobChannels
      rw [show (obj members).get? (ascii "channels") = field members (ascii "channels") from rfl]
      cases hc : field members (ascii "channels") with
      | none => rfl
      | some channels =>
        cases channels with
        | obj channels => exact absurd hc (hnot channels)
        | _ => rfl
    · rw [field_keptFields]
      by_cases hver : key = ascii "global_version"
      · rw [if_pos hver, if_pos (.inl hver)]
      rw [if_neg hver]
      by_cases hk : key = ascii "channels"
      · rw [if_pos hk, if_pos (.inr hk), hk, hkp]
      · rw [if_neg hk, if_neg (by simp [hver, hk])]
  by_cases ho : ∃ channels, field members (ascii "channels") = some (obj channels)
  · obtain ⟨channels, hc⟩ := ho
    obtain ⟨hnms, ha⟩ := hst.channels _ hc
    replace hnms : (channels.map Prod.fst).Nodup := hnms
    have hbl : blobChannels (obj members)
        = channels.filter fun m => checkpointChannelBlobEligible m.2 := by
      unfold blobChannels
      rw [show (obj members).get? (ascii "channels") = some (obj channels) from hc]
      rfl
    have hkp : field (keptFields members) (ascii "channels")
        = some (obj (channels.map fun m => (m.1, keptChannel m.2))) := by
      rw [field_keptFields, if_neg (by decide), if_pos rfl, hc]
      rfl
    have hb : ∀ m ∈ channels, checkpointChannelBlobEligible m.2 = true →
        field (blobsOf (obj members)) m.1 = m.2.get? (ascii "value") := by
      intro m hm he
      unfold blobsOf
      rw [hbl]
      exact field_blobs hnms hm he
    have hmm : ∀ m ∈ channels, m.1 ∈ (blobChannels (obj members)).map Prod.fst
        ↔ checkpointChannelBlobEligible m.2 = true := by
      intro m hm
      rw [hbl, List.mem_map]
      constructor
      · rintro ⟨m', hm', hnm⟩
        obtain ⟨hm', he⟩ := mem_filter.mp hm'
        rwa [← eq_of_name_eq hnms hm' hm hnm]
      · exact fun he => ⟨m, mem_filter.mpr ⟨hm, he⟩, rfl⟩
    have hw : ∀ name ∈ (blobChannels (obj members)).map Prod.fst,
        Waiting (blobsOf (obj members)) (channels.map fun m => (m.1, keptChannel m.2)) name := by
      intro name hnm
      rw [hbl] at hnm
      obtain ⟨m, hm, rfl⟩ := mem_map.mp hnm
      obtain ⟨hm, he⟩ := mem_filter.mp hm
      refine waiting_of_mem hnms hm he ?_
      obtain ⟨attributes, _, value, hchannel, -, hv, -⟩ := eligible_iff.mp he
      rw [hb m hm he, hchannel, show (obj attributes).get? (ascii "value") = some value
        from hv]
      rfl
    have hnd : ((blobChannels (obj members)).map Prod.fst).Nodup := by
      rw [hbl]
      exact hnms.sublist (List.Sublist.map _ List.filter_sublist)
    obtain ⟨fields, channels', hrd, hfld, hot, hlk, hf, hc'⟩ :=
      restoreBlobs_of_waiting hnd (fun _ _ => not_mem_nil) hkp hw
    have hsm : Same (obj channels') (obj channels) := by
      refine same_filledChannels hnms (hc' ?_) ha hmm hb hlk
      rw [names_map_value]
      exact hnms
    rw [List.map_map] at hrd
    refine ⟨fields, hrd, hf (nodup_keptFields members), fun key => ?_⟩
    by_cases hk : key = ascii "channels"
    · rw [if_pos (.inr hk), hk, hfld, hc]
      exact congrArg some hsm
    rw [hot key hk, field_keptFields]
    by_cases hver : key = ascii "global_version"
    · rw [if_pos hver, if_pos (.inl hver)]
    · rw [if_neg hver, if_neg hk, if_neg (by simp [hver, hk])]
      rfl
  · push Not at ho
    obtain ⟨hn, hf⟩ := hpl ho
    refine ⟨keptFields members, ?_, nodup_keptFields members, fun key => ?_⟩
    · rw [hn]
      rfl
    · rw [hf]
      split <;> rfl

/-! ## The envelope -/

theorem foldl_assignField (fields more : List (Bytes × Document)) :
    more.foldl assignField (obj fields)
      = obj (more.foldl (fun out m => put out m.1 m.2) fields) := by
  induction more generalizing fields with
  | nil => rfl
  | cons m more ih => exact ih (put fields m.1 m.2)

theorem field_foldl_put {more : List (Bytes × Document)} (h : (more.map Prod.fst).Nodup)
    (fields : List (Bytes × Document)) (key : Bytes) :
    field (more.foldl (fun out m => put out m.1 m.2) fields) key
      = (field more key).or (field fields key) :=
  lookup_foldl_put h fields key

/-- The other fields do not touch the channels or the counter. -/
theorem ne_of_mem_providerFields (h : m ∈ providerFields state) :
    m.1 ≠ ascii "channels" ∧ m.1 ≠ ascii "global_version" := by
  have hm := (mem_filter.mp (mem_of_mem_rebuild h)).2
  rwa [Bool.and_eq_true, decide_eq_true_eq, decide_eq_true_eq] at hm

/-- The fields that belong to the provider. -/
theorem field_providerFields {members : List (Bytes × Document)}
    (h : (members.map Prod.fst).Nodup) (key : Bytes) : field (providerFields (obj members)) key
      = if key = ascii "global_version" ∨ key = ascii "channels" then none
        else field members key := by
  have hf : providerFields (obj members) = members.filter
      fun m => m.1 ≠ ascii "channels" && m.1 ≠ ascii "global_version" := rebuild_filter h _
  rw [hf, field_filter_name members
    fun name => decide (name ≠ ascii "channels") && decide (name ≠ ascii "global_version")]
  by_cases hv : key = ascii "global_version"
  · rw [if_neg (by simp [hv]), if_pos (.inl hv)]
  by_cases hc : key = ascii "channels"
  · rw [if_neg (by simp [hc]), if_pos (.inr hc)]
  · rw [if_pos (by simp [hv, hc]), if_neg (by simp [hv, hc])]

/-- The envelope gives back the metadata and the other fields. -/
theorem restoreEnvelope_of_metadata {cp : Checkpoint} {metadata : Document}
    (hk : cp.metadata.contains providerKey = false)
    (h : checkpointStorageMetadata cp = .ok metadata) (values : Document) :
    restoreCheckpointStorageEnvelope values metadata
      = .ok ((providerFields cp.channelValues).foldl assignField values, cp.metadata) := by
  unfold checkpointStorageMetadata at h
  split at h
  · cases h
  split at h
  · cases h
  split_ifs at h with he
  · cases h
    have hn : cp.metadata.get? providerKey = none := by
      unfold Json.contains at hk
      exact isSome_eq_false_iff.mp hk |> isNone_iff_eq_none.mp
    unfold restoreCheckpointStorageEnvelope
    rw [hn, he]
    rfl
  · cases h
    have hany : ((providerFields cp.channelValues).any
        fun m => m.1 = ascii "channels" || m.1 = ascii "global_version") = false := by
      rw [List.any_eq_false]
      intro m hm
      have hne := ne_of_mem_providerFields hm
      simp [hne.1, hne.2]
    have hrd : restoreCheckpointStorageEnvelope values (obj [(providerKey, obj [
        (ascii "schema", .str (ascii "neograph.checkpoint-provider-state/v1")),
        (ascii "metadata", cp.metadata),
        (ascii "state", obj (providerFields cp.channelValues))])])
        = if (providerFields cp.channelValues).any
            (fun m => m.1 = ascii "channels" || m.1 = ascii "global_version") then
          .error (.invalidArgument "Provider checkpoint envelope cannot replace state channels")
        else .ok ((providerFields cp.channelValues).foldl assignField values, cp.metadata) := rfl
    rw [hrd, if_neg (by rw [hany]; decide)]

/-- Reading a shape that was written. -/
theorem restoreShape_shape (cp : Checkpoint) (blobs : List (Bytes × Document)) :
    restoreCheckpointStorageShape (checkpointStorageShape cp) blobs = (do
      let residual ← ownedJsonCopy (residualState cp.channelValues)
      let values ← restoreBlobs blobs
        ((blobChannels cp.channelValues).map fun m => .str m.1) [] residual
      let versions ← ownedJsonCopy cp.channelVersions
      .ok (values, versions)) := by
  rfl

/-- Writing and reading, step by step. -/
theorem writtenAndRead_eq_ok {cp : Checkpoint} (hcustody : cp.nativeCustody = false)
    (hn : flag cp.channelValues (ascii "native_checkpoint_required") = false)
    (hk : cp.metadata.contains providerKey = false) {r : Checkpoint} :
    writtenAndRead cp = .ok r ↔ ∃ values,
      ownedJsonCopy (residualState cp.channelValues) = .ok (residualState cp.channelValues)
        ∧ restoreBlobs (blobsOf cp.channelValues)
          ((blobChannels cp.channelValues).map fun m => .str m.1) []
          (residualState cp.channelValues) = .ok values
        ∧ ownedJsonCopy cp.channelVersions = .ok cp.channelVersions
        ∧ r = { channelValues := (providerFields cp.channelValues).foldl assignField values
                channelVersions := cp.channelVersions
                metadata := cp.metadata } := by
  obtain ⟨metadata, hm⟩ : ∃ metadata, checkpointStorageMetadata cp = .ok metadata := by
    unfold checkpointStorageMetadata
    rw [hcustody, hn, hk, if_neg (by decide), if_neg (by decide)]
    split <;> exact ⟨_, rfl⟩
  unfold writtenAndRead
  rw [hm, restoreShape_shape]
  constructor
  · intro h
    obtain ⟨_, hs, h⟩ := bind_eq_ok.mp h
    cases hs
    obtain ⟨⟨values, versions⟩, hsh, h⟩ := bind_eq_ok.mp h
    simp only [bind_eq_ok] at hsh
    obtain ⟨residual, hr, values', hvs, versions', hv, hsh⟩ := hsh
    cases hsh
    have hsm := ownedJsonCopy_self hr
    have hsm' := ownedJsonCopy_self hv
    subst hsm hsm'
    change (restoreCheckpointStorageEnvelope values metadata >>= _) = _ at h
    rw [restoreEnvelope_of_metadata hk hm] at h
    cases h
    exact ⟨values, hr, hvs, hv, rfl⟩
  · rintro ⟨values, hr, hvs, hv, rfl⟩
    show ((ownedJsonCopy (residualState cp.channelValues) >>= _) >>= _) = _
    rw [hr]
    show ((restoreBlobs (blobsOf cp.channelValues) _ [] _ >>= _) >>= _) = _
    rw [hvs]
    show ((ownedJsonCopy cp.channelVersions >>= _) >>= _) = _
    rw [hv]
    show (restoreCheckpointStorageEnvelope values metadata >>= _) = _
    rw [restoreEnvelope_of_metadata hk hm]
    rfl

/-! ## What is read has unique names -/

theorem members_normalize (v : Document) :
    v.normalize.members = sortMembers (v.members.map fun m => (m.1, m.2.normalize)) := by
  cases v with
  | obj members =>
    rw [Json.normalize, normalizeMembers_eq_map]
    rfl
  | sint n =>
    rw [Json.normalize]
    split <;> rfl
  | _ => rfl

/-- Documents that are equal up to the order of members have the same
members up to order. -/
theorem Same.members (h : Same v w) : (v.members.map fun m => (m.1, m.2.normalize)).Perm
      (w.members.map fun m => (m.1, m.2.normalize)) := by
  have hs := congrArg Json.members h
  rw [members_normalize, members_normalize] at hs
  exact (sortMembers_perm _).symm.trans (hs ▸ sortMembers_perm _)

theorem Same.names (h : Same v w) : (v.members.map Prod.fst).Perm (w.members.map Prod.fst) := by
  have hn := h.members.map Prod.fst
  rwa [names_map_value, names_map_value] at hn

theorem Same.field (h : Same v w) (hv : (v.members.map Prod.fst).Nodup) (name : Bytes) :
    (v.get? name).map Json.normalize = (w.get? name).map Json.normalize := by
  have hlk := lookup_eq_of_perm (by rw [names_map_value]; exact hv) h.members name
  rwa [lookup_map_value, lookup_map_value] at hlk

theorem UniqueNames.of_same (hv : UniqueNames v) (h : Same v w) : UniqueNames w := by
  refine ⟨h.names.nodup_iff.mp hv.fields, fun channels hc => ?_⟩
  have hfld := h.field hv.fields (ascii "channels")
  rw [hc] at hfld
  obtain ⟨channels', hc', hsm⟩ := map_eq_some_iff.mp hfld
  obtain ⟨hn, ha⟩ := hv.channels channels' hc'
  have hsm : Same channels' channels := hsm
  refine ⟨hsm.names.nodup_iff.mp hn, fun m hm => ?_⟩
  obtain ⟨m', hm', heq⟩ := mem_map.mp (hsm.members.mem_iff.mpr (mem_map_of_mem hm))
  have hval : Same m'.2 m.2 := congrArg Prod.snd heq
  exact hval.names.nodup_iff.mp (ha m' hm')

theorem UniqueNames.of_noDuplicates (h : v.NoDuplicates) : UniqueNames v where
  fields := h.nodup
  channels _ hc :=
    ⟨(h.get? hc).nodup, fun m hm => ((h.get? hc).members m hm).nodup⟩

/-- Putting a value back adds no name. -/
theorem UniqueNames.restoreBlob {residual r : Document} (h : UniqueNames residual)
    (hr : restoreBlob blobs residual name = .ok r) : UniqueNames r := by
  unfold CheckpointEncoding.restoreBlob at hr
  split at hr
  · rename_i fields
    split at hr
    · rename_i channels hc
      obtain ⟨hn, ha⟩ := h.channels _ hc
      replace hn : (channels.map Prod.fst).Nodup := hn
      split at hr
      · rename_i channel hchannel
        have hchannelNames : (channel.map Prod.fst).Nodup :=
          ha _ ((field_eq_some_iff hn).mp hchannel)
        simp only [bind_unit_eq_ok] at hr
        obtain ⟨-, -, hr⟩ := hr
        split at hr
        · cases hr
        cases hr
        refine ⟨nodup_put h.fields _ _, fun channels' hc' => ?_⟩
        have hput := (field_put fields (ascii "channels") (ascii "channels") _).symm.trans
          hc'
        rw [if_pos rfl] at hput
        cases hput
        refine ⟨nodup_put hn _ _, fun m hm => ?_⟩
        obtain rfl | hm := mem_put hm
        · exact nodup_put hchannelNames _ _
        · exact ha m hm
      · cases hr
    · cases hr
  · cases hr

theorem UniqueNames.restoreBlobs {items : List Document} {seen : List Bytes}
    {residual r : Document} (h : UniqueNames residual)
    (hr : restoreBlobs blobs items seen residual = .ok r) : UniqueNames r := by
  induction items generalizing seen residual with
  | nil =>
    cases hr
    exact h
  | cons item items ih =>
    unfold CheckpointEncoding.restoreBlobs at hr
    split at hr
    · split at hr
      · cases hr
      · obtain ⟨residual', hs, hr⟩ := bind_eq_ok.mp hr
        exact ih (h.restoreBlob hs) hr
    · cases hr

theorem UniqueNames.assignField (h : UniqueNames state) (hm : m.1 ≠ ascii "channels") :
    UniqueNames (assignField state m) := by
  cases state with
  | obj fields =>
    refine ⟨nodup_put h.fields _ _, fun channels hc => h.channels channels ?_⟩
    have hput := (field_put fields m.1 (ascii "channels") m.2).symm.trans hc
    rwa [if_neg hm.symm] at hput
  | null =>
    refine ⟨nodup_singleton m.1, fun channels hc => ?_⟩
    have hnd : ([m].map Prod.fst).Nodup := nodup_singleton m.1
    have hmm := (field_eq_some_iff hnd).mp hc
    rw [mem_singleton] at hmm
    exact absurd (congrArg Prod.fst hmm).symm hm
  | _ => exact h

theorem UniqueNames.foldl_assignField (h : UniqueNames state) {more : List (Bytes × Document)}
    (hm : ∀ m ∈ more, m.1 ≠ ascii "channels") :
    UniqueNames (more.foldl CheckpointEncoding.assignField state) := by
  induction more generalizing state with
  | nil => exact h
  | cons m more ih =>
    exact ih (h.assignField (hm m mem_cons_self)) fun m' hm' => hm m' (mem_cons_of_mem m hm')

/-! ## The round trip -/

/-- A checkpoint is read as it was written, up to the order of members. -/
def ReadBack (cp : Checkpoint) : Prop :=
  ∃ r, writtenAndRead cp = .ok r ∧ Same r.channelValues cp.channelValues
    ∧ Same r.channelVersions cp.channelVersions ∧ Same r.metadata cp.metadata

/-- **When a checkpoint is read as it was written.** For a checkpoint without
custody in memory, whose metadata do not use the reserved key, this is
exactly when the names of its state are unique and what is kept outside of
the blobs can be copied: within the limits on nesting and size, and without
duplicate names. -/
theorem restored_iff_storable (cp : Checkpoint) (hcustody : cp.nativeCustody = false)
    (hnt : flag cp.channelValues (ascii "native_checkpoint_required") = false)
    (hk : cp.metadata.contains providerKey = false) : ReadBack cp ↔ Storable cp := by
  have hrd := fun r => writtenAndRead_eq_ok hcustody hnt hk (r := r)
  constructor
  · rintro ⟨r, hr, hvs, -, -⟩
    obtain ⟨values, hrs, hb, hv, rfl⟩ := (hrd r).mp hr
    have hu : UniqueNames (residualState cp.channelValues) :=
      .of_noDuplicates (ownedJsonCopy_eq_ok.mp hrs).2.1
    have hnms : UniqueNames cp.channelValues := by
      refine UniqueNames.of_same ?_ hvs
      exact (hu.restoreBlobs hb).foldl_assignField
        fun m hm => (ne_of_mem_providerFields hm).1
    rw [residualState_eq hnms] at hrs
    exact ⟨hnms, hrs, hv⟩
  · intro h
    have hrs := h.state
    rw [← residualState_eq h.names] at hrs
    suffices hsm : ∃ values, restoreBlobs (blobsOf cp.channelValues)
        ((blobChannels cp.channelValues).map fun m => .str m.1) []
        (residualState cp.channelValues) = .ok values
        ∧ Same ((providerFields cp.channelValues).foldl assignField values) cp.channelValues by
      obtain ⟨values, hb, hsm⟩ := hsm
      exact ⟨_, (hrd _).mpr ⟨values, hrs, hb, h.versions, rfl⟩, hsm, rfl, rfl⟩
    have hnms := h.names
    rw [residualState_eq hnms]
    cases hst : cp.channelValues with
    | obj members =>
      rw [hst] at hnms
      have hmbr : (members.map Prod.fst).Nodup := hnms.fields
      obtain ⟨fields, hb, hf, hlk⟩ := restoreBlobs_kept hnms
      refine ⟨obj fields, hb, ?_⟩
      rw [foldl_assignField]
      refine (same_obj_iff (nodup_foldl_put hf _) hmbr).mpr fun key => ?_
      have hmr : ((providerFields (obj members)).map Prod.fst).Nodup := nodup_rebuild _
      rw [field_foldl_put hmr, field_providerFields hmbr]
      by_cases hkp : key = ascii "global_version" ∨ key = ascii "channels"
      · rw [if_pos hkp, none_or, hlk, if_pos hkp]
      · have hn : field fields key = none := by
          have hmap := hlk key
          rw [if_neg hkp] at hmap
          exact map_eq_none_iff.mp hmap
        rw [if_neg hkp, hn, or_none]
    | _ => exact ⟨_, rfl, rfl⟩

/-- A checkpoint of one channel with a value and a version. -/
def answered : Checkpoint where
  channelValues := obj [(ascii "channels", obj [(ascii "answer",
      obj [(ascii "value", .bool true), (ascii "version", .uint 1)])]),
    (ascii "global_version", .uint 1)]
  channelVersions := .null
  metadata := .null

theorem answered_readBack : ReadBack answered := by
  refine (restored_iff_storable answered rfl rfl rfl).mpr ⟨⟨by decide, ?_⟩, rfl, rfl⟩
  intro channels hc
  cases hc
  decide

/-- Arrays in arrays. -/
def nested : ℕ → Document
  | 0 => .null
  | n + 1 => .arr [nested n]

theorem le_of_withinDepth_nested {n depth : ℕ} (h : WithinDepth (nested (n + 1)) depth) :
    depth + n ≤ maxJsonDepth := by
  induction n generalizing depth with
  | zero => exact h.1
  | succ n ih =>
    have hin := ih h.2.1
    omega

/-- A state with a channel that was never written, with a deep value. -/
def deeplyNested : Checkpoint where
  channelValues := obj [(ascii "channels", obj [(ascii "scratch",
    obj [(ascii "value", nested 257)])])]
  channelVersions := .null
  metadata := .null

/-- **A checkpoint that is stored and not loaded again.** -/
theorem deeplyNested_not_readBack : (∃ metadata, checkpointStorageMetadata deeplyNested
    = .ok metadata) ∧ ¬ReadBack deeplyNested := by
  refine ⟨⟨_, rfl⟩, ?_⟩
  rintro ⟨r, hr, -⟩
  obtain ⟨_, hrs, -⟩ := (writtenAndRead_eq_ok rfl rfl rfl).mp hr
  have hdp := (ownedJsonCopy_eq_ok.mp hrs).1.1
  have hv : WithinDepth (nested 257) 4 := hdp.2.1.2.1.2.1
  have hle := le_of_withinDepth_nested hv
  exact absurd hle (by decide)

end NeoGraph.CheckpointEncoding
