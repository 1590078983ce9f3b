import NeoGraph.Basic
import NeoGraph.Lib.Json
import NeoGraph.Lib.SortedMap

/-!
# The state of a graph

A graph state is a map of channels, each with a value, the reducer that
combines a write with it, and the version of its last write. Versions are
drawn from one counter of the state, `globalVersion`: a write sets the
version of its channel to the next value of the counter.

A checkpoint keeps the values and versions of the channels that are not
ephemeral, and the counter (`GraphState.checkpointSnapshot`).
`GraphState.restoreCheckpoint` puts them back into a state made from the
channel definitions; the counter goes back with them.
-/

namespace NeoGraph

/-! ## Channels -/

/-- Which part of an array a channel keeps. -/
inductive ChannelRetentionPolicy where
  | unbounded
  | latest
  | bounded
deriving DecidableEq, Repr

/-- Whether checkpoints hold a channel. -/
inductive ChannelPersistencePolicy where
  | checkpoint
  | ephemeral
deriving DecidableEq, Repr

/-- How long the values of a channel live. -/
structure ChannelLifecyclePolicy where
  retention : ChannelRetentionPolicy := .unbounded
  retentionLimit : ℕ := 0
  persistence : ChannelPersistencePolicy := .checkpoint
deriving DecidableEq, Repr

/-- How a write is combined with the value of a channel; custom reducers
may throw. -/
abbrev ReducerFn := Json String → Json String → Except Exn (Json String)

/-- A channel definition, with its reducer looked up. -/
structure ChannelDef where
  name : String
  /-- The reducer appends. -/
  append : Bool
  reducer : ReducerFn
  initialValue : Json String
  lifecycle : ChannelLifecyclePolicy

/-- A channel of a state. -/
structure Channel where
  reducer : ReducerFn
  lifecycle : ChannelLifecyclePolicy
  value : Json String
  version : ℕ

/-- A channel that checkpoints do not hold. -/
def Channel.ephemeral (c : Channel) : Bool :=
  match c.lifecycle.persistence with
  | .ephemeral => true
  | .checkpoint => false

/-- The text of a bound that is missing. -/
def missingLimit : Exn :=
  .invalidArgument "bounded channel retention requires a positive retention_limit"

/-- The part of a value that a channel keeps. -/
def applyRetention (value : Json String) (lifecycle : ChannelLifecyclePolicy) :
    Except Exn (Json String) :=
  match lifecycle.retention, value with
  | .latest, .arr items => .ok (.arr items.getLast?.toList)
  | .bounded, .arr items =>
    if lifecycle.retentionLimit = 0 then .error missingLimit
    else .ok (.arr (items.drop (items.length - lifecycle.retentionLimit)))
  | _, value => .ok value

/-- Whether a write goes through the reducer. -/
inductive WriteMode where
  | reduce
  | overwrite
deriving DecidableEq, Repr

/-- The value a write makes; an overwrite is an explicit escape from the
reducer. -/
def Channel.combine (c : Channel) (mode : WriteMode) (value : Json String) :
    Except Exn (Json String) :=
  match mode with
  | .overwrite => .ok value
  | .reduce => c.reducer c.value value

/-! ## States -/

/-- The channels of a graph and the counter of their versions. -/
structure GraphState where
  channels : SortedMap String Channel := ∅
  globalVersion : ℕ := 0

namespace GraphState

/-- A channel is declared, at version 0. -/
def initChannel (s : GraphState) (d : ChannelDef) : Except Exn GraphState :=
  if d.lifecycle.retention = .bounded ∧ d.lifecycle.retentionLimit = 0 then .error missingLimit
  else do
    let initialValue :=
      match d.append, d.initialValue with
      | true, .null => .arr []
      | _, value => value
    let value ← applyRetention initialValue d.lifecycle
    .ok { s with channels := s.channels.insert d.name ⟨d.reducer, d.lifecycle, value, 0⟩ }

/-- A new state of the declared channels. -/
def initState (defs : List ChannelDef) : Except Exn GraphState := defs.foldlM initChannel {}

/-- The names a failed write lists. -/
def declaredChannelList (s : GraphState) : String :=
  if s.channels.isEmpty then "(none — no channels declared in the graph definition)"
  else ", ".intercalate s.channels.keys

/-- One write. Its channel gets the next version; the counter has 64 bits. -/
def write (s : GraphState) (channel : String) (mode : WriteMode) (value : Json String) :
    Except Exn GraphState :=
  match s.channels.find? channel with
  | none => .error (.runtimeError ("Write to unknown channel: '" ++ channel ++ "'. "
      ++ "Declared channels: " ++ s.declaredChannelList ++ ". "
      ++ "Channel names are case-sensitive; add it to the graph "
      ++ "definition's \"channels\" block before writing. "
      ++ "See docs/troubleshooting.md \"Write to unknown channel\"."))
  | some c => do
    let combined ← c.combine mode value
    let retained ← applyRetention combined c.lifecycle
    let version := (s.globalVersion + 1) % 2 ^ 64
    .ok ⟨s.channels.insert channel { c with value := retained, version := version }, version⟩

/-! ## Checkpoints of a state -/

end GraphState

/-- A channel in a checkpoint. The store keeps values elsewhere. -/
structure ChannelEntry where
  value : Option (Json String)
  version : ℕ

/-- The channels and the counter of a checkpoint. -/
structure ChannelValues where
  channels : SortedMap String ChannelEntry
  globalVersion : ℕ

namespace GraphState

/-- The channels a checkpoint holds. -/
def checkpointSnapshot (s : GraphState) : ChannelValues where
  channels := s.channels.filterMap fun _ c =>
    if c.ephemeral then none else some ⟨some c.value, c.version⟩
  globalVersion := s.globalVersion

/-- A channel of a checkpoint is one of the state that is not ephemeral. -/
theorem find?_checkpointSnapshot {s : GraphState} {n : String} {e : ChannelEntry} :
    s.checkpointSnapshot.channels.find? n = some e
      ↔ ∃ c, s.channels.find? n = some c ∧ c.ephemeral = false
        ∧ e = ⟨some c.value, c.version⟩ := by
  unfold checkpointSnapshot
  rw [SortedMap.find?_filterMap, Option.bind_eq_some_iff]
  refine exists_congr fun c => and_congr_right fun _ => ?_
  cases c.ephemeral with
  | true => simp
  | false => simp [eq_comm]

/-- The ephemeral channels, each with whether it was written. -/
def ephemeralCheckpointGuard (s : GraphState) : Option (SortedMap String Bool) :=
  let guard := s.channels.filterMap fun _ c => if c.ephemeral then some (c.version != 0) else none
  if guard.isEmpty then none else some guard

/-- The guard of a checkpoint fits a state: both have the same ephemeral
channels, and none was written. -/
def checkGuard (s : GraphState) (guard : Option (SortedMap String Bool)) : Except Exn Unit :=
  let expected := s.channels.filterMap fun _ c => if c.ephemeral then some false else none
  if expected.isEmpty then
    if guard.elim true SortedMap.isEmpty then .ok ()
    else .error (.runtimeError "Checkpoint contains incompatible ephemeral channel policy")
  else if guard = some expected then .ok ()
  else .error (.runtimeError ("Cannot resume checkpoint: ephemeral channel was written or "
    ++ "its lifecycle guard is missing/incompatible"))

/-- The channels of a checkpoint are put into a state, and the counter is
set back. -/
def restoreCheckpoint (s : GraphState) (data : ChannelValues)
    (guard : Option (SortedMap String Bool)) : Except Exn GraphState :=
  match s.channels.entries.find? fun e => e.2.ephemeral && e.2.version != 0 with
  | some (name, _) =>
    .error (.runtimeError ("Cannot restore checkpoint into live ephemeral channel: " ++ name))
  | none => do
    s.checkGuard guard
    .ok ⟨s.channels.filterMap fun name c =>
        match data.channels.find? name with
        | some e =>
          some (if c.ephemeral then c
            else { c with value := e.value.getD .null, version := e.version })
        | none => some c,
      data.globalVersion⟩

end GraphState

end NeoGraph
