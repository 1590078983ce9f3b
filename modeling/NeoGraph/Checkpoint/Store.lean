import Mathlib
import NeoGraph.Checkpoint.State

/-!
# The in-memory checkpoint store

The store keeps every channel value once. On a save the values are moved
out of the checkpoint into a map of blobs, under thread, channel and
version, and what is filed is a shell with the versions only; a value that
the map has already is not replaced. On a load the shell is joined with the
blobs again. The other fields of a checkpoint are copied; `β` stands for all
of them.

A run, a resume or a state update starts from a new state or from a stored
checkpoint, applies writes, and saves checkpoints – of its state, or, when a
Send needs an anchor or interrupts, of the state its super-step started from
(`Action`). What the nodes write and when a super-step commits is not fixed;
an action that throws leaves the store alone. Ids of checkpoints are random
in the source and never used twice; here they are numbered.
-/

namespace NeoGraph

open List Option

/-- A checkpoint, as the store sees it. -/
structure CheckpointRow (β : Type) where
  id : ℕ
  threadId : String
  channelValues : ChannelValues
  ephemeralGuard : Option (SortedMap String Bool)
  rest : β

/-- Thread, channel and version. -/
abbrev BlobKey := String ×ₗ String ×ₗ ℕ

/-- The key of the value of a channel. -/
def blobKey (threadId channel : String) (version : ℕ) : BlobKey :=
  toLex (threadId, toLex (channel, version))

/-- The store. A thread's history is in save order, newest last. -/
structure InMemoryCheckpointStore (β : Type) where
  blobs : SortedMap BlobKey (Json String) := ∅
  byId : SortedMap ℕ (CheckpointRow β) := ∅
  byThread : SortedMap String (List (CheckpointRow β)) := ∅

variable {β : Type}

namespace CheckpointRow

/-- The values of a checkpoint, each with its key. -/
def blobEntries (cp : CheckpointRow β) : List (BlobKey × Json String) :=
  cp.channelValues.channels.entries.filterMap fun e =>
    e.2.value.map fun value => (blobKey cp.threadId e.1 e.2.version, value)

/-- A checkpoint without its values. -/
def shell (cp : CheckpointRow β) : CheckpointRow β :=
  { cp with
      channelValues :=
        { cp.channelValues with
            channels := cp.channelValues.channels.filterMap fun _ e => some ⟨none, e.version⟩ } }

end CheckpointRow

namespace InMemoryCheckpointStore

/-- The values of a checkpoint are moved into the blobs; the first writer
of a key wins. -/
def splitBlobs (store : InMemoryCheckpointStore β) (cp : CheckpointRow β) :
    InMemoryCheckpointStore β × CheckpointRow β :=
  ({ store with
      blobs := cp.blobEntries.foldl (fun blobs e => blobs.tryEmplace e.1 e.2) store.blobs },
    cp.shell)

/-- The values are looked up again; a missing blob is null. -/
def joinBlobs (store : InMemoryCheckpointStore β) (cp : CheckpointRow β) : CheckpointRow β :=
  { cp with
      channelValues :=
        { cp.channelValues with
            channels := cp.channelValues.channels.filterMap fun name e =>
              some ⟨some (e.value.getD
                ((store.blobs.find? (blobKey cp.threadId name e.version)).getD .null)),
                e.version⟩ } }

/-- A checkpoint is filed. An id that is saved again moves to the newest
position. -/
def save (store : InMemoryCheckpointStore β) (cp : CheckpointRow β) : InMemoryCheckpointStore β :=
  let resaved := (store.byId.find? cp.id).isSome
  let (store, shell) := store.splitBlobs cp
  let history := store.byThread.getD shell.threadId []
  let history := if resaved then history.eraseP fun saved => saved.id = shell.id else history
  { store with
      byId := store.byId.insert shell.id shell
      byThread := store.byThread.insert shell.threadId (history ++ [shell]) }

/-- The checkpoint of a thread that was saved last. -/
def loadLatest (store : InMemoryCheckpointStore β) (threadId : String) : Option (CheckpointRow β) :=
  (store.byThread.getD threadId []).getLast?.map store.joinBlobs

/-- The checkpoint of an id. -/
def loadById (store : InMemoryCheckpointStore β) (id : ℕ) : Option (CheckpointRow β) :=
  (store.byId.find? id).map store.joinBlobs

/-- The stored value of a channel at a version. -/
def blob (store : InMemoryCheckpointStore β) (threadId channel : String) (version : ℕ) :
    Option (Json String) :=
  store.blobs.find? (blobKey threadId channel version)

end InMemoryCheckpointStore

/-! ## What a save does -/

theorem blobKey_eq_iff {t t' n n' : String} {v v' : ℕ} :
    blobKey t n v = blobKey t' n' v' ↔ t = t' ∧ n = n' ∧ v = v' := by
  unfold blobKey
  simp only [toLex_inj, Prod.mk.injEq]

namespace CheckpointRow

/-- The value a checkpoint has for a key. -/
def valueAt (cp : CheckpointRow β) (threadId channel : String) (version : ℕ) :
    Option (Json String) :=
  if threadId = cp.threadId then
    (cp.channelValues.channels.find? channel).bind fun e =>
      if version = e.version then e.value else none
  else none

variable (cp : CheckpointRow β)

theorem valueAt_self {channel : String} {e : ChannelEntry}
    (h : cp.channelValues.channels.find? channel = some e) :
    cp.valueAt cp.threadId channel e.version = e.value := by
  unfold valueAt
  rw [if_pos rfl, h]
  exact if_pos rfl

/-- The values a checkpoint stores apart. -/
theorem mem_blobEntries_iff (t n : String) (v : ℕ) (x : Json String) :
    (blobKey t n v, x) ∈ cp.blobEntries ↔ cp.valueAt t n v = some x := by
  unfold blobEntries valueAt
  rw [mem_filterMap]
  constructor
  · rintro ⟨⟨name, e⟩, hm, h⟩
    obtain ⟨value, hval, heq⟩ := map_eq_some_iff.mp h
    rw [Prod.mk.injEq, blobKey_eq_iff] at heq
    obtain ⟨⟨rfl, rfl, rfl⟩, rfl⟩ := heq
    rw [if_pos rfl, (SortedMap.mem_entries_iff _ _ _).mp hm]
    exact (if_pos rfl).trans hval
  · intro h
    split at h
    · rename_i ht
      obtain ⟨e, he, h⟩ := bind_eq_some_iff.mp h
      split at h
      · rename_i hv
        refine ⟨(n, e), (SortedMap.mem_entries_iff _ _ _).mpr he, ?_⟩
        rw [h, ht, hv]
        rfl
      · cases h
    · cases h

theorem lookupEntry_blobEntries (t n : String) (v : ℕ) :
    lookupEntry (blobKey t n v) cp.blobEntries = cp.valueAt t n v := by
  refine ext fun x => ?_
  rw [lookupEntry_eq_some_iff_of_unique, mem_blobEntries_iff]
  intro x y hx hy
  rw [mem_blobEntries_iff] at hx hy
  rw [hx] at hy
  exact some.inj hy

/-- A checkpoint without its values keeps the versions. -/
theorem find?_shell (n : String) : cp.shell.channelValues.channels.find? n
      = (cp.channelValues.channels.find? n).map fun e => ⟨none, e.version⟩ := by
  unfold shell
  rw [SortedMap.find?_filterMap, map_eq_bind]
  rfl

end CheckpointRow

namespace InMemoryCheckpointStore

variable (store : InMemoryCheckpointStore β)

/-- **A save keeps the blobs there are**, and adds what is new. -/
theorem blob_save (cp : CheckpointRow β) (t n : String) (v : ℕ) :
    (store.save cp).blob t n v = (store.blob t n v).or (cp.valueAt t n v) := by
  show (cp.blobEntries.foldl (fun blobs e => blobs.tryEmplace e.1 e.2) store.blobs).find? _ = _
  rw [SortedMap.find?_foldl_tryEmplace, cp.lookupEntry_blobEntries]
  rfl

theorem find?_byId_save (cp : CheckpointRow β) (id : ℕ) :
    (store.save cp).byId.find? id = if id = cp.id then some cp.shell else store.byId.find? id :=
  SortedMap.find?_insert ..

/-- A row of a history after a save is the new shell or an old row. -/
theorem mem_byThread_save {store : InMemoryCheckpointStore β} {cp row : CheckpointRow β}
    {t : String} (h : row ∈ (store.save cp).byThread.getD t []) :
    (t = cp.threadId ∧ row = cp.shell) ∨ row ∈ store.byThread.getD t [] := by
  unfold save splitBlobs SortedMap.getD at h
  dsimp only at h
  rw [SortedMap.find?_insert] at h
  split at h
  · rename_i ht
    rw [getD_some, mem_append, mem_singleton] at h
    obtain h | h := h
    · refine .inr ?_
      rw [ht]
      split at h
      · exact mem_of_mem_eraseP h
      · exact h
    · exact .inl ⟨ht, h⟩
  · exact .inr h

/-- A shell is joined to its checkpoint when the blobs are its values. -/
theorem joinBlobs_shell_iff (cp : CheckpointRow β) : store.joinBlobs cp.shell = cp
      ↔ ∀ n e, cp.channelValues.channels.find? n = some e →
        e.value = some ((store.blob cp.threadId n e.version).getD .null) := by
  have hf : ∀ n, (store.joinBlobs cp.shell).channelValues.channels.find? n
      = (cp.channelValues.channels.find? n).map fun e =>
        ⟨some ((store.blob cp.threadId n e.version).getD .null), e.version⟩ := by
    intro n
    unfold joinBlobs
    rw [SortedMap.find?_filterMap, cp.find?_shell]
    cases cp.channelValues.channels.find? n with
    | none | some e => rfl
  constructor
  · intro h n e he
    have hn := hf n
    rw [h, he] at hn
    exact congrArg ChannelEntry.value (some.inj hn)
  · intro h
    have hc : (store.joinBlobs cp.shell).channelValues.channels
        = cp.channelValues.channels := by
      refine SortedMap.ext_find? fun n => ?_
      rw [hf]
      cases he : cp.channelValues.channels.find? n with
      | none => rfl
      | some e =>
        rw [map_some, ← h n e he]
    calc store.joinBlobs cp.shell
        = { cp with
              channelValues :=
                { cp.channelValues with
                    channels := (store.joinBlobs cp.shell).channelValues.channels } } := rfl
      _ = cp := by rw [hc]

/-- The blobs have no other value for a channel of a checkpoint. -/
def Agrees (store : InMemoryCheckpointStore β) (cp : CheckpointRow β) : Prop :=
  ∀ n e, cp.channelValues.channels.find? n = some e →
    ∀ x, store.blob cp.threadId n e.version = some x → e.value = some x

/-- **One save**: what is loaded afterwards is what was saved exactly when
the blobs there were have no other value for it. -/
theorem loadById_save_iff (cp : CheckpointRow β)
    (hf : ∀ n e, cp.channelValues.channels.find? n = some e → e.value.isSome = true) :
    (store.save cp).loadById cp.id = some cp ↔ store.Agrees cp := by
  unfold loadById
  rw [find?_byId_save, if_pos rfl, map_some, some.injEq, joinBlobs_shell_iff]
  unfold Agrees
  refine forall₃_congr fun n e he => ?_
  obtain ⟨value, hv⟩ := isSome_iff_exists.mp (hf n e he)
  rw [blob_save, cp.valueAt_self he, hv]
  cases store.blob cp.threadId n e.version with
  | none | some x => simp

end InMemoryCheckpointStore

/-- Where an operation takes its state from. -/
inductive Source where
  /-- A new state, as for a run. -/
  | fresh
  /-- The latest checkpoint of the thread. -/
  | latest
  /-- A checkpoint of the thread. -/
  | byId (id : ℕ)
deriving DecidableEq, Repr

/-- What an operation does. -/
inductive Action (β : Type) where
  | start (threadId : String) (source : Source)
  | write (channel : String) (mode : WriteMode) (value : Json String)
  /-- A super-step begins. -/
  | beginStep
  | save (rest : β)
  | saveStepStart (rest : β)

/-- An operation under way. -/
structure Live where
  threadId : String
  state : GraphState
  /-- The state its super-step started from. -/
  stepStart : GraphState

/-- The store, and the operation under way on it. -/
structure Session (β : Type) where
  store : InMemoryCheckpointStore β := {}
  live : Option Live := none
  /-- The number of ids used. -/
  issued : ℕ := 0
  saved : List (CheckpointRow β) := []

/-- A new state with a checkpoint put into it. -/
def restored (defs : List ChannelDef) (cp : CheckpointRow β) : Except Exn GraphState := do
  let s ← GraphState.initState defs
  s.restoreCheckpoint cp.channelValues cp.ephemeralGuard

/-- The state an operation starts from, unless it throws. -/
def startState (defs : List ChannelDef) (store : InMemoryCheckpointStore β) (threadId : String) :
    Source → Option GraphState
  | .fresh => (GraphState.initState defs).toOption
  | .latest => do
    let cp ← store.loadLatest threadId
    (restored defs cp).toOption
  | .byId id => do
    let cp ← store.loadById id
    if cp.threadId = threadId then (restored defs cp).toOption else none

namespace Session

/-- A checkpoint of a state, under a new id. -/
def checkpointOf (w : Session β) (threadId : String) (s : GraphState) (rest : β) :
    CheckpointRow β :=
  ⟨w.issued, threadId, s.checkpointSnapshot, s.ephemeralCheckpointGuard, rest⟩

/-- A checkpoint with a new id is saved. -/
def saveNew (w : Session β) (cp : CheckpointRow β) : Session β :=
  { w with store := w.store.save cp, issued := w.issued + 1, saved := w.saved ++ [cp] }

/-- The checkpoint an action saves, if any. -/
def toSave (w : Session β) : Action β → Option (CheckpointRow β)
  | .save rest => w.live.map fun l => w.checkpointOf l.threadId l.state rest
  | .saveStepStart rest => w.live.map fun l => w.checkpointOf l.threadId l.stepStart rest
  | _ => none

/-- The operation under way after an action. -/
def nextLive (defs : List ChannelDef) (w : Session β) : Action β → Option Live
  | .start threadId source =>
    (startState defs w.store threadId source).map fun s => ⟨threadId, s, s⟩
  | .write channel mode value => w.live.map fun l =>
    match l.state.write channel mode value with
    | .ok s => { l with state := s }
    | .error _ => l
  | .beginStep => w.live.map fun l => { l with stepStart := l.state }
  | _ => w.live

/-- One action. -/
def step (defs : List ChannelDef) (w : Session β) (a : Action β) : Session β :=
  let w' := { w with live := w.nextLive defs a }
  match w.toSave a with
  | some cp => w'.saveNew cp
  | none => w'

/-- A sequence of actions. -/
def run (defs : List ChannelDef) (w : Session β) (actions : List (Action β)) : Session β :=
  actions.foldl (step defs) w

/-- A condition holds of every action of a sequence, in the session it is
applied to. -/
def Along (defs : List ChannelDef) (P : Session β → Action β → Prop) :
    Session β → List (Action β) → Prop
  | _, [] => True
  | w, a :: actions => P w a ∧ Along defs P (w.step defs a) actions

end Session

end NeoGraph
