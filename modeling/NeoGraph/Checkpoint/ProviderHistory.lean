import NeoGraph.Checkpoint.State
import NeoGraph.Lib.JsonObject

/-!
# Provider histories

A channel of provider messages has a history beside its value: the messages
as the provider gave them, of which the value is only the portable
projection. A write brings the history up to date before it is committed.

The messages that are kept are found by their projections: every item of the
new value takes the first candidate after the one taken before it, and no
group of native messages may be kept in part (`generalUpdate`). A write that
only appends takes a shorter way (`appendUpdate`), which stores the same
(`appendUpdate_eq_generalUpdate`).

The history is looked up before a write is checked, and the lookup makes an
entry. So a rejected write leaves the state unchanged unless it brings native
messages to a channel that has no history yet
(`rejected_write_unchanged_iff`).
-/

namespace NeoGraph

open Json List SortedMap Bool Channel

/-- What histories need of the messages of a provider: reading a portable
message, the projection of a message, and the group of native messages that
it belongs to. -/
structure MessageCodec (M : Type) where
  readPortable : Json String → Except Exn M
  projectMessage : M → Except Exn (Json String)
  native : M → Option ℕ

/-- The messages of a channel, one for each item of the value they were
captured with. Every update makes it so and every reader counts on it; what is
restored from a snapshot is not checked for it, so an edited snapshot can have
more messages than items. -/
@[ext]
structure History (M : Type) where
  messages : List M := []
  projection : List (Json String) := []
  aligned : messages.length = projection.length := by rfl

variable {M : Type} (codec : MessageCodec M)

namespace History

/-! ## Updates -/

def differsFromProjection : Exn :=
  .invalidArgument "Native message write differs from portable projection"

def cannotManufacture : Exn :=
  .invalidArgument "Message reducer cannot manufacture native history"

def splitGroup : Exn := .invalidArgument "Message retention split a native replay group"

/-- Messages, one for each of some items. -/
abbrev MessagesOf (M : Type) (items : List (Json String)) : Type :=
  { messages : List M // messages.length = items.length }

/-- Native messages are written with their own projections. -/
def checkProjections : List M → List (Json String) → Except Exn Unit
  | [], [] => .ok ()
  | message :: messages, item :: items => do
    let projection ← codec.projectMessage message
    if !projection.equals item then .error differsFromProjection
    else checkProjections messages items
  | _, _ => .error differsFromProjection

/-- The messages of portable items. -/
def readItems : (items : List (Json String)) → Except Exn (MessagesOf M items)
  | [] => .ok ⟨[], rfl⟩
  | item :: items => do
    let message ← codec.readPortable item
    let messages ← readItems items
    .ok ⟨message :: messages.1, by rw [length_cons, length_cons, messages.2]⟩

/-- The messages a write brings. A native write was checked to have one for
every item. -/
def incomingMessages (incoming : List (Json String)) (native : Option (List M)) :
    Except Exn (MessagesOf M incoming) :=
  match native with
  | none => readItems codec incoming
  | some messages =>
    if h : messages.length = incoming.length then .ok ⟨messages, h⟩
    else .error differsFromProjection

/-- The new value is the old one followed by what is written. -/
def isAppended (before incoming after : List (Json String)) : Bool :=
  after.length = before.length + incoming.length
    && (before.zip after).all (fun p => p.1.equals p.2)
    && (incoming.zip (after.drop before.length)).all fun p => p.1.equals p.2

/-- An item takes the first candidate that is left and has its projection. -/
def select : List (M × Json String) → (after : List (Json String)) →
    Except Exn (MessagesOf M after)
  | _, [] => .ok ⟨[], rfl⟩
  | candidates, item :: after =>
    match candidates.dropWhile fun c => !c.2.equals item with
    | [] => .error cannotManufacture
    | c :: candidates => do
      let selected ← select candidates after
      .ok ⟨c.1 :: selected.1, by rw [length_cons, length_cons, selected.2]⟩

/-- Some group of native messages is kept, but not all of it. -/
def splitsGroup (candidates selected : List M) : Bool :=
  candidates.any fun message =>
    match codec.native message with
    | none => false
    | some group =>
      let kept := selected.countP fun m => codec.native m = some group
      kept ≠ 0 && candidates.countP (fun m => codec.native m = some group) ≠ kept

/-- The messages of the old value: those of the history when it is the value
they were captured with, else those its items are read as. -/
def previousMessages (history : History M) (before : Json String) :
    Except Exn (List (M × Json String)) :=
  if before.equals (.arr history.projection) then
    .ok (history.messages.zip before.elements)
  else if before.isArray then do
    let messages ← readItems codec before.elements
    .ok (messages.1.zip before.elements)
  else .ok []

/-- The messages of the written value; a portable one may be no array. -/
def writtenMessages (incoming : Json String) (native : Option (List M)) :
    Except Exn (List (M × Json String)) :=
  if native.isSome || incoming.isArray then do
    let messages ← incomingMessages codec incoming.elements native
    .ok (messages.1.zip incoming.elements)
  else .ok []

/-- The history after a write that only appends. -/
def appendUpdate (history : History M) (_ incoming after : Json String)
    (native : Option (List M)) : Except Exn (History M) := do
  let messages ← incomingMessages codec incoming.elements native
  if h : after.elements.length = history.projection.length + incoming.elements.length then
    .ok ⟨history.messages ++ messages.1, after.elements, by
      rw [length_append, messages.2, history.aligned, h]⟩
  else .error cannotManufacture

/-- The history after any write. -/
def generalUpdate (history : History M) (before incoming after : Json String)
    (native : Option (List M)) : Except Exn (History M) := do
  let previous ← history.previousMessages codec before
  let written ← writtenMessages codec incoming native
  let selected ← select (previous ++ written) after.elements
  if splitsGroup codec ((previous ++ written).map Prod.fst) selected.1 then .error splitGroup
  else .ok ⟨selected.1, after.elements, selected.2⟩

/-- Whether a write only appends to the value the history was captured with. -/
def takesAppend (appendOnly : Bool) (history : History M) (before incoming after : Json String) :
    Bool :=
  before.equals (.arr history.projection) && before.isArray && incoming.isArray && appendOnly
    && isAppended before.elements incoming.elements after.elements

/-- A history is brought up to date with a write. `appendOnly` says that the
channel has the reducer that appends and keeps everything. -/
def update (appendOnly : Bool) (history : History M) (before incoming after : Json String)
    (native : Option (List M)) : Except Exn (History M) :=
  if !after.isArray then .error (.invalidArgument "provider history channel must be an array")
  else do
    match native with
    | none => pure ()
    | some messages =>
      if !incoming.isArray || messages.length ≠ incoming.elements.length then
        .error differsFromProjection
      else checkProjections codec messages incoming.elements
    if history.takesAppend appendOnly before incoming after then
      history.appendUpdate codec before incoming after native
    else history.generalUpdate codec before incoming after native

/-! ## Appending takes every candidate -/

variable {codec}

theorem length_eq_of_equalsItems {items items' : List (Json String)}
    (h : equalsItems items items' = true) : items.length = items'.length := by
  induction items generalizing items' with
  | nil =>
    cases items' with
    | nil => rfl
    | cons w items' => cases h
  | cons v items ih =>
    cases items' with
    | nil => cases h
    | cons w items' =>
      rw [equalsItems, and_eq_true] at h
      rw [length_cons, length_cons, ih h.2]

variable {after : List (Json String)} {candidates : List (M × Json String)}

/-- Candidates that fit the items one by one are all taken, in order. -/
theorem select_of_forall₂ (h : Forall₂ (fun c item => c.2.equals item = true) candidates after) :
    select candidates after = .ok ⟨candidates.map Prod.fst, by rw [length_map, h.length_eq]⟩ := by
  induction h with
  | nil => rfl
  | @cons c item candidates after hc hr ih =>
    have hf : (c :: candidates).dropWhile (fun c => !c.2.equals item) = c :: candidates :=
      dropWhile_cons_of_neg (by simp [hc])
    rw [select, hf]
    dsimp only
    rw [ih]
    rfl

/-- Nothing is split when everything is kept. -/
theorem splitsGroup_self (candidates : List M) :
    splitsGroup codec candidates candidates = false := by
  unfold splitsGroup
  rw [any_eq_false]
  intro message _
  cases codec.native message with
  | none | some group => simp

/-- The new value is the old one and what is written, item by item. -/
theorem isAppended_iff {before incoming : List (Json String)} :
    isAppended before incoming after = true
      ↔ Forall₂ (fun item item' => item.equals item' = true) (before ++ incoming) after := by
  induction before generalizing after with
  | nil =>
    unfold isAppended
    rw [nil_append, forall₂_iff_zip, and_eq_true, and_eq_true,
      decide_eq_true_eq, all_eq_true, all_eq_true]
    constructor
    · rintro ⟨⟨hl, -⟩, his⟩
      refine ⟨by rw [hl, length_nil, Nat.zero_add], fun hm => his _ hm⟩
    rintro ⟨hl, his⟩
    refine ⟨⟨by rw [← hl, length_nil, Nat.zero_add], ?_⟩, fun p hp => his hp⟩
    intro p hp
    cases hp
  | cons item before ih =>
    cases after with
    | nil =>
      refine iff_of_false (fun h => ?_) fun h => by cases h
      simp [isAppended] at h
      omega
    | cons item' after =>
      rw [cons_append, forall₂_cons, ← ih]
      unfold isAppended
      simp only [length_cons, zip_cons_cons, all_cons, drop_succ_cons,
        and_eq_true, decide_eq_true_eq]
      constructor
      · rintro ⟨⟨hl, hi, hb⟩, hinc⟩
        exact ⟨hi, ⟨by omega, hb⟩, hinc⟩
      · rintro ⟨hi, ⟨hl, hb⟩, hinc⟩
        exact ⟨⟨by omega, hi, hb⟩, hinc⟩

theorem forall₂_snd_iff : Forall₂ (fun c item => c.2.equals item = true) candidates after
      ↔ Forall₂ (fun item item' => item.equals item' = true) (candidates.map Prod.snd) after :=
  (forall₂_map_left_iff
    (R := fun item item' : Json String => item.equals item' = true)).symm

/-- The old value of an appending write is what the history was captured
with. -/
theorem previousMessages_of_equals {history : History M} {before : Json String}
    (h : before.equals (.arr history.projection) = true) :
    history.previousMessages codec before = .ok (history.messages.zip before.elements)
      ∧ before.elements.length = history.projection.length := by
  refine ⟨if_pos h, ?_⟩
  cases before with
  | arr items => exact length_eq_of_equalsItems h
  | _ => simp [Json.equals] at h

/-- **The shorter way stores what the general one stores.** Where an update
may take it, the candidates of the general way fit the items of the new value
one by one, so that all are taken in order and no group is split. -/
theorem appendUpdate_eq_generalUpdate (codec : MessageCodec M) (appendOnly : Bool)
    (history : History M) (before incoming after : Json String) (native : Option (List M))
    (h : history.takesAppend appendOnly before incoming after = true) :
    history.appendUpdate codec before incoming after native
      = history.generalUpdate codec before incoming after native := by
  unfold takesAppend at h
  simp only [Bool.and_eq_true] at h
  obtain ⟨⟨⟨⟨hb, -⟩, hinc⟩, -⟩, happ⟩ := h
  obtain ⟨hprev, hl⟩ := @previousMessages_of_equals _ codec _ _ hb
  have hm := isAppended_iff.mp happ
  unfold appendUpdate generalUpdate writtenMessages
  rw [hprev, hinc, Bool.or_true, if_pos rfl]
  cases hms : incomingMessages codec incoming.elements native with
  | error e => rfl
  | ok messages =>
    have hsnd : (history.messages.zip before.elements ++ messages.1.zip incoming.elements).map
        Prod.snd = before.elements ++ incoming.elements := by
      rw [map_append, map_snd_zip, map_snd_zip]
      · exact messages.2.ge
      · rw [hl, history.aligned]
    have hfst : (history.messages.zip before.elements ++ messages.1.zip incoming.elements).map
        Prod.fst = history.messages ++ messages.1 := by
      rw [map_append, map_fst_zip, map_fst_zip]
      · exact messages.2.le
      · rw [hl, history.aligned]
    have hs := select_of_forall₂ (forall₂_snd_iff.mpr (hsnd ▸ hm))
    have hsz : after.elements.length = history.projection.length + incoming.elements.length := by
      rw [← hm.length_eq, length_append, hl]
    show (if h : _ then _ else _) = (select _ after.elements >>= _)
    rw [dif_pos hsz, hs]
    show _ = if _ then _ else _
    rw [if_neg (by rw [splitsGroup_self]; decide)]
    exact congrArg Except.ok (History.ext hfst.symm rfl)

/-- Messages of plain text, which are their own projections. -/
def plainCodec : MessageCodec (Json String) where
  readPortable := .ok
  projectMessage := .ok
  native _ := none

/-- The same text twice: the second write of it appends. -/
theorem appendUpdate_eq_generalUpdate_repeated :
    (History.mk [.str "a"] [.str "a"]).appendUpdate plainCodec (.arr [.str "a"])
        (.arr [.str "a"]) (.arr [.str "a", .str "a"]) none
      = (History.mk [.str "a"] [.str "a"]).generalUpdate plainCodec (.arr [.str "a"])
        (.arr [.str "a"]) (.arr [.str "a", .str "a"]) none :=
  appendUpdate_eq_generalUpdate plainCodec true _ _ _ _ none (by decide +kernel)

end History

/-! ## States with histories -/

/-- A state of channels with the histories of some of them. -/
structure HistoryState (M : Type) where
  graph : GraphState := {}
  /-- The channels whose reducer is the one that appends. -/
  appendChannels : List String := []
  histories : SortedMap String (History M) := ∅

/-- A write to a channel, with the messages it is the projection of. -/
structure ChannelWrite (M : Type) where
  channel : String
  value : Json String
  mode : WriteMode := .reduce
  nativeMessages : Option (List M) := none

namespace HistoryState

/-- The value of a channel. -/
def get (graph : GraphState) (channel : String) : Json String :=
  (graph.channels.find? channel).elim .null value

/-- A channel that holds messages starts with a history. -/
def initChannel (s : HistoryState M) (d : ChannelDef) : Except Exn (HistoryState M) := do
  let graph ← s.graph.initChannel d
  .ok { s with
    graph := graph
    appendChannels := if d.append then d.name :: s.appendChannels else s.appendChannels }

/-- The channel has the reducer that appends and keeps everything. -/
def appendOnly (s : HistoryState M) (channel : String) : Bool :=
  channel ∈ s.appendChannels
    && (s.graph.channels.find? channel).any fun c => c.lifecycle.retention = .unbounded

/-- One write of a batch, with what it throws. A history is looked up before
the write is checked against it, and the lookup makes an entry. -/
def applyWrite (s : HistoryState M) (w : ChannelWrite M) : HistoryState M × Except Exn Unit :=
  match s.graph.write w.channel w.mode w.value with
  | .error e => (s, .error e)
  | .ok graph =>
    if w.nativeMessages.isSome || s.histories.contains w.channel then
      let history := s.histories.getD w.channel {}
      let before := match w.mode with
        | .overwrite => .arr []
        | .reduce => get s.graph w.channel
      match history.update codec (s.appendOnly w.channel) before w.value (get graph w.channel)
          w.nativeMessages with
      | .error e => ({ s with histories := s.histories.insert w.channel history }, .error e)
      | .ok history =>
        ({ s with graph := graph, histories := s.histories.insert w.channel history }, .ok ())
    else ({ s with graph := graph }, .ok ())

/-- A batch of writes stops at the first that throws. -/
def applyWrites (s : HistoryState M) : List (ChannelWrite M) → HistoryState M × Except Exn Unit
  | [] => (s, .ok ())
  | w :: writes =>
    match s.applyWrite codec w with
    | (s', .error e) => (s', .error e)
    | (s', .ok ()) => applyWrites s' writes

/-- A write of its own. -/
def write (s : HistoryState M) (channel : String) (value : Json String) :
    HistoryState M × Except Exn Unit :=
  match s.graph.write channel .reduce value with
  | .error e => (s, .error e)
  | .ok graph =>
    match s.histories.find? channel with
    | none => ({ s with graph := graph }, .ok ())
    | some history =>
      match history.update codec (s.appendOnly channel) (get s.graph channel) value
          (get graph channel) none with
      | .error e => (s, .error e)
      | .ok history =>
        ({ s with graph := graph, histories := s.histories.insert channel history }, .ok ())

/-! ## What can be seen of a state -/

/-- The messages captured for a channel. -/
def capturedProviderMessages (s : HistoryState M) (channel : String) : Option (List M) :=
  (s.histories.find? channel).map History.messages

/-- The messages of a channel: the captured ones, or its items as portable
messages. -/
def getProviderMessages (s : HistoryState M) (channel : String) : Except Exn (List M) :=
  match s.histories.find? channel with
  | some history => .ok history.messages
  | none => (get s.graph channel).elements.mapM codec.readPortable

/-- A snapshot: the channels, and the messages and the projection of every
history. A checkpoint leaves out the channels that are ephemeral. -/
def snapshot (s : HistoryState M) (skipEphemeral : Bool) :
    ChannelValues × SortedMap String (List M × List (Json String)) :=
  let skipped := fun channel => skipEphemeral
    && (s.graph.channels.find? channel).any ephemeral
  (⟨s.graph.channels.filterMap fun channel c =>
      if skipped channel then none else some ⟨some c.value, c.version⟩, s.graph.globalVersion⟩,
    s.histories.filterMap fun channel history =>
      if skipped channel then none else some (history.messages, history.projection))

/-- Two states look the same to every observer. -/
structure SameObservables (s s' : HistoryState M) : Prop where
  value : ∀ channel, get s.graph channel = get s'.graph channel
  version : ∀ channel, (s.graph.channels.find? channel).map version
    = (s'.graph.channels.find? channel).map version
  globalVersion : s.graph.globalVersion = s'.graph.globalVersion
  captured : ∀ channel, s.capturedProviderMessages channel = s'.capturedProviderMessages channel
  provider : ∀ channel, s.getProviderMessages codec channel = s'.getProviderMessages codec channel
  snapshot : ∀ skipEphemeral, s.snapshot skipEphemeral = s'.snapshot skipEphemeral

variable {codec}

theorem SameObservables.refl (s : HistoryState M) : SameObservables codec s s :=
  ⟨fun _ => rfl, fun _ => rfl, rfl, fun _ => rfl, fun _ => rfl, fun _ => rfl⟩

/-! ## Rejected writes -/

/-- A write that cannot make an entry in passing: it brings no native
messages, its channel has a history, or the channel itself rejects it. -/
def KeepsEntries (s : HistoryState M) (w : ChannelWrite M) : Prop :=
  w.nativeMessages = none ∨ s.histories.contains w.channel = true
    ∨ ∃ e, s.graph.write w.channel w.mode w.value = .error e

variable {channel : String}

theorem insert_of_find? {histories : SortedMap String (History M)}
    {history : History M} (h : histories.find? channel = some history) :
    histories.insert channel history = histories := by
  refine ext_find? fun channel' => ?_
  rw [find?_insert]
  split_ifs with heq
  · rw [heq, h]
  · rfl

variable {s : HistoryState M} {e : Exn}

/-- What a rejected write leaves behind. -/
theorem applyWrite_eq_error {w : ChannelWrite M} (h : (s.applyWrite codec w).2 = .error e) :
    (s.KeepsEntries w ∧ (s.applyWrite codec w).1 = s)
      ∨ (¬s.KeepsEntries w ∧ s.histories.find? w.channel = none ∧ (s.applyWrite codec w).1
        = { s with histories := s.histories.insert w.channel {} }) := by
  unfold applyWrite at h ⊢
  cases hg : s.graph.write w.channel w.mode w.value with
  | error e' => exact .inl ⟨.inr (.inr ⟨e', hg⟩), rfl⟩
  | ok graph =>
    rw [hg] at h
    dsimp only at h ⊢
    by_cases hu : (w.nativeMessages.isSome || s.histories.contains w.channel) = true
    · rw [if_pos hu] at h ⊢
      split at h
      · cases hf : s.histories.find? w.channel with
        | some history =>
          have hc : s.histories.contains w.channel = true := by
            rw [SortedMap.contains, hf]
            rfl
          refine .inl ⟨.inr (.inl hc), ?_⟩
          rw [SortedMap.getD, hf, Option.getD_some, insert_of_find? hf]
        | none =>
          rw [SortedMap.getD, hf]
          refine .inr ⟨?_, rfl, rfl⟩
          have ha : s.histories.contains w.channel = false := by
            rw [SortedMap.contains, hf]
            rfl
          rw [ha, Bool.or_false] at hu
          rintro (hn | hc | ⟨e', hw⟩)
          · rw [hn] at hu
            cases hu
          · rw [ha] at hc
            cases hc
          · rw [hg] at hw
            cases hw
      · cases h
    · rw [if_neg hu] at h
      cases h

/-- A write of its own leaves nothing behind when it is rejected. -/
theorem write_eq_error {value : Json String}
    (h : (s.write codec channel value).2 = .error e) : (s.write codec channel value).1 = s := by
  unfold write at h ⊢
  cases hg : s.graph.write channel .reduce value with
  | error e' => rfl
  | ok graph =>
    rw [hg] at h
    dsimp only at h ⊢
    cases hf : s.histories.find? channel with
    | none =>
      rw [hf] at h
      cases h
    | some history =>
      rw [hf] at h
      dsimp only at h ⊢
      split at h
      · rfl
      · cases h

/-- The writes a state accepts, each tried where the ones before it led. -/
def accepted (codec : MessageCodec M) (s : HistoryState M) :
    List (ChannelWrite M) → List (ChannelWrite M)
  | [] => []
  | w :: writes =>
    match s.applyWrite codec w with
    | (s', .ok ()) => w :: accepted codec s' writes
    | (s', .error _) => accepted codec s' writes

/-- Writes made one by one; a caller may go on after a rejected one. -/
def runWrites (codec : MessageCodec M) (s : HistoryState M) (writes : List (ChannelWrite M)) :
    HistoryState M :=
  writes.foldl (fun s w => (s.applyWrite codec w).1) s

/-- Every write of a run is one that cannot make an entry in passing. -/
def AllKeepEntries (codec : MessageCodec M) (s : HistoryState M) : List (ChannelWrite M) → Prop
  | [] => True
  | w :: writes => s.KeepsEntries w ∧ AllKeepEntries codec (s.applyWrite codec w).1 writes

/-- In a run of such writes the rejected ones might as well not be made. -/
theorem runWrites_accepted {writes : List (ChannelWrite M)} (h : AllKeepEntries codec s writes) :
    runWrites codec s writes = runWrites codec s (accepted codec s writes) := by
  induction writes generalizing s with
  | nil => rfl
  | cons w writes ih =>
    obtain ⟨hkp, hr⟩ := h
    have hrun := ih hr
    show runWrites codec (s.applyWrite codec w).1 writes = _
    rw [accepted]
    rcases hw : s.applyWrite codec w with ⟨s', e | ⟨⟨⟩⟩⟩
    · rw [hw] at hrun
      have hsm : s' = s := by
        have herr : (s.applyWrite codec w).2 = .error e := by rw [hw]
        obtain ⟨-, hsm⟩ | ⟨hmakes, -⟩ := applyWrite_eq_error herr
        · rwa [hw] at hsm
        · exact absurd hkp hmakes
      subst hsm
      exact hrun
    · rw [hw] at hrun
      show _ = runWrites codec (s.applyWrite codec w).1 _
      rw [hw]
      exact hrun

/-- **When a rejected write leaves the state as it was.** A write of its own
always does. One of a batch does exactly when it brings no native messages,
its channel has a history already, or the channel itself rejects it – then
nothing that can be seen of the state changes, in no run of such writes. -/
theorem rejected_write_unchanged_iff (codec : MessageCodec M) (s : HistoryState M) :
    (∀ channel value e, (s.write codec channel value).2 = .error e →
        SameObservables codec s (s.write codec channel value).1)
      ∧ (∀ w e, (s.applyWrites codec [w]).2 = .error e →
        (SameObservables codec s (s.applyWrites codec [w]).1 ↔ s.KeepsEntries w))
      ∧ ∀ writes, AllKeepEntries codec s writes →
        runWrites codec s writes = runWrites codec s (accepted codec s writes) := by
  refine ⟨fun channel value e h => ?_, fun w e h => ?_, fun writes => runWrites_accepted⟩
  · rw [write_eq_error h]
    exact .refl s
  · have hbat : s.applyWrites codec [w] = s.applyWrite codec w := by
      rw [applyWrites]
      rcases s.applyWrite codec w with ⟨s', e | ⟨⟨⟩⟩⟩ <;> rfl
    rw [hbat] at h ⊢
    obtain ⟨hkp, hsm⟩ | ⟨hmakes, ha, hen⟩ := applyWrite_eq_error h
    · rw [hsm]
      exact iff_of_true (.refl s) hkp
    · refine iff_of_false (fun hobs => ?_) hmakes
      have hc := hobs.captured w.channel
      rw [hen] at hc
      unfold capturedProviderMessages at hc
      rw [ha, find?_insert_self] at hc
      cases hc

/-- A channel of messages whose reducer appends. -/
def messagesChannel : ChannelDef where
  name := "messages"
  append := true
  reducer v w := .ok (.arr (v.elements ++ w.elements))
  initialValue := .null
  lifecycle := {}

/-- A native message whose projection is not what is written. -/
def editedWrite : ChannelWrite (Json String) where
  channel := "messages"
  value := .arr [.str "edited"]
  nativeMessages := some [.str "original"]

/-- **A rejected write hides the messages of a channel.** A channel holds a
portable message; a native write to it is rejected, and from then on the
channel has no messages for the provider. -/
theorem rejected_write_hides_messages :
    ∃ s s' : HistoryState (Json String),
      ({} : HistoryState (Json String)).initChannel messagesChannel = .ok s
        ∧ s' = (s.write History.plainCodec "messages" (.arr [.str "hello"])).1
        ∧ (s'.applyWrites History.plainCodec [editedWrite]).2
          = .error History.differsFromProjection
        ∧ s'.getProviderMessages History.plainCodec "messages" = .ok [.str "hello"]
        ∧ (s'.applyWrites History.plainCodec [editedWrite]).1.getProviderMessages
          History.plainCodec "messages" = .ok []
        ∧ ¬SameObservables History.plainCodec s'
          (s'.applyWrites History.plainCodec [editedWrite]).1 := by
  refine ⟨_, _, rfl, rfl, rfl, rfl, rfl, fun h => ?_⟩
  have hc : none = some [] := h.captured "messages"
  cases hc

end HistoryState

end NeoGraph
