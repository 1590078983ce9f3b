import NeoGraph.Checkpoint.Store

/-!
# When the store is transparent

A checkpoint that is loaded is the one that was saved as long as no save
meets a blob with another value under a key of its own
(`good_run_iff`), and that is exact: the first save that does is not loaded
back as it was, then or later.

Within one operation versions identify values, since each write takes a new
one. Across operations this depends on where the counter starts. If every
operation starts with a counter that no stored version of its thread
exceeds, its writes get versions that are new to the store, and no save
meets another value (`agrees_of_seeded`). A new run on a thread that was
written before, and a resume of a checkpoint older than the last write,
start with a lower counter.
-/

namespace NeoGraph

open Option GraphState InMemoryCheckpointStore List Nat SortedMap CheckpointRow

variable {β : Type} {defs : List ChannelDef}

namespace Session

/-! ## Exactly -/

/-- Every checkpoint that was saved is loaded as it was. -/
def Good (w : Session β) : Prop := ∀ cp ∈ w.saved, w.store.loadById cp.id = some cp

/-- The save an action makes meets no other value. -/
def SaveAgrees (w : Session β) (a : Action β) : Prop :=
  ∀ cp, w.toSave a = some cp → w.store.Agrees cp

/-- What is filed under the ids used so far. -/
structure Filed (w : Session β) : Prop where
  id_lt : ∀ cp ∈ w.saved, cp.id < w.issued
  byId : ∀ cp ∈ w.saved, w.store.byId.find? cp.id = some cp.shell
  blob : ∀ cp ∈ w.saved, ∀ n e, cp.channelValues.channels.find? n = some e →
    (w.store.blob cp.threadId n e.version).isSome = true

variable {a : Action β} {w : Session β} {cp : CheckpointRow β}

/-- What an action saves: a new checkpoint of a state of its operation. -/
theorem toSave_eq_some (h : w.toSave a = some cp) :
    ∃ l rest s, w.live = some l ∧ (s = l.state ∨ s = l.stepStart)
      ∧ cp = w.checkpointOf l.threadId s rest := by
  unfold toSave at h
  split at h
  · rename_i rest
    obtain ⟨l, hl, rfl⟩ := map_eq_some_iff.mp h
    exact ⟨l, rest, l.state, hl, .inl rfl, rfl⟩
  · rename_i rest
    obtain ⟨l, hl, rfl⟩ := map_eq_some_iff.mp h
    exact ⟨l, rest, l.stepStart, hl, .inr rfl, rfl⟩
  · cases h

theorem toSave_full (h : w.toSave a = some cp) {n : String} {e : ChannelEntry}
    (he : cp.channelValues.channels.find? n = some e) : e.value.isSome = true := by
  obtain ⟨l, rest, s, -, -, rfl⟩ := toSave_eq_some h
  obtain ⟨c, -, -, rfl⟩ := find?_checkpointSnapshot.mp he
  rfl

theorem id_of_toSave (h : w.toSave a = some cp) : cp.id = w.issued := by
  obtain ⟨l, rest, s, -, -, rfl⟩ := toSave_eq_some h
  rfl

/-- An action that saves nothing keeps the store. -/
theorem step_of_toSave_eq_none (h : w.toSave a = none) :
    w.step defs a = { w with live := w.nextLive defs a } := by
  unfold step
  rw [h]

theorem step_of_toSave_eq_some (h : w.toSave a = some cp) :
    w.step defs a = { w with live := w.nextLive defs a }.saveNew cp := by
  unfold step
  rw [h]

/-- A blob that is there stays. -/
theorem blob_step {t n : String} {v : ℕ} {x : Json String} (h : w.store.blob t n v = some x) :
    (w.step defs a).store.blob t n v = some x := by
  cases hs : w.toSave a with
  | none => rwa [step_of_toSave_eq_none hs]
  | some cp =>
    rw [step_of_toSave_eq_some hs]
    show (w.store.save cp).blob t n v = some x
    rw [blob_save, h, some_or]

/-- No action leaves a checkpoint unfiled. -/
theorem filed_step (h : w.Filed) (a : Action β) : (w.step defs a).Filed := by
  cases hs : w.toSave a with
  | none =>
    rw [step_of_toSave_eq_none hs]
    exact ⟨h.id_lt, h.byId, h.blob⟩
  | some cp =>
    have hid := id_of_toSave hs
    rw [step_of_toSave_eq_some hs]
    refine ⟨fun cp' hcp' => ?_, fun cp' hcp' => ?_, fun cp' hcp' n e he => ?_⟩
    · obtain hcp' | hcp' := mem_append.mp hcp'
      · exact (h.id_lt cp' hcp').trans (lt_succ_self _)
      · rw [mem_singleton.mp hcp', hid]
        exact lt_succ_self _
    · show (w.store.save cp).byId.find? cp'.id = _
      rw [find?_byId_save]
      obtain hcp' | hcp' := mem_append.mp hcp'
      · rw [if_neg (hid ▸ (h.id_lt cp' hcp').ne), h.byId cp' hcp']
      · rw [mem_singleton.mp hcp', if_pos rfl]
    · show ((w.store.save cp).blob cp'.threadId n e.version).isSome = true
      rw [blob_save, isSome_or]
      obtain hcp' | hcp' := mem_append.mp hcp'
      · rw [h.blob cp' hcp' n e he, Bool.true_or]
      · rw [mem_singleton.mp hcp'] at he ⊢
        rw [cp.valueAt_self he, toSave_full hs he, Bool.or_true]

/-- What was saved before is loaded as before. -/
theorem loadById_step (h : w.Filed) (a : Action β) (hcp : cp ∈ w.saved) :
    (w.step defs a).store.loadById cp.id = some cp ↔ w.store.loadById cp.id = some cp := by
  have hl : ∀ w' : Session β, w'.Filed → cp ∈ w'.saved →
      (w'.store.loadById cp.id = some cp ↔ w'.store.joinBlobs cp.shell = cp) := by
    intro w' hw' hcp'
    unfold loadById
    rw [hw'.byId cp hcp', map_some, Option.some.injEq]
  have hm : cp ∈ (w.step defs a).saved := by
    cases hs : w.toSave a with
    | none => rwa [step_of_toSave_eq_none hs]
    | some cp' =>
      rw [step_of_toSave_eq_some hs]
      exact mem_append_left _ hcp
  rw [hl _ (filed_step h a) hm, hl w h hcp, joinBlobs_shell_iff, joinBlobs_shell_iff]
  refine forall₃_congr fun n e he => ?_
  obtain ⟨x, hx⟩ := isSome_iff_exists.mp (h.blob cp hcp n e he)
  rw [hx, blob_step hx]

/-- **One action** keeps the store good exactly when its save agrees. -/
theorem good_step_iff (h : w.Filed) (a : Action β) :
    (w.step defs a).Good ↔ w.Good ∧ w.SaveAgrees a := by
  have hold : (∀ cp ∈ w.saved, (w.step defs a).store.loadById cp.id = some cp) ↔ w.Good :=
    forall₂_congr fun cp hcp => loadById_step h a hcp
  unfold SaveAgrees
  cases hs : w.toSave a with
  | none =>
    rw [← hold]
    unfold Good
    rw [step_of_toSave_eq_none hs]
    simp
  | some cp =>
    have hn : (w.step defs a).store.loadById cp.id = some cp ↔ w.store.Agrees cp := by
      rw [step_of_toSave_eq_some hs]
      exact w.store.loadById_save_iff cp fun n e he => toSave_full hs he
    have hsv : (w.step defs a).saved = w.saved ++ [cp] := by
      rw [step_of_toSave_eq_some hs]
      rfl
    rw [← hold]
    unfold Good
    rw [hsv, forall_mem_append, forall_mem_singleton, hn]
    simp

theorem filed_empty : ({} : Session β).Filed :=
  ⟨fun _ h => absurd h not_mem_nil, fun _ h => absurd h not_mem_nil,
    fun _ h => absurd h not_mem_nil⟩

/-- **A sequence of operations** keeps the store good exactly when all its
saves agree. -/
theorem good_run_iff (h : w.Filed) (actions : List (Action β)) :
    (w.run defs actions).Good ↔ w.Good ∧ w.Along defs SaveAgrees actions := by
  induction actions generalizing w with
  | nil => exact (and_iff_left trivial).symm
  | cons a actions ih =>
    show ((w.step defs a).run defs actions).Good ↔ _
    rw [ih (filed_step h a), good_step_iff h a, and_assoc]
    rfl

end Session

/-! ## New states -/

/-- A channel starts with a value. -/
def InitialValue (defs : List ChannelDef) (n : String) (x : Json String) : Prop :=
  ∃ s c, initState defs = .ok s ∧ s.channels.find? n = some c ∧ c.value = x

variable {s : GraphState}

/-- Nothing was written to a new state. -/
theorem versions_initState (h : initState defs = .ok s) :
    s.globalVersion = 0 ∧ ∀ n c, s.channels.find? n = some c → c.version = 0 := by
  have hf : ∀ s₀ : GraphState,
      (s₀.globalVersion = 0 ∧ ∀ n c, s₀.channels.find? n = some c → c.version = 0) →
      defs.foldlM initChannel s₀ = .ok s →
      s.globalVersion = 0 ∧ ∀ n c, s.channels.find? n = some c → c.version = 0 := by
    clear h
    induction defs with
    | nil =>
      intro s₀ h₀ h
      cases h
      exact h₀
    | cons d defs ih =>
      intro s₀ h₀ h
      rw [foldlM_cons] at h
      obtain ⟨s₁, hs₁, h⟩ := bind_eq_ok.mp h
      refine ih s₁ ?_ h
      unfold initChannel at hs₁
      split at hs₁
      · cases hs₁
      obtain ⟨value, -, hs₁⟩ := bind_eq_ok.mp hs₁
      cases hs₁
      refine ⟨h₀.1, fun n c hc => ?_⟩
      dsimp only at hc
      obtain ⟨-, rfl⟩ | hc := find?_insert_cases hc
      · rfl
      · exact h₀.2 n c hc
  exact hf {} ⟨rfl, fun n c hc => by cases hc⟩ h

/-- What restoring a checkpoint does: a channel has its initial value, or
the value and the version of the checkpoint. -/
theorem restored_spec {β : Type} {cp : CheckpointRow β} (h : restored defs cp = .ok s) :
    s.globalVersion = cp.channelValues.globalVersion
      ∧ ∀ n c, s.channels.find? n = some c → (c.version = 0 ∧ InitialValue defs n c.value)
          ∨ ∃ e, cp.channelValues.channels.find? n = some e ∧ c.version = e.version
            ∧ c.value = e.value.getD .null := by
  obtain ⟨s₀, hs₀, h⟩ := bind_eq_ok.mp h
  have hz := (versions_initState hs₀).2
  unfold restoreCheckpoint at h
  split at h
  · cases h
  obtain ⟨-, -, h⟩ := bind_eq_ok.mp h
  cases h
  refine ⟨rfl, fun n c hc => ?_⟩
  dsimp only at hc
  rw [SortedMap.find?_filterMap, bind_eq_some_iff] at hc
  obtain ⟨c₀, hc₀, hc⟩ := hc
  have hini : InitialValue defs n c₀.value := ⟨s₀, c₀, hs₀, hc₀, rfl⟩
  split at hc
  · rename_i e he
    cases hc
    split
    · exact .inl ⟨hz n c₀ hc₀, hini⟩
    · exact .inr ⟨e, he, rfl, rfl⟩
  · cases hc
    exact .inl ⟨hz n _ hc₀, hini⟩

theorem InitialValue.unique {n : String} {x y : Json String} (hx : InitialValue defs n x)
    (hy : InitialValue defs n y) : x = y := by
  obtain ⟨s, c, hs, hc, rfl⟩ := hx
  obtain ⟨s', c', hs', hc', rfl⟩ := hy
  rw [hs] at hs'
  cases hs'
  rw [hc] at hc'
  cases hc'
  rfl

/-! ## Versions across operations -/

/-- A state of an operation: version 0 stands for the initial value, and
the blobs have no other value for its versions. -/
structure Sound (defs : List ChannelDef) (store : InMemoryCheckpointStore β) (threadId : String)
    (s : GraphState) : Prop where
  version_le : ∀ n c, s.channels.find? n = some c → c.version ≤ s.globalVersion
  initial : ∀ n c, s.channels.find? n = some c → c.version = 0 → InitialValue defs n c.value
  agrees : ∀ n c, s.channels.find? n = some c →
    ∀ x, store.blob threadId n c.version = some x → x = c.value

/-- An operation whose counter is ahead of the blobs of its thread. -/
structure Ahead (defs : List ChannelDef) (store : InMemoryCheckpointStore β) (l : Live) : Prop where
  state : Sound defs store l.threadId l.state
  stepStart : Sound defs store l.threadId l.stepStart
  le : l.stepStart.globalVersion ≤ l.state.globalVersion
  /-- Within the operation a version stands for one value. -/
  coherent : ∀ n c c', l.state.channels.find? n = some c →
    l.stepStart.channels.find? n = some c' → c.version = c'.version → c.value = c'.value
  blob_le : ∀ n v, (store.blob l.threadId n v).isSome = true → v ≤ l.state.globalVersion

variable {store : InMemoryCheckpointStore β}

/-- A write takes a version that is new to the store and to the
operation. -/
theorem Ahead.write {l : Live} (h : Ahead defs store l) {channel : String} {mode : WriteMode}
    {value : Json String} (hbd : l.state.globalVersion + 1 < 2 ^ 64)
    (hs : l.state.write channel mode value = .ok s) : Ahead defs store { l with state := s } := by
  unfold GraphState.write at hs
  split at hs
  · cases hs
  rename_i c hc
  simp only [bind_eq_ok] at hs
  obtain ⟨combined, -, retained, -, hs⟩ := hs
  rw [mod_eq_of_lt hbd] at hs
  cases hs
  -- a channel of the new state is the written one or an old one
  have hcs : ∀ n c', (l.state.channels.insert channel
      { c with value := retained, version := l.state.globalVersion + 1 }).find? n = some c' →
      c'.version = l.state.globalVersion + 1 ∨ l.state.channels.find? n = some c' := by
    intro n c' hc'
    obtain ⟨-, rfl⟩ | hc' := find?_insert_cases hc'
    · exact .inl rfl
    · exact .inr hc'
  refine ⟨⟨fun n c' hc' => ?_, fun n c' hc' hver => ?_, fun n c' hc' x hx => ?_⟩,
    h.stepStart, h.le.trans (le_succ _), fun n c' c'' hc' hc'' hver => ?_,
    fun n v hv => (h.blob_le n v hv).trans (le_succ _)⟩
  · obtain hn | hold := hcs n c' hc'
    · exact hn.le
    · exact (h.state.version_le n c' hold).trans (le_succ _)
  · obtain hn | hold := hcs n c' hc'
    · rw [hn] at hver
      cases hver
    · exact h.state.initial n c' hold hver
  · obtain hn | hold := hcs n c' hc'
    · have hle := h.blob_le n c'.version (by rw [hx]; rfl)
      omega
    · exact h.state.agrees n c' hold x hx
  · obtain hn | hold := hcs n c' hc'
    · have hle := h.stepStart.version_le n c'' hc''
      have hle' := h.le
      omega
    · exact h.coherent n c' c'' hold hc'' hver

/-- A save adds the values of a state of the operation. -/
theorem Sound.save {threadId : String} {s' : GraphState} (h : Sound defs store threadId s)
    {cp : CheckpointRow β} (ht : cp.threadId = threadId)
    (hcp : cp.channelValues = s'.checkpointSnapshot)
    (hcoherent : ∀ n c c', s.channels.find? n = some c → s'.channels.find? n = some c' →
      c.version = c'.version → c.value = c'.value) :
    Sound defs (store.save cp) threadId s := by
  refine ⟨h.version_le, h.initial, fun n c hc x hx => ?_⟩
  rw [blob_save, or_eq_some_iff] at hx
  obtain hx | ⟨-, hx⟩ := hx
  · exact h.agrees n c hc x hx
  unfold valueAt at hx
  rw [if_pos ht.symm, hcp] at hx
  obtain ⟨e, he, hx⟩ := bind_eq_some_iff.mp hx
  obtain ⟨c', hc', -, rfl⟩ := find?_checkpointSnapshot.mp he
  split at hx
  · rename_i hv
    rw [hcoherent n c c' hc hc' hv]
    exact (Option.some.inj hx).symm
  · cases hx

/-- An operation stays ahead when one of its states is saved. -/
theorem Ahead.save {l : Live} (h : Ahead defs store l) {cp : CheckpointRow β}
    (hs : s = l.state ∨ s = l.stepStart) (ht : cp.threadId = l.threadId)
    (hcp : cp.channelValues = s.checkpointSnapshot) : Ahead defs (store.save cp) l := by
  have hsl : ∀ s : GraphState, ∀ n c c', s.channels.find? n = some c →
      s.channels.find? n = some c' → c.version = c'.version → c.value = c'.value := by
    intro s n c c' hc hc' _
    rw [hc] at hc'
    rw [Option.some.inj hc']
  have hle : ∀ n c, s.channels.find? n = some c → c.version ≤ l.state.globalVersion := by
    obtain rfl | rfl := hs
    · exact h.state.version_le
    · exact fun n c hc => (h.stepStart.version_le n c hc).trans h.le
  refine ⟨h.state.save ht hcp ?_, h.stepStart.save ht hcp ?_, h.le, h.coherent,
    fun n v hv => ?_⟩
  · obtain rfl | rfl := hs
    · exact hsl l.state
    · exact h.coherent
  · obtain rfl | rfl := hs
    · exact fun n c c' hc hc' hver => (h.coherent n c' c hc' hc hver.symm).symm
    · exact hsl l.stepStart
  · rw [blob_save, isSome_or, Bool.or_eq_true] at hv
    obtain hv | hv := hv
    · exact h.blob_le n v hv
    obtain ⟨x, hx⟩ := isSome_iff_exists.mp hv
    unfold valueAt at hx
    rw [if_pos ht.symm, hcp] at hx
    obtain ⟨e, he, hx⟩ := bind_eq_some_iff.mp hx
    obtain ⟨c, hc, -, rfl⟩ := find?_checkpointSnapshot.mp he
    split at hx
    · rename_i hver
      rw [hver]
      exact hle n c hc
    · cases hx

namespace Session

/-- **The invariant of seeded operations.** -/
structure Numbered (defs : List ChannelDef) (w : Session β) : Prop where
  filed : w.Filed
  /-- Everything that is filed was saved. -/
  byId : ∀ id row, w.store.byId.find? id = some row → ∃ cp ∈ w.saved, cp.shell = row
  byThread : ∀ t, ∀ row ∈ w.store.byThread.getD t [],
    ∃ cp ∈ w.saved, cp.shell = row ∧ cp.threadId = t
  version_le : ∀ cp ∈ w.saved, ∀ n e, cp.channelValues.channels.find? n = some e →
    e.version ≤ cp.channelValues.globalVersion
  initial : ∀ t n x, w.store.blob t n 0 = some x → InitialValue defs n x
  live : ∀ l, w.live = some l → Ahead defs w.store l

/-- An operation starts with a counter that no stored version of its thread
exceeds, and its writes do not exhaust the counter. -/
def Seeded (defs : List ChannelDef) (w : Session β) : Action β → Prop
  | .start threadId source => ∀ s, startState defs w.store threadId source = some s →
      ∀ n v, (w.store.blob threadId n v).isSome = true → v ≤ s.globalVersion
  | .write _ _ _ => ∀ l, w.live = some l → l.state.globalVersion + 1 < 2 ^ 64
  | _ => True

theorem numbered_empty : Numbered defs ({} : Session β) where
  filed := filed_empty
  byId := fun _ _ h => by cases h
  byThread := fun _ _ h => absurd h not_mem_nil
  version_le := fun _ h => absurd h not_mem_nil
  initial := fun _ _ _ h => by cases h
  live := fun _ h => by cases h

variable {w : Session β}

/-- No save of a seeded operation meets another value. -/
theorem Numbered.saveAgrees (h : w.Numbered defs) (a : Action β) : w.SaveAgrees a := by
  intro cp hsv n e he x hx
  obtain ⟨l, rest, s, hl, hs, rfl⟩ := toSave_eq_some hsv
  obtain ⟨c, hc, -, rfl⟩ := find?_checkpointSnapshot.mp he
  have hsd : Sound defs w.store l.threadId s := by
    obtain rfl | rfl := hs
    · exact (h.live l hl).state
    · exact (h.live l hl).stepStart
  rw [hsd.agrees n c hc x hx]

/-- The state of a resumed checkpoint is sound. -/
theorem Numbered.sound_restored (h : w.Numbered defs) {cp : CheckpointRow β} (hcp : cp ∈ w.saved)
    {s : GraphState} (hs : restored defs (w.store.joinBlobs cp.shell) = .ok s) :
    Sound defs w.store cp.threadId s := by
  obtain ⟨hglobal, hchan⟩ := restored_spec hs
  have hen : ∀ n c, s.channels.find? n = some c →
      (c.version = 0 ∧ InitialValue defs n c.value)
        ∨ (c.version ≤ s.globalVersion
          ∧ w.store.blob cp.threadId n c.version = some c.value) := by
    intro n c hc
    obtain hini | ⟨e, he, hver, hv⟩ := hchan n c hc
    · exact .inl hini
    refine .inr ?_
    unfold joinBlobs at he
    dsimp only at he
    rw [SortedMap.find?_filterMap, cp.find?_shell, bind_eq_some_iff] at he
    obtain ⟨e', he', heq⟩ := he
    obtain ⟨e₀, he₀, rfl⟩ := map_eq_some_iff.mp he'
    cases heq
    obtain ⟨x, hx⟩ := isSome_iff_exists.mp (h.filed.blob cp hcp n e₀ he₀)
    have hx' : w.store.blobs.find? (blobKey cp.shell.threadId n e₀.version) = some x := hx
    dsimp only at hver hv
    rw [hx'] at hv
    rw [hver, hv, hglobal]
    exact ⟨h.version_le cp hcp n e₀ he₀, hx⟩
  refine ⟨fun n c hc => ?_, fun n c hc hver => ?_, fun n c hc x hx => ?_⟩
  · obtain ⟨hver, -⟩ | ⟨hver, -⟩ := hen n c hc
    · rw [hver]
      exact zero_le _
    · exact hver
  · obtain ⟨-, hini⟩ | ⟨-, hb⟩ := hen n c hc
    · exact hini
    · rw [hver] at hb
      exact h.initial _ n c.value hb
  · obtain ⟨hver, hini⟩ | ⟨-, hb⟩ := hen n c hc
    · rw [hver] at hx
      exact (h.initial _ n x hx).unique hini
    · rw [hb] at hx
      exact (Option.some.inj hx).symm

/-- The state an operation starts from is sound. -/
theorem Numbered.sound_startState (h : w.Numbered defs) {threadId : String} {source : Source}
    {s : GraphState} (hs : startState defs w.store threadId source = some s) :
    Sound defs w.store threadId s := by
  cases source with
  | fresh =>
    have hinit : initState defs = .ok s := toOption_eq_some.mp hs
    obtain ⟨hglobal, hv⟩ := versions_initState hinit
    refine ⟨fun n c hc => ?_, fun n c hc _ => ⟨s, c, hinit, hc, rfl⟩, fun n c hc x hx => ?_⟩
    · rw [hv n c hc]
      exact zero_le _
    · rw [hv n c hc] at hx
      exact (h.initial _ n x hx).unique ⟨s, c, hinit, hc, rfl⟩
  | latest =>
    obtain ⟨row, hrow, hr⟩ := bind_eq_some_iff.mp hs
    obtain ⟨shell, hsh, rfl⟩ := map_eq_some_iff.mp hrow
    obtain ⟨cp, hcp, rfl, rfl⟩ := h.byThread threadId shell (mem_of_getLast? hsh)
    exact h.sound_restored hcp (toOption_eq_some.mp hr)
  | byId id =>
    obtain ⟨row, hrow, hr⟩ := bind_eq_some_iff.mp hs
    obtain ⟨shell, hsh, rfl⟩ := map_eq_some_iff.mp hrow
    obtain ⟨cp, hcp, rfl⟩ := h.byId id shell hsh
    split at hr
    · rename_i ht
      subst ht
      exact h.sound_restored hcp (toOption_eq_some.mp hr)
    · cases hr

/-- A run that starts counts on from what is stored. -/
theorem Numbered.start (h : w.Numbered defs) {threadId : String} {source : Source}
    (hse : w.Seeded defs (.start threadId source)) {l : Live}
    (hl : w.nextLive defs (.start threadId source) = some l) : Ahead defs w.store l := by
  obtain ⟨s, hs, rfl⟩ := map_eq_some_iff.mp hl
  have hsd := h.sound_startState hs
  refine ⟨hsd, hsd, le_rfl, fun n c c' hc hc' _ => ?_, hse s hs⟩
  rw [hc] at hc'
  rw [Option.some.inj hc']

variable {a : Action β}

/-- A seeded action without a save keeps the operation ahead. -/
theorem Numbered.nextLive (h : w.Numbered defs) (hs : w.Seeded defs a) {l : Live}
    (hl : w.nextLive defs a = some l) : Ahead defs w.store l := by
  cases a with
  | start threadId source => exact h.start hs hl
  | write channel mode value =>
    obtain ⟨l₀, hl₀, rfl⟩ := map_eq_some_iff.mp hl
    have ha := h.live l₀ hl₀
    cases hw : l₀.state.write channel mode value with
    | ok s => exact ha.write (hs l₀ hl₀) hw
    | error e => exact ha
  | beginStep =>
    obtain ⟨l₀, hl₀, rfl⟩ := map_eq_some_iff.mp hl
    have ha := h.live l₀ hl₀
    refine ⟨ha.state, ha.state, le_rfl, fun n c c' hc hc' _ => ?_, ha.blob_le⟩
    rw [hc] at hc'
    rw [Option.some.inj hc']
  | save rest | saveStepStart rest => exact h.live l hl

theorem nextLive_of_toSave {cp : CheckpointRow β} (h : w.toSave a = some cp) :
    w.nextLive defs a = w.live := by
  cases a with
  | start threadId source | write channel mode value | beginStep => cases h
  | save rest | saveStepStart rest => rfl

/-- **One seeded action** keeps the invariant. -/
theorem Numbered.step (h : w.Numbered defs) (hse : w.Seeded defs a) :
    (w.step defs a).Numbered defs := by
  have hfil : (w.step defs a).Filed := filed_step h.filed a
  cases hsv : w.toSave a with
  | none =>
    rw [step_of_toSave_eq_none hsv] at hfil ⊢
    exact ⟨hfil, h.byId, h.byThread, h.version_le, h.initial, fun l hl => h.nextLive hse hl⟩
  | some cp =>
    obtain ⟨l, rest, s, hl, hs, hcp⟩ := toSave_eq_some hsv
    have ha := h.live l hl
    have hsd : Sound defs w.store l.threadId s := by
      obtain rfl | rfl := hs
      · exact ha.state
      · exact ha.stepStart
    rw [step_of_toSave_eq_some hsv] at hfil ⊢
    refine ⟨hfil, fun id row hr => ?_, fun t row hr => ?_, fun cp' hcp' n e he => ?_,
      fun t n x hx => ?_, fun l' hl' => ?_⟩
    · change (w.store.save cp).byId.find? id = some row at hr
      rw [find?_byId_save] at hr
      split at hr
      · exact ⟨cp, mem_append_right _ mem_cons_self, Option.some.inj hr⟩
      · obtain ⟨cp', hcp', hsh⟩ := h.byId id row hr
        exact ⟨cp', mem_append_left _ hcp', hsh⟩
    · obtain ⟨rfl, rfl⟩ | hr := mem_byThread_save hr
      · exact ⟨cp, mem_append_right _ mem_cons_self, rfl, rfl⟩
      · obtain ⟨cp', hcp', hsh⟩ := h.byThread t row hr
        exact ⟨cp', mem_append_left _ hcp', hsh⟩
    · obtain hcp' | hcp' := mem_append.mp hcp'
      · exact h.version_le cp' hcp' n e he
      · rw [mem_singleton.mp hcp', hcp] at he ⊢
        obtain ⟨c, hc, -, rfl⟩ := find?_checkpointSnapshot.mp he
        exact hsd.version_le n c hc
    · change (w.store.save cp).blob t n 0 = some x at hx
      rw [blob_save, or_eq_some_iff] at hx
      obtain hx | ⟨-, hx⟩ := hx
      · exact h.initial t n x hx
      unfold valueAt at hx
      split at hx
      · rw [hcp] at hx
        obtain ⟨e, he, hx⟩ := bind_eq_some_iff.mp hx
        obtain ⟨c, hc, -, rfl⟩ := find?_checkpointSnapshot.mp he
        split at hx
        · rename_i hv
          cases hx
          exact hsd.initial n c hc hv.symm
        · cases hx
      · cases hx
    · change w.nextLive defs a = some l' at hl'
      rw [nextLive_of_toSave hsv, hl] at hl'
      cases hl'
      exact ha.save hs (by rw [hcp]; rfl) (by rw [hcp]; rfl)

/-- Seeded operations save nothing that meets another value. -/
theorem agrees_of_seeded (h : w.Numbered defs) {actions : List (Action β)}
    (hs : w.Along defs (Seeded defs) actions) : w.Along defs SaveAgrees actions := by
  induction actions generalizing w with
  | nil => trivial
  | cons a actions ih => exact ⟨h.saveAgrees a, ih (h.step hs.1) hs.2⟩

/-- **When the store never changes a saved state.** After any sequence of
operations, every checkpoint is loaded as it was saved exactly when no save
met, under thread, channel and version of one of its values, a blob with
another value; and this is so when every operation started with a counter
that no stored version of its thread exceeded. -/
theorem saved_states_unchanged_iff (defs : List ChannelDef) (actions : List (Action β)) :
    ((∀ cp ∈ (run defs {} actions).saved,
        (run defs {} actions).store.loadById cp.id = some cp)
      ↔ ({} : Session β).Along defs SaveAgrees actions)
    ∧ (({} : Session β).Along defs (Seeded defs) actions →
      ∀ cp ∈ (run defs {} actions).saved,
        (run defs {} actions).store.loadById cp.id = some cp) := by
  have hg : ({} : Session β).Good := fun _ h => absurd h not_mem_nil
  have hiff : (run defs {} actions).Good ↔ ({} : Session β).Along defs SaveAgrees actions := by
    rw [good_run_iff filed_empty]
    exact and_iff_right hg
  exact ⟨hiff, fun hs => hiff.mpr (agrees_of_seeded numbered_empty hs)⟩

/-- A channel whose writes replace its value. -/
def overwriteChannel (name : String) : ChannelDef where
  name := name
  append := false
  reducer _ value := .ok value
  initialValue := .null
  lifecycle := {}

/-- A run whose input writes one channel and whose only super-step writes
nothing. -/
def inputRun (threadId channel : String) (value : Json String) : List (Action Unit) :=
  [.start threadId .fresh, .write channel .reduce value, .beginStep, .save ()]

/-- **A second run on a thread** reads back the value of the first. -/
theorem second_run_changed :
    ¬∀ cp ∈ (run [overwriteChannel "x"] {}
          (inputRun "t" "x" (.uint 1) ++ inputRun "t" "x" (.uint 2))).saved,
        (run [overwriteChannel "x"] {}
          (inputRun "t" "x" (.uint 1) ++ inputRun "t" "x" (.uint 2))).store.loadById cp.id
          = some cp := by
  intro h
  have hl := h _ (mem_cons_of_mem _ mem_cons_self)
  have hv := congrArg
    (Option.bind · fun cp => (cp.channelValues.channels.find? "x").bind ChannelEntry.value) hl
  have ho : some (Json.uint 1) = some (Json.uint (S := String) 2) := hv
  cases ho

end Session

end NeoGraph
