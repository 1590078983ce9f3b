import NeoGraph.Checkpoint.Transparency
import NeoGraph.Lib.JsonObject

/-!
# Snapshots as documents

What a checkpoint keeps of a state is a JSON document of the channels that
are not ephemeral, and beside it the guard, a document that says of every
ephemeral channel whether it was written. Restoring compares the guard with
the one of a state in which none was.

A snapshot of a run is put back into a new state of the same channels exactly
when no ephemeral channel was written in the run. Then the persistent
channels have their values and versions back, the ephemeral ones are as they
were declared, and the counter goes on (`restore_serialize`).
-/

namespace NeoGraph.GraphState

open Json SortedMap List UInt64

/-! ## Writing -/

/-- The number of a version in a document. -/
def versionJson (version : ℕ) : Json String := .uint (ofNat version)

/-- The channels of a state and its counter. The channels are left out when
there are none. -/
def channelSnapshot (s : GraphState) (skipEphemeral : Bool) : Json String :=
  let channelMap := (s.channels.entries.filter fun e => !(skipEphemeral && e.2.ephemeral)).map
    fun e => (e.1, obj [("value", e.2.value), ("version", versionJson e.2.version)])
  obj ((if channelMap.isEmpty then [] else [("channels", obj channelMap)])
    ++ [("global_version", versionJson s.globalVersion)])

/-- The snapshot for a checkpoint, of a state that used no provider. -/
def serialize (s : GraphState) : Json String := s.channelSnapshot true

/-- An object of flags, or null without any. -/
def flagsJson (flags : List (String × Bool)) : Json String :=
  if flags.isEmpty then .null else .obj (flags.map fun f => (f.1, .bool f.2))

/-- The ephemeral channels, each with whether it was written. -/
def guardJson (s : GraphState) : Json String :=
  flagsJson ((s.channels.entries.filter fun e => e.2.ephemeral).map
    fun e => (e.1, e.2.version != 0))

/-! ## Reading

`truncate` is how a real number is read as an unsigned one. -/

section Restore

variable (truncate : UInt64 → UInt64)

/-- An unsigned number of an object, or 0 where there is no number. -/
def uintValue (v : Json String) (name : String) : ℕ :=
  match v.get? name with
  | some (.uint n) => n.toNat
  | some (.sint n) => n.toUInt64.toNat
  | some (.real bits) => (truncate bits).toNat
  | _ => 0

/-- A flag of an object, or false where there is none. -/
def boolValue (v : Json String) (name : String) : Bool :=
  match v.get? name with
  | some (.bool b) => b
  | _ => false

/-- A channel of a snapshot is put back, if it is declared and not
ephemeral. -/
def restoreChannel (channels : SortedMap String Channel) (m : String × Json String) :
    SortedMap String Channel :=
  match channels.find? m.1 with
  | none => channels
  | some c =>
    if c.ephemeral then channels
    else channels.insert m.1
      { c with value := (m.2.get? "value").getD .null, version := uintValue truncate m.2 "version" }

/-- The guard of a snapshot is that of a state in which no ephemeral channel
was written. -/
def checkGuardJson (guard expected : Json String) : Except Exn Unit :=
  match expected with
  | .null =>
    match guard with
    | .null => .ok ()
    | guard =>
      if guard.equals (.obj []) then .ok ()
      else .error (.runtimeError "Checkpoint contains incompatible ephemeral channel policy")
  | expected =>
    if guard.equals expected then .ok ()
    else .error (.runtimeError ("Cannot resume checkpoint: ephemeral channel was written or "
      ++ "its lifecycle guard is missing/incompatible"))

/-- The guard of a state in which no ephemeral channel was written. -/
def expectedGuard (s : GraphState) : Json String :=
  flagsJson ((s.channels.entries.filter fun e => e.2.ephemeral).map fun e => (e.1, false))

/-- A snapshot is put into a state, with what that throws. -/
def restoreSnapshot (s : GraphState) (data guard : Json String) : GraphState × Except Exn Unit :=
  if boolValue data "native_checkpoint_required" then
    (s, .error (.invalidArgument "Native checkpoint cannot be restored from JSON alone"))
  else
    match s.channels.entries.find? fun e => e.2.ephemeral && e.2.version != 0 with
    | some (name, _) => (s, .error (.runtimeError
        ("Cannot restore checkpoint into live ephemeral channel: " ++ name)))
    | none =>
      match checkGuardJson guard s.expectedGuard with
      | .error e => (s, .error e)
      | .ok () =>
        let channels := match data.get? "channels" with
          | none => s.channels
          | some channels => channels.items.foldl (restoreChannel truncate) s.channels
        (⟨channels, uintValue truncate data "global_version"⟩, .ok ())

end Restore

/-! ## Runs -/

/-- A write tried by a run; one that throws leaves the channels alone. -/
def tryWrite (s : GraphState) (w : String × WriteMode × Json String) : GraphState :=
  match s.write w.1 w.2.1 w.2.2 with
  | .ok s' => s'
  | .error _ => s

/-- The state after some writes. -/
def runWrites (s : GraphState) (writes : List (String × WriteMode × Json String)) : GraphState :=
  writes.foldl tryWrite s

/-- The channels that were written: those of the writes that did not throw. -/
def written (s : GraphState) : List (String × WriteMode × Json String) → List String
  | [] => []
  | w :: writes =>
    match s.write w.1 w.2.1 w.2.2 with
    | .ok s' => w.1 :: written s' writes
    | .error _ => written s writes

/-! ## What runs keep -/

variable {s : GraphState}
  {s' : GraphState} {channel : String} {mode : WriteMode} {value : Json String}

theorem write_eq_ok (h : s.write channel mode value = .ok s') :
    ∃ c retained, s.channels.find? channel = some c
      ∧ s' = ⟨s.channels.insert channel
        { c with value := retained, version := (s.globalVersion + 1) % 2 ^ 64 },
        (s.globalVersion + 1) % 2 ^ 64⟩ := by
  unfold write at h
  split at h
  · cases h
  rename_i c hc
  simp only [bind_eq_ok] at h
  obtain ⟨combined, -, retained, -, h⟩ := h
  cases h
  exact ⟨c, retained, hc, rfl⟩

/-- The counter and the versions fit their words. -/
structure InRange (s : GraphState) : Prop where
  globalVersion : s.globalVersion < 2 ^ 64
  version : ∀ n c, s.channels.find? n = some c → c.version < 2 ^ 64

/-- Two states have the same channels, ephemeral in both or in neither. -/
def SameChannels (s t : GraphState) : Prop :=
  ∀ n, (s.channels.find? n).map Channel.ephemeral = (t.channels.find? n).map Channel.ephemeral

theorem InRange.write (hs : s.InRange) (h : s.write channel mode value = .ok s') :
    s'.InRange ∧ SameChannels s' s := by
  obtain ⟨c, retained, hc, rfl⟩ := write_eq_ok h
  have hlt : (s.globalVersion + 1) % 2 ^ 64 < 2 ^ 64 := Nat.mod_lt _ (by decide)
  refine ⟨⟨hlt, fun n c' hc' => ?_⟩, fun n => ?_⟩
  · dsimp only at hc'
    obtain ⟨-, rfl⟩ | hc' := find?_insert_cases hc'
    · exact hlt
    · exact hs.version n c' hc'
  · dsimp only
    rw [find?_insert]
    split_ifs with heq
    · rw [heq, hc]
      rfl
    · rfl

variable {t : GraphState}

theorem InRange.runWrites (ht : t.InRange) (writes : List (String × WriteMode × Json String)) :
    (t.runWrites writes).InRange ∧ SameChannels (t.runWrites writes) t := by
  induction writes generalizing t with
  | nil => exact ⟨ht, fun _ => rfl⟩
  | cons w writes ih =>
    show (GraphState.runWrites (tryWrite t w) writes).InRange ∧ _
    have hs : (tryWrite t w).InRange ∧ SameChannels (tryWrite t w) t := by
      unfold tryWrite
      split
      · rename_i s' hs'
        exact ht.write hs'
      · exact ⟨ht, fun _ => rfl⟩
    obtain ⟨hrg, hsm⟩ := ih hs.1
    exact ⟨hrg, fun n => (hsm n).trans (hs.2 n)⟩

/-- As long as the counter has not gone round, the channels of a version are
the written ones. -/
theorem version_ne_zero_iff (writes : List (String × WriteMode × Json String))
    (hbd : t.globalVersion + writes.length < 2 ^ 64) {n : String} {c₀ c : Channel}
    (hc₀ : t.channels.find? n = some c₀) (hc : (t.runWrites writes).channels.find? n = some c) :
    c.version ≠ 0 ↔ c₀.version ≠ 0 ∨ n ∈ t.written writes := by
  induction writes generalizing t c₀ with
  | nil =>
    have : c = c₀ := Option.some.inj (hc.symm.trans hc₀)
    rw [this]
    simp [written]
  | cons w writes ih =>
    rw [length_cons] at hbd
    change ((tryWrite t w).runWrites writes).channels.find? n = some c at hc
    cases hw : t.write w.1 w.2.1 w.2.2 with
    | error e =>
      have hsm : tryWrite t w = t := by
        unfold tryWrite
        rw [hw]
      rw [hsm] at hc
      rw [written, hw]
      exact ih (by omega) hc₀ hc
    | ok s' =>
      have hnx : tryWrite t w = s' := by
        unfold tryWrite
        rw [hw]
      rw [hnx] at hc
      rw [written, hw]
      dsimp only
      obtain ⟨c₁, retained, hc₁, rfl⟩ := write_eq_ok hw
      have hv : (t.globalVersion + 1) % 2 ^ 64 = t.globalVersion + 1 :=
        Nat.mod_eq_of_lt (by omega)
      rw [hv] at hc ⊢
      by_cases hn : n = w.1
      · have hf : (t.channels.insert w.1
            { c₁ with value := retained, version := t.globalVersion + 1 }).find? n
            = some { c₁ with value := retained, version := t.globalVersion + 1 } := by
          rw [hn, find?_insert_self]
        rw [ih (by dsimp only; omega) hf hc]
        simp [hn]
      · have hf : (t.channels.insert w.1
            { c₁ with value := retained, version := t.globalVersion + 1 }).find? n = some c₀ := by
          rw [find?_insert_of_ne _ hn, hc₀]
        rw [ih (by dsimp only; omega) hf hc]
        simp [hn]

/-! ## The guard -/

/-- The names of the ephemeral channels. -/
def ephemeralNames (s : GraphState) : List String :=
  (s.channels.entries.filter fun e => e.2.ephemeral).map Prod.fst

theorem ephemeralNames_eq (s : GraphState) : s.ephemeralNames
    = (s.channels.filterMap fun _ c => if c.ephemeral then some () else none).keys := by
  unfold ephemeralNames SortedMap.keys SortedMap.filterMap
  dsimp only
  induction s.channels.entries with
  | nil => rfl
  | cons e entries ih =>
    cases he : e.2.ephemeral with
    | true =>
      rw [filter_cons_of_pos (by rw [he]), filterMap_cons_some (by rw [he]; rfl),
        map_cons, map_cons, ih]
    | false =>
      rw [filter_cons_of_neg (by rw [he]; decide), filterMap_cons_none (by rw [he]; rfl), ih]

theorem SameChannels.ephemeralNames (h : SameChannels s t) :
    s.ephemeralNames = t.ephemeralNames := by
  rw [ephemeralNames_eq, ephemeralNames_eq]
  congr 1
  refine ext_find? fun n => ?_
  rw [SortedMap.find?_filterMap, SortedMap.find?_filterMap]
  have hn := h n
  cases hs : s.channels.find? n with
  | none =>
    rw [hs] at hn
    rw [Option.map_eq_none_iff.mp hn.symm]
  | some c =>
    rw [hs] at hn
    obtain ⟨c', hc', heq⟩ := Option.map_eq_some_iff.mp hn.symm
    rw [hc']
    simp [heq]

theorem nodup_names (s : GraphState) : (s.channels.entries.map Prod.fst).Nodup :=
  pairwise_map.mpr (s.channels.sorted.imp ne_of_lt)

theorem nodup_ephemeralNames (s : GraphState) : s.ephemeralNames.Nodup :=
  s.nodup_names.sublist (List.Sublist.map _ filter_sublist)

theorem expectedGuard_eq (s : GraphState) :
    s.expectedGuard = flagsJson (s.ephemeralNames.map fun n => (n, false)) := by
  unfold expectedGuard ephemeralNames
  rw [map_map]
  rfl

/-- The guard of a checkpoint whose ephemeral channels were not written. -/
theorem checkGuardJson_flags (guard : Json String) {names : List String} (hne : names ≠ []) :
    checkGuardJson guard (flagsJson (names.map fun n => (n, false)))
      = if guard.equals (obj (names.map fun n => (n, .bool false))) then .ok ()
        else .error (.runtimeError ("Cannot resume checkpoint: ephemeral channel was written or "
          ++ "its lifecycle guard is missing/incompatible")) := by
  have hf : flagsJson (names.map fun n => (n, false))
      = obj (names.map fun n => (n, .bool false)) := by
    unfold flagsJson
    rw [if_neg (by simpa using hne), map_map]
    rfl
  rw [hf]
  rfl

/-- **The guard accepts the states in which nothing ephemeral was written.** -/
theorem checkGuardJson_iff (h : SameChannels s t) :
    checkGuardJson s.guardJson t.expectedGuard = .ok ()
      ↔ ∀ n c, s.channels.find? n = some c → c.ephemeral = true → c.version = 0 := by
  have hmm : ∀ n c, s.channels.find? n = some c → c.ephemeral = true →
      (n, c) ∈ s.channels.entries.filter fun e => e.2.ephemeral := fun n c hc he =>
    mem_filter.mpr ⟨(mem_entries_iff _ _ _).mpr hc, he⟩
  rw [expectedGuard_eq, ← h.ephemeralNames]
  by_cases hnil : s.ephemeralNames = []
  · have hn : (s.channels.entries.filter fun e => e.2.ephemeral) = [] :=
      map_eq_nil_iff.mp hnil
    refine iff_of_true ?_ fun n c hc he => ?_
    · unfold guardJson
      rw [hnil, hn]
      rfl
    · have hin := hmm n c hc he
      rw [hn] at hin
      cases hin
  · rw [checkGuardJson_flags _ hnil]
    have hg : s.guardJson = obj ((s.channels.entries.filter fun e => e.2.ephemeral).map
        fun e => (e.1, .bool (e.2.version != 0))) := by
      have hne : (s.channels.entries.filter fun e => e.2.ephemeral) ≠ [] :=
        fun heq => hnil (by unfold ephemeralNames; rw [heq]; rfl)
      unfold guardJson flagsJson
      rw [if_neg (by simpa using hne), map_map]
      rfl
    have hnd : ((s.ephemeralNames.map fun n => (n, (Json.bool false : Json String))).map
        Prod.fst).Nodup := by
      rw [map_map]
      exact (map_id _).symm ▸ s.nodup_ephemeralNames
    have hequals : s.guardJson.equals (obj (s.ephemeralNames.map fun n => (n, .bool false))) = true
        ↔ ∀ n c, s.channels.find? n = some c → c.ephemeral = true → c.version = 0 := by
      rw [hg, Json.equals, Bool.and_eq_true, decide_eq_true_eq, equalsMembers_iff]
      have hl : ((s.channels.entries.filter fun e => e.2.ephemeral).map
          fun e => (e.1, (Json.bool (e.2.version != 0) : Json String))).length
          = (s.ephemeralNames.map fun n => (n, (Json.bool false : Json String))).length := by
        unfold ephemeralNames
        simp only [length_map]
      rw [and_iff_right hl]
      constructor
      · intro ha n c hc he
        obtain ⟨w, hw, hequal⟩ := ha _ (mem_map_of_mem (hmm n c hc he))
        obtain ⟨_, -, hp⟩ := mem_map.mp ((lookup_eq_some_iff hnd).mp hw)
        cases hp
        simpa [Json.equals] using hequal
      · intro ha m hm
        obtain ⟨e, he, rfl⟩ := mem_map.mp hm
        have hin := mem_filter.mp he
        have hz := ha e.1 e.2 ((mem_entries_iff _ _ _).mp hin.1) hin.2
        refine ⟨.bool false, (lookup_eq_some_iff hnd).mpr ?_, by simp [Json.equals, hz]⟩
        exact mem_map.mpr ⟨e.1, mem_map_of_mem he, rfl⟩
    rw [← hequals]
    split_ifs with heq
    · exact iff_of_true rfl heq
    · exact iff_of_false (fun h => by cases h) heq

/-! ## Putting channels back -/

section Restore

variable {truncate : UInt64 → UInt64}

/-- Each channel is restored from its own member. -/
theorem find?_foldl_restoreChannel {members : List (String × Json String)}
    (hnd : (members.map Prod.fst).Nodup) (channels : SortedMap String Channel) (n : String) :
    (members.foldl (restoreChannel truncate) channels).find? n
      = (channels.find? n).map fun c =>
        if c.ephemeral then c
        else match members.lookup n with
          | none => c
          | some v =>
            { c with
                value := (v.get? "value").getD .null
                version := uintValue truncate v "version" } := by
  induction members generalizing channels with
  | nil =>
    cases hc : channels.find? n with
    | none => exact hc
    | some c => simp [hc]
  | cons m members ih =>
    rw [map_cons, nodup_cons] at hnd
    rw [foldl_cons, ih hnd.2, lookup_cons]
    by_cases hn : n = m.1
    · have hlk : members.lookup n = none := by
        rw [lookup_eq_none_iff]
        intro m' hm'
        have hne : n ≠ m'.1 := fun heq => hnd.1 (hn ▸ heq ▸ mem_map_of_mem hm')
        simpa using hne
      rw [hlk, beq_iff_eq.mpr hn]
      unfold restoreChannel
      rw [← hn]
      cases hc : channels.find? n with
      | none => simp [hc]
      | some c =>
        dsimp only
        cases he : c.ephemeral with
        | true => simp [hc, he]
        | false => simp [he]
    · have hsm : (restoreChannel truncate channels m).find? n = channels.find? n := by
        unfold restoreChannel
        split
        · rfl
        · split
          · rfl
          · exact find?_insert_of_ne _ hn _
      rw [hsm, beq_false_of_ne hn]

theorem uintValue_version (value : Json String) {version : ℕ} (h : version < 2 ^ 64) :
    uintValue truncate (obj [("value", value), ("version", versionJson version)]) "version"
      = version := by
  show (ofNat version).toNat = version
  exact toNat_ofNat_of_lt' h

/-- The channels of a snapshot for a checkpoint. -/
def persistentMembers (s : GraphState) : List (String × Json String) :=
  (s.channels.entries.filter fun e => !e.2.ephemeral).map
    fun e => (e.1, obj [("value", e.2.value), ("version", versionJson e.2.version)])

variable (s : GraphState)

theorem serialize_eq : s.serialize
    = obj ((if s.persistentMembers.isEmpty then [] else [("channels", obj s.persistentMembers)])
      ++ [("global_version", versionJson s.globalVersion)]) := rfl

/-- What is read of a snapshot. -/
theorem serialize_reads (hs : s.InRange) :
    boolValue s.serialize "native_checkpoint_required" = false
      ∧ uintValue truncate s.serialize "global_version" = s.globalVersion
      ∧ s.serialize.get? "channels"
        = if s.persistentMembers.isEmpty then none else some (obj s.persistentMembers) := by
  have hv : (ofNat s.globalVersion).toNat = s.globalVersion :=
    toNat_ofNat_of_lt' hs.globalVersion
  rw [serialize_eq]
  split <;> exact ⟨rfl, hv, rfl⟩

theorem nodup_persistentMembers : (s.persistentMembers.map Prod.fst).Nodup := by
  unfold persistentMembers
  rw [map_map]
  exact s.nodup_names.sublist (List.Sublist.map _ filter_sublist)

/-- A persistent channel is found in the snapshot. -/
theorem lookup_persistentMembers {s : GraphState} {n : String} {c : Channel}
    (hc : s.channels.find? n = some c) (he : c.ephemeral = false) : s.persistentMembers.lookup n
      = some (obj [("value", c.value), ("version", versionJson c.version)]) := by
  refine (lookup_eq_some_iff s.nodup_persistentMembers).mpr (mem_map.mpr ⟨(n, c), ?_, rfl⟩)
  exact mem_filter.mpr ⟨(mem_entries_iff _ _ _).mpr hc, by simp [he]⟩

/-- The channels after a snapshot was put into a state. -/
def restoredChannels (truncate : UInt64 → UInt64) (s t : GraphState) : SortedMap String Channel :=
  match s.serialize.get? "channels" with
  | none => t.channels
  | some channels => channels.items.foldl (restoreChannel truncate) t.channels

theorem find?_restoredChannels {s : GraphState} (hs : s.InRange) (t : GraphState) (n : String) :
    (restoredChannels truncate s t).find? n = (t.channels.find? n).map fun c =>
      if c.ephemeral then c
      else match s.persistentMembers.lookup n with
        | none => c
        | some v =>
          { c with
            value := (v.get? "value").getD .null
            version := uintValue truncate v "version" } := by
  have hc := (@serialize_reads truncate s hs).2.2
  unfold restoredChannels
  rw [hc]
  by_cases he : s.persistentMembers.isEmpty = true
  · rw [if_pos he, isEmpty_iff.mp he]
    cases t.channels.find? n with
    | none => rfl
    | some c => simp
  · rw [if_neg he]
    exact find?_foldl_restoreChannel s.nodup_persistentMembers t.channels n

/-- Restoring depends on the guard alone. -/
theorem restoreSnapshot_serialize {s t : GraphState} (hs : s.InRange)
    (ht : ∀ n c, t.channels.find? n = some c → c.version = 0) :
    t.restoreSnapshot truncate s.serialize s.guardJson
      = match checkGuardJson s.guardJson t.expectedGuard with
        | .error e => (t, .error e)
        | .ok () => (⟨restoredChannels truncate s t, s.globalVersion⟩, .ok ()) := by
  obtain ⟨hn, hcounter, -⟩ := @serialize_reads truncate s hs
  have hlv : (t.channels.entries.find? fun e => e.2.ephemeral && e.2.version != 0) = none := by
    rw [find?_eq_none]
    intro e he
    simp [ht e.1 e.2 ((mem_entries_iff _ _ _).mp he)]
  unfold restoreSnapshot
  rw [if_neg (by rw [hn]; decide), hlv, hcounter]
  rfl

/-- **A snapshot goes round.** A new state takes the snapshot of a run of the
same channels unless an ephemeral channel has a version, which is to say
that it was written. A state that does not take it is left unchanged. One
that does has the values and the versions of the persistent channels and the
counter; its ephemeral channels are as they were declared. -/
theorem restore_serialize (truncate : UInt64 → UInt64) {defs : List ChannelDef} {t : GraphState}
    (ht : initState defs = .ok t) (writes : List (String × WriteMode × Json String)) :
    let s := t.runWrites writes
    let restored := t.restoreSnapshot truncate s.serialize s.guardJson
    ((∃ e, restored.2 = .error e)
        ↔ ∃ n c, s.channels.find? n = some c ∧ c.ephemeral = true ∧ c.version ≠ 0)
      ∧ (∀ e, restored.2 = .error e → restored.1 = t)
      ∧ (restored.2 = .ok () →
        (∀ n c, s.channels.find? n = some c → c.ephemeral = false →
            ∃ c', restored.1.channels.find? n = some c' ∧ c'.value = c.value
              ∧ c'.version = c.version)
          ∧ (∀ n c, t.channels.find? n = some c → c.ephemeral = true →
            c.version = 0 ∧ restored.1.channels.find? n = some c)
          ∧ restored.1.globalVersion = s.globalVersion)
      ∧ (writes.length < 2 ^ 64 → ∀ n c, s.channels.find? n = some c →
        (c.version ≠ 0 ↔ n ∈ t.written writes)) := by
  intro s restored
  obtain ⟨hglobal, hz⟩ := versions_initState ht
  have hrg : t.InRange :=
    ⟨by rw [hglobal]; decide, fun n c hc => by rw [hz n c hc]; decide⟩
  obtain ⟨hs, hsm⟩ := hrg.runWrites writes
  have hd : ∀ n c, s.channels.find? n = some c →
      ∃ c₀, t.channels.find? n = some c₀ ∧ c₀.ephemeral = c.ephemeral := by
    intro n c hc
    have hn := hsm n
    rw [show (GraphState.runWrites t writes).channels.find? n = some c from hc] at hn
    exact Option.map_eq_some_iff.mp hn.symm
  have hv : writes.length < 2 ^ 64 → ∀ n c, s.channels.find? n = some c →
      (c.version ≠ 0 ↔ n ∈ t.written writes) := by
    intro hbd n c hc
    obtain ⟨c₀, hc₀, -⟩ := hd n c hc
    rw [version_ne_zero_iff writes (by omega) hc₀ hc, hz n c₀ hc₀]
    simp
  have hg : checkGuardJson s.guardJson t.expectedGuard = .ok ()
      ↔ ∀ n c, s.channels.find? n = some c → c.ephemeral = true → c.version = 0 :=
    checkGuardJson_iff hsm
  have hr := @restoreSnapshot_serialize truncate s _ hs hz
  cases hchk : checkGuardJson s.guardJson t.expectedGuard with
  | error e =>
    have hst : restored = (t, .error e) := by
      rw [hchk] at hr
      exact hr
    have hnot : ¬∀ n c, s.channels.find? n = some c → c.ephemeral = true → c.version = 0 := by
      rw [← hg, hchk]
      exact fun h => by cases h
    push Not at hnot
    rw [hst]
    exact ⟨iff_of_true ⟨e, rfl⟩ hnot, fun _ _ => rfl, (fun h => by cases h), hv⟩
  | ok u =>
    have hst : restored = (⟨restoredChannels truncate s t, s.globalVersion⟩, .ok ()) := by
      rw [hchk] at hr
      exact hr
    have ha := hg.mp hchk
    rw [hst]
    refine ⟨iff_of_false (fun ⟨_, h⟩ => by cases h) ?_, (fun _ h => by cases h),
      fun _ => ⟨fun n c hc he => ?_, fun n c hc he => ?_, rfl⟩, hv⟩
    · rintro ⟨n, c, hc, he, hne⟩
      exact hne (ha n c hc he)
    · obtain ⟨c₀, hc₀, he₀⟩ := hd n c hc
      refine ⟨{ c₀ with value := c.value, version := c.version }, ?_, rfl, rfl⟩
      rw [find?_restoredChannels hs, hc₀, Option.map_some, he₀, he,
        lookup_persistentMembers hc he, if_neg (by decide)]
      dsimp only
      rw [uintValue_version c.value (hs.version n c hc)]
      rfl
    · refine ⟨hz n c hc, ?_⟩
      rw [find?_restoredChannels hs, hc, Option.map_some, if_pos he]

/-- A channel that keeps the last value and lives as it is said. -/
def lastValue (name : String) (persistence : ChannelPersistencePolicy) : ChannelDef where
  name := name
  append := false
  reducer _ w := .ok w
  initialValue := .null
  lifecycle := { persistence := persistence }

/-- A run that wrote its scratch channel is not resumed. -/
theorem restore_serialize_scratch : ∃ e,
    (restoreSnapshot (fun _ => 0)
      ⟨⟨[("answer", ⟨fun _ w => .ok w, {}, .null, 0⟩),
        ("scratch", ⟨fun _ w => .ok w, { persistence := .ephemeral }, .null, 0⟩)], by decide⟩, 0⟩
      (serialize ⟨⟨[("answer", ⟨fun _ w => .ok w, {}, .null, 0⟩),
        ("scratch", ⟨fun _ w => .ok w, { persistence := .ephemeral }, .bool true, 1⟩)],
        by decide⟩, 1⟩)
      (guardJson ⟨⟨[("answer", ⟨fun _ w => .ok w, {}, .null, 0⟩),
        ("scratch", ⟨fun _ w => .ok w, { persistence := .ephemeral }, .bool true, 1⟩)],
        by decide⟩, 1⟩)).2 = .error e :=
  (@restore_serialize (fun _ => 0) [lastValue "answer" .checkpoint,
    lastValue "scratch" .ephemeral] _ rfl [("scratch", .reduce, .bool true)]).1.mpr
    ⟨"scratch", _, rfl, rfl, by decide⟩

end Restore

end NeoGraph.GraphState
