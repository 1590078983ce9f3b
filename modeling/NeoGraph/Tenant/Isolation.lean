import NeoGraph.Tenant.Items

/-!
# Tenants do not see each other

Every row of the shared checkpoints is filed under the ids under which its
tenant saved it, and gets its channels back (`Custody`).

What a tenant sees of the shared checkpoints are the values under its own ids
(`SameCheckpoints`). As for items, the operations of other tenants leave these
alone, and its own operations look at nothing else. So a tenant gets the same
answers from any two interleavings in which it does the same, and what it loads
is what it saved (`tenants_isolated`).
-/

namespace NeoGraph.Tenant

open ByteOrder Json List SortedMap

/-! ## Checkpoints in the backend -/

variable {β P : Type}

namespace Channels

variable {truncate : UInt64 → UInt64}

/-- The versions of channels are numbers. -/
def Numbered (truncate : UInt64 → UInt64) (channels : List (Bytes × Json Bytes)) : Prop :=
  ∀ m ∈ channels, ∀ version, version? m.2 = some version → (getUint64 truncate version).isSome

variable {channels : List (Bytes × Json Bytes)}

/-- The versions of the channels are kept when their values go. -/
theorem numbered_split {shell shell' : List (Bytes × Json Bytes)}
    (h : (split truncate channels shell).2 = some shell') (hsh : Numbered truncate shell) :
    Numbered truncate shell' := by
  induction channels generalizing shell with
  | nil =>
    cases h
    exact hsh
  | cons m channels ih =>
    obtain ⟨name, channel⟩ := m
    rw [split] at h
    split at h
    · rename_i hn
      refine ih h fun m hm version hv => ?_
      obtain rfl | hm := mem_put hm
      · rw [hn] at hv
        cases hv
      · exact hsh m hm version hv
    · split at h
      · cases h
      rename_i number hnum
      have hnx : Numbered truncate (put shell name (.obj [(ascii "version", .uint number)])) := by
        intro m hm version hv
        obtain rfl | hm := mem_put hm
        · have hrd : version? (.obj [(ascii "version", uint number)])
              = some (.uint number) := by
            simp [version?, isObject, get?, members]
          rw [hrd] at hv
          cases hv
          rfl
        · exact hsh m hm version hv
      split at h <;> exact ih h hnx

/-- Channels with numbers for versions get their values back. -/
theorem join_isOk {value? : Bytes → ℕ → Option (Json Bytes)} (h : Numbered truncate channels)
    (full : List (Bytes × Json Bytes)) :
    ∃ joined, join truncate value? channels full = .ok joined := by
  induction channels generalizing full with
  | nil => exact ⟨full, rfl⟩
  | cons m channels ih =>
    obtain ⟨name, channel⟩ := m
    have hr : Numbered truncate channels := fun m hm => h m (mem_cons_of_mem _ hm)
    rw [join]
    split
    · exact ih hr _
    rename_i version hv
    split
    · exact ih hr _
    obtain ⟨number, hn⟩ :=
      Option.isSome_iff_exists.mp (h _ mem_cons_self version hv)
    rw [hn]
    exact ih hr _

theorem of?_set {channelValues : Json Bytes} {channels' : List (Bytes × Json Bytes)}
    (h : of? (set channelValues channels) = some channels') : channels' = channels := by
  unfold of? set at h
  rw [if_pos (show isObject (.obj _) = true from rfl)] at h
  unfold get? at h
  rw [members, lookup_put, if_pos rfl] at h
  exact (Option.some.inj h).symm

end Channels

namespace InMemoryCheckpointStore

variable {truncate : UInt64 → UInt64}

/-- Checkpoints that differ in their channels only. -/
def SameFields (row cp : Checkpoint β) : Prop :=
  row.id = cp.id ∧ row.threadId = cp.threadId ∧ row.parentId = cp.parentId ∧ row.rest = cp.rest

/-- The versions of a checkpoint's channels are numbers. -/
def Numbered (truncate : UInt64 → UInt64) (row : Checkpoint β) : Prop :=
  ∀ channels, Channels.of? row.channelValues = some channels → Channels.Numbered truncate channels

variable {cp shell : Checkpoint β}

theorem sameFields_splitBlobs
    (h : (splitBlobs truncate cp).2 = some shell) : SameFields shell cp := by
  unfold splitBlobs at h
  split at h
  · cases h
    exact ⟨rfl, rfl, rfl, rfl⟩
  · obtain ⟨channels, -, rfl⟩ := Option.map_eq_some_iff.mp h
    exact ⟨rfl, rfl, rfl, rfl⟩

theorem numbered_splitBlobs
    (h : (splitBlobs truncate cp).2 = some shell) : Numbered truncate shell := by
  unfold splitBlobs at h
  split at h
  · rename_i hn
    cases h
    intro channels hc
    rw [hn] at hc
    cases hc
  · obtain ⟨channels, hspl, rfl⟩ := Option.map_eq_some_iff.mp h
    intro channels' hc'
    rw [Channels.of?_set hc']
    exact Channels.numbered_split hspl fun m hm => absurd hm not_mem_nil

variable (s : InMemoryCheckpointStore β P)

/-- **A row gets its channels back.** -/
theorem joinBlobs_isOk {row : Checkpoint β} (h : Numbered truncate row) :
    ∃ cp, s.joinBlobs truncate row = .ok cp ∧ SameFields cp row := by
  unfold joinBlobs
  split
  · exact ⟨row, rfl, rfl, rfl, rfl, rfl⟩
  rename_i channels hc
  obtain ⟨joined, hj⟩ := Channels.join_isOk (h channels hc) []
  refine ⟨{ row with channelValues := Channels.set row.channelValues joined }, ?_, rfl, rfl, rfl,
    rfl⟩
  rw [hj]
  rfl

theorem find?_foldl_erase (rows : List (Checkpoint β)) (m : SortedMap Bytes (Checkpoint β))
    (k : Bytes) : (rows.foldl (fun byId cp => byId.erase cp.id) m).find? k
      = if ∃ row ∈ rows, row.id = k then none else m.find? k := by
  induction rows generalizing m with
  | nil => simp
  | cons row rows ih =>
    rw [foldl_cons, ih, find?_erase]
    by_cases hk : k = row.id
    · rw [if_pos hk, ite_self, if_pos ⟨row, mem_cons_self, hk.symm⟩]
    rw [if_neg hk]
    refine if_congr ?_ rfl rfl
    constructor
    · rintro ⟨other, hm, hid⟩
      exact ⟨other, mem_cons_of_mem row hm, hid⟩
    rintro ⟨other, hm, hid⟩
    obtain rfl | hm := mem_cons.mp hm
    · exact absurd hid.symm hk
    · exact ⟨other, hm, hid⟩

theorem find?_addBlobs (threadId : Bytes) (entries : List ((Bytes × ℕ) × Json Bytes)) (k : BlobKey)
    : (s.addBlobs threadId entries).blobs.find? k = (s.blobs.find? k).or
      (lookupEntry k (entries.map fun e => (blobKey threadId e.1.1 e.1.2, e.2))) := by
  rw [← find?_foldl_tryEmplace, foldl_map]
  rfl

/-- The values of a checkpoint are added to its own thread. -/
theorem find?_addBlobs_of_ne {threadId other : Bytes} (hne : other ≠ threadId)
    (entries : List ((Bytes × ℕ) × Json Bytes)) (channel : Bytes) (version : ℕ) :
    (s.addBlobs threadId entries).blobs.find? (blobKey other channel version)
      = s.blobs.find? (blobKey other channel version) := by
  have hn : ∀ entries : List ((Bytes × ℕ) × Json Bytes),
      lookupEntry (blobKey other channel version)
        (entries.map fun e => (blobKey threadId e.1.1 e.1.2, e.2)) = none := by
    intro entries
    induction entries with
    | nil => rfl
    | cons e entries ih =>
      rw [map_cons, lookupEntry, if_neg, ih]
      intro heq
      exact hne (congrArg (fun k : BlobKey => (ofLex k).1) heq)
  rw [find?_addBlobs, hn, Option.or_none]

end InMemoryCheckpointStore

/-! ## Custody of checkpoints -/

namespace ScopedCheckpointStore

open NeoGraph.Tenant.InMemoryCheckpointStore

variable {truncate : UInt64 → UInt64} {saved : Bytes → Checkpoint β → Prop}

/-- A row that a tenant saved. -/
def SavedRow (saved : Bytes → Checkpoint β → Prop) (tenantId : Bytes) (row : Checkpoint β) : Prop :=
  ∃ cp, saved tenantId cp ∧ SameFields row (privateCheckpoint tenantId cp)

/-- **Every row is filed where its tenant saved it.** -/
structure Custody (truncate : UInt64 → UInt64) (saved : Bytes → Checkpoint β → Prop)
    (s : InMemoryCheckpointStore β P) : Prop where
  byId : ∀ k row, s.byId.find? k = some row →
    row.id = k ∧ Numbered truncate row ∧ ∃ tenantId, SavedRow saved tenantId row
  byThread : ∀ k rows, s.byThread.find? k = some rows → ∀ row ∈ rows,
    row.threadId = k ∧ Numbered truncate row ∧ ∃ tenantId, SavedRow saved tenantId row

variable {row : Checkpoint β}

theorem SavedRow.tenant_eq_of_id {a b id : Bytes} (h : SavedRow saved a row)
    (hid : row.id = privateId b id) : a = b := by
  obtain ⟨cp, -, hr, -⟩ := h
  exact (privateId_inj (hr.symm.trans hid)).1

theorem SavedRow.tenant_eq_of_thread {a b threadId : Bytes} (h : SavedRow saved a row)
    (ht : row.threadId = privateId b threadId) : a = b := by
  obtain ⟨cp, -, -, hr, -⟩ := h
  exact (privateId_inj (hr.symm.trans ht)).1

variable {s : InMemoryCheckpointStore β P}

theorem mem_getD_byThread (h : Custody truncate saved s) {k : Bytes}
    (hr : row ∈ s.byThread.getD k []) :
    row.threadId = k ∧ Numbered truncate row ∧ ∃ tenantId, SavedRow saved tenantId row := by
  unfold SortedMap.getD at hr
  cases hrs : s.byThread.find? k with
  | none =>
    rw [hrs] at hr
    exact absurd hr not_mem_nil
  | some rows =>
    rw [hrs] at hr
    exact h.byThread k rows hrs row hr

/-- A checkpoint is filed. -/
theorem Custody.file (h : Custody truncate saved s) (resaved : Bool) {shell : Checkpoint β}
    (hnum : Numbered truncate shell) (hsv : ∃ tenantId, SavedRow saved tenantId shell) :
    Custody truncate saved (s.file resaved shell) where
  byId k row hr := by
    unfold InMemoryCheckpointStore.file at hr
    dsimp only at hr
    obtain ⟨hk, rfl⟩ | hr := find?_insert_cases hr
    · exact ⟨hk.symm, hnum, hsv⟩
    · exact h.byId k row hr
  byThread k rows hrs row hr := by
    unfold InMemoryCheckpointStore.file at hrs
    dsimp only at hrs
    obtain ⟨hk, rfl⟩ | hrs := find?_insert_cases hrs
    · rw [hk]
      obtain hold | hn := mem_append.mp hr
      · refine mem_getD_byThread h ?_
        split at hold
        · exact mem_of_mem_eraseP hold
        · exact hold
      · rw [mem_singleton] at hn
        rw [hn]
        exact ⟨rfl, hnum, hsv⟩
    · exact h.byThread k rows hrs row hr

theorem Custody.save (h : Custody truncate saved s) {tenantId : Bytes} {cp : Checkpoint β}
    (hcp : saved tenantId cp) :
    Custody truncate saved (s.save truncate (privateCheckpoint tenantId cp)).1 := by
  have had : ∀ threadId entries, Custody truncate saved (s.addBlobs threadId entries) :=
    fun _ _ => ⟨h.byId, h.byThread⟩
  unfold InMemoryCheckpointStore.save
  dsimp only
  split
  · exact had _ _
  · rename_i shell hsh
    exact (had _ _).file _ (numbered_splitBlobs hsh)
      ⟨tenantId, cp, hcp, sameFields_splitBlobs hsh⟩

theorem Custody.deleteThread (h : Custody truncate saved s) (threadId : Bytes) :
    Custody truncate saved (s.deleteThread threadId) where
  byId k row hr := by
    unfold InMemoryCheckpointStore.deleteThread at hr
    dsimp only at hr
    rw [find?_foldl_erase] at hr
    split at hr
    · cases hr
    · exact h.byId k row hr
  byThread k rows hrs := by
    unfold InMemoryCheckpointStore.deleteThread at hrs
    dsimp only at hrs
    rw [find?_erase] at hrs
    split at hrs
    · cases hrs
    · exact h.byThread k rows hrs

/-- **Every operation keeps custody** if its saves are recorded. -/
theorem Custody.step (h : Custody truncate saved s) (op : TenantScope × CheckpointOperation β P)
    (hsaves : ∀ cp, op.2 = .save cp → saved op.1.tenantId cp) :
    Custody truncate saved (ScopedCheckpointStore.step truncate op s).1 := by
  obtain ⟨scope, op⟩ := op
  cases op with
  | save cp => exact h.save (hsaves cp rfl)
  | loadLatest threadId | loadById id | list threadId limit | getWrites threadId parentId => exact h
  | deleteThread threadId => exact h.deleteThread _
  | putWrites threadId parentId write | clearWrites threadId parentId => exact ⟨h.byId, h.byThread⟩

end ScopedCheckpointStore

end NeoGraph.Tenant

namespace NeoGraph.Tenant

open NeoGraph.Tenant.InMemoryCheckpointStore ByteOrder SortedMap List Operation Option
open ScopedCheckpointStore

variable {β P : Type}

namespace ScopedCheckpointStore

variable {truncate : UInt64 → UInt64} {saved : Bytes → Checkpoint β → Prop}

/-! ## The view of a tenant -/

/-- What a tenant can see of the checkpoints is the same. -/
structure SameCheckpoints (tenantId : Bytes) (s t : InMemoryCheckpointStore β P) : Prop where
  byId : ∀ id, s.byId.find? (privateId tenantId id) = t.byId.find? (privateId tenantId id)
  byThread : ∀ threadId, s.byThread.find? (privateId tenantId threadId)
    = t.byThread.find? (privateId tenantId threadId)
  blobs : ∀ threadId channel version,
    s.blobs.find? (blobKey (privateId tenantId threadId) channel version)
      = t.blobs.find? (blobKey (privateId tenantId threadId) channel version)
  pending : ∀ threadId parentId,
    s.pending.find? (toLex (privateId tenantId threadId, privateId tenantId parentId))
      = t.pending.find? (toLex (privateId tenantId threadId, privateId tenantId parentId))

theorem sameCheckpoints_equivalence (tenantId : Bytes) :
    Equivalence (SameCheckpoints (β := β) (P := P) tenantId) where
  refl _ := ⟨fun _ => rfl, fun _ => rfl, fun _ _ _ => rfl, fun _ _ => rfl⟩
  symm h := ⟨fun id => (h.byId id).symm, fun th => (h.byThread th).symm,
    fun th c v => (h.blobs th c v).symm, fun th p => (h.pending th p).symm⟩
  trans h h' := ⟨fun id => (h.byId id).trans (h'.byId id),
    fun th => (h.byThread th).trans (h'.byThread th),
    fun th c v => (h.blobs th c v).trans (h'.blobs th c v),
    fun th p => (h.pending th p).trans (h'.pending th p)⟩

variable {a b : Bytes} {cp : Checkpoint β} {shell : Checkpoint β}

/-- The row of another tenant is filed. -/
theorem sameCheckpoints_file (hab : a ≠ b) (s : InMemoryCheckpointStore β P) (resaved : Bool)
    (h : SameFields shell (privateCheckpoint b cp)) :
    SameCheckpoints a s (s.file resaved shell) where
  byId id := by
    have hid : shell.id = privateId b cp.id := h.1
    unfold file
    dsimp only
    rw [hid, find?_insert_of_ne _ (privateId_ne hab _ _)]
  byThread threadId := by
    have ht : shell.threadId = privateId b cp.threadId := h.2.1
    unfold file
    dsimp only
    rw [ht, find?_insert_of_ne _ (privateId_ne hab _ _)]
  blobs _ _ _ := rfl
  pending _ _ := rfl

variable {s t : InMemoryCheckpointStore β P}

theorem SameCheckpoints.file (hst : SameCheckpoints a s t) (resaved : Bool)
    (h : SameFields shell (privateCheckpoint a cp)) :
    SameCheckpoints a (s.file resaved shell) (t.file resaved shell) where
  byId id := by
    unfold InMemoryCheckpointStore.file
    dsimp only
    rw [find?_insert, find?_insert, hst.byId]
  byThread threadId := by
    have ht : shell.threadId = privateId a cp.threadId := h.2.1
    unfold InMemoryCheckpointStore.file SortedMap.getD
    dsimp only
    rw [find?_insert, find?_insert, hst.byThread, ht, hst.byThread]
  blobs := hst.blobs
  pending := hst.pending

theorem sameCheckpoints_addBlobs (hab : a ≠ b) (s : InMemoryCheckpointStore β P) (threadId : Bytes)
    (entries : List ((Bytes × ℕ) × Json Bytes)) :
    SameCheckpoints a s (s.addBlobs (privateId b threadId) entries) where
  byId _ := rfl
  byThread _ := rfl
  blobs th channel version := by
    rw [find?_addBlobs_of_ne _ (privateId_ne hab _ _)]
  pending _ _ := rfl

theorem SameCheckpoints.addBlobs (hst : SameCheckpoints a s t) (threadId : Bytes)
    (entries : List ((Bytes × ℕ) × Json Bytes)) :
    SameCheckpoints a (s.addBlobs threadId entries) (t.addBlobs threadId entries) where
  byId := hst.byId
  byThread := hst.byThread
  blobs th channel version := by
    rw [find?_addBlobs, find?_addBlobs, hst.blobs]
  pending := hst.pending

theorem sameCheckpoints_save (hab : a ≠ b) (s : InMemoryCheckpointStore β P) (cp : Checkpoint β) :
    SameCheckpoints a s (s.save truncate (privateCheckpoint b cp)).1 := by
  have had := sameCheckpoints_addBlobs hab s cp.threadId
    (splitBlobs truncate (privateCheckpoint b cp)).1
  unfold save
  dsimp only
  split
  · exact had
  · rename_i shell hsh
    exact (sameCheckpoints_equivalence a).trans had
      (sameCheckpoints_file hab _ _ (sameFields_splitBlobs hsh))

/-- A tenant's own operation keeps what is alike for it alike. -/
theorem SameCheckpoints.save (hst : SameCheckpoints a s t) (cp : Checkpoint β) :
    SameCheckpoints a (s.save truncate (privateCheckpoint a cp)).1
        (t.save truncate (privateCheckpoint a cp)).1
      ∧ (s.save truncate (privateCheckpoint a cp)).2
        = (t.save truncate (privateCheckpoint a cp)).2 := by
  have had := hst.addBlobs (privateId a cp.threadId)
    (splitBlobs truncate (privateCheckpoint a cp)).1
  have hresaved : s.byId.find? (privateCheckpoint a cp).id
      = t.byId.find? (privateCheckpoint a cp).id := hst.byId cp.id
  unfold InMemoryCheckpointStore.save
  dsimp only
  split
  · exact ⟨had, rfl⟩
  · rename_i shell hsh
    rw [hresaved]
    exact ⟨had.file _ (sameFields_splitBlobs hsh), rfl⟩

/-- The rows of a thread are those of its tenant. -/
theorem not_exists_row (h : Custody truncate saved s) (hab : a ≠ b) (threadId id : Bytes) :
    ¬∃ row ∈ s.byThread.getD (privateId b threadId) [], row.id = privateId a id := by
  rintro ⟨row, hr, hid⟩
  obtain ⟨ht, -, tenantId, hsv⟩ := mem_getD_byThread h hr
  exact hab ((hsv.tenant_eq_of_id hid).symm.trans (hsv.tenant_eq_of_thread ht))

theorem find?_blobs_deleteThread (s : InMemoryCheckpointStore β P) (threadId other channel : Bytes)
    (version : ℕ) : (s.deleteThread threadId).blobs.find? (blobKey other channel version)
      = if other = threadId then none else s.blobs.find? (blobKey other channel version) := by
  show (s.blobs.filterMap _).find? _ = _
  rw [SortedMap.find?_filterMap]
  show (s.blobs.find? (blobKey other channel version)).bind
    (fun value => if other = threadId then none else some value) = _
  split
  · exact bind_fun_none _
  · exact bind_fun_some _

theorem find?_byId_deleteThread (s : InMemoryCheckpointStore β P) (threadId k : Bytes) :
    (s.deleteThread threadId).byId.find? k
      = if ∃ row ∈ s.byThread.getD threadId [], row.id = k then none else s.byId.find? k :=
  find?_foldl_erase _ _ _

theorem sameCheckpoints_deleteThread (h : Custody truncate saved s) (hab : a ≠ b) (threadId : Bytes)
    : SameCheckpoints a s (s.deleteThread (privateId b threadId)) where
  byId id := by
    rw [find?_byId_deleteThread, if_neg (not_exists_row h hab threadId id)]
  byThread th := by
    show _ = (s.byThread.erase _).find? _
    rw [find?_erase, if_neg (privateId_ne hab _ _)]
  blobs th channel version := by
    rw [find?_blobs_deleteThread, if_neg (privateId_ne hab _ _)]
  pending _ _ := rfl

theorem SameCheckpoints.deleteThread (hst : SameCheckpoints a s t) (threadId : Bytes) :
    SameCheckpoints a (s.deleteThread (privateId a threadId))
      (t.deleteThread (privateId a threadId)) where
  byId id := by
    rw [find?_byId_deleteThread, find?_byId_deleteThread]
    unfold SortedMap.getD
    rw [hst.byThread, hst.byId]
  byThread th := by
    show (s.byThread.erase _).find? _ = (t.byThread.erase _).find? _
    rw [find?_erase, find?_erase, hst.byThread]
  blobs th channel version := by
    rw [find?_blobs_deleteThread, find?_blobs_deleteThread, hst.blobs]
  pending := hst.pending

variable {row : Checkpoint β}

/-- The channels of a tenant's row are its own. -/
theorem SameCheckpoints.joinBlobs (hst : SameCheckpoints a s t) (h : SavedRow saved a row) :
    s.joinBlobs truncate row = t.joinBlobs truncate row := by
  obtain ⟨cp, -, -, ht, -⟩ := h
  have hvs : (fun name version => s.blobs.find? (blobKey row.threadId name version))
      = fun name version => t.blobs.find? (blobKey row.threadId name version) := by
    funext name version
    rw [ht]
    exact hst.blobs cp.threadId name version
  unfold InMemoryCheckpointStore.joinBlobs
  rw [hvs]

variable {threadId : Bytes}

theorem savedRow_of_mem_thread (h : Custody truncate saved s)
    (hr : row ∈ s.byThread.getD (privateId a threadId) []) :
    Numbered truncate row ∧ row.threadId = privateId a threadId ∧ SavedRow saved a row := by
  obtain ⟨ht, hn, tenantId, hsv⟩ := mem_getD_byThread h hr
  obtain rfl := hsv.tenant_eq_of_thread ht
  exact ⟨hn, ht, hsv⟩

theorem savedRow_of_byId (h : Custody truncate saved s) {id : Bytes}
    (hr : s.byId.find? (privateId a id) = some row) :
    Numbered truncate row ∧ row.id = privateId a id ∧ SavedRow saved a row := by
  obtain ⟨hid, hn, tenantId, hsv⟩ := h.byId _ row hr
  obtain rfl := hsv.tenant_eq_of_id hid
  exact ⟨hn, hid, hsv⟩

theorem SameCheckpoints.loadLatest (hs : Custody truncate saved s) (hst : SameCheckpoints a s t)
    (threadId : Bytes) : s.loadLatest truncate (privateId a threadId)
      = t.loadLatest truncate (privateId a threadId) := by
  have hrs : s.byThread.getD (privateId a threadId) []
      = t.byThread.getD (privateId a threadId) [] := by
    unfold SortedMap.getD
    rw [hst.byThread]
  unfold InMemoryCheckpointStore.loadLatest
  rw [← hrs]
  refine map_congr fun row hr => ?_
  exact hst.joinBlobs (savedRow_of_mem_thread hs (mem_of_getLast? hr)).2.2

theorem SameCheckpoints.loadById (hs : Custody truncate saved s) (hst : SameCheckpoints a s t)
    (id : Bytes) : s.loadById truncate (privateId a id) = t.loadById truncate (privateId a id) := by
  unfold InMemoryCheckpointStore.loadById
  rw [← hst.byId]
  refine map_congr fun row hr => ?_
  exact hst.joinBlobs (savedRow_of_byId hs hr).2.2

theorem mapM_congr {ε α γ : Type} {f g : α → Except ε γ} {l : List α} (h : ∀ a ∈ l, f a = g a) :
    l.mapM f = l.mapM g := by
  induction l with
  | nil => rfl
  | cons a l ih =>
    rw [mapM_cons, mapM_cons, h a mem_cons_self, ih fun b hb => h b (mem_cons_of_mem a hb)]

theorem SameCheckpoints.list (hs : Custody truncate saved s) (hst : SameCheckpoints a s t)
    (threadId : Bytes) (limit : ℤ) : s.list truncate (privateId a threadId) limit
      = t.list truncate (privateId a threadId) limit := by
  unfold InMemoryCheckpointStore.list
  rw [← hst.byThread]
  split
  · rfl
  rename_i rows hrs
  split
  · rfl
  refine mapM_congr fun row hr => ?_
  have hm : row ∈ s.byThread.getD (privateId a threadId) [] := by
    unfold SortedMap.getD
    rw [hrs]
    exact mem_reverse.mp (mem_of_mem_take hr)
  exact hst.joinBlobs (savedRow_of_mem_thread hs hm).2.2

/-- **Checkpoints of other tenants** are neither seen nor disturbed. -/
theorem unwinding (truncate : UInt64 → UInt64) (tenantId : Bytes) :
    Unwinding (step (β := β) (P := P) truncate) (fun op => op.1.tenantId) tenantId
      (Custody truncate fun _ _ => True) (SameCheckpoints tenantId) where
  equivalence := sameCheckpoints_equivalence tenantId
  keeps op s hs := hs.step op fun _ _ => trivial
  confined := by
    rintro ⟨scope, op⟩ s hs hot
    have hne : tenantId ≠ scope.tenantId := Ne.symm hot
    cases op with
    | save cp => exact sameCheckpoints_save hne s cp
    | deleteThread threadId => exact sameCheckpoints_deleteThread hs hne threadId
    | putWrites threadId parentId write =>
      refine ⟨fun _ => rfl, fun _ => rfl, fun _ _ _ => rfl, fun th parent => ?_⟩
      show _ = (s.pending.alterD _ _ _).find? _
      rw [find?_alterD, if_neg]
      exact fun heq => privateId_ne hne _ _ (congrArg (fun k : PendingKey => (ofLex k).1) heq)
    | clearWrites threadId parentId =>
      refine ⟨fun _ => rfl, fun _ => rfl, fun _ _ _ => rfl, fun th parent => ?_⟩
      show _ = (s.pending.erase _).find? _
      rw [find?_erase, if_neg]
      exact fun heq => privateId_ne hne _ _ (congrArg (fun k : PendingKey => (ofLex k).1) heq)
    | loadLatest threadId | loadById id | list threadId limit | getWrites threadId parentId =>
      exact (sameCheckpoints_equivalence tenantId).refl s
  consistent := by
    rintro ⟨scope, op⟩ s t rfl hs ht hst
    cases op with
    | save cp =>
      obtain ⟨hsm, hr⟩ :
          SameCheckpoints scope.tenantId (s.save truncate (privateCheckpoint scope.tenantId cp)).1
              (t.save truncate (privateCheckpoint scope.tenantId cp)).1
            ∧ (s.save truncate (privateCheckpoint scope.tenantId cp)).2
              = (t.save truncate (privateCheckpoint scope.tenantId cp)).2 := hst.save cp
      refine ⟨hsm, ?_⟩
      dsimp only [step]
      rw [hr]
    | loadLatest threadId =>
      exact ⟨hst, congrArg (answerCheckpoint _) (hst.loadLatest hs threadId)⟩
    | loadById id => exact ⟨hst, congrArg (answerCheckpoint _) (hst.loadById hs id)⟩
    | list threadId limit =>
      exact ⟨hst, congrArg (answerCheckpoints _) (hst.list hs threadId limit)⟩
    | deleteThread threadId => exact ⟨hst.deleteThread threadId, rfl⟩
    | putWrites threadId parentId write =>
      refine ⟨⟨hst.byId, hst.byThread, hst.blobs, fun th parent => ?_⟩, rfl⟩
      show (s.pending.alterD _ _ _).find? _ = (t.pending.alterD _ _ _).find? _
      rw [find?_alterD, find?_alterD, hst.pending]
      unfold SortedMap.getD
      rw [hst.pending]
    | getWrites threadId parentId =>
      refine ⟨hst, congrArg CheckpointAnswer.writes ?_⟩
      unfold InMemoryCheckpointStore.getWrites SortedMap.getD
      rw [hst.pending]
    | clearWrites threadId parentId =>
      refine ⟨⟨hst.byId, hst.byThread, hst.blobs, fun th parent => ?_⟩, rfl⟩
      show (s.pending.erase _).find? _ = (t.pending.erase _).find? _
      rw [find?_erase, find?_erase, hst.pending]

/-! ## Loads -/

theorem privateId_ne_nil (tenantId id : Bytes) : privateId tenantId id ≠ [] := by
  unfold privateId
  exact append_ne_nil_of_right_ne_nil _ (cons_ne_nil _ _)

variable {tenantId : Bytes}

/-- A tenant gets its checkpoint back. -/
theorem publicCheckpoint_of_sameFields {own : Checkpoint β}
    (h : SameFields cp (privateCheckpoint tenantId own)) :
    ∃ seen, publicCheckpoint tenantId cp = .ok seen ∧ SameFields seen own := by
  obtain ⟨hid, ht, hp, hr⟩ := h
  refine ⟨{ cp with id := own.id, threadId := own.threadId, parentId := own.parentId }, ?_, rfl,
    rfl, rfl, hr⟩
  have hp' : stripParent tenantId cp.parentId = .ok own.parentId := by
    rw [hp]
    unfold stripParent privateCheckpoint privateParent
    dsimp only
    by_cases hn : own.parentId = []
    · rw [if_pos hn, if_pos hn]
    · rw [if_neg hn, if_neg (privateId_ne_nil _ _), strip_privateId]
  have hid' : strip tenantId cp.id = .ok own.id := by
    rw [hid]
    exact strip_privateId tenantId own.id
  have ht' : strip tenantId cp.threadId = .ok own.threadId := by
    rw [ht]
    exact strip_privateId tenantId own.threadId
  unfold publicCheckpoint
  rw [ht', hid', hp']
  rfl

/-- **A row loads as the checkpoint that was saved.** -/
theorem load_row (s : InMemoryCheckpointStore β P) (hn : Numbered truncate row)
    (h : SavedRow saved tenantId row) :
    ∃ seen own, s.joinBlobs truncate row >>= publicCheckpoint tenantId = .ok seen
      ∧ saved tenantId own ∧ SameFields seen own
      ∧ SameFields row (privateCheckpoint tenantId own) := by
  obtain ⟨own, hsv, hr⟩ := h
  obtain ⟨cp, hj, hf⟩ := joinBlobs_isOk s hn
  have hsm : SameFields cp (privateCheckpoint tenantId own) :=
    ⟨hf.1.trans hr.1, hf.2.1.trans hr.2.1, hf.2.2.1.trans hr.2.2.1,
      hf.2.2.2.trans hr.2.2.2⟩
  obtain ⟨seen, hs, hown⟩ := publicCheckpoint_of_sameFields hsm
  refine ⟨seen, own, ?_, hsv, hown, hr⟩
  rw [hj]
  exact hs

/-- A checkpoint that a tenant saved, apart from its channels. -/
def Loaded (saved : Bytes → Checkpoint β → Prop) (tenantId : Bytes) (seen : Checkpoint β) : Prop :=
  ∃ own, saved tenantId own ∧ SameFields seen own

theorem answer_loadLatest (h : Custody truncate saved s) (scope : TenantScope) (threadId : Bytes) :
    ∃ found, (step truncate (scope, .loadLatest threadId) s).2 = .checkpoint found
      ∧ ∀ seen ∈ found, seen.threadId = threadId ∧ Loaded saved scope.tenantId seen := by
  show ∃ found, answerCheckpoint _ (s.loadLatest truncate _) = .checkpoint found ∧ _
  unfold loadLatest
  cases hl : (s.byThread.getD (privateId scope.tenantId threadId) []).getLast? with
  | none => exact ⟨none, rfl, fun seen hs => nomatch hs⟩
  | some row =>
    obtain ⟨hn, ht, hsv⟩ := savedRow_of_mem_thread h (mem_of_getLast? hl)
    obtain ⟨seen, own, hld, hown, hs, hr⟩ := load_row s hn hsv
    refine ⟨some seen, ?_, ?_⟩
    · rw [map_some, answerCheckpoint, hld]
    · rintro _ ⟨⟩
      exact ⟨hs.2.1.trans (privateId_inj (hr.2.1.symm.trans ht)).2, own, hown, hs⟩

theorem answer_loadById (h : Custody truncate saved s) (scope : TenantScope) (id : Bytes) :
    ∃ found, (step truncate (scope, .loadById id) s).2 = .checkpoint found
      ∧ ∀ seen ∈ found, seen.id = id ∧ Loaded saved scope.tenantId seen := by
  show ∃ found, answerCheckpoint _ (s.loadById truncate _) = .checkpoint found ∧ _
  unfold loadById
  cases hf : s.byId.find? (privateId scope.tenantId id) with
  | none => exact ⟨none, rfl, fun seen hs => nomatch hs⟩
  | some row =>
    obtain ⟨hn, hid, hsv⟩ := savedRow_of_byId h hf
    obtain ⟨seen, own, hl, hown, hs, hr⟩ := load_row s hn hsv
    refine ⟨some seen, ?_, ?_⟩
    · rw [map_some, answerCheckpoint, hl]
    · rintro _ ⟨⟩
      exact ⟨hs.1.trans (privateId_inj (hr.1.symm.trans hid)).2, own, hown, hs⟩

/-- Rows that load one by one load together. -/
theorem load_rows (s : InMemoryCheckpointStore β P) {rows : List (Checkpoint β)}
    (h : ∀ row ∈ rows, Numbered truncate row ∧ row.threadId = privateId tenantId threadId
      ∧ SavedRow saved tenantId row) :
    ∃ joined seen, rows.mapM (s.joinBlobs truncate) = .ok joined
      ∧ joined.mapM (publicCheckpoint tenantId) = .ok seen
      ∧ ∀ cp ∈ seen, cp.threadId = threadId ∧ Loaded saved tenantId cp := by
  induction rows with
  | nil => exact ⟨[], [], rfl, rfl, fun cp hcp => absurd hcp not_mem_nil⟩
  | cons row rows ih =>
    obtain ⟨hn, ht, hsv⟩ := h row mem_cons_self
    obtain ⟨joined, seen, hj, hs, ha⟩ :=
      ih fun row' hr' => h row' (mem_cons_of_mem row hr')
    obtain ⟨cp, hcp, -⟩ := joinBlobs_isOk s hn
    obtain ⟨first, own, hl, hown, hf, hr⟩ := load_row s hn hsv
    rw [hcp] at hl
    have hl : publicCheckpoint tenantId cp = .ok first := hl
    refine ⟨cp :: joined, first :: seen, ?_, ?_, ?_⟩
    · rw [mapM_cons, hcp, hj]
      rfl
    · rw [mapM_cons, hl, hs]
      rfl
    intro cp hm
    obtain rfl | hm := mem_cons.mp hm
    · exact ⟨hf.2.1.trans (privateId_inj (hr.2.1.symm.trans ht)).2, own, hown, hf⟩
    · exact ha cp hm

/-- What a tenant is answered is its own. -/
theorem answer_list (h : Custody truncate saved s) (scope : TenantScope) (threadId : Bytes)
    (limit : ℤ) :
    (limit < 0 ∧ (step truncate (scope, .list threadId limit) s).2 = .failed .lengthError)
    ∨ ∃ cps, (step truncate (scope, .list threadId limit) s).2 = .checkpoints cps
      ∧ ∀ cp ∈ cps, cp.threadId = threadId ∧ Loaded saved scope.tenantId cp := by
  show (_ ∧ answerCheckpoints _ (s.list truncate _ limit) = _)
    ∨ ∃ cps, answerCheckpoints _ (s.list truncate _ limit) = _ ∧ _
  unfold list
  split
  · exact .inr ⟨[], rfl, fun cp hcp => absurd hcp not_mem_nil⟩
  rename_i rows hrs
  split_ifs with hl
  · exact .inl ⟨hl, rfl⟩
  have hown : ∀ row ∈ rows.reverse.take limit.toNat, Numbered truncate row
      ∧ row.threadId = privateId scope.tenantId threadId
      ∧ SavedRow saved scope.tenantId row := by
    intro row hr
    refine savedRow_of_mem_thread h ?_
    unfold SortedMap.getD
    rw [hrs]
    exact mem_reverse.mp (mem_of_mem_take hr)
  obtain ⟨joined, seen, hj, hs, ha⟩ := load_rows s hown
  refine .inr ⟨seen, ?_, ha⟩
  have hb : (Except.ok joined >>= fun cps => cps.mapM (publicCheckpoint scope.tenantId))
      = .ok seen := hs
  rw [hj, answerCheckpoints, hb]

end ScopedCheckpointStore

/-! ## Both stores -/

/-- The shared stores. -/
abbrev World (β P : Type) := InMemoryStore × InMemoryCheckpointStore β P

/-- One operation on the shared stores. -/
def step (truncate : UInt64 → UInt64) :
    Operation β P → World β P → World β P × (StoreAnswer ⊕ CheckpointAnswer β P) :=
  sumStep ScopedStore.step (ScopedCheckpointStore.step truncate)

/-- The stores before the first operation. -/
def World.empty : World β P := ({}, {})

/-- A tenant saved a checkpoint in the course of some operations. -/
def SavedIn (ops : List (Operation β P)) (tenantId : Bytes) (cp : Checkpoint β) : Prop :=
  ∃ scope : TenantScope, scope.tenantId = tenantId ∧ Sum.inr (scope, .save cp) ∈ ops

variable (truncate : UInt64 → UInt64)

theorem custody_empty (saved : Bytes → Checkpoint β → Prop) :
    Custody truncate saved ({} : InMemoryCheckpointStore β P) :=
  ⟨fun _ _ h => (nomatch h), fun _ _ h => (nomatch h)⟩

theorem filed_empty : ScopedStore.Filed {} := fun _ _ h => nomatch h

/-- **After any operations** the rows are those that were saved. -/
theorem custody_run (ops : List (Operation β P)) : Custody truncate (SavedIn ops)
      (runSteps (step truncate) World.empty ops).2 := by
  have hkp : ∀ op ∈ ops, ∀ s : World β P, Custody truncate (SavedIn ops) s.2 →
        Custody truncate (SavedIn ops) (step truncate op s).1.2 := by
    intro op hop s hs
    cases op with
    | inl op => exact hs
    | inr op =>
      refine hs.step op fun cp hcp => ⟨op.1, rfl, ?_⟩
      obtain ⟨scope, op⟩ := op
      obtain rfl : op = .save cp := hcp
      exact hop
  exact runSteps_keeps hkp (custody_empty truncate _)

/-- A load answers with checkpoints that its tenant saved, with the thread or
the id that was asked for. -/
structure LoadsOwn (truncate : UInt64 → UInt64) (ops : List (Operation β P)) (scope : TenantScope)
    (s : World β P) : Prop where
  latest : ∀ threadId, ∃ found,
    (step truncate (.inr (scope, .loadLatest threadId)) s).2 = .inr (.checkpoint found)
      ∧ ∀ seen ∈ found, seen.threadId = threadId
        ∧ Loaded (SavedIn ops) scope.tenantId seen
  byId : ∀ id, ∃ found,
    (step truncate (.inr (scope, .loadById id)) s).2 = .inr (.checkpoint found)
      ∧ ∀ seen ∈ found, seen.id = id
        ∧ Loaded (SavedIn ops) scope.tenantId seen
  list : ∀ threadId limit,
    (limit < 0 ∧ (step truncate (.inr (scope, .list threadId limit)) s).2
      = .inr (.failed .lengthError))
    ∨ ∃ cps, (step truncate (.inr (scope, .list threadId limit)) s).2 = .inr (.checkpoints cps)
      ∧ ∀ seen ∈ cps, seen.threadId = threadId
        ∧ Loaded (SavedIn ops) scope.tenantId seen

theorem loadsOwn_run (ops : List (Operation β P)) (scope : TenantScope) :
    LoadsOwn truncate ops scope (runSteps (step truncate) World.empty ops) where
  latest threadId := by
    obtain ⟨found, ha, hf⟩ :=
      answer_loadLatest (custody_run truncate ops) scope threadId
    exact ⟨found, congrArg Sum.inr ha, hf⟩
  byId id := by
    obtain ⟨found, ha, hf⟩ :=
      answer_loadById (custody_run truncate ops) scope id
    exact ⟨found, congrArg Sum.inr ha, hf⟩
  list threadId limit := by
    obtain ⟨hl, ha⟩ | ⟨cps, ha, hcps⟩ :=
      answer_list (custody_run truncate ops) scope threadId limit
    · exact .inl ⟨hl, congrArg Sum.inr ha⟩
    · exact .inr ⟨cps, congrArg Sum.inr ha, hcps⟩

/-- **Tenants that share the stores do not see each other.** A tenant gets the
same answers from any two runs in which it does the same, and whatever was done
before, it loads what it saved. -/
theorem tenants_isolated (truncate : UInt64 → UInt64) (tenantId : Bytes)
    {ops ops' : List (Operation β P)}
    (ho : ops.filter (fun op => op.tenant = tenantId)
      = ops'.filter fun op => op.tenant = tenantId) :
    answersOf (step truncate) tenant tenantId World.empty ops
        = answersOf (step truncate) tenant tenantId World.empty ops'
    ∧ ∀ scope : TenantScope,
        LoadsOwn truncate ops scope (runSteps (step truncate) World.empty ops) := by
  refine ⟨?_, loadsOwn_run truncate ops⟩
  exact answersOf_eq
    ((ScopedStore.unwinding tenantId).sum (unwinding truncate tenantId))
    ⟨filed_empty, custody_empty truncate _⟩ ⟨filed_empty, custody_empty truncate _⟩
    ⟨fun _ _ => rfl, (sameCheckpoints_equivalence tenantId).refl _⟩ ho

/-! Another tenant's id that imitates an id in the backend is one more id of
that tenant. -/

/-- The scope of a tenant with one letter. -/
def TenantScope.ofLetter (letter : UInt8) (h : 0 ≠ letter) : TenantScope :=
  ⟨[letter], [letter], cons_ne_nil _ _, cons_ne_nil _ _,
    fun hm => h (mem_singleton.mp hm), fun hm => h (mem_singleton.mp hm)⟩

/-- The checkpoint of an id. -/
def checkpointOf (id : Bytes) : Checkpoint Unit := ⟨id, [116], [], .obj [], ()⟩

theorem tenants_isolated_imitated :
    answersOf (step (P := Unit) id) tenant [97] World.empty
        [.inr (.ofLetter 97 (by decide), .save (checkpointOf [49])),
          .inr (.ofLetter 98 (by decide),
            .save (checkpointOf (privateId [97] [49]))),
          .inr (.ofLetter 98 (by decide), .deleteThread [116]),
          .inr (.ofLetter 97 (by decide), .loadById [49])]
      = answersOf (step id) tenant [97] World.empty
        [.inr (.ofLetter 97 (by decide), .save (checkpointOf [49])),
          .inr (.ofLetter 97 (by decide), .loadById [49])] :=
  (tenants_isolated id [97] (by simp [tenant, TenantScope.ofLetter])).1

end NeoGraph.Tenant
