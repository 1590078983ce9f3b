import Mathlib
import NeoGraph.Engine.Loop
import NeoGraph.Executor.TaskIds

/-!
# The pending writes a resume collects

While a super-step runs, the results of its invocations are filed under the
checkpoint it started from, as pending writes: a resume replays them. A
resume of an ordinary checkpoint takes what is filed under it. A resume of
a pause walks from the pause to the checkpoint its step started from, over
the earlier pauses of the same step, and takes the writes of that step; of
several writes with one task id it takes the newest, nearest first.

`R` stands for the results of the nodes. The walk follows parents through
the store, so it is bounded by the number of checkpoints there.
-/

namespace NeoGraph.Executor

open List Relation.ReflTransGen SortedMap Relation

/-! ## Records -/

/-- The version of the checkpoint schema. -/
def checkpointSchemaVersion : ℕ := 4

/-- The largest step and the largest attempt number. -/
def intMax : ℕ := 2147483647

/-- A result of an invocation, filed under a checkpoint. -/
structure PendingWrite (R : Type) where
  taskId : String
  nodeName : String
  result : R
  step : ℕ

/-- The checkpoint a fork was made from. -/
structure ForkOrigin where
  threadId : String
  checkpointId : String
deriving DecidableEq

/-- A stored checkpoint, with what a resume reads of it. -/
structure StoredCheckpoint where
  id : String
  threadId : String
  parentId : String := ""
  currentNode : String
  nextNodes : List String
  interruptPhase : CheckpointPhase
  /-- For an updated checkpoint, the phase it had. -/
  adminResumePhase : Option CheckpointPhase := none
  step : ℕ
  schemaVersion : ℕ := checkpointSchemaVersion
  /-- The mark of a fork; the inner `none` is a mark of another shape. -/
  forkedFrom : Option (Option ForkOrigin) := none
  /-- The mark of a migration. -/
  migratedFrom : Option String := none
deriving DecidableEq

/-- A store. The writes under a checkpoint are in insertion order. -/
structure CheckpointStore (R : Type) where
  checkpoints : SortedMap String StoredCheckpoint := ∅
  pending : SortedMap (String ×ₗ String) (List (PendingWrite R)) := ∅

variable {R : Type}

namespace CheckpointStore

/-- The checkpoint of an id. -/
def loadById (store : CheckpointStore R) (id : String) : Option StoredCheckpoint :=
  store.checkpoints.find? id

/-- A checkpoint is filed. -/
def save (store : CheckpointStore R) (cp : StoredCheckpoint) : CheckpointStore R :=
  { store with checkpoints := store.checkpoints.insert cp.id cp }

/-- The writes under a checkpoint. -/
def getWrites (store : CheckpointStore R) (threadId checkpointId : String) :
    List (PendingWrite R) :=
  store.pending.getD (toLex (threadId, checkpointId)) []

/-- A write is filed under a checkpoint. -/
def putWrites (store : CheckpointStore R) (threadId checkpointId : String)
    (write : PendingWrite R) : CheckpointStore R :=
  { store with
      pending := store.pending.alterD (toLex (threadId, checkpointId)) [] (· ++ [write]) }

/-- A pending write is recorded: without a checkpoint there is nothing to
file it under. -/
def recordPendingWrite (store : CheckpointStore R) (threadId parentId : String)
    (write : PendingWrite R) : CheckpointStore R :=
  if parentId = "" then store else store.putWrites threadId parentId write

/-- Pending writes are recorded one after the other. -/
def recordPendingWrites (store : CheckpointStore R) (threadId parentId : String)
    (writes : List (PendingWrite R)) : CheckpointStore R :=
  writes.foldl (fun store write => store.recordPendingWrite threadId parentId write) store

end CheckpointStore

namespace StoredCheckpoint

/-- The phase a resume goes by. -/
def resumePhase (cp : StoredCheckpoint) : CheckpointPhase :=
  if cp.interruptPhase = .updated then cp.adminResumePhase.getD .updated else cp.interruptPhase

/-- The step a resume enters. A pause and a gate are re-entered. -/
def resumeStartStep (cp : StoredCheckpoint) : Except Exn ℕ :=
  if cp.step ≥ intMax then .error (.runtimeError "Checkpoint step exceeds the executable range")
  else
    match cp.resumePhase with
    | .after | .completed | .updated => .ok (cp.step + 1)
    | .before | .nodeInterrupt => .ok cp.step

/-- The parent is of another thread, or of the graph before a migration. -/
def isExternalResumeBoundary (cp : StoredCheckpoint) (threadId : String) : Bool :=
  if cp.parentId = "" then false
  else
    match cp.forkedFrom with
    | some none => false
    | some (some origin) =>
      origin.checkpointId = cp.parentId && origin.threadId ≠ "" && origin.threadId ≠ threadId
    | none =>
      match cp.migratedFrom with
      | some source => source ≠ ""
      | none => false

end StoredCheckpoint

/-! ## The walk -/

/-- The walk goes on from a checkpoint to its parent: it is a pause of the
step. -/
def pauseChainContinues (cp : StoredCheckpoint) (selectedStep : ℕ) (threadId : String) :
    Except Exn Bool :=
  if cp.resumePhase ≠ .nodeInterrupt ∨ cp.parentId = "" then .ok false
  else if cp.parentId = cp.id then
    .error (.runtimeError "Cycle in NodeInterrupt checkpoint ancestry")
  else if cp.isExternalResumeBoundary threadId then .ok false
  else .ok (cp.step = selectedStep)

/-- A checkpoint of the walk is visited once, and of the thread. -/
def requireVisitable (cp : StoredCheckpoint) (threadId : String) (nodeInterruptResume : Bool)
    (visited : List String) : Except Exn (List String) :=
  if cp.id ∈ visited then .error (.runtimeError "Cycle in NodeInterrupt checkpoint ancestry")
  else if cp.id = "" ∨ cp.threadId ≠ threadId ∨
      nodeInterruptResume = true ∧ cp.schemaVersion ≠ checkpointSchemaVersion then
    .error (.runtimeError "Incompatible checkpoint in NodeInterrupt ancestry")
  else .ok (cp.id :: visited)

/-- The parent is there, of the thread, and not a pause of a later step. -/
def requireParent (parent : Option StoredCheckpoint) (cp : StoredCheckpoint) (threadId : String)
    (selectedStep : ℕ) : Except Exn StoredCheckpoint :=
  match parent with
  | none =>
    .error (.runtimeError "Missing or incompatible parent checkpoint in NodeInterrupt ancestry")
  | some parent =>
    if parent.id ≠ cp.parentId ∨ parent.threadId ≠ threadId ∨
        parent.schemaVersion ≠ checkpointSchemaVersion then
      .error (.runtimeError "Missing or incompatible parent checkpoint in NodeInterrupt ancestry")
    else if parent.resumePhase = .nodeInterrupt ∧ parent.step > selectedStep then
      .error (.runtimeError "NodeInterrupt ancestry runs backwards across super-steps")
    else .ok parent

/-- The rows under one checkpoint are offered to the selection, newest
first: one that is not of the step, or whose task id is there already, is
left. -/
def selectNewestRows (rows : List (PendingWrite R)) (nodeInterruptResume : Bool)
    (selectedStep : ℕ) (selected : List (PendingWrite R)) : List (PendingWrite R) :=
  rows.reverse.foldl (fun selected row =>
    if nodeInterruptResume = true ∧ row.step ≠ selectedStep then selected
    else if row.taskId ∈ selected.map PendingWrite.taskId then selected
    else selected ++ [row]) selected

/-- The walk from a checkpoint, over at most so many checkpoints. -/
def resumeWalk (store : CheckpointStore R) (threadId : String) (nodeInterruptResume : Bool)
    (selectedStep : ℕ) :
    ℕ → StoredCheckpoint → List String → List (PendingWrite R) → Except Exn (List (PendingWrite R))
  | 0, _, _, _ => .error (.runtimeError "Cycle in NodeInterrupt checkpoint ancestry")
  | bound + 1, current, visited, results => do
    let visited ← requireVisitable current threadId nodeInterruptResume visited
    let results := selectNewestRows (store.getWrites threadId current.id) nodeInterruptResume
      selectedStep results
    if ← pauseChainContinues current selectedStep threadId then
      let parent ← requireParent (store.loadById current.parentId) current threadId selectedStep
      resumeWalk store threadId nodeInterruptResume selectedStep bound parent visited results
    else return results

/-- **The pending writes a resume of a checkpoint replays**, one for each
task id. -/
def collectResumeWrites (store : CheckpointStore R) (threadId : String)
    (checkpoint : StoredCheckpoint) : Except Exn (List (PendingWrite R)) :=
  resumeWalk store threadId (checkpoint.resumePhase = .nodeInterrupt) checkpoint.step
    (store.checkpoints.entries.length + 1) checkpoint [] []

/-! ## What is filed -/

section Store

variable (store : CheckpointStore R) (threadId : String)

theorem getWrites_putWrites (checkpointId checkpointId' : String) (write : PendingWrite R) :
    (store.putWrites threadId checkpointId write).getWrites threadId checkpointId'
      = if checkpointId' = checkpointId then store.getWrites threadId checkpointId' ++ [write]
        else store.getWrites threadId checkpointId' := by
  show ((store.pending.alterD _ [] (· ++ [write])).find? _).getD [] = _
  rw [find?_alterD]
  by_cases h : checkpointId' = checkpointId
  · subst h
    rw [if_pos rfl, if_pos rfl]
    rfl
  · rw [if_neg h, if_neg fun h' => h (congrArg (fun key => (ofLex key).2) h')]
    rfl

/-- **Recorded writes are filed in order**, behind those that are there; the
writes under another checkpoint are as they were. -/
theorem getWrites_recordPendingWrites (parentId checkpointId : String)
    (writes : List (PendingWrite R)) :
    (store.recordPendingWrites threadId parentId writes).getWrites threadId checkpointId
      = if checkpointId = parentId ∧ parentId ≠ "" then
          store.getWrites threadId checkpointId ++ writes
        else store.getWrites threadId checkpointId := by
  induction writes generalizing store with
  | nil =>
    rw [append_nil, ite_self]
    rfl
  | cons write writes ih =>
    show ((store.recordPendingWrite threadId parentId write).recordPendingWrites threadId parentId
      writes).getWrites threadId checkpointId = _
    rw [ih]
    unfold CheckpointStore.recordPendingWrite
    by_cases hp : parentId = ""
    · rw [if_pos hp, if_neg fun h => h.2 hp, if_neg fun h => h.2 hp]
    rw [if_neg hp, getWrites_putWrites]
    by_cases hid : checkpointId = parentId
    · rw [if_pos hid, if_pos ⟨hid, hp⟩, if_pos ⟨hid, hp⟩, append_assoc]
      rfl
    · rw [if_neg hid, if_neg fun h => hid h.1, if_neg fun h => hid h.1]

@[simp] theorem checkpoints_recordPendingWrites (parentId : String)
    (writes : List (PendingWrite R)) :
    (store.recordPendingWrites threadId parentId writes).checkpoints = store.checkpoints := by
  induction writes generalizing store with
  | nil => rfl
  | cons write writes ih =>
    refine (ih (store.recordPendingWrite threadId parentId write)).trans ?_
    unfold CheckpointStore.recordPendingWrite
    split <;> rfl

@[simp] theorem getWrites_save (cp : StoredCheckpoint) (checkpointId : String) :
    (store.save cp).getWrites threadId checkpointId = store.getWrites threadId checkpointId := rfl

theorem loadById_save_of_ne (cp : StoredCheckpoint) {id : String} (h : id ≠ cp.id) :
    (store.save cp).loadById id = store.loadById id :=
  find?_insert_of_ne _ h _

/-- A new checkpoint makes the walk one longer. -/
theorem length_checkpoints_save {cp : StoredCheckpoint} (h : store.loadById cp.id = none) :
    (store.save cp).checkpoints.entries.length = store.checkpoints.entries.length + 1 :=
  length_entries_insert _ h _

end Store

/-! ## What a resume collects -/

section Walk

variable (store : CheckpointStore R) (threadId : String)

/-- A write of a task id is filed under a checkpoint; a pause's resume looks
at the writes of its step only. -/
def Filed (nodeInterruptResume : Bool) (selectedStep : ℕ) (checkpointId id : String) : Prop :=
  ∃ row ∈ store.getWrites threadId checkpointId,
    (nodeInterruptResume = true → row.step = selectedStep) ∧ row.taskId = id

/-- The walk steps from a checkpoint to another. -/
def Continues (selectedStep : ℕ) (cp parent : StoredCheckpoint) : Prop :=
  pauseChainContinues cp selectedStep threadId = .ok true
    ∧ store.loadById cp.parentId = some parent

/-- A write of a task id is filed under a checkpoint of the walk from one. -/
def FiledAlong (nodeInterruptResume : Bool) (selectedStep : ℕ) (start : StoredCheckpoint)
    (id : String) : Prop :=
  ∃ cp, ReflTransGen (Continues store threadId selectedStep) start cp
    ∧ Filed store threadId nodeInterruptResume selectedStep cp.id id

/-- The task ids that are taken from the rows of a checkpoint. -/
theorem mem_selectNewestRows_iff (rows selected : List (PendingWrite R))
    (nodeInterruptResume : Bool) (selectedStep : ℕ) (id : String) :
    id ∈ (selectNewestRows rows nodeInterruptResume selectedStep selected).map PendingWrite.taskId
      ↔ id ∈ selected.map PendingWrite.taskId ∨
        ∃ row ∈ rows, (nodeInterruptResume = true → row.step = selectedStep) ∧ row.taskId = id := by
  have key : ∀ (l selected : List (PendingWrite R)), id ∈ (l.foldl (fun selected row =>
        if nodeInterruptResume = true ∧ row.step ≠ selectedStep then selected
        else if row.taskId ∈ selected.map PendingWrite.taskId then selected
        else selected ++ [row]) selected).map PendingWrite.taskId
      ↔ id ∈ selected.map PendingWrite.taskId ∨
        ∃ row ∈ l, (nodeInterruptResume = true → row.step = selectedStep) ∧ row.taskId = id := by
    intro l
    induction l with
    | nil =>
      intro selected
      simp only [foldl_nil, not_mem_nil, false_and, exists_false, or_false]
    | cons row l ih =>
      intro selected
      rw [foldl_cons, ih]
      simp only [exists_mem_cons_iff]
      split
      · rename_i hs
        have hsk : ¬ (nodeInterruptResume = true → row.step = selectedStep) :=
          fun h => hs.2 (h hs.1)
        simp only [hsk, false_and, false_or]
      · rename_i hs
        have htk : nodeInterruptResume = true → row.step = selectedStep :=
          fun h => not_not.mp fun hne => hs ⟨h, hne⟩
        split
        · rename_i hsn
          constructor
          · rintro (h | h)
            · exact .inl h
            · exact .inr (.inr h)
          · rintro (h | ⟨-, rfl⟩ | h)
            · exact .inl h
            · exact .inl hsn
            · exact .inr h
        · rw [map_append, mem_append, or_assoc]
          refine or_congr Iff.rfl (or_congr ?_ Iff.rfl)
          rw [map_singleton, mem_singleton]
          exact ⟨fun h => ⟨htk, h.symm⟩, fun h => h.2.symm⟩
  rw [selectNewestRows, key]
  simp only [mem_reverse]

variable {selectedStep : ℕ} {start current cp : StoredCheckpoint}

theorem filedAlong_iff_of_stop
    (h : pauseChainContinues start selectedStep threadId ≠ .ok true) (nodeInterruptResume : Bool)
    (id : String) : FiledAlong store threadId nodeInterruptResume selectedStep start id
      ↔ Filed store threadId nodeInterruptResume selectedStep start.id id := by
  constructor
  · rintro ⟨cp, hpt, hfil⟩
    obtain rfl | ⟨next, hnx, -⟩ := cases_head hpt
    · exact hfil
    · exact absurd hnx.1 h
  · intro hfil
    exact ⟨start, Relation.ReflTransGen.refl, hfil⟩

theorem filedAlong_iff_of_continues {parent : StoredCheckpoint}
    (h : Continues store threadId selectedStep start parent) (nodeInterruptResume : Bool)
    (id : String) : FiledAlong store threadId nodeInterruptResume selectedStep start id
      ↔ Filed store threadId nodeInterruptResume selectedStep start.id id
        ∨ FiledAlong store threadId nodeInterruptResume selectedStep parent id := by
  constructor
  · rintro ⟨cp, hpt, hfil⟩
    obtain rfl | ⟨next, hnx, hr⟩ := cases_head hpt
    · exact .inl hfil
    · obtain rfl := Option.some.inj (hnx.2.symm.trans h.2)
      exact .inr ⟨cp, hr, hfil⟩
  · rintro (hfil | ⟨cp, hpt, hfil⟩)
    · exact ⟨start, Relation.ReflTransGen.refl, hfil⟩
    · exact ⟨cp, head h hpt, hfil⟩

variable {out : List (PendingWrite R)} {visited : List String} {nodeInterruptResume : Bool}
  {bound : ℕ} {results : List (PendingWrite R)}

/-- What a walk that returned passed through. -/
theorem resumeWalk_succ_eq_ok :
    resumeWalk store threadId nodeInterruptResume selectedStep (bound + 1) current visited results
        = .ok out ↔
      ∃ visited', requireVisitable current threadId nodeInterruptResume visited = .ok visited' ∧
        ((pauseChainContinues current selectedStep threadId = .ok false ∧
            out = selectNewestRows (store.getWrites threadId current.id) nodeInterruptResume
              selectedStep results) ∨ pauseChainContinues current selectedStep threadId = .ok true ∧
            ∃ parent, requireParent (store.loadById current.parentId) current threadId selectedStep
                = .ok parent ∧
              resumeWalk store threadId nodeInterruptResume selectedStep bound parent visited'
                (selectNewestRows (store.getWrites threadId current.id) nodeInterruptResume
                  selectedStep results) = .ok out) := by
  rw [resumeWalk, bind_eq_ok]
  refine exists_congr fun visited' => and_congr Iff.rfl ?_
  rw [bind_eq_ok]
  constructor
  · rintro ⟨b, hb, h⟩
    cases b with
    | false =>
      cases h
      exact .inl ⟨hb, rfl⟩
    | true => exact .inr ⟨hb, bind_eq_ok.mp h⟩
  · rintro (⟨hb, rfl⟩ | ⟨hb, h⟩)
    · exact ⟨false, hb, rfl⟩
    · exact ⟨true, hb, bind_eq_ok.mpr h⟩

/-- What a parent must be. -/
theorem requireParent_eq_ok {parent : Option StoredCheckpoint} {cp' : StoredCheckpoint} :
    requireParent parent cp threadId selectedStep = .ok cp' ↔
      parent = some cp' ∧ cp'.id = cp.parentId ∧ cp'.threadId = threadId ∧
        cp'.schemaVersion = checkpointSchemaVersion ∧
        (cp'.resumePhase = .nodeInterrupt → cp'.step ≤ selectedStep) := by
  unfold requireParent
  cases parent with
  | none => exact ⟨nofun, fun h => nomatch h.1⟩
  | some parent =>
    dsimp only
    split
    · rename_i h
      constructor
      · exact nofun
      · rintro ⟨heq, hid, ht, hsch, -⟩
        obtain rfl := Option.some.inj heq
        exact absurd h (by simp [hid, ht, hsch])
    · rename_i h
      simp only [not_or, not_not] at h
      split
      · rename_i hb
        constructor
        · exact nofun
        · rintro ⟨heq, -, -, -, hs⟩
          obtain rfl := Option.some.inj heq
          exact absurd (hs hb.1) (not_le.mpr hb.2)
      · rename_i hb
        constructor
        · rintro ⟨⟩
          exact ⟨rfl, h.1, h.2.1, h.2.2, fun hph => not_lt.mp fun hlt => hb ⟨hph, hlt⟩⟩
        · rintro ⟨heq, -⟩
          obtain rfl := Option.some.inj heq
          rfl

/-- What a checkpoint must be. -/
theorem requireVisitable_eq_ok {visited' : List String} :
    requireVisitable cp threadId nodeInterruptResume visited = .ok visited' ↔
      cp.id ∉ visited ∧ cp.id ≠ "" ∧ cp.threadId = threadId ∧
        (nodeInterruptResume = true → cp.schemaVersion = checkpointSchemaVersion) ∧
        visited' = cp.id :: visited := by
  unfold requireVisitable
  split
  · rename_i h
    exact ⟨nofun, fun h' => absurd h h'.1⟩
  rename_i hv
  split_ifs with h
  · constructor
    · exact nofun
    rintro ⟨-, hid, ht, hsch, -⟩
    obtain h | h | h := h
    · exact absurd h hid
    · exact absurd ht h
    · exact absurd (hsch h.1) h.2
  · simp only [not_or, not_not] at h
    constructor
    · rintro ⟨⟩
      exact ⟨hv, h.1, h.2.1, fun hn => not_not.mp fun hs => h.2.2 ⟨hn, hs⟩, rfl⟩
    · rintro ⟨-, -, -, -, rfl⟩
      rfl

/-- **A walk collects what is filed along it.** -/
theorem mem_resumeWalk_iff
    (h : resumeWalk store threadId nodeInterruptResume selectedStep bound current visited results
      = .ok out)
    (id : String) : id ∈ out.map PendingWrite.taskId ↔ id ∈ results.map PendingWrite.taskId
      ∨ FiledAlong store threadId nodeInterruptResume selectedStep current id := by
  induction bound generalizing current visited results with
  | zero => cases h
  | succ bound ih =>
    obtain ⟨visited', -, ⟨hsp, rfl⟩ | ⟨hon, parent, hp, hr⟩⟩ :=
      (resumeWalk_succ_eq_ok store threadId).mp h
    · have hne : pauseChainContinues current selectedStep threadId ≠ .ok true := by
        rw [hsp]
        nofun
      rw [mem_selectNewestRows_iff, filedAlong_iff_of_stop store threadId hne]
      rfl
    · have hc : Continues store threadId selectedStep current parent :=
        ⟨hon, ((requireParent_eq_ok threadId).mp hp).1⟩
      rw [ih hr, mem_selectNewestRows_iff,
        filedAlong_iff_of_continues store threadId hc, or_assoc]
      rfl

/-- The task ids a resume collects. -/
theorem mem_collectResumeWrites_iff {checkpoint : StoredCheckpoint}
    (h : collectResumeWrites store threadId checkpoint = .ok out) (id : String) :
    id ∈ out.map PendingWrite.taskId ↔ FiledAlong store threadId
      (checkpoint.resumePhase = .nodeInterrupt) checkpoint.step checkpoint id := by
  rw [mem_resumeWalk_iff store threadId h id]
  exact or_iff_right not_mem_nil

end Walk

/-! ## Larger stores -/

/-- A larger store has the same checkpoints under the old ids. -/
def Extends (store store' : CheckpointStore R) : Prop :=
  ∀ id cp, store.loadById id = some cp → store'.loadById id = some cp

section Extends

variable {store store' : CheckpointStore R} {threadId : String} {selectedStep : ℕ}

theorem Extends.of_checkpoints_eq (h : store'.checkpoints = store.checkpoints) :
    Extends store store' := by
  intro id cp hl
  show store'.checkpoints.find? id = some cp
  rw [h]
  exact hl

theorem Extends.save {cp : StoredCheckpoint} (hn : store.loadById cp.id = none) :
    Extends store (store.save cp) := by
  intro id cp' hl
  refine (loadById_save_of_ne store cp ?_).trans hl
  rintro rfl
  cases hn.symm.trans hl

theorem Extends.trans {store'' : CheckpointStore R} (h : Extends store store')
    (h' : Extends store' store'') : Extends store store'' :=
  fun id cp hl => h' id cp (h id cp hl)

variable {current : StoredCheckpoint} {bound : ℕ} {visited : List String}
  {results out : List (PendingWrite R)}

/-- **A walk is not disturbed by what comes into the store**, nor by visits
to checkpoints that are new there. -/
theorem resumeWalk_extends (hl : Extends store store') (extra : List String)
    (he : ∀ id ∈ extra, store.loadById id = none)
    (results' : List (PendingWrite R)) (hc : store.loadById current.id = some current)
    (h : resumeWalk store threadId true selectedStep bound current visited results = .ok out) :
    ∃ out', resumeWalk store' threadId true selectedStep bound current (visited ++ extra) results'
      = .ok out' := by
  induction bound generalizing current visited results results' with
  | zero => cases h
  | succ bound ih =>
    have hnotextra : current.id ∉ extra := by
      intro hm
      cases (he _ hm).symm.trans hc
    obtain ⟨visited', hv, hr⟩ := (resumeWalk_succ_eq_ok store threadId).mp h
    obtain ⟨hn, hid, ht, hs, rfl⟩ := (requireVisitable_eq_ok threadId).mp hv
    have hv' : requireVisitable current threadId true (visited ++ extra)
        = .ok ((current.id :: visited) ++ extra) := by
      rw [requireVisitable_eq_ok]
      refine ⟨?_, hid, ht, hs, rfl⟩
      rw [mem_append, not_or]
      exact ⟨hn, hnotextra⟩
    obtain ⟨hsp, -⟩ | ⟨hon, parent, hp, hw⟩ := hr
    · exact ⟨_, (resumeWalk_succ_eq_ok store' threadId).mpr ⟨_, hv', .inl ⟨hsp, rfl⟩⟩⟩
    obtain ⟨hparentLoad, hpid, hr⟩ := (requireParent_eq_ok threadId).mp hp
    have hst : store.loadById parent.id = some parent := by rw [hpid, hparentLoad]
    obtain ⟨out', ho'⟩ := ih (selectNewestRows (store'.getWrites threadId current.id) true
      selectedStep results') hst hw
    refine ⟨out', (resumeWalk_succ_eq_ok store' threadId).mpr
      ⟨_, hv', .inr ⟨hon, parent, ?_, ho'⟩⟩⟩
    rw [requireParent_eq_ok]
    exact ⟨hl _ _ hparentLoad, hpid, hr⟩

/-- A walk that returns goes the same way in a larger store. -/
theorem continues_path_iff (hl : Extends store store')
    (h : resumeWalk store threadId true selectedStep bound current visited results = .ok out)
    (cp : StoredCheckpoint) : ReflTransGen (Continues store' threadId selectedStep) current cp ↔
      ReflTransGen (Continues store threadId selectedStep) current cp := by
  constructor
  · intro hpt
    induction bound generalizing current visited results with
    | zero => cases h
    | succ bound ih =>
      obtain rfl | ⟨next, hnx, hr⟩ := cases_head hpt
      · exact Relation.ReflTransGen.refl
      obtain ⟨visited', -, ⟨hsp, -⟩ | ⟨hon, parent, hp, hw⟩⟩ :=
        (resumeWalk_succ_eq_ok store threadId).mp h
      · cases hsp.symm.trans hnx.1
      · have hparentLoad := ((requireParent_eq_ok threadId).mp hp).1
        obtain rfl := Option.some.inj ((hl _ _ hparentLoad).symm.trans hnx.2)
        exact head ⟨hon, hparentLoad⟩ (ih hw hr)
  · intro hpt
    exact hpt.lift id fun _ _ hs => ⟨hs.1, hl _ _ hs.2⟩

end Extends

end NeoGraph.Executor
