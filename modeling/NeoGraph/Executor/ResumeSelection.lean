import NeoGraph.Executor.ResumeWrites

/-!
# Which writes a resume replays

A walk from a selected checkpoint visits no checkpoint twice, so it ends after
as many steps as there are checkpoints, whatever the parent links are
(`resumeWalk_congr`). Where it goes is told without the walk: `WalkStep` leads
from a pause of the selected step to its parent, and `Fault` says what is wrong
with a checkpoint that the walk cannot pass. The walk raises an exception exactly
when its steps lead to a fault, and it raises that one (`raises_of_resumeWalk`).

A walk that does not raise an exception has passed over a chain of pauses of the
selected step, down to the first checkpoint that is not such a pause
(`PauseChain`), and for every task id it has taken the last inserted write of the
nearest checkpoint of the chain that has one (`collectResumeWrites_spec`).

Steps are only compared here, so they may be read as counted from any least
one.
-/

namespace NeoGraph.Executor

open List

variable {R : Type}

/-! ## Chains -/

/-- A checkpoint is a pause of a step. -/
def StoredCheckpoint.IsPauseOf (cp : StoredCheckpoint) (selectedStep : ℕ) : Prop :=
  cp.resumePhase = .nodeInterrupt ∧ cp.step = selectedStep

/-- **A walk goes on** from a checkpoint to its parent: it is a pause of the
step, and its parent is of the same thread and graph. -/
structure StoredCheckpoint.GoesOn (cp : StoredCheckpoint) (threadId : String)
    (selectedStep : ℕ) : Prop where
  pause : cp.IsPauseOf selectedStep
  hasParent : cp.parentId ≠ ""
  notItself : cp.parentId ≠ cp.id
  inThread : cp.isExternalResumeBoundary threadId = false

/-- A checkpoint that a walk may read: it has a name, is of the thread and, when
a pause is resumed, of the current schema. -/
structure StoredCheckpoint.Readable (cp : StoredCheckpoint) (threadId : String)
    (nodeInterruptResume : Bool) : Prop where
  named : cp.id ≠ ""
  thread : cp.threadId = threadId
  schema : nodeInterruptResume = true → cp.schemaVersion = checkpointSchemaVersion

/-- The parent of a checkpoint is stored, under its own name, in the thread and
with the current schema. -/
structure CheckpointStore.HasParent (store : CheckpointStore R) (threadId : String)
    (cp parent : StoredCheckpoint) : Prop where
  stored : store.loadById cp.parentId = some parent
  named : parent.id = cp.parentId
  thread : parent.threadId = threadId
  schema : parent.schemaVersion = checkpointSchemaVersion

/-- **The checkpoints of a resume**, nearest first: over the pauses of the step
from each to its parent, down to the first that is no such pause, has no parent,
or has its parent in another thread or graph. -/
inductive PauseChain (store : CheckpointStore R) (threadId : String) (selectedStep : ℕ) :
    StoredCheckpoint → List StoredCheckpoint → Prop where
  | ends {cp : StoredCheckpoint}
      (h : ¬ cp.IsPauseOf selectedStep ∨ cp.parentId = ""
        ∨ cp.isExternalResumeBoundary threadId = true) :
      PauseChain store threadId selectedStep cp [cp]
  | goesOn {cp parent : StoredCheckpoint} {chain : List StoredCheckpoint}
      (hon : cp.GoesOn threadId selectedStep) (hparent : store.HasParent threadId cp parent)
      (hrest : PauseChain store threadId selectedStep parent chain) :
      PauseChain store threadId selectedStep cp (cp :: chain)

/-! ## Where a walk goes, and what stops it -/

section Causes

variable (store : CheckpointStore R) (threadId : String) (nodeInterruptResume : Bool)
  (selectedStep : ℕ)

/-- **One step of a walk**, with the ids of the checkpoints it visited before. -/
inductive WalkStep : List String × StoredCheckpoint → List String × StoredCheckpoint → Prop where
  | goesOn {visited : List String} {cp parent : StoredCheckpoint} (hnew : cp.id ∉ visited)
      (hreadable : cp.Readable threadId nodeInterruptResume)
      (hon : cp.GoesOn threadId selectedStep) (hparent : store.HasParent threadId cp parent)
      (hforwards : parent.resumePhase = .nodeInterrupt → parent.step ≤ selectedStep) :
      WalkStep (visited, cp) (cp.id :: visited, parent)

/-- **What is wrong with a checkpoint** that a walk has come to. -/
inductive Fault (visited : List String) (cp : StoredCheckpoint) : Exn → Prop where
  | cycle (h : cp.id ∈ visited) :
      Fault visited cp (.runtimeError "Cycle in NodeInterrupt checkpoint ancestry")
  | incompatible (hnew : cp.id ∉ visited) (h : ¬ cp.Readable threadId nodeInterruptResume) :
      Fault visited cp (.runtimeError "Incompatible checkpoint in NodeInterrupt ancestry")
  | ownParent (hnew : cp.id ∉ visited) (hreadable : cp.Readable threadId nodeInterruptResume)
      (hphase : cp.resumePhase = .nodeInterrupt) (h : cp.parentId = cp.id) :
      Fault visited cp (.runtimeError "Cycle in NodeInterrupt checkpoint ancestry")
  | noParent (hnew : cp.id ∉ visited) (hreadable : cp.Readable threadId nodeInterruptResume)
      (hon : cp.GoesOn threadId selectedStep) (h : ∀ parent, ¬ store.HasParent threadId cp parent) :
      Fault visited cp
        (.runtimeError "Missing or incompatible parent checkpoint in NodeInterrupt ancestry")
  | backwards {parent : StoredCheckpoint} (hnew : cp.id ∉ visited)
      (hreadable : cp.Readable threadId nodeInterruptResume)
      (hon : cp.GoesOn threadId selectedStep) (hparent : store.HasParent threadId cp parent)
      (hphase : parent.resumePhase = .nodeInterrupt) (h : selectedStep < parent.step) :
      Fault visited cp (.runtimeError "NodeInterrupt ancestry runs backwards across super-steps")

/-- A walk comes to a fault. -/
def Raises (start : List String × StoredCheckpoint) (x : Exn) : Prop :=
  ∃ visited cp,
    Relation.ReflTransGen (WalkStep store threadId nodeInterruptResume selectedStep) start
      (visited, cp)
    ∧ Fault store threadId nodeInterruptResume selectedStep visited cp x

end Causes

/-- The last inserted write of a task id under a checkpoint, of the step. -/
def newestRow (store : CheckpointStore R) (threadId : String) (nodeInterruptResume : Bool)
    (selectedStep : ℕ) (id : String) (cp : StoredCheckpoint) : Option (PendingWrite R) :=
  (store.getWrites threadId cp.id).reverse.find? fun row =>
    (nodeInterruptResume → row.step = selectedStep) && row.taskId = id

/-! ## The selection under one checkpoint -/

section Selection

variable (nodeInterruptResume : Bool) (selectedStep : ℕ)

/-- One row is offered. -/
def offerRow (selected : List (PendingWrite R)) (row : PendingWrite R) : List (PendingWrite R) :=
  if nodeInterruptResume = true ∧ row.step ≠ selectedStep then selected
  else if row.taskId ∈ selected.map PendingWrite.taskId then selected
  else selected ++ [row]

theorem selectNewestRows_eq (rows selected : List (PendingWrite R)) :
    selectNewestRows rows nodeInterruptResume selectedStep selected
      = rows.reverse.foldl (offerRow nodeInterruptResume selectedStep) selected := rfl

/-- What one row changes: it is the choice of its task id, if there was none. -/
theorem find?_offerRow (selected : List (PendingWrite R)) (row : PendingWrite R) (id : String) :
    (offerRow nodeInterruptResume selectedStep selected row).find? (fun r => r.taskId = id)
      = (selected.find? fun r => r.taskId = id).or
        (if (nodeInterruptResume → row.step = selectedStep) ∧ row.taskId = id then some row
          else none) := by
  unfold offerRow
  by_cases hs : nodeInterruptResume = true ∧ row.step ≠ selectedStep
  · have hsk : ¬ ((nodeInterruptResume → row.step = selectedStep) ∧ row.taskId = id) :=
      fun h => hs.2 (h.1 hs.1)
    rw [if_pos hs, if_neg hsk, Option.or_none]
  · have htk : nodeInterruptResume → row.step = selectedStep :=
      fun h => not_not.mp fun hne => hs ⟨h, hne⟩
    rw [if_neg hs]
    by_cases hsn : row.taskId ∈ selected.map PendingWrite.taskId
    · rw [if_pos hsn]
      by_cases hid : row.taskId = id
      · obtain ⟨other, hot, heq⟩ := mem_map.mp hsn
        have hsm : (selected.find? fun r => r.taskId = id).isSome = true := by
          rw [find?_isSome]
          exact ⟨other, hot, decide_eq_true (heq.trans hid)⟩
        obtain ⟨found, hf⟩ := Option.isSome_iff_exists.mp hsm
        rw [hf, Option.some_or]
      · have hsk : ¬ ((nodeInterruptResume → row.step = selectedStep) ∧ row.taskId = id) :=
          fun h => hid h.2
        rw [if_neg hsk, Option.or_none]
    · rw [if_neg hsn, find?_append, find?_singleton]
      refine congrArg _ (if_congr ?_ rfl rfl)
      rw [decide_eq_true_eq]
      exact (and_iff_right htk).symm

/-- **The selection under one checkpoint**: what was there stays, and every
other task id gets its last inserted row. -/
theorem find?_selectNewestRows (rows selected : List (PendingWrite R)) (id : String) :
    (selectNewestRows rows nodeInterruptResume selectedStep selected).find? (fun r => r.taskId = id)
      = (selected.find? fun r => r.taskId = id).or (rows.reverse.find? fun row =>
          (nodeInterruptResume → row.step = selectedStep) && row.taskId = id) := by
  rw [selectNewestRows_eq]
  generalize rows.reverse = l
  induction l generalizing selected with
  | nil => exact Option.or_none.symm
  | cons row l ih =>
    rw [foldl_cons, ih, find?_offerRow, Option.or_assoc, find?_cons]
    congr 1
    by_cases h : (nodeInterruptResume → row.step = selectedStep) ∧ row.taskId = id
    · rw [if_pos h, Option.some_or, decide_eq_true h.1, decide_eq_true h.2]
      rfl
    have hsk : (decide (nodeInterruptResume → row.step = selectedStep)
        && decide (row.taskId = id)) = false := by
      rw [Bool.and_eq_false_iff, decide_eq_false_iff_not, decide_eq_false_iff_not]
      exact not_and_or.mp h
    rw [if_neg h, Option.none_or, hsk]

/-- Task ids stay distinct. -/
theorem nodup_selectNewestRows {rows selected : List (PendingWrite R)}
    (h : (selected.map PendingWrite.taskId).Nodup) :
    ((selectNewestRows rows nodeInterruptResume selectedStep selected).map
      PendingWrite.taskId).Nodup := by
  rw [selectNewestRows_eq]
  generalize rows.reverse = l
  induction l generalizing selected with
  | nil => exact h
  | cons row l ih =>
    refine ih ?_
    unfold offerRow
    split
    · exact h
    split_ifs with hn
    · exact h
    rw [map_append, nodup_append]
    refine ⟨h, nodup_singleton _, ?_⟩
    intro id hid id' hid'
    rw [map_singleton, mem_singleton] at hid'
    rintro rfl
    exact hn (hid' ▸ hid)

end Selection

/-! ## The walk -/

section Walk

variable {store : CheckpointStore R} {threadId : String} {nodeInterruptResume : Bool}
  {selectedStep : ℕ} {cp : StoredCheckpoint}

/-- The walk goes on exactly from the pauses that it follows. -/
theorem pauseChainContinues_eq_true :
    pauseChainContinues cp selectedStep threadId = .ok true ↔ cp.GoesOn threadId selectedStep := by
  unfold pauseChainContinues
  split_ifs with hsp hsl hbd
  · refine iff_of_false nofun fun h => ?_
    exact hsp.elim (fun hph => hph h.pause.1) h.hasParent
  · exact iff_of_false nofun fun h => h.notItself hsl
  · refine iff_of_false nofun fun h => ?_
    rw [h.inThread] at hbd
    cases hbd
  · rw [not_or, not_not] at hsp
    rw [Except.ok.injEq, decide_eq_true_eq]
    exact ⟨fun hs => ⟨⟨hsp.1, hs⟩, hsp.2, hsl, Bool.eq_false_iff.mpr hbd⟩,
      fun h => h.pause.2⟩

/-- It ends at a checkpoint that is no pause of the step, or has no parent in
the thread. -/
theorem ends_of_pauseChainContinues
    (h : pauseChainContinues cp selectedStep threadId = .ok false) :
    ¬ cp.IsPauseOf selectedStep ∨ cp.parentId = ""
      ∨ cp.isExternalResumeBoundary threadId = true := by
  unfold pauseChainContinues at h
  split_ifs at h with hsp hs hbd
  · exact hsp.imp (fun hph hp => hph hp.1) .inl
  · exact .inr (.inr hbd)
  · exact .inl fun hp => decide_eq_false_iff_not.mp (Except.ok.inj h) hp.2

/-- Its one exception is a checkpoint that is its own parent. -/
theorem pauseChainContinues_eq_error {x : Exn}
    (h : pauseChainContinues cp selectedStep threadId = .error x) :
    cp.resumePhase = .nodeInterrupt ∧ cp.parentId = cp.id
      ∧ x = .runtimeError "Cycle in NodeInterrupt checkpoint ancestry" := by
  unfold pauseChainContinues at h
  split_ifs at h with hsp hs
  cases h
  rw [not_or, not_not] at hsp
  exact ⟨hsp.1, hs, rfl⟩

variable {bound : ℕ} {current parent : StoredCheckpoint} {results : List (PendingWrite R)}
  {visited : List String} {out : List (PendingWrite R)}

/-- **A walk that returns** has passed over the chain of the checkpoint, and
has taken of every task id what it had, or the newest write of the nearest
checkpoint with one. -/
theorem resumeWalk_eq_ok (h : resumeWalk store threadId nodeInterruptResume selectedStep bound
      current visited results = .ok out) :
    ∃ chain, PauseChain store threadId selectedStep current chain
      ∧ ∀ id, out.find? (fun r => r.taskId = id)
        = (results.find? fun r => r.taskId = id).or
          (chain.findSome? (newestRow store threadId nodeInterruptResume selectedStep id)) := by
  induction bound generalizing current visited results with
  | zero => cases h
  | succ bound ih =>
    obtain ⟨visited', -, ⟨hsp, rfl⟩ | ⟨hon, parent, hp, hr⟩⟩ :=
      (resumeWalk_succ_eq_ok store threadId).mp h
    · refine ⟨[current], PauseChain.ends (ends_of_pauseChainContinues hsp), fun id => ?_⟩
      rw [find?_selectNewestRows, findSome?_singleton]
      rfl
    · obtain ⟨hl, hid, ht, hs, -⟩ := (requireParent_eq_ok threadId).mp hp
      obtain ⟨chain, hch, hf⟩ := ih hr
      refine ⟨current :: chain, PauseChain.goesOn (pauseChainContinues_eq_true.mp hon)
        ⟨hl, hid, ht, hs⟩ hch, fun id => ?_⟩
      rw [hf, find?_selectNewestRows, Option.or_assoc, findSome?_cons]
      congr 1
      show (newestRow store threadId nodeInterruptResume selectedStep id current).or _ = _
      cases newestRow store threadId nodeInterruptResume selectedStep id current with
      | none => exact Option.none_or
      | some row => exact Option.some_or

/-- No task id is taken twice. -/
theorem nodup_resumeWalk (hresults : (results.map PendingWrite.taskId).Nodup)
    (h : resumeWalk store threadId nodeInterruptResume selectedStep bound
      current visited results = .ok out) : (out.map PendingWrite.taskId).Nodup := by
  induction bound generalizing current visited results with
  | zero => cases h
  | succ bound ih =>
    obtain ⟨visited', -, ⟨-, rfl⟩ | ⟨-, parent, -, hr⟩⟩ :=
      (resumeWalk_succ_eq_ok store threadId).mp h
    · exact nodup_selectNewestRows nodeInterruptResume selectedStep hresults
    · exact ih (nodup_selectNewestRows nodeInterruptResume selectedStep hresults) hr

/-! ## The walk ends -/

/-- A checkpoint that was visited already ends a walk, whatever its bound. -/
theorem resumeWalk_of_visited (bound : ℕ) (h : current.id ∈ visited)
    (results : List (PendingWrite R)) :
    resumeWalk store threadId nodeInterruptResume selectedStep bound current visited results
      = .error (.runtimeError "Cycle in NodeInterrupt checkpoint ancestry") := by
  cases bound with
  | zero => rfl
  | succ bound =>
    rw [resumeWalk]
    unfold requireVisitable
    rw [if_pos h]
    rfl

/-- A walk that visited as many checkpoints as there are visited them all. -/
theorem mem_visited_of_length {start id : String} (hnd : visited.Nodup)
    (hv : visited ⊆ start :: store.checkpoints.keys)
    (hid : id ∈ start :: store.checkpoints.keys)
    (hl : store.checkpoints.entries.length + 1 ≤ visited.length) : id ∈ visited := by
  have hle : (start :: store.checkpoints.keys).length ≤ visited.length := by
    rw [length_cons, SortedMap.keys, length_map]
    exact hl
  exact ((hnd.subperm hv).perm_of_length_le hle).mem_iff.mpr hid

/-- **The bound of a walk does not matter** once it is not less than the number
of checkpoints that are left: a longer walk would visit one of them twice. -/
theorem resumeWalk_congr {start : String} {bound' : ℕ} (hnd : visited.Nodup)
    (hv : visited ⊆ start :: store.checkpoints.keys)
    (hcur : current.id ∈ start :: store.checkpoints.keys)
    (hbd : store.checkpoints.entries.length + 1 ≤ bound + visited.length)
    (hbd' : store.checkpoints.entries.length + 1 ≤ bound' + visited.length)
    (results : List (PendingWrite R)) :
    resumeWalk store threadId nodeInterruptResume selectedStep bound current visited results
      = resumeWalk store threadId nodeInterruptResume selectedStep bound' current visited
        results := by
  induction bound generalizing bound' current visited results with
  | zero =>
    have hm := mem_visited_of_length hnd hv hcur (by omega)
    rw [resumeWalk_of_visited 0 hm, resumeWalk_of_visited bound' hm]
  | succ bound ih =>
    cases bound' with
    | zero =>
      have hm := mem_visited_of_length hnd hv hcur (by omega)
      rw [resumeWalk_of_visited _ hm, resumeWalk_of_visited 0 hm]
    | succ bound' =>
      rw [resumeWalk, resumeWalk]
      cases hvisit : requireVisitable current threadId nodeInterruptResume visited with
      | error x => rfl
      | ok visited' =>
        obtain ⟨hn, -, -, -, rfl⟩ := (requireVisitable_eq_ok threadId).mp hvisit
        dsimp only [bind, Except.bind]
        cases hc : pauseChainContinues current selectedStep threadId with
        | error x => rfl
        | ok goesOn =>
          cases goesOn with
          | false => rfl
          | true =>
            cases hp : requireParent (store.loadById current.parentId) current threadId
                selectedStep with
            | error x => rfl
            | ok parent =>
              obtain ⟨hl, hid, -⟩ := (requireParent_eq_ok threadId).mp hp
              have hk : parent.id ∈ store.checkpoints.keys := by
                rw [hid]
                exact mem_map_of_mem ((SortedMap.mem_entries_iff _ _ _).mpr hl)
              refine ih (nodup_cons.mpr ⟨hn, hnd⟩)
                (cons_subset.mpr ⟨hcur, hv⟩) (mem_cons_of_mem _ hk) ?_ ?_ _
              all_goals
                rw [length_cons]
                omega

/-! ## Exceptions -/

variable {x : Exn}

/-- A checkpoint is visited when it is new and readable. -/
theorem requireVisitable_of_readable (hn : cp.id ∉ visited)
    (h : cp.Readable threadId nodeInterruptResume) :
    requireVisitable cp threadId nodeInterruptResume visited = .ok (cp.id :: visited) :=
  (requireVisitable_eq_ok threadId).mpr ⟨hn, h.named, h.thread, h.schema, rfl⟩

theorem requireVisitable_of_not_readable (hn : cp.id ∉ visited)
    (h : ¬ cp.Readable threadId nodeInterruptResume) :
    requireVisitable cp threadId nodeInterruptResume visited
      = .error (.runtimeError "Incompatible checkpoint in NodeInterrupt ancestry") := by
  unfold requireVisitable
  rw [if_neg hn]
  refine if_pos (not_not.mp fun hnot => h ?_)
  rw [not_or, not_or, not_and, not_not] at hnot
  exact ⟨hnot.1, hnot.2.1, fun hp => not_not.mp (hnot.2.2 hp)⟩

theorem requireParent_of_hasParent (h : store.HasParent threadId cp parent)
    (hf : parent.resumePhase = .nodeInterrupt → parent.step ≤ selectedStep) :
    requireParent (store.loadById cp.parentId) cp threadId selectedStep = .ok parent :=
  (requireParent_eq_ok threadId).mpr ⟨h.stored, h.named, h.thread, h.schema, hf⟩

/-- A parent is refused because it is not there as the thread needs it, or as a
pause of a later step. -/
theorem requireParent_eq_error
    (h : requireParent (store.loadById cp.parentId) cp threadId selectedStep = .error x) :
    ((∀ parent, ¬ store.HasParent threadId cp parent) ∧ x = .runtimeError
        "Missing or incompatible parent checkpoint in NodeInterrupt ancestry")
      ∨ ∃ parent, store.HasParent threadId cp parent ∧ parent.resumePhase = .nodeInterrupt
        ∧ selectedStep < parent.step
        ∧ x = .runtimeError "NodeInterrupt ancestry runs backwards across super-steps" := by
  unfold requireParent at h
  split at h
  · rename_i hn
    cases h
    refine .inl ⟨fun parent hp => ?_, rfl⟩
    rw [hp.stored] at hn
    cases hn
  rename_i parent hl
  split_ifs at h with hf hlt
  · cases h
    refine .inl ⟨fun other hot => ?_, rfl⟩
    have heq := hot.stored.symm.trans hl
    cases heq
    obtain hid | ht | hs := hf
    · exact hid hot.named
    · exact ht hot.thread
    · exact hs hot.schema
  · cases h
    rw [not_or, not_or, not_not, not_not, not_not] at hf
    exact .inr ⟨parent, ⟨hl, hf.1, hf.2.1, hf.2.2⟩, hlt.1, hlt.2, rfl⟩

/-- A step of the walk. -/
theorem resumeWalk_of_walkStep (hn : cp.id ∉ visited)
    (hrd : cp.Readable threadId nodeInterruptResume)
    (hon : cp.GoesOn threadId selectedStep) :
    resumeWalk store threadId nodeInterruptResume selectedStep (bound + 1) cp visited results
      = (requireParent (store.loadById cp.parentId) cp threadId selectedStep).bind fun parent =>
        resumeWalk store threadId nodeInterruptResume selectedStep bound parent (cp.id :: visited)
          (selectNewestRows (store.getWrites threadId cp.id) nodeInterruptResume selectedStep
            results) := by
  rw [resumeWalk, requireVisitable_of_readable hn hrd]
  dsimp only [bind, Except.bind]
  rw [pauseChainContinues_eq_true.mpr hon]
  rfl

/-- **A fault raises its exception.** -/
theorem Fault.resumeWalk_eq
    (h : Fault store threadId nodeInterruptResume selectedStep visited cp x) :
    resumeWalk store threadId nodeInterruptResume selectedStep (bound + 1) cp visited results
      = .error x := by
  cases h with
  | cycle hm => exact resumeWalk_of_visited _ hm _
  | incompatible hnew hnot =>
    rw [resumeWalk, requireVisitable_of_not_readable hnew hnot]
    rfl
  | ownParent hnew hrd hph hsl =>
    have hcyc : pauseChainContinues cp selectedStep threadId
        = .error (.runtimeError "Cycle in NodeInterrupt checkpoint ancestry") := by
      unfold pauseChainContinues
      rw [if_neg (not_or.mpr ⟨not_not.mpr hph, hsl ▸ hrd.named⟩), if_pos hsl]
    rw [resumeWalk, requireVisitable_of_readable hnew hrd]
    dsimp only [bind, Except.bind]
    rw [hcyc]
  | noParent hnew hrd hon hn =>
    rw [resumeWalk_of_walkStep hnew hrd hon]
    cases hp : requireParent (store.loadById cp.parentId) cp threadId selectedStep with
    | ok parent =>
      obtain ⟨hl, hid, ht, hs, -⟩ := (requireParent_eq_ok threadId).mp hp
      exact absurd ⟨hl, hid, ht, hs⟩ (hn parent)
    | error x =>
      obtain ⟨-, rfl⟩ | ⟨parent, hp, -⟩ := requireParent_eq_error hp
      · rfl
      · exact absurd hp (hn parent)
  | backwards hnew hrd hon hp hph hlt =>
    rename_i parent
    rw [resumeWalk_of_walkStep hnew hrd hon]
    cases hr : requireParent (store.loadById cp.parentId) cp threadId selectedStep with
    | ok other =>
      obtain ⟨hl, -, -, -, hf⟩ := (requireParent_eq_ok threadId).mp hr
      have heq := hp.stored.symm.trans hl
      cases heq
      exact absurd (hf hph) (not_le.mpr hlt)
    | error x =>
      obtain ⟨hn, -⟩ | ⟨-, -, -, -, rfl⟩ := requireParent_eq_error hr
      · exact absurd hp (hn parent)
      · rfl

/-- A walk that comes to a fault raises its exception, when its bound is large
enough. -/
theorem Raises.resumeWalk_eq {start : List String × StoredCheckpoint}
    (h : Raises store threadId nodeInterruptResume selectedStep start x) :
    ∃ least, ∀ bound, least ≤ bound → ∀ results,
      resumeWalk store threadId nodeInterruptResume selectedStep bound start.2 start.1 results
        = .error x := by
  obtain ⟨visited, cp, hw, hflt⟩ := h
  induction hw using Relation.ReflTransGen.head_induction_on with
  | refl =>
    refine ⟨1, fun bound hbd results => ?_⟩
    obtain ⟨bound, rfl⟩ := Nat.exists_eq_add_of_le' hbd
    exact hflt.resumeWalk_eq
  | head hs _ ih =>
    obtain ⟨least, hleast⟩ := ih
    refine ⟨least + 1, fun bound hbd results => ?_⟩
    obtain ⟨bound, rfl⟩ := Nat.exists_eq_add_of_le' (Nat.le_of_add_left_le hbd)
    cases hs with
    | goesOn hn hrd hon hp hf =>
      rw [resumeWalk_of_walkStep hn hrd hon, requireParent_of_hasParent hp hf]
      exact hleast bound (Nat.le_of_succ_le_succ hbd) _

/-- **A walk raises only what its steps lead to.** The induction is on the bound;
at its end every checkpoint was visited, so there is a cycle. -/
theorem raises_of_resumeWalk {start : String} (hnd : visited.Nodup)
    (hv : visited ⊆ start :: store.checkpoints.keys)
    (hcur : current.id ∈ start :: store.checkpoints.keys)
    (hbd : store.checkpoints.entries.length + 1 ≤ bound + visited.length)
    (h : resumeWalk store threadId nodeInterruptResume selectedStep bound current visited results
      = .error x) :
    Raises store threadId nodeInterruptResume selectedStep (visited, current) x := by
  induction bound generalizing current visited results with
  | zero =>
    cases h
    have hm := mem_visited_of_length hnd hv hcur (by omega)
    exact ⟨visited, current, .refl, .cycle hm⟩
  | succ bound ih =>
    by_cases hnew : current.id ∈ visited
    · rw [resumeWalk_of_visited _ hnew] at h
      cases h
      exact ⟨visited, current, .refl, .cycle hnew⟩
    by_cases hrd : current.Readable threadId nodeInterruptResume
    swap
    · rw [resumeWalk, requireVisitable_of_not_readable hnew hrd] at h
      cases h
      exact ⟨visited, current, .refl, .incompatible hnew hrd⟩
    cases hc : pauseChainContinues current selectedStep threadId with
    | error x' =>
      rw [resumeWalk, requireVisitable_of_readable hnew hrd] at h
      dsimp only [bind, Except.bind] at h
      rw [hc] at h
      cases h
      obtain ⟨hph, hsl, rfl⟩ := pauseChainContinues_eq_error hc
      exact ⟨visited, current, .refl, .ownParent hnew hrd hph hsl⟩
    | ok goesOn =>
      cases goesOn with
      | false =>
        rw [resumeWalk, requireVisitable_of_readable hnew hrd] at h
        dsimp only [bind, Except.bind] at h
        rw [hc] at h
        cases h
      | true =>
        have hon := pauseChainContinues_eq_true.mp hc
        rw [resumeWalk_of_walkStep hnew hrd hon] at h
        cases hr : requireParent (store.loadById current.parentId) current threadId
            selectedStep with
        | error x' =>
          rw [hr] at h
          cases h
          refine ⟨visited, current, .refl, ?_⟩
          obtain ⟨hn, rfl⟩ | ⟨parent, hp, hph, hlt, rfl⟩ :=
            requireParent_eq_error hr
          · exact .noParent hnew hrd hon hn
          · exact .backwards hnew hrd hon hp hph hlt
        | ok parent =>
          rw [hr] at h
          obtain ⟨hl, hid, ht, hs, hf⟩ :=
            (requireParent_eq_ok threadId).mp hr
          have hk : parent.id ∈ store.checkpoints.keys := by
            rw [hid]
            exact mem_map_of_mem ((SortedMap.mem_entries_iff _ _ _).mpr hl)
          obtain ⟨visited', cp, hw, hflt⟩ := ih (nodup_cons.mpr ⟨hnew, hnd⟩)
            (cons_subset.mpr ⟨hcur, hv⟩) (mem_cons_of_mem _ hk)
            (by rw [length_cons]; omega) h
          exact ⟨visited', cp, .head
            (.goesOn hnew hrd hon ⟨hl, hid, ht, hs⟩ hf) hw, hflt⟩

end Walk

/-! ## What a resume replays -/

/-- The newest row of a task id is among those that count. -/
theorem of_newestRow_eq_some {store : CheckpointStore R} {threadId id : String}
    {nodeInterruptResume : Bool} {selectedStep : ℕ} {cp : StoredCheckpoint} {row : PendingWrite R}
    (h : newestRow store threadId nodeInterruptResume selectedStep id cp = some row) :
    row ∈ store.getWrites threadId cp.id ∧ (nodeInterruptResume → row.step = selectedStep) := by
  have hm := mem_reverse.mp (mem_of_find?_eq_some h)
  have hr := find?_some h
  rw [Bool.and_eq_true, decide_eq_true_eq] at hr
  exact ⟨hm, hr.1⟩

/-- **Selection of replayed writes**: collecting them ends, on every store. It
raises an exception exactly when the walk comes to a fault, and then the one of
that fault; otherwise it returns at most one write for each task id. For a pause
these are writes of its step, under a checkpoint of its chain, and for each task
id the last inserted one of the nearest checkpoint that has one. -/
theorem collectResumeWrites_spec (store : CheckpointStore R) (threadId : String)
    (checkpoint : StoredCheckpoint) :
    (∀ bound, store.checkpoints.entries.length + 1 ≤ bound →
      resumeWalk store threadId (checkpoint.resumePhase = .nodeInterrupt) checkpoint.step bound
        checkpoint [] [] = collectResumeWrites store threadId checkpoint)
    ∧ (∀ x, collectResumeWrites store threadId checkpoint = .error x
      ↔ Raises store threadId (checkpoint.resumePhase = .nodeInterrupt) checkpoint.step
        ([], checkpoint) x)
    ∧ ∀ rows, collectResumeWrites store threadId checkpoint = .ok rows →
      (rows.map PendingWrite.taskId).Nodup
      ∧ (checkpoint.resumePhase = .nodeInterrupt →
        ∃ chain, PauseChain store threadId checkpoint.step checkpoint chain
          ∧ (∀ row ∈ rows, row.step = checkpoint.step
            ∧ ∃ cp ∈ chain, row ∈ store.getWrites threadId cp.id)
          ∧ ∀ id, rows.find? (fun row => row.taskId = id)
            = chain.findSome? (newestRow store threadId true checkpoint.step id)) := by
  have hlonger : ∀ bound, store.checkpoints.entries.length + 1 ≤ bound →
      resumeWalk store threadId (checkpoint.resumePhase = .nodeInterrupt) checkpoint.step bound
        checkpoint [] [] = collectResumeWrites store threadId checkpoint := fun bound hbd =>
    resumeWalk_congr List.nodup_nil (List.nil_subset (checkpoint.id :: _)) List.mem_cons_self
      hbd le_rfl []
  refine ⟨hlonger, fun x => ⟨fun hx => ?_, fun hx => ?_⟩, fun rows hrs => ?_⟩
  · exact raises_of_resumeWalk List.nodup_nil (List.nil_subset (checkpoint.id :: _))
      List.mem_cons_self le_rfl hx
  · obtain ⟨least, hleast⟩ := hx.resumeWalk_eq
    rw [← hlonger _ (le_max_left _ least)]
    exact hleast _ (le_max_right _ least) []
  · have hnil : (([] : List (PendingWrite R)).map PendingWrite.taskId).Nodup := List.nodup_nil
    have hnd := nodup_resumeWalk hnil hrs
    refine ⟨hnd, fun hph => ?_⟩
    obtain ⟨chain, hch, hf⟩ := resumeWalk_eq_ok hrs
    rw [decide_eq_true hph] at hf
    have hnewest : ∀ id, rows.find? (fun row => row.taskId = id)
        = chain.findSome? (newestRow store threadId true checkpoint.step id) := by
      intro id
      rw [hf id]
      exact Option.none_or
    refine ⟨chain, hch, fun row hr => ?_, hnewest⟩
    have hsm := hnewest row.taskId
    rw [find?_of_nodup_map hnd hr] at hsm
    obtain ⟨cp, hcp, hn⟩ := List.exists_of_findSome?_eq_some hsm.symm
    obtain ⟨hm, hs⟩ := of_newestRow_eq_some hn
    exact ⟨hs rfl, cp, hcp, hm⟩

/-- A pause of the second step. -/
def askPause (id parentId : String) : StoredCheckpoint where
  id := id
  threadId := "thread"
  parentId := parentId
  currentNode := "ask"
  nextNodes := ["ask", "fetch", "review"]
  interruptPhase := .nodeInterrupt
  step := 2

/-- A step that paused, was resumed and paused again. Under each of its
checkpoints there are writes; those of an aborted attempt come first. -/
def pausedTwice : CheckpointStore ℕ where
  checkpoints := SortedMap.ofList
    [("c0", { askPause "c0" "" with interruptPhase := .completed, step := 1 }),
      ("p1", askPause "p1" "c0"), ("p2", askPause "p2" "p1")]
  pending := SortedMap.ofList
    [(toLex ("thread", "c0"), [⟨"fetch", "fetch", 0, 2⟩, ⟨"plan", "plan", 1, 1⟩]),
      (toLex ("thread", "p1"), [⟨"fetch", "fetch", 10, 2⟩, ⟨"review", "review", 11, 2⟩]),
      (toLex ("thread", "p2"), [⟨"review", "review", 20, 2⟩, ⟨"review", "review", 21, 2⟩])]

/-- The resume of the second pause replays the newest write of both nodes. When
the parent of the first pause is lost, it raises an exception. -/
theorem collectResumeWrites_spec_pausedTwice :
    (∃ rows, collectResumeWrites pausedTwice "thread" (askPause "p2" "p1") = .ok rows
      ∧ rows.map (fun row => (row.taskId, row.result)) = [("review", 21), ("fetch", 10)]
      ∧ (rows.map PendingWrite.taskId).Nodup
      ∧ ∃ chain, PauseChain pausedTwice "thread" 2 (askPause "p2" "p1") chain
        ∧ ∀ row ∈ rows, row.step = 2
          ∧ ∃ cp ∈ chain, row ∈ pausedTwice.getWrites "thread" cp.id)
    ∧ Raises { pausedTwice with checkpoints := pausedTwice.checkpoints.erase "c0" } "thread" true 2
      ([], askPause "p2" "p1") (.runtimeError
        "Missing or incompatible parent checkpoint in NodeInterrupt ancestry") := by
  obtain ⟨-, -, hs⟩ := collectResumeWrites_spec pausedTwice "thread" (askPause "p2" "p1")
  obtain ⟨hnd, hp⟩ := hs _ rfl
  obtain ⟨chain, hch, hrs, -⟩ := hp rfl
  obtain ⟨-, hrai, -⟩ := collectResumeWrites_spec
    { pausedTwice with checkpoints := pausedTwice.checkpoints.erase "c0" } "thread"
    (askPause "p2" "p1")
  exact ⟨⟨_, rfl, by decide +kernel, hnd, chain, hch, hrs⟩, (hrai _).mp rfl⟩

end NeoGraph.Executor
