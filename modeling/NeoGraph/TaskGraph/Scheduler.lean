import Mathlib
import NeoGraph.Lib.SortedMap

/-!
# The scheduler of a task graph

What may be dispatched next in a published task graph, and what fails because a
dependency did, is a function of the states of the tasks (`computeReady`). The
function walks the tasks in their canonical order, in which a task stands behind
its dependencies, and writes down in a copy of the states which tasks have just
failed, so that a failure passes through tasks that never start within one walk.

The lists of a walk are told by the states before it alone: a task fails with its
dependencies when it reaches a task that did not succeed through unstarted ones
(`Blocked`), and it is ready when all of them are completed.
-/

namespace NeoGraph.TaskGraph

open List

/-- How far a task is. -/
inductive TaskGraphTaskState where
  | pending
  | active
  | completed
  | failed
  | cancelled
deriving DecidableEq

namespace TaskGraphTaskState

/-- Whether a task is still to be run. A task that was running when the process
ended is run again. -/
def isUnstarted (state : TaskGraphTaskState) : Bool := state = .pending || state = .active

/-- Whether a task ended without its result. -/
def isUnsuccessful (state : TaskGraphTaskState) : Bool := state = .failed || state = .cancelled

variable {state : TaskGraphTaskState}

theorem isUnstarted_eq_false_of_isUnsuccessful
    (h : state.isUnsuccessful = true) : state.isUnstarted = false := by
  cases state with
  | failed | cancelled => rfl
  | _ => cases h

/-- A task that has ended without failing is completed. -/
theorem eq_completed (hst : state.isUnstarted = false)
    (hs : state.isUnsuccessful = false) : state = .completed := by
  cases state with
  | completed => rfl
  | pending | active => cases hst
  | failed | cancelled => cases hs

end TaskGraphTaskState

/-- A task as the scheduler sees it. -/
structure SchedulerTask where
  id : String
  dependsOn : Option (List String) := none
  state : TaskGraphTaskState := .pending
deriving DecidableEq

def SchedulerTask.dependencies (task : SchedulerTask) : List String := task.dependsOn.getD []

/-- The tasks to start now, and those that fail with a dependency. -/
structure ReadySet where
  ready : List ℕ := []
  cascadeFailed : List ℕ := []

/-! ## The walk -/

/-- The states of the tasks, by their ids. -/
abbrev TaskStates := SortedMap String TaskGraphTaskState

/-- The states of the tasks; the first of an id counts. -/
def taskStates (tasks : List SchedulerTask) : TaskStates :=
  (tasks.map fun task => (task.id, task.state)).foldl (fun state e => state.tryEmplace e.1 e.2) ∅

/-- Whether a dependency has failed, and whether one before it is waited for. -/
def scanDependencies (state : TaskStates) (waiting : Bool) : List String → Bool × Bool
  | [] => (false, waiting)
  | dependency :: dependencies =>
    let dependencyState := (state.find? dependency).getD .pending
    if dependencyState.isUnsuccessful then (true, waiting)
    else scanDependencies state (waiting || dependencyState ≠ .completed) dependencies

/-- A walk: the states it keeps and the lists so far. -/
structure Walk where
  state : TaskStates
  result : ReadySet := {}

/-- A task is visited when all it depends on was. -/
def Walk.visit (walk : Walk) (entry : SchedulerTask × ℕ) : Walk :=
  let (task, index) := entry
  if !((walk.state.find? task.id).getD .pending).isUnstarted then walk
  else
    let (dependencyFailed, dependencyWaiting) :=
      scanDependencies walk.state false task.dependencies
    if dependencyFailed then
      { state := walk.state.insert task.id .failed
        result := { walk.result with cascadeFailed := walk.result.cascadeFailed ++ [index] } }
    else if dependencyWaiting then walk
    else { walk with result := { walk.result with ready := walk.result.ready ++ [index] } }

/-- The tasks that may be dispatched now, and those that fail with a dependency. -/
def computeReady (tasks : List SchedulerTask) : ReadySet :=
  (tasks.zipIdx.foldl Walk.visit { state := taskStates tasks }).result

/-! ## What the lists mean -/

/-- **The canonical order**: ids are unique, and the dependencies of a task are
declared before it. -/
structure Canonical (tasks : List SchedulerTask) : Prop where
  nodup : (tasks.map SchedulerTask.id).Nodup
  declared : ∀ before task after, tasks = before ++ task :: after →
    ∀ dependency ∈ task.dependencies, ∃ task' ∈ before, task'.id = dependency

/-- **A task behind a failure**: one of its dependencies did not succeed, or is
unstarted and behind a failure itself. -/
inductive Blocked (tasks : List SchedulerTask) : SchedulerTask → Prop where
  | direct {task task' : SchedulerTask} (hmem : task' ∈ tasks)
      (hdependency : task'.id ∈ task.dependencies)
      (hstate : task'.state.isUnsuccessful = true) : Blocked tasks task
  | through {task task' : SchedulerTask} (hmem : task' ∈ tasks)
      (hdependency : task'.id ∈ task.dependencies) (hstate : task'.state.isUnstarted = true)
      (hblocked : Blocked tasks task') : Blocked tasks task

/-- All dependencies of a task are completed. -/
def Supplied (tasks : List SchedulerTask) (task : SchedulerTask) : Prop :=
  ∀ dependency ∈ task.dependencies, ∃ task' ∈ tasks, task'.id = dependency
    ∧ task'.state = .completed

variable {tasks before after : List SchedulerTask} {task task' : SchedulerTask}

theorem Canonical.eq_of_id (h : Canonical tasks) (htk : task ∈ tasks) (htk' : task' ∈ tasks)
    (hid : task.id = task'.id) : task = task' :=
  inj_on_of_nodup_map h.nodup htk htk' hid

/-- A task whose dependencies are completed is behind no failure. -/
theorem Canonical.not_blocked_of_supplied (h : Canonical tasks) (hsup : Supplied tasks task) :
    ¬Blocked tasks task := by
  intro hb
  cases hb with
  | direct hm hd hst | through hm hd hst =>
    obtain ⟨task'', hm'', hid, hc⟩ := hsup _ hd
    rw [← h.eq_of_id hm'' hm hid, hc] at hst
    cases hst

/-! ## A scan -/

/-- What a scan finds. -/
theorem scanDependencies_spec (state : TaskStates) (waiting : Bool) (dependencies : List String) :
    ((scanDependencies state waiting dependencies).1 = true ↔
        ∃ dependency ∈ dependencies, ((state.find? dependency).getD .pending).isUnsuccessful = true)
      ∧ ((scanDependencies state waiting dependencies).1 = false →
        ((scanDependencies state waiting dependencies).2 = false ↔
          waiting = false ∧ ∀ dependency ∈ dependencies,
            (state.find? dependency).getD .pending = .completed)) := by
  induction dependencies generalizing waiting with
  | nil => simp [scanDependencies]
  | cons dependency dependencies ih =>
    unfold scanDependencies
    dsimp only
    split
    · rename_i hf
      simp [hf]
    rename_i hs
    obtain ⟨hf, hw⟩ := ih (waiting
      || decide ((state.find? dependency).getD .pending ≠ .completed))
    refine ⟨?_, fun h => ?_⟩
    · rw [hf]
      simp [hs]
    · rw [hw h]
      simp [and_assoc]

/-! ## The walk so far -/

/-- **What a walk has found** behind the tasks that it has visited. -/
structure Walk.Holds (tasks before : List SchedulerTask) (walk : Walk) : Prop where
  failed : ∀ task ∈ before, task.state.isUnstarted = true → Blocked tasks task →
    walk.state.find? task.id = some .failed
  kept : ∀ task ∈ tasks,
    ¬(task ∈ before ∧ task.state.isUnstarted = true ∧ Blocked tasks task) →
    walk.state.find? task.id = some task.state
  cascade : ∀ i, i ∈ walk.result.cascadeFailed ↔
    ∃ task, before[i]? = some task ∧ task.state.isUnstarted = true ∧ Blocked tasks task
  ready : ∀ i, i ∈ walk.result.ready ↔
    ∃ task, before[i]? = some task ∧ task.state.isUnstarted = true ∧ Supplied tasks task

variable {walk : Walk}

theorem Walk.holds_start (h : Canonical tasks) :
    Walk.Holds tasks [] { state := taskStates tasks } where
  failed task hm := absurd hm not_mem_nil
  kept task hm _ := by
    show (taskStates tasks).find? task.id = _
    unfold taskStates
    rw [SortedMap.find?_foldl_tryEmplace]
    refine (lookupEntry_eq_some_iff_of_unique ?_ task.state).mpr
      (mem_map.mpr ⟨task, hm, rfl⟩)
    intro v v' hv hv'
    obtain ⟨u, hu, heq⟩ := mem_map.mp hv
    obtain ⟨u', hu', heq'⟩ := mem_map.mp hv'
    obtain ⟨hid, rfl⟩ := Prod.mk.inj heq
    obtain ⟨hid', rfl⟩ := Prod.mk.inj heq'
    rw [h.eq_of_id hu hu' (hid.trans hid'.symm)]
  cascade i := by simp
  ready i := by simp

/-- A position in a list and the one behind it. -/
theorem exists_getElem?_concat {α : Type*} {p : α → Prop} (l : List α) (a : α) (i : ℕ) :
    (∃ b, (l ++ [a])[i]? = some b ∧ p b) ↔ (∃ b, l[i]? = some b ∧ p b) ∨ i = l.length ∧ p a := by
  obtain hlt | heq | hgt := Nat.lt_trichotomy i l.length
  · rw [getElem?_append_left hlt]
    simp [Nat.ne_of_lt hlt]
  · subst heq
    simp
  · rw [getElem?_eq_none (by rw [length_append, length_singleton]; omega),
      getElem?_eq_none (Nat.le_of_lt hgt)]
    simp [Nat.ne_of_gt hgt]

namespace Walk.Holds

/-- What is found of a task that was visited. -/
theorem unsuccessful_iff (h : walk.Holds tasks before) (hs : before ⊆ tasks)
    (hm : task ∈ before) : ((walk.state.find? task.id).getD .pending).isUnsuccessful = true ↔
      task.state.isUnsuccessful = true
        ∨ task.state.isUnstarted = true ∧ Blocked tasks task := by
  by_cases hcas : task.state.isUnstarted = true ∧ Blocked tasks task
  · rw [h.failed task hm hcas.1 hcas.2]
    exact ⟨fun _ => .inr hcas, fun _ => rfl⟩
  · rw [h.kept task (hs hm) fun hand => hcas hand.2, or_iff_left hcas]
    rfl

theorem completed_iff (h : walk.Holds tasks before) (hs : before ⊆ tasks) (hm : task ∈ before) :
    (walk.state.find? task.id).getD .pending = .completed ↔ task.state = .completed := by
  by_cases hcas : task.state.isUnstarted = true ∧ Blocked tasks task
  · rw [h.failed task hm hcas.1 hcas.2]
    refine ⟨nofun, fun hc => ?_⟩
    rw [hc] at hcas
    cases hcas.1
  · rw [h.kept task (hs hm) fun hand => hcas hand.2]
    rfl

/-- **The scan of a task** whose dependencies were visited. -/
theorem scan (h : walk.Holds tasks before) (hcan : Canonical tasks)
    (htks : tasks = before ++ task :: after) :
    ((scanDependencies walk.state false task.dependencies).1 = true ↔ Blocked tasks task)
      ∧ ((scanDependencies walk.state false task.dependencies).1 = false →
        ((scanDependencies walk.state false task.dependencies).2 = false
          ↔ Supplied tasks task)) := by
  have hs : before ⊆ tasks := by
    rw [htks]
    exact subset_append_left _ _
  have hdc := hcan.declared before task after htks
  -- a dependency is a task that was visited
  have hv : ∀ {task' : SchedulerTask}, task' ∈ tasks → task'.id ∈ task.dependencies →
      task' ∈ before := by
    intro task' hm hd
    obtain ⟨task'', hm'', hid⟩ := hdc _ hd
    rwa [← hcan.eq_of_id (hs hm'') hm hid]
  obtain ⟨hf, hw⟩ := scanDependencies_spec walk.state false task.dependencies
  constructor
  · rw [hf]
    constructor
    · rintro ⟨dependency, hd, hst⟩
      obtain ⟨task', hm, rfl⟩ := hdc dependency hd
      rw [h.unsuccessful_iff hs hm] at hst
      obtain hdirect | ⟨hu, hb⟩ := hst
      · exact .direct (hs hm) hd hdirect
      · exact .through (hs hm) hd hu hb
    · intro hb
      cases hb with
      | direct hm hd hst =>
        exact ⟨_, hd, (h.unsuccessful_iff hs (hv hm hd)).mpr
          (.inl hst)⟩
      | through hm hd hst hb =>
        exact ⟨_, hd, (h.unsuccessful_iff hs (hv hm hd)).mpr
          (.inr ⟨hst, hb⟩)⟩
  · intro hsc
    rw [hw hsc, and_iff_right rfl]
    constructor
    · intro ha dependency hd
      obtain ⟨task', hm, rfl⟩ := hdc dependency hd
      exact ⟨task', hs hm, rfl, (h.completed_iff hs hm).mp (ha _ hd)⟩
    · intro hsup dependency hd
      obtain ⟨task', hm, rfl, hc⟩ := hsup dependency hd
      exact (h.completed_iff hs (hv hm hd)).mpr hc

/-- What a visit has to leave. -/
theorem concat (h : walk.Holds tasks before) (hcan : Canonical tasks)
    (hm : task ∈ tasks) (hn : task ∉ before) (hs : before ⊆ tasks) {walk' : Walk}
    (hot : ∀ id ≠ task.id, walk'.state.find? id = walk.state.find? id)
    (hf : task.state.isUnstarted = true → Blocked tasks task →
      walk'.state.find? task.id = some .failed)
    (hk : ¬(task.state.isUnstarted = true ∧ Blocked tasks task) →
      walk'.state.find? task.id = some task.state)
    (hcas : ∀ i, i ∈ walk'.result.cascadeFailed ↔ i ∈ walk.result.cascadeFailed
      ∨ i = before.length ∧ task.state.isUnstarted = true ∧ Blocked tasks task)
    (hr : ∀ i, i ∈ walk'.result.ready ↔ i ∈ walk.result.ready
      ∨ i = before.length ∧ task.state.isUnstarted = true ∧ Supplied tasks task) :
    walk'.Holds tasks (before ++ [task]) where
  failed task' hm' hu hblk := by
    obtain hb | hsl := mem_append.mp hm'
    · rw [hot task'.id fun hid => hn (hcan.eq_of_id (hs hb) hm hid ▸ hb)]
      exact h.failed task' hb hu hblk
    · rw [mem_singleton.mp hsl] at hu hblk ⊢
      exact hf hu hblk
  kept task' hm' hnot := by
    by_cases hid : task'.id = task.id
    · rw [hcan.eq_of_id hm' hm hid] at hnot ⊢
      exact hk fun hand => hnot ⟨mem_append_right _ (mem_singleton_self task), hand⟩
    · rw [hot _ hid]
      exact h.kept task' hm' fun hand => hnot ⟨mem_append_left _ hand.1, hand.2⟩
  cascade i := by
    rw [hcas, exists_getElem?_concat, ← h.cascade]
  ready i := by
    rw [hr, exists_getElem?_concat, ← h.ready]

/-- **A visit.** -/
theorem visit (h : walk.Holds tasks before) (hcan : Canonical tasks)
    (htks : tasks = before ++ task :: after) :
    (walk.visit (task, before.length)).Holds tasks (before ++ [task]) := by
  have hm : task ∈ tasks := by
    rw [htks]
    exact mem_append_right _ mem_cons_self
  have hs : before ⊆ tasks := by
    rw [htks]
    exact subset_append_left _ _
  have hn : task ∉ before := by
    have hnd := List.Nodup.of_map _ hcan.nodup
    rw [htks, nodup_append] at hnd
    exact fun hb => hnd.2.2 task hb task mem_cons_self rfl
  have hc := h.kept task hm fun hand => hn hand.1
  obtain ⟨hblk, hsup⟩ := h.scan hcan htks
  unfold Walk.visit
  dsimp only
  rw [hc, Option.getD_some]
  cases hu : task.state.isUnstarted with
  | false =>
    rw [if_pos (show (!false) = true from rfl)]
    exact h.concat hcan hm hn hs (fun _ _ => rfl) (by rw [hu]; nofun)
      (fun _ => hc) (by simp [hu]) (by simp [hu])
  | true =>
    rw [if_neg (by decide)]
    generalize scanDependencies walk.state false task.dependencies = found at hblk hsup
    obtain ⟨dependencyFailed, dependencyWaiting⟩ := found
    cases dependencyFailed with
    | true =>
      have hbh := hblk.mp rfl
      have hnotSupplied : ¬Supplied tasks task := fun ha =>
        hcan.not_blocked_of_supplied ha hbh
      refine h.concat hcan hm hn hs ?_ ?_ ?_ ?_ ?_
      · exact fun id hid => SortedMap.find?_insert_of_ne _ hid _
      · intro _ _
        exact (SortedMap.find?_insert _ _ _ _).trans (if_pos rfl)
      · exact fun hnot => absurd ⟨hu, hbh⟩ hnot
      · simp [hu, hbh]
      · simp [hnotSupplied]
    | false =>
      have hclr : ¬Blocked tasks task := fun hbh => Bool.false_ne_true (hblk.mpr hbh)
      cases dependencyWaiting with
      | true =>
        have hnotSupplied : ¬Supplied tasks task := fun ha =>
          Bool.false_ne_true ((hsup rfl).mpr ha).symm
        exact h.concat hcan hm hn hs (fun _ _ => rfl)
          (fun _ hbh => absurd hbh hclr) (fun _ => hc) (by simp [hclr])
          (by simp [hnotSupplied])
      | false =>
        have ha := (hsup rfl).mp rfl
        exact h.concat hcan hm hn hs (fun _ _ => rfl)
          (fun _ hbh => absurd hbh hclr) (fun _ => hc) (by simp [hclr])
          (by simp [hu, ha])

end Walk.Holds

/-- The walk has visited a task after all it depends on. -/
theorem Walk.holds_foldl (h : Canonical tasks) (htks : tasks = before ++ after) :
    (before.zipIdx.foldl Walk.visit { state := taskStates tasks }).Holds tasks before := by
  induction before using reverseRecOn generalizing after with
  | nil => exact Walk.holds_start h
  | append_singleton before task ih =>
    rw [append_assoc] at htks
    rw [zipIdx_append, foldl_append]
    simpa using (ih htks).visit h htks

/-- **The lists of a walk.** A task that is still to be run fails with its
dependencies exactly when it is behind a failure, and is ready exactly when all its
dependencies are completed. -/
theorem mem_computeReady_iff (h : Canonical tasks) (i : ℕ) :
    (i ∈ (computeReady tasks).cascadeFailed ↔ ∃ task, tasks[i]? = some task
        ∧ task.state.isUnstarted = true ∧ Blocked tasks task)
      ∧ (i ∈ (computeReady tasks).ready ↔ ∃ task, tasks[i]? = some task
        ∧ task.state.isUnstarted = true ∧ Supplied tasks task) := by
  have hw := Walk.holds_foldl h (append_nil tasks).symm
  exact ⟨hw.cascade i, hw.ready i⟩

/-- **Progress**: while a task is to be run, one of the lists is not empty. -/
theorem computeReady_ne_nil (h : Canonical tasks)
    (hu : ∃ task ∈ tasks, task.state.isUnstarted = true) :
    (computeReady tasks).ready ≠ [] ∨ (computeReady tasks).cascadeFailed ≠ [] := by
  obtain ⟨task, hf⟩ := Option.isSome_iff_exists.mp (find?_isSome.mpr hu)
  obtain ⟨htk, before, after, rfl, hb⟩ := find?_eq_some_iff_append.mp hf
  have hg : (before ++ task :: after)[before.length]? = some task := by
    rw [getElem?_append_right (Nat.le_refl _), Nat.sub_self]
    rfl
  have hdc := h.declared before task after rfl
  -- the dependencies of the first such task have ended
  by_cases hfl : ∃ task' ∈ before, task'.id ∈ task.dependencies
      ∧ task'.state.isUnsuccessful = true
  · right
    obtain ⟨task', hm, hd, hst⟩ := hfl
    exact ne_nil_of_mem (((mem_computeReady_iff h before.length).1).mpr
      ⟨task, hg, htk, .direct (mem_append_left _ hm) hd hst⟩)
  · left
    refine ne_nil_of_mem (((mem_computeReady_iff h before.length).2).mpr
      ⟨task, hg, htk, fun dependency hd => ?_⟩)
    obtain ⟨task', hm, rfl⟩ := hdc dependency hd
    have hstd := hb task' hm
    rw [Bool.not_eq_true'] at hstd
    refine ⟨task', mem_append_left _ hm, rfl,
      TaskGraphTaskState.eq_completed hstd (Bool.eq_false_iff.mpr fun hst => hfl ?_)⟩
    exact ⟨task', hm, hd, hst⟩

end NeoGraph.TaskGraph
