import NeoGraph.TaskGraph.Scheduler

/-!
# Expansions end alike

An expansion of a task graph runs in rounds: from the lists of a walk it fails
what fails with its dependencies, and settles some of the ready tasks with their
outcomes. Which of them, in what order, and which tasks are found running when a
process takes over, depends on timing.

The states that an expansion ends in do not. They are the only solution of the
equations `IsFinal` over the tasks in their order, and a round leaves the solutions
of these equations as they are (`IsFinal.of_round`).
-/

namespace NeoGraph.TaskGraph

open List Bool Nat

/-! ## Rounds -/

/-- How a task ends when it is run. -/
abbrev Outcome := { state : TaskGraphTaskState // state.isUnstarted = false }

/-- What becomes of the task at a position: it fails with its dependencies, or it is
of the part that is settled. -/
def settleAt (outcome : String → Outcome) (part : List ℕ) (tasks : List SchedulerTask) (i : ℕ)
    (task : SchedulerTask) : SchedulerTask :=
  if i ∈ (computeReady tasks).cascadeFailed then { task with state := .failed }
  else if i ∈ part then { task with state := outcome task.id }
  else task

/-- The tasks after what fails has failed and a part of the ready ones has been
settled. -/
def settle (outcome : String → Outcome) (part : List ℕ) (tasks : List SchedulerTask) :
    List SchedulerTask :=
  tasks.mapIdx (settleAt outcome part tasks)

/-- A task that is to be run may be started, and may be found started by a process
that takes over. -/
structure Restarts (task task' : SchedulerTask) : Prop where
  id : task'.id = task.id
  dependsOn : task'.dependsOn = task.dependsOn
  state : task'.state = task.state
    ∨ task.state.isUnstarted = true ∧ task'.state.isUnstarted = true

/-- **A round**: everything that fails with its dependencies fails, and a part of
what is ready is settled. -/
inductive Round (outcome : String → Outcome) (tasks tasks' : List SchedulerTask) : Prop where
  | mk (part : List ℕ) (hpart : part ⊆ (computeReady tasks).ready)
      (hsome : part ≠ [] ∨ (computeReady tasks).cascadeFailed ≠ [])
      (hrestarts : Forall₂ Restarts (settle outcome part tasks) tasks')

/-- A number of rounds. -/
inductive Rounds (outcome : String → Outcome) (tasks : List SchedulerTask) :
    ℕ → List SchedulerTask → Prop where
  | refl : Rounds outcome tasks 0 tasks
  | step {n : ℕ} {tasks' tasks'' : List SchedulerTask} (h : Rounds outcome tasks n tasks')
      (hround : Round outcome tasks' tasks'') : Rounds outcome tasks (n + 1) tasks''

variable {outcome : String → Outcome} {tasks tasks' : List SchedulerTask}
  {task task' : SchedulerTask}

/-- **What a round does to a task.** -/
structure Moves (outcome : String → Outcome) (tasks : List SchedulerTask)
    (task task' : SchedulerTask) : Prop where
  id : task'.id = task.id
  dependsOn : task'.dependsOn = task.dependsOn
  settled : task.state.isUnstarted = false → task'.state = task.state
  failed : task.state.isUnstarted = true → Blocked tasks task → task'.state = .failed
  outcome : task.state.isUnstarted = true → ¬Blocked tasks task →
    task'.state.isUnstarted = true ∨ Supplied tasks task ∧ task'.state = outcome task.id

/-- Related lists have related members. -/
theorem exists_mem_of_forall₂ {α β : Type*} {r : α → β → Prop} {l : List α} {l' : List β}
    (h : Forall₂ r l l') {a : α} (ha : a ∈ l) : ∃ b ∈ l', r a b := by
  induction h with
  | nil => cases ha
  | cons hr _ ih =>
    obtain rfl | ha := mem_cons.mp ha
    · exact ⟨_, mem_cons_self, hr⟩
    · obtain ⟨b, hb, hr⟩ := ih ha
      exact ⟨b, mem_cons_of_mem _ hb, hr⟩

/-- A task that has ended is not started again. -/
theorem Restarts.state_eq (h : Restarts task task') (hs : task.state.isUnstarted = false) :
    task'.state = task.state :=
  h.state.resolve_right fun hand => false_ne_true (hs.symm.trans hand.1)

/-- **A position in a round.** -/
theorem moves_of_restarts (h : Canonical tasks) {part : List ℕ}
    (hp : part ⊆ (computeReady tasks).ready) {i : ℕ} (hi : tasks[i]? = some task)
    (hrst : Restarts (settleAt outcome part tasks i task) task') :
    Moves outcome tasks task task'
      ∧ (i ∈ part ∨ i ∈ (computeReady tasks).cascadeFailed →
        task.state.isUnstarted = true ∧ task'.state.isUnstarted = false) := by
  obtain ⟨hcas, hr⟩ := mem_computeReady_iff h i
  unfold settleAt at hrst
  by_cases hfl : i ∈ (computeReady tasks).cascadeFailed
  · -- the task fails with its dependencies
    obtain ⟨_, hg, hu, hb⟩ := hcas.mp hfl
    cases hi.symm.trans hg
    rw [if_pos hfl] at hrst
    have hst := hrst.state_eq rfl
    refine ⟨⟨hrst.id, hrst.dependsOn, ?_, fun _ _ => hst, ?_⟩, fun _ => ⟨hu, ?_⟩⟩
    · exact fun hs => absurd (hs.symm.trans hu) false_ne_true
    · exact fun _ hclr => absurd hb hclr
    · rw [hst]
      rfl
  rw [if_neg hfl] at hrst
  by_cases hsettles : i ∈ part
  · -- the task is settled
    obtain ⟨_, hg, hu, hsup⟩ := hr.mp (hp hsettles)
    cases hi.symm.trans hg
    rw [if_pos hsettles] at hrst
    have hst := hrst.state_eq (outcome task.id).property
    refine ⟨⟨hrst.id, hrst.dependsOn, ?_, ?_, ?_⟩, fun _ => ⟨hu, ?_⟩⟩
    · exact fun hs => absurd (hs.symm.trans hu) false_ne_true
    · exact fun _ hb => absurd hb (h.not_blocked_of_supplied hsup)
    · exact fun _ _ => .inr ⟨hsup, hst⟩
    · rw [hst]
      exact (outcome task.id).property
  · rw [if_neg hsettles] at hrst
    refine ⟨⟨hrst.id, hrst.dependsOn, hrst.state_eq, ?_, ?_⟩, fun hor => ?_⟩
    · exact fun hu hb =>
        absurd (hcas.mpr ⟨task, hi, hu, hb⟩) hfl
    · intro hu _
      left
      obtain hsm | ⟨-, hu'⟩ := hrst.state
      · rwa [hsm]
      · exact hu'
    · exact absurd hor (not_or.mpr ⟨hsettles, hfl⟩)

/-- A round moves every task, and settles one that was to be run. -/
theorem Round.moves (h : Canonical tasks) (hrnd : Round outcome tasks tasks') :
    Forall₂ (Moves outcome tasks) tasks tasks'
      ∧ ∃ e ∈ tasks.zip tasks', e.1.state.isUnstarted = true ∧ e.2.state.isUnstarted = false := by
  obtain ⟨part, hp, hs, hrst⟩ := hrnd
  have hl : tasks.length = tasks'.length := by
    have := hrst.length_eq
    unfold settle at this
    rwa [length_mapIdx] at this
  have hat : ∀ i (hi : i < tasks.length) (hi' : i < tasks'.length),
      Restarts (settleAt outcome part tasks i tasks[i]) tasks'[i] := by
    intro i hi hi'
    have := hrst.get (by unfold settle; rwa [length_mapIdx]) hi'
    unfold settle at this
    simpa using this
  constructor
  · refine forall₂_of_length_eq_of_get hl fun i hi hi' => ?_
    exact (moves_of_restarts h hp (getElem?_eq_getElem hi) (hat i hi hi')).1
  -- a position of the lists
  have hpos : ∃ i, i ∈ part ∨ i ∈ (computeReady tasks).cascadeFailed := by
    obtain hs | hs := hs
    · obtain ⟨i, hi⟩ := exists_mem_of_ne_nil _ hs
      exact ⟨i, .inl hi⟩
    · obtain ⟨i, hi⟩ := exists_mem_of_ne_nil _ hs
      exact ⟨i, .inr hi⟩
  obtain ⟨i, hor⟩ := hpos
  have hg : ∃ task, tasks[i]? = some task := by
    obtain ⟨hcas, hr⟩ := mem_computeReady_iff h i
    obtain hm | hm := hor
    · obtain ⟨task, hg, -⟩ := hr.mp (hp hm)
      exact ⟨task, hg⟩
    · obtain ⟨task, hg, -⟩ := hcas.mp hm
      exact ⟨task, hg⟩
  obtain ⟨task, hg⟩ := hg
  obtain ⟨hi, rfl⟩ := List.getElem?_eq_some_iff.mp hg
  have hi' : i < tasks'.length := hl ▸ hi
  refine ⟨(tasks[i], tasks'[i]), ?_, (moves_of_restarts h hp hg (hat i hi hi')).2 hor⟩
  refine mem_iff_getElem.mpr ⟨i, by rw [length_zip]; omega, ?_⟩
  exact getElem_zip

/-! ## The order is kept -/

/-- What no round changes. -/
def shape (task : SchedulerTask) : String × Option (List String) := (task.id, task.dependsOn)

theorem Round.map_shape (h : Canonical tasks) (hrnd : Round outcome tasks tasks') :
    tasks'.map shape = tasks.map shape := by
  have hm := (hrnd.moves h).1
  have heq : Forall₂ (fun a b => shape a = shape b) tasks tasks' :=
    hm.imp fun a b hmv => by
      unfold shape
      rw [hmv.id, hmv.dependsOn]
  have hmp := forall₂_map_left_iff.mpr (forall₂_map_right_iff.mpr heq)
  rw [forall₂_eq_eq_eq] at hmp
  exact hmp.symm

/-- A round changes no task but for its state. -/
theorem Canonical.of_map_shape (h : Canonical tasks) (hsh : tasks'.map shape = tasks.map shape) :
    Canonical tasks' where
  nodup := by
    have hids : tasks'.map SchedulerTask.id = tasks.map SchedulerTask.id := by
      have := congrArg (map Prod.fst) hsh
      rwa [map_map, map_map] at this
    rw [hids]
    exact h.nodup
  declared before task after htks dependency hd := by
    rw [htks, map_append, map_cons, eq_comm, map_eq_append_iff] at hsh
    obtain ⟨before', rest, rfl, hb, hr⟩ := hsh
    obtain ⟨task', after', rfl, htk, -⟩ := map_eq_cons_iff.mp hr
    obtain ⟨-, hdependsOn⟩ := Prod.mk.inj htk
    have hdeps : task'.dependencies = task.dependencies := by
      unfold SchedulerTask.dependencies
      rw [hdependsOn]
    obtain ⟨u, hu, hid⟩ := h.declared before' task' after' rfl dependency (by rwa [hdeps])
    have hm : shape u ∈ before.map shape := by
      rw [← hb]
      exact mem_map_of_mem hu
    obtain ⟨u', hu', heq⟩ := mem_map.mp hm
    exact ⟨u', hu', (congrArg Prod.fst heq).trans hid⟩

variable {n : ℕ}

theorem Rounds.map_shape (h : Canonical tasks) (hr : Rounds outcome tasks n tasks') :
    tasks'.map shape = tasks.map shape := by
  induction hr with
  | refl => rfl
  | step _ hrnd ih => exact (hrnd.map_shape (h.of_map_shape ih)).trans ih

/-! ## An expansion ends -/

/-- Where some member of a list loses a property and none gains it, fewer have it. -/
theorem countP_lt_of_forall₂ {α : Type*} {p : α → Bool} {l l' : List α}
    (h : Forall₂ (fun a b => p b = true → p a = true) l l')
    (hlt : ∃ e ∈ l.zip l', p e.1 = true ∧ p e.2 = false) : l'.countP p < l.countP p := by
  have hle : ∀ {l l' : List α}, Forall₂ (fun a b => p b = true → p a = true) l l' →
      l'.countP p ≤ l.countP p := by
    intro l l' h
    induction h with
    | nil => exact le_refl 0
    | cons hab _ ih =>
      rw [countP_cons, countP_cons]
      split
      · rename_i hb
        rw [if_pos (hab hb)]
        exact Nat.add_le_add_right ih 1
      · exact le_trans ih (le_add_right _ _)
  induction h with
  | nil =>
    obtain ⟨e, he, -⟩ := hlt
    cases he
  | @cons a b l l' hab hr ih =>
    obtain ⟨e, he, hl, hk⟩ := hlt
    rw [zip_cons_cons] at he
    rw [countP_cons, countP_cons]
    obtain rfl | he := mem_cons.mp he
    · rw [hl, hk]
      exact lt_succ_of_le (hle hr)
    have hlt := ih ⟨e, he, hl, hk⟩
    split
    · rename_i hb
      rw [if_pos (hab hb)]
      exact Nat.add_lt_add_right hlt 1
    · exact lt_of_lt_of_le hlt (le_add_right _ _)

/-- How many tasks are to be run. -/
def unstarted (tasks : List SchedulerTask) : ℕ := tasks.countP fun task => task.state.isUnstarted

theorem Round.unstarted_lt (h : Canonical tasks) (hrnd : Round outcome tasks tasks') :
    unstarted tasks' < unstarted tasks := by
  obtain ⟨hm, hs⟩ := hrnd.moves h
  refine countP_lt_of_forall₂ (hm.imp fun a b hmv hb => ?_) hs
  cases ha : a.state.isUnstarted with
  | true => rfl
  | false =>
    rw [hmv.settled ha, ha] at hb
    cases hb

theorem Rounds.le_unstarted (h : Canonical tasks)
    (hr : Rounds outcome tasks n tasks') : n + unstarted tasks' ≤ unstarted tasks := by
  induction hr with
  | refl => rw [zero_add]
  | step hb hrnd ih =>
    have := hrnd.unstarted_lt (h.of_map_shape (hb.map_shape h))
    omega

/-- **While a task is to be run, there is another round.** -/
theorem exists_round (h : Canonical tasks) (outcome : String → Outcome)
    (hu : ∃ task ∈ tasks, task.state.isUnstarted = true) :
    ∃ tasks', Round outcome tasks tasks' := by
  refine ⟨settle outcome (computeReady tasks).ready tasks, (computeReady tasks).ready,
    fun _ hm => hm, computeReady_ne_nil h hu, ?_⟩
  exact forall₂_same.mpr fun task _ => ⟨rfl, rfl, .inl rfl⟩

/-! ## The states it ends in -/

/-- **The states that an expansion ends in**: a task that has ended stays as it is,
one of whose dependencies one ends unsuccessfully fails, and any other ends with its
outcome. -/
structure IsFinal (outcome : String → Outcome) (tasks : List SchedulerTask)
    (final : String → TaskGraphTaskState) : Prop where
  settled : ∀ task ∈ tasks, task.state.isUnstarted = false → final task.id = task.state
  failed : ∀ task ∈ tasks, task.state.isUnstarted = true →
    (∃ dependency ∈ task.dependencies, (final dependency).isUnsuccessful = true) →
    final task.id = .failed
  outcome : ∀ task ∈ tasks, task.state.isUnstarted = true →
    (∀ dependency ∈ task.dependencies, (final dependency).isUnsuccessful = false) →
    final task.id = outcome task.id

variable {final final' : String → TaskGraphTaskState}

/-- The equations have one solution: the tasks are solved in their order. -/
theorem IsFinal.unique (h : Canonical tasks) (hfin : IsFinal outcome tasks final)
    (hfin' : IsFinal outcome tasks final') : ∀ task ∈ tasks, final task.id = final' task.id := by
  have hp : ∀ before after : List SchedulerTask, tasks = before ++ after →
      ∀ task ∈ before, final task.id = final' task.id := by
    intro before
    induction before using reverseRecOn with
    | nil => exact fun _ _ task hm => absurd hm not_mem_nil
    | append_singleton before task ih =>
      intro after htks task' hm
      rw [append_assoc] at htks
      have hb := ih _ htks
      obtain hm | hm := mem_append.mp hm
      · exact hb task' hm
      rw [mem_singleton.mp hm]
      have htk : task ∈ tasks := by
        rw [htks]
        exact mem_append_right _ mem_cons_self
      have hsm : ∀ dependency ∈ task.dependencies, final dependency = final' dependency := by
        intro dependency hd
        obtain ⟨u, hu, rfl⟩ := h.declared before task after htks dependency hd
        exact hb u hu
      cases hun : task.state.isUnstarted with
      | false => rw [hfin.settled task htk hun, hfin'.settled task htk hun]
      | true =>
        by_cases hfl : ∃ dependency ∈ task.dependencies,
            (final dependency).isUnsuccessful = true
        · obtain ⟨dependency, hd, hst⟩ := hfl
          rw [hfin.failed task htk hun ⟨dependency, hd, hst⟩,
            hfin'.failed task htk hun
              ⟨dependency, hd, hsm dependency hd ▸ hst⟩]
        · have hclr : ∀ dependency ∈ task.dependencies,
              (final dependency).isUnsuccessful = false := fun dependency hd =>
            eq_false_iff.mpr fun hst => hfl ⟨dependency, hd, hst⟩
          rw [hfin.outcome task htk hun hclr, hfin'.outcome task htk hun
            fun dependency hd => hsm dependency hd ▸ hclr _ hd]
  exact hp tasks [] (append_nil tasks).symm

/-- **A round leaves the solutions as they are.** -/
theorem IsFinal.of_round (h : Canonical tasks) (hrnd : Round outcome tasks tasks')
    (hfin : IsFinal outcome tasks' final) : IsFinal outcome tasks final := by
  have hmo := (hrnd.moves h).1
  have hdeps : ∀ {task task' : SchedulerTask}, Moves outcome tasks task task' →
      task'.dependencies = task.dependencies := by
    intro task task' hmv
    unfold SchedulerTask.dependencies
    rw [hmv.dependsOn]
  have hk : ∀ task ∈ tasks, task.state.isUnstarted = false → final task.id = task.state := by
    intro task hm hset
    obtain ⟨task', hm', hmv⟩ := exists_mem_of_forall₂ hmo hm
    have hst := hmv.settled hset
    rw [← hmv.id, hfin.settled task' hm' (by rw [hst, hset]), hst]
  have hfl : ∀ task ∈ tasks, task.state.isUnstarted = true → Blocked tasks task →
      final task.id = .failed := by
    intro task hm hun hb
    obtain ⟨task', hm', hmv⟩ := exists_mem_of_forall₂ hmo hm
    have hst := hmv.failed hun hb
    rw [← hmv.id, hfin.settled task' hm' (by rw [hst]; rfl), hst]
  refine ⟨hk, ?_, ?_⟩
  · intro task hm hun hs
    by_cases hb : Blocked tasks task
    · exact hfl task hm hun hb
    obtain ⟨task', hm', hmv⟩ := exists_mem_of_forall₂ hmo hm
    obtain hun' | ⟨hsup, -⟩ := hmv.outcome hun hb
    · rw [← hmv.id]
      exact hfin.failed task' hm' hun' (by rwa [hdeps hmv])
    -- the dependencies of a task that is settled are completed
    obtain ⟨dependency, hd, hst⟩ := hs
    obtain ⟨u, hu, rfl, hc⟩ := hsup dependency hd
    rw [hk u hu (by rw [hc]; rfl), hc] at hst
    cases hst
  · intro task hm hun hclr
    by_cases hb : Blocked tasks task
    · -- a dependency that did not succeed, or that fails now
      have hunsuccessful : ∃ dependency ∈ task.dependencies,
          (final dependency).isUnsuccessful = true := by
        cases hb with
        | direct hu hd hst =>
          refine ⟨_, hd, ?_⟩
          rwa [hk _ hu (TaskGraphTaskState.isUnstarted_eq_false_of_isUnsuccessful hst)]
        | through hu hd hst hbh =>
          refine ⟨_, hd, ?_⟩
          rw [hfl _ hu hst hbh]
          rfl
      obtain ⟨dependency, hd, hst⟩ := hunsuccessful
      exact absurd ((hclr dependency hd).symm.trans hst) false_ne_true
    obtain ⟨task', hm', hmv⟩ := exists_mem_of_forall₂ hmo hm
    obtain hun' | ⟨-, hst⟩ := hmv.outcome hun hb
    · rw [← hmv.id]
      exact hfin.outcome task' hm' hun' (by rwa [hdeps hmv])
    · rw [← hmv.id, hfin.settled task' hm' (by rw [hst]; exact (outcome _).property),
        hst, hmv.id]

/-- What a round leads to is led to from before it. -/
theorem IsFinal.of_rounds (h : Canonical tasks) (hr : Rounds outcome tasks n tasks')
    (hfin : IsFinal outcome tasks' final) : IsFinal outcome tasks final := by
  induction hr with
  | refl => exact hfin
  | step hb hrnd ih =>
    exact ih (hfin.of_round (h.of_map_shape (hb.map_shape h)) hrnd)

/-- Tasks that have all ended are their own final states. -/
theorem isFinal_taskStates (outcome : String → Outcome) (h : Canonical tasks)
    (hs : ∀ task ∈ tasks, task.state.isUnstarted = false) :
    IsFinal outcome tasks fun id => ((taskStates tasks).find? id).getD .pending where
  settled task hm _ := by
    have hf := (Walk.holds_start h).kept task hm fun hand => not_mem_nil hand.1
    show ((taskStates tasks).find? task.id).getD .pending = _
    rw [hf]
    rfl
  failed task hm hu := absurd (hs task hm ▸ hu) Bool.false_ne_true
  outcome task hm hu := absurd (hs task hm ▸ hu) Bool.false_ne_true

/-- Tasks of one shape and with the same states are the same. -/
theorem eq_of_shape (final : String → TaskGraphTaskState) {l l' : List SchedulerTask}
    (hsh : l.map shape = l'.map shape) (hl : ∀ task ∈ l, task.state = final task.id)
    (hl' : ∀ task ∈ l', task.state = final task.id) : l = l' := by
  induction l generalizing l' with
  | nil => exact (map_eq_nil_iff.mp hsh.symm).symm
  | cons task l ih =>
    obtain ⟨task', rest, rfl, htk, hr⟩ := map_eq_cons_iff.mp hsh.symm
    rw [ih hr.symm (fun u hu => hl u (mem_cons_of_mem _ hu))
      fun u hu => hl' u (mem_cons_of_mem _ hu)]
    obtain ⟨hid, hdependsOn⟩ := Prod.mk.inj htk
    have hst : task.state = task'.state := by
      rw [hl task mem_cons_self, hl' task' mem_cons_self, hid]
    obtain ⟨id, dependsOn, state⟩ := task
    obtain ⟨id', dependsOn', state'⟩ := task'
    cases hid
    cases hdependsOn
    cases hst
    rfl

/-- **Two expansions end alike.** -/
theorem eq_of_rounds (h : Canonical tasks) {m : ℕ} {tasks₁ tasks₂ : List SchedulerTask}
    (h₁ : Rounds outcome tasks n tasks₁) (h₂ : Rounds outcome tasks m tasks₂)
    (hs₁ : ∀ task ∈ tasks₁, task.state.isUnstarted = false)
    (hs₂ : ∀ task ∈ tasks₂, task.state.isUnstarted = false) : tasks₁ = tasks₂ := by
  have hsh₁ := h₁.map_shape h
  have hsh₂ := h₂.map_shape h
  have hfin₁ := isFinal_taskStates outcome (h.of_map_shape hsh₁) hs₁
  have hfin₂ := isFinal_taskStates outcome (h.of_map_shape hsh₂) hs₂
  have hun := (hfin₁.of_rounds h h₁).unique h (hfin₂.of_rounds h h₂)
  refine eq_of_shape (fun id => ((taskStates tasks₁).find? id).getD .pending)
    (hsh₁.trans hsh₂.symm)
    (fun task hm => (hfin₁.settled task hm (hs₁ task hm)).symm) fun task hm => ?_
  have hid : ∃ u ∈ tasks, u.id = task.id := by
    have hm' : shape task ∈ tasks.map shape := hsh₂ ▸ mem_map_of_mem hm
    obtain ⟨u, hu, heq⟩ := mem_map.mp hm'
    exact ⟨u, hu, congrArg Prod.fst heq⟩
  obtain ⟨u, hu, hid⟩ := hid
  rw [← hid, hun u hu, hid]
  exact (hfin₂.settled task hm (hs₂ task hm)).symm

/-- **Scheduling makes progress and does not depend on timing.** -/
theorem computeReady_spec (h : Canonical tasks) :
    (∀ i,
      (i ∈ (computeReady tasks).cascadeFailed ↔ ∃ task, tasks[i]? = some task
        ∧ task.state.isUnstarted = true ∧ Blocked tasks task)
      ∧ (i ∈ (computeReady tasks).ready ↔ ∃ task, tasks[i]? = some task
        ∧ task.state.isUnstarted = true ∧ Supplied tasks task)
      ∧ ¬(i ∈ (computeReady tasks).cascadeFailed ∧ i ∈ (computeReady tasks).ready))
    ∧ ((∃ task ∈ tasks, task.state.isUnstarted = true) →
      (computeReady tasks).ready ≠ [] ∨ (computeReady tasks).cascadeFailed ≠ [])
    ∧ ∀ outcome : String → Outcome,
      (∀ n tasks', Rounds outcome tasks n tasks' → n ≤ unstarted tasks
        ∧ ((∀ task ∈ tasks', task.state.isUnstarted = false)
          ∨ ∃ tasks'', Round outcome tasks' tasks''))
      ∧ ∀ n tasks₁ m tasks₂, Rounds outcome tasks n tasks₁ → Rounds outcome tasks m tasks₂ →
        (∀ task ∈ tasks₁, task.state.isUnstarted = false) →
        (∀ task ∈ tasks₂, task.state.isUnstarted = false) → tasks₁ = tasks₂ := by
  refine ⟨fun i => ?_, computeReady_ne_nil h, fun outcome => ⟨fun n tasks' hrn => ?_, ?_⟩⟩
  · obtain ⟨hcas, hr⟩ := mem_computeReady_iff h i
    refine ⟨hcas, hr, ?_⟩
    rintro ⟨hfl, hm⟩
    obtain ⟨task, hg, -, hb⟩ := hcas.mp hfl
    obtain ⟨task', hg', -, hsup⟩ := hr.mp hm
    cases hg.symm.trans hg'
    exact h.not_blocked_of_supplied hsup hb
  · refine ⟨le_of_add_right_le (hrn.le_unstarted h), ?_⟩
    by_cases hu : ∃ task ∈ tasks', task.state.isUnstarted = true
    · exact .inr (exists_round (h.of_map_shape (hrn.map_shape h)) outcome hu)
    · exact .inl fun task hm => eq_false_iff.mpr fun hst =>
        hu ⟨task, hm, hst⟩
  · exact fun n tasks₁ m tasks₂ h₁ h₂ hs₁ hs₂ =>
      eq_of_rounds h h₁ h₂ hs₁ hs₂

/-- A task that waits for another one. -/
def twoTasks : List SchedulerTask := [{ id := "a" }, { id := "b", dependsOn := some ["a"] }]

theorem canonical_twoTasks : Canonical twoTasks where
  nodup := by
    decide
  declared before task after htks dependency hd := by
    unfold twoTasks at htks
    match before, htks with
    | [], htks =>
      cases htks
      cases hd
    | [_], htks =>
      cases htks
      rw [mem_singleton.mp hd]
      exact ⟨_, mem_cons_self, rfl⟩
    | _ :: _ :: [], htks => cases htks
    | _ :: _ :: _ :: _, htks => cases htks

theorem computeReady_spec_twoTasks :
    (computeReady twoTasks).ready ≠ [] ∨ (computeReady twoTasks).cascadeFailed ≠ [] :=
  (computeReady_spec canonical_twoTasks).2.1 ⟨_, mem_cons_self, rfl⟩

end NeoGraph.TaskGraph
