import NeoGraph.Research.LedgerSteps

/-!
# Leases are exclusive, and boards stay within their budgets

A row of the task table only moves forward: its generation never falls, a
generation belongs to one lease, and a published row stays what it is. That
is enough for the exclusion of workers (`EvidenceLedger.Later`), whatever the
clocks say.

The budgets of boards do depend on the clocks. At a reading a board holds its
live leases and its published tasks; both counts only fall as the reading
grows, and only a grant, which checks them first, makes them larger. When the
readings never decrease, every board therefore stays within the budget it was
bound to (`EvidenceLedger.Solvent`). A request without a cost limit is stored
as the largest number of the storage format and is checked against the
largest number of 64 bits: to a board stored so, that is the limit.
-/

namespace NeoGraph.Research

open SortedMap List ResearchTaskState Nat

variable {β : Type}

namespace EvidenceLedger

variable {s s' : EvidenceLedger β} {now : ℕ}

/-! ## Rows move forward -/

/-- A row as some later row of its task. -/
structure RowLater (task task' : ResearchTask) : Prop where
  spec : task'.spec = task.spec
  generation : task.generation ≤ task'.generation
  lease : task'.generation = task.generation → task'.state = .leased →
    task.state = .leased ∧ task'.leaseId = task.leaseId ∧ task'.leasedBy = task.leasedBy
      ∧ task'.boardId = task.boardId
  published : task.state = .published → task' = task

theorem RowLater.refl (task : ResearchTask) : RowLater task task where
  spec := rfl
  generation := le_rfl
  lease _ h := ⟨h, rfl, rfl, rfl⟩
  published _ := rfl

theorem RowLater.trans {a b c : ResearchTask} (hab : RowLater a b) (hbc : RowLater b c) :
    RowLater a c where
  spec := hbc.spec.trans hab.spec
  generation := hab.generation.trans hbc.generation
  lease hgen hst := by
    have hb : c.generation = b.generation :=
      le_antisymm (hgen.le.trans hab.generation) hbc.generation
    obtain ⟨hst', hid, hwk, hbo⟩ := hbc.lease hb hst
    obtain ⟨hst'', hid', hwk', hbo'⟩ := hab.lease (hb.symm.trans hgen) hst'
    exact ⟨hst'', hid.trans hid', hwk.trans hwk', hbo.trans hbo'⟩
  published h := by
    have hb := hab.published h
    rw [hb] at hbc
    exact hbc.published h

variable {task : ResearchTask}

theorem state_of_isActive (h : isActive task now = true) :
    task.state = .leased := (of_decide_eq_true h).1

theorem lt_of_isActive (h : isActive task now = true) :
    now < task.leaseExpiresAtUnixMs := (of_decide_eq_true h).2

theorem not_isActive_of_isFree (h : IsFree task now) : isActive task now = false := by
  refine decide_eq_false fun ha => ?_
  obtain hr | ⟨-, hle⟩ := h
  · rw [hr] at ha
    cases ha.1
  · exact absurd hle (not_le.mpr ha.2)

theorem not_published_of_isFree (h : IsFree task now) : task.state ≠ .published := by
  obtain h | ⟨h, -⟩ := h <;> rw [h] <;> decide

theorem RowLater.leased (request : ResearchLeaseRequest) (deadline : ℕ) (h : IsFree task now) :
    RowLater task (leasedTask task request deadline) where
  spec := rfl
  generation := le_succ _
  lease hgen := absurd hgen (succ_ne_self _)
  published hst := absurd hst (not_published_of_isFree h)

theorem RowLater.renewed (deadline : ℕ) (h : isActive task now = true) :
    RowLater task { task with leaseExpiresAtUnixMs := deadline } where
  spec := rfl
  generation := le_rfl
  lease _ hst := ⟨hst, rfl, rfl, rfl⟩
  published hst := by
    rw [state_of_isActive h] at hst
    cases hst

theorem RowLater.cleared (h : task.state = .leased) : RowLater task (clearedTask task) where
  spec := rfl
  generation := le_rfl
  lease _ hst := nomatch hst
  published hst := by
    rw [h] at hst
    cases hst

theorem RowLater.publishedTask (artifactId : String) (h : isActive task now = true) :
    RowLater task (publishedTask task artifactId) where
  spec := rfl
  generation := le_rfl
  lease _ hst := nomatch hst
  published hst := by
    rw [state_of_isActive h] at hst
    cases hst

/-- A file as it is at some later moment. -/
structure Later (s s' : EvidenceLedger β) : Prop where
  row : ∀ {id task}, s.tasks.find? id = some task →
    ∃ task', s'.tasks.find? id = some task' ∧ RowLater task task'
  artifact : ∀ {id artifact}, s.artifacts.find? id = some artifact →
    s'.artifacts.find? id = some artifact
  board : ∀ {key board}, s.boards.find? key = some board → s'.boards.find? key = some board

theorem Later.refl (s : EvidenceLedger β) : Later s s where
  row h := ⟨_, h, RowLater.refl _⟩
  artifact h := h
  board h := h

theorem Later.trans {a b c : EvidenceLedger β} (hab : Later a b) (hbc : Later b c) : Later a c where
  row h := by
    obtain ⟨task', hr', hlt'⟩ := hab.row h
    obtain ⟨task'', hr'', hlt''⟩ := hbc.row hr'
    exact ⟨task'', hr'', hlt'.trans hlt''⟩
  artifact h := hbc.artifact (hab.artifact h)
  board h := hbc.board (hab.board h)

variable {id taskId : String} {task' : ResearchTask} {t : ResearchTask}

/-- Rewriting a row by a later one. -/
theorem row_insert {tasks : SortedMap String ResearchTask} (hr : tasks.find? taskId = some task)
    (hlt : RowLater task task') (ht : tasks.find? id = some t) :
    ∃ t', (tasks.insert taskId task').find? id = some t' ∧ RowLater t t' := by
  rw [find?_insert]
  split_ifs with hid
  · rw [hid, hr] at ht
    cases ht
    exact ⟨task', rfl, hlt⟩
  · exact ⟨t, ht, RowLater.refl t⟩

/-- Rewriting the row of a task keeps rows under their ids. -/
theorem keyed_insert (h : s.Keyed) (hs : task'.spec = task.spec)
    (ht : (s.tasks.insert task.spec.taskId task').find? id = some t) : t.spec.taskId = id := by
  obtain ⟨hid, rfl⟩ | ht := find?_insert_cases ht
  · rw [hs]
    exact hid.symm
  · exact h id t ht

/-- **A step moves the file forward**, and keeps its rows under their ids. -/
theorem LedgerStep.later (hkd : s.Keyed) (h : LedgerStep now s s') : Later s s' ∧ s'.Keyed := by
  cases h with
  | bound key board hnm hnew =>
    refine ⟨⟨fun h => ⟨_, h, RowLater.refl _⟩, fun h => h, fun {key' board'} h => ?_⟩, hkd⟩
    have hne : key' ≠ key := fun heq => nomatch (heq ▸ hnew).symm.trans h
    exact (find?_insert_of_ne _ hne _).trans h
  | granted request deadline hr hnow how hfr hbo hrm =>
    refine ⟨⟨fun h => ?_, fun h => h, fun h => h⟩, fun id t ht => ?_⟩
    · exact row_insert (hkd _ _ hr ▸ hr) (RowLater.leased request deadline hfr) h
    · exact keyed_insert hkd (RowLater.leased request deadline hfr).spec ht
  | renewed taskId deadline hr hlv =>
    refine ⟨⟨fun h => ?_, fun h => h, fun h => h⟩, fun id t ht => ?_⟩
    · exact row_insert (hkd _ _ hr ▸ hr) (RowLater.renewed deadline hlv) h
    · exact keyed_insert hkd (RowLater.renewed deadline hlv).spec ht
  | expired taskId hr hst hle =>
    refine ⟨⟨fun h => ?_, fun h => h, fun h => h⟩, fun id t ht => ?_⟩
    · exact row_insert (hkd _ _ hr ▸ hr) (RowLater.cleared hst) h
    · exact keyed_insert hkd (RowLater.cleared hst).spec ht
  | published taskId artifact hr hlv hnew hn htk =>
    refine ⟨⟨fun h => ?_, fun {id a} h => ?_, fun h => h⟩, fun id t ht => ?_⟩
    · exact row_insert (hkd _ _ hr ▸ hr) (RowLater.publishedTask _ hlv) h
    · have hne : id ≠ artifact.artifactId := fun heq => nomatch (heq ▸ hnew).symm.trans h
      exact (find?_insert_of_ne _ hne _).trans h
    · exact keyed_insert hkd (RowLater.publishedTask artifact.artifactId hlv).spec ht

/-! ## Publications -/

/-- What the artifact table says about the tasks: each artifact belongs to a
published task, each published task has its artifact, and no two artifacts
belong to one task. -/
structure Archived (s : EvidenceLedger β) : Prop where
  key : ∀ {id artifact}, s.artifacts.find? id = some artifact → artifact.artifactId = id
  owner : ∀ {id artifact}, s.artifacts.find? id = some artifact →
    ∃ task, s.tasks.find? artifact.taskId = some task ∧ task.state = .published
  unique : ∀ {id id' artifact artifact'}, s.artifacts.find? id = some artifact →
    s.artifacts.find? id' = some artifact' → artifact.taskId = artifact'.taskId →
    artifact = artifact'

variable {artifact : EvidenceArtifact β}

/-- The artifact of a task is the one artifact that names it. -/
theorem Archived.loadTaskArtifact_eq (h : s.Archived)
    (hst : s.artifacts.find? id = some artifact) :
    s.loadTaskArtifact artifact.taskId = some artifact := by
  have hm : artifact ∈ s.artifacts.entries.map Prod.snd :=
    mem_map.mpr ⟨(id, artifact), (s.artifacts.mem_entries_iff id artifact).mpr hst, rfl⟩
  unfold loadTaskArtifact
  cases hf : (s.artifacts.entries.map Prod.snd).find? fun a => a.taskId = artifact.taskId with
  | none =>
    exact absurd (decide_eq_true rfl) (find?_eq_none.mp hf artifact hm)
  | some other =>
    obtain ⟨e, he, rfl⟩ := mem_map.mp (mem_of_find?_eq_some hf)
    have hot := (s.artifacts.mem_entries_iff e.1 e.2).mp he
    have hsm : decide (e.2.taskId = artifact.taskId) = true :=
      find?_some (p := fun a : EvidenceArtifact β => decide (a.taskId = artifact.taskId)) hf
    exact congrArg some (h.unique hot hst (of_decide_eq_true hsm))

theorem not_taskId_of_loadTaskArtifact_eq_none (h : s.loadTaskArtifact taskId = none)
    (hst : s.artifacts.find? id = some artifact) : artifact.taskId ≠ taskId := by
  have hm : artifact ∈ s.artifacts.entries.map Prod.snd :=
    mem_map.mpr ⟨(id, artifact), (s.artifacts.mem_entries_iff id artifact).mpr hst, rfl⟩
  exact fun heq => find?_eq_none.mp h artifact hm (decide_eq_true heq)

/-- A step that leaves the artifacts alone keeps the archive: published rows
stay. -/
theorem Archived.of_later (h : s.Archived) (hlt : Later s s')
    (ha : s'.artifacts = s.artifacts) : s'.Archived where
  key hstr := h.key (ha ▸ hstr)
  owner hstr := by
    obtain ⟨task, hr, hst⟩ := h.owner (ha ▸ hstr)
    obtain ⟨task', hr', hlt'⟩ := hlt.row hr
    exact ⟨task', hr', (hlt'.published hst) ▸ hst⟩
  unique hstr hstr' := h.unique (ha ▸ hstr) (ha ▸ hstr')

/-- No step loses evidence. -/
theorem LedgerStep.archived (hkd : s.Keyed) (h : s.Archived) (hs : LedgerStep now s s') :
    s'.Archived := by
  have hlt := (hs.later hkd).1
  cases hs with
  | bound | granted | renewed | expired => exact h.of_later hlt rfl
  | published taskId artifact hr hlv hnew hn htk =>
    rename_i task
    have hcs : ∀ {id a}, (s.artifacts.insert artifact.artifactId artifact).find? id = some a →
        id = artifact.artifactId ∧ a = artifact ∨ s.artifacts.find? id = some a := by
      intro id a ha
      rw [find?_insert] at ha
      split at ha
      · cases ha
        exact .inl ⟨‹_›, rfl⟩
      · exact .inr ha
    refine ⟨fun {id a} ha => ?_, fun {id a} ha => ?_, fun {id id' a a'} ha ha' htks => ?_⟩
    · obtain ⟨rfl, rfl⟩ | ha := hcs ha
      · rfl
      · exact h.key ha
    · obtain ⟨rfl, rfl⟩ | ha := hcs ha
      · refine ⟨publishedTask task a.artifactId, ?_, rfl⟩
        rw [htk]
        exact find?_insert_self ..
      · obtain ⟨task', hr', hst⟩ := h.owner ha
        obtain ⟨task'', hr'', hlt'⟩ := hlt.row hr'
        exact ⟨task'', hr'', (hlt'.published hst) ▸ hst⟩
    · obtain ⟨-, hsm⟩ | hold := hcs ha
      · obtain ⟨-, hsm'⟩ | hold' := hcs ha'
        · rw [hsm, hsm']
        · rw [hsm] at htks
          exact absurd htks.symm (not_taskId_of_loadTaskArtifact_eq_none hn hold')
      · obtain ⟨-, hsm'⟩ | hold' := hcs ha'
        · rw [hsm'] at htks
          exact absurd htks (not_taskId_of_loadTaskArtifact_eq_none hn hold)
        · exact h.unique hold hold' htks

/-! ## Budgets -/

/-- A row is charged to a board. -/
def IsCharged (ownerScope boardId : String) (task : ResearchTask) : Prop :=
  task.spec.ownerScope = ownerScope ∧ task.boardId = boardId

instance (ownerScope boardId : String) (task : ResearchTask) :
    Decidable (IsCharged ownerScope boardId task) :=
  inferInstanceAs (Decidable (_ ∧ _))

/-- The lease a row counts for at a board. -/
def leaseCount (ownerScope boardId : String) (now : ℕ) (task : ResearchTask) : ℕ :=
  if IsCharged ownerScope boardId task ∧ isActive task now = true then 1 else 0

/-- The cost a row counts for at a board. -/
def heldCost (ownerScope boardId : String) (now : ℕ) (task : ResearchTask) : ℕ :=
  if IsCharged ownerScope boardId task ∧ (task.state = .published ∨ isActive task now = true) then
    task.spec.costMicrounits
  else 0

/-- The number of live leases of a board. -/
def liveLeases (s : EvidenceLedger β) (ownerScope boardId : String) (now : ℕ) : ℕ :=
  s.tasks.sumBy fun _ => leaseCount ownerScope boardId now

/-- What the live leased and the published tasks of a board cost together. -/
def boardCost (s : EvidenceLedger β) (ownerScope boardId : String) (now : ℕ) : ℕ :=
  s.tasks.sumBy fun _ => heldCost ownerScope boardId now

/-- The cost limit that a recorded budget stands for: the largest number of
the storage format stands for no limit of its own. -/
def costLimit (board : BoardBudget) : ℕ :=
  if board.maxCostMicrounits = sqliteIntegerMax then uint64Max else board.maxCostMicrounits

variable {value at₁ at₂ : ℕ} {board : BoardBudget}

theorem le_costLimit
    (h : boardCostLimit value = .ok board.maxCostMicrounits) : value ≤ costLimit board := by
  unfold boardCostLimit at h
  unfold costLimit
  split_ifs at h with hv
  · have hm : sqliteIntegerMax = board.maxCostMicrounits := Except.ok.inj h
    rw [if_pos hm.symm, hv]
  obtain ⟨hle, h⟩ := bind_unit_eq_ok.mp h
  have hm : value = board.maxCostMicrounits := Except.ok.inj h
  have hle' : value ≤ sqliteIntegerMax := of_decide_eq_true (require_eq_ok.mp hle)
  split
  · exact hle'.trans (by decide)
  · exact hm.le

/-- The limit of a request is at most the largest number of 64 bits. -/
theorem le_uint64Max_of_boardCostLimit {maxCost : ℕ}
    (h : boardCostLimit value = .ok maxCost) : value ≤ uint64Max := by
  unfold boardCostLimit at h
  split at h
  · exact le_of_eq ‹_›
  · obtain ⟨hle, -⟩ := bind_unit_eq_ok.mp h
    exact (of_decide_eq_true (require_eq_ok.mp hle)).trans (by decide)

/-- **The query of a board's usage** counts its live leases and the cost it
holds, up to the largest numbers. -/
theorem boardUsage_eq (s : EvidenceLedger β) (ownerScope boardId : String) (now : ℕ) :
    s.boardUsage ownerScope boardId now
      = { active := min (s.liveLeases ownerScope boardId now) uint32Max
          spent := min (s.boardCost ownerScope boardId now) uint64Max } := by
  have key : ∀ (rows : List (String × ResearchTask)) (usage : BoardUsage),
      usage.active ≤ uint32Max → usage.spent ≤ uint64Max →
      (rows.map Prod.snd).foldl (addUsage ownerScope boardId now) usage
        = { active := min (usage.active
              + (rows.map fun e => leaseCount ownerScope boardId now e.2).sum) uint32Max
            spent := min (usage.spent
              + (rows.map fun e => heldCost ownerScope boardId now e.2).sum) uint64Max } := by
    intro rows
    induction rows with
    | nil =>
      intro usage ha hsp
      rw [map_nil, foldl_nil, map_nil, map_nil, sum_nil, Nat.add_zero,
        Nat.add_zero, min_eq_left ha, min_eq_left hsp]
    | cons e rows ih =>
      intro usage ha hsp
      have hr : addUsage ownerScope boardId now usage e.2
          = { active := min (usage.active + leaseCount ownerScope boardId now e.2) uint32Max
              spent := min (usage.spent + heldCost ownerScope boardId now e.2) uint64Max } := by
        unfold addUsage leaseCount heldCost
        by_cases hh : IsCharged ownerScope boardId e.2
            ∧ (e.2.state = .published ∨ isActive e.2 now = true)
        · have hkp : ¬(e.2.spec.ownerScope ≠ ownerScope ∨ e.2.boardId ≠ boardId
              ∨ (e.2.state ≠ .published ∧ (!isActive e.2 now) = true)) := by
            obtain ⟨⟨how, hbo⟩, hst⟩ := hh
            rw [Bool.not_eq_true', ← Bool.not_eq_true]
            tauto
          rw [if_neg hkp, if_pos hh, BoardUsage.mk.injEq]
          constructor
          · by_cases hlv : isActive e.2 now = true
            · have hc : (if IsCharged ownerScope boardId e.2 ∧ isActive e.2 now = true then 1
                  else 0) = 1 := if_pos ⟨hh.1, hlv⟩
              rw [hc, min_def]
              simp only [hlv, true_and]
              split_ifs <;> omega
            · have hc : (if IsCharged ownerScope boardId e.2 ∧ isActive e.2 now = true then 1
                  else 0) = 0 := if_neg fun h => hlv h.2
              rw [hc, if_neg fun h => hlv h.1, Nat.add_zero, min_eq_left ha]
          · rw [min_def]
            split_ifs <;> omega
        · have hsk : e.2.spec.ownerScope ≠ ownerScope ∨ e.2.boardId ≠ boardId
              ∨ (e.2.state ≠ .published ∧ (!isActive e.2 now) = true) := by
            unfold IsCharged at hh
            rw [Bool.not_eq_true', ← Bool.not_eq_true]
            tauto
          have hc : (if IsCharged ownerScope boardId e.2 ∧ isActive e.2 now = true then 1
              else 0) = 0 := if_neg fun h => hh ⟨h.1, .inr h.2⟩
          rw [if_pos hsk, if_neg hh, hc, Nat.add_zero, Nat.add_zero,
            min_eq_left ha, min_eq_left hsp]
      rw [map_cons, foldl_cons, hr, ih _ (min_le_right _ _) (min_le_right _ _)]
      rw [map_cons, map_cons, sum_cons, sum_cons, BoardUsage.mk.injEq]
      simp only [min_def]
      constructor <;> split_ifs <;> omega
  unfold boardUsage
  rw [key _ {} (Nat.zero_le _) (Nat.zero_le _)]
  simp only [Nat.zero_add]
  rfl

/-- As the reading grows, a row counts for less. -/
theorem leaseCount_antitone (h : at₁ ≤ at₂) (ownerScope boardId : String) (task : ResearchTask) :
    leaseCount ownerScope boardId at₂ task ≤ leaseCount ownerScope boardId at₁ task := by
  have hlv : isActive task at₂ = true → isActive task at₁ = true := fun ha =>
    decide_eq_true ⟨state_of_isActive ha, h.trans_lt (lt_of_isActive ha)⟩
  unfold leaseCount
  split
  · rename_i hc
    rw [if_pos ⟨hc.1, hlv hc.2⟩]
  · exact zero_le _

/-- Less is held as time goes by. -/
theorem heldCost_antitone (h : at₁ ≤ at₂) (ownerScope boardId : String) (task : ResearchTask) :
    heldCost ownerScope boardId at₂ task ≤ heldCost ownerScope boardId at₁ task := by
  have hlv : isActive task at₂ = true → isActive task at₁ = true := fun ha =>
    decide_eq_true ⟨state_of_isActive ha, h.trans_lt (lt_of_isActive ha)⟩
  unfold heldCost
  split
  · rename_i hh
    rw [if_pos ⟨hh.1, hh.2.imp_right hlv⟩]
  · exact zero_le _

/-- **Every board is within its budget** at a reading, and rows are held only
for boards that were bound. -/
structure Solvent (s : EvidenceLedger β) (now : ℕ) : Prop where
  within : ∀ {ownerScope boardId board},
    s.boards.find? (toLex (ownerScope, boardId)) = some board →
    s.liveLeases ownerScope boardId now ≤ board.maxActiveLeases
      ∧ s.boardCost ownerScope boardId now ≤ costLimit board
  named : ∀ {ownerScope boardId board},
    s.boards.find? (toLex (ownerScope, boardId)) = some board → boardId ≠ ""
  bound : ∀ {ownerScope boardId}, boardId ≠ "" →
    s.boards.find? (toLex (ownerScope, boardId)) = none →
    ∀ {id task}, s.tasks.find? id = some task → IsCharged ownerScope boardId task →
      task.state ≠ .leased ∧ task.state ≠ .published

theorem Solvent.mono (h : s.Solvent now) (hle : now ≤ at₂) : s.Solvent at₂ where
  within hbo :=
    ⟨(sumBy_le_sumBy _ fun _ task => leaseCount_antitone hle _ _ task).trans
        (h.within hbo).1,
      (sumBy_le_sumBy _ fun _ task => heldCost_antitone hle _ _ task).trans
        (h.within hbo).2⟩
  named := h.named
  bound := h.bound

/-- **A row rewritten to one that counts for no more** keeps every board
within its budget. -/
theorem Solvent.insert (h : s.Solvent now) (hr : s.tasks.find? taskId = some task)
    (hs : s'.tasks = s.tasks.insert taskId task') (hboards : s'.boards = s.boards)
    (hc : ∀ ownerScope boardId, leaseCount ownerScope boardId now task'
      ≤ leaseCount ownerScope boardId now task)
    (hcs : ∀ ownerScope boardId, heldCost ownerScope boardId now task'
      ≤ heldCost ownerScope boardId now task)
    (hh : ∀ ownerScope boardId, IsCharged ownerScope boardId task' → task'.state = .leased
      ∨ task'.state = .published → IsCharged ownerScope boardId task ∧ task.state = .leased) :
    s'.Solvent now where
  within hbo := by
    rw [hboards] at hbo
    unfold liveLeases boardCost
    rw [hs]
    exact ⟨(sumBy_insert_le hr (hc _ _)).trans (h.within hbo).1,
      (sumBy_insert_le hr (hcs _ _)).trans (h.within hbo).2⟩
  named hbo := h.named (hboards ▸ hbo)
  bound := by
    intro ownerScope boardId hnm hn id t ht hchg
    rw [hboards] at hn
    rw [hs, find?_insert] at ht
    split at ht
    · cases ht
      have hcontra : ¬(task'.state = .leased ∨ task'.state = .published) := fun hst => by
        obtain ⟨hchg', hleased⟩ := hh _ _ hchg hst
        exact (h.bound hnm hn hr hchg').1 hleased
      exact ⟨fun hl => hcontra (.inl hl), fun hp => hcontra (.inr hp)⟩
    · exact h.bound hnm hn ht hchg

variable {request : ResearchLeaseRequest}

/-- A board with room can take what a request costs. -/
theorem room_of_boardIsFull
    (hnm : request.boardId ≠ "") (hc : request.costMicrounits = task.spec.costMicrounits)
    (hm : board.maxActiveLeases = request.boardMaxActiveLeases.toNat)
    (hl : boardCostLimit request.boardMaxCostMicrounits = .ok board.maxCostMicrounits)
    (hrm : s.boardIsFull request = false) :
    s.liveLeases request.ownerScope request.boardId request.nowUnixMs + 1 ≤ board.maxActiveLeases
      ∧ s.boardCost request.ownerScope request.boardId request.nowUnixMs
          + task.spec.costMicrounits ≤ costLimit board := by
  unfold boardIsFull at hrm
  rw [if_neg hnm, boardUsage_eq] at hrm
  have hft := of_decide_eq_false hrm
  push Not at hft
  obtain ⟨ha, hlarge, hsp⟩ := hft
  have hp := task.spec.cost_pos
  have hle := le_uint64Max_of_boardCostLimit hl
  have hcostLimit := le_costLimit hl
  have hw : request.boardMaxActiveLeases.toNat ≤ uint32Max :=
    le_sub_one_of_lt request.boardMaxActiveLeases.toNat_lt
  constructor
  · rw [min_lt_iff] at ha
    omega
  · rw [min_le_iff] at hsp
    omega

/-- What a free row counts for. -/
theorem counts_of_isFree (h : IsFree task now) (ownerScope boardId : String) :
    leaseCount ownerScope boardId now task = 0 ∧ heldCost ownerScope boardId now task = 0 := by
  have hlv : isActive task now ≠ true := by
    rw [not_isActive_of_isFree h]
    exact Bool.false_ne_true
  exact ⟨if_neg fun hc => hlv hc.2,
    if_neg fun hh => hh.2.elim (not_published_of_isFree h) hlv⟩

/-- **A grant keeps every board within its budget**: its own board had room,
and the others do not count it. -/
theorem Solvent.granted (h : s.Solvent now) (deadline : ℕ)
    (hr : s.tasks.find? task.spec.taskId = some task) (hnow : request.nowUnixMs = now)
    (how : task.spec.ownerScope = request.ownerScope) (hfr : IsFree task now)
    (hbo : s.BoardAdmits request task) (hrm : s.boardIsFull request = false) :
    { s with tasks := s.tasks.insert task.spec.taskId (leasedTask task request deadline) }.Solvent
      now where
  within := by
    intro ownerScope boardId board hf
    obtain ⟨hcnt, hh⟩ := counts_of_isFree hfr ownerScope boardId
    have hleases := s.tasks.sumBy_insert task.spec.taskId (leasedTask task request deadline)
      fun _ => leaseCount ownerScope boardId now
    have hcosts := s.tasks.sumBy_insert task.spec.taskId (leasedTask task request deadline)
      fun _ => heldCost ownerScope boardId now
    rw [hr, Option.elim_some, hcnt] at hleases
    rw [hr, Option.elim_some, hh] at hcosts
    obtain ⟨hlv, hcs⟩ := h.within hf
    unfold liveLeases at hlv ⊢
    unfold boardCost at hcs ⊢
    dsimp only
    by_cases hchg : IsCharged ownerScope boardId (leasedTask task request deadline)
    · obtain ⟨hsc, hid⟩ := hchg
      obtain rfl : request.ownerScope = ownerScope := how.symm.trans hsc
      obtain rfl : request.boardId = boardId := hid
      obtain ⟨hsm, board', hf', hm, hl⟩ := hbo (h.named hf)
      obtain rfl : board = board' := Option.some.inj (hf.symm.trans hf')
      obtain ⟨hrm₁, hrm₂⟩ :=
        room_of_boardIsFull (h.named hf) hsm hm hl hrm
      rw [hnow] at hrm₁ hrm₂
      unfold liveLeases at hrm₁
      unfold boardCost at hrm₂
      have ho : leaseCount request.ownerScope request.boardId now
          (leasedTask task request deadline) ≤ 1 := by
        unfold leaseCount
        split <;> omega
      have ha : heldCost request.ownerScope request.boardId now
          (leasedTask task request deadline) ≤ task.spec.costMicrounits := by
        unfold heldCost
        split
        · exact le_rfl
        · exact zero_le _
      omega
    · have ho : leaseCount ownerScope boardId now (leasedTask task request deadline) = 0 :=
        if_neg fun hc => hchg hc.1
      have ha : heldCost ownerScope boardId now (leasedTask task request deadline) = 0 :=
        if_neg fun hc => hchg hc.1
      omega
  named := h.named
  bound := by
    intro ownerScope boardId hnm hn id t ht hchg
    obtain ⟨-, rfl⟩ | ht := find?_insert_cases ht
    · obtain ⟨hsc, hid⟩ := hchg
      obtain rfl : request.ownerScope = ownerScope := how.symm.trans hsc
      obtain rfl : request.boardId = boardId := hid
      obtain ⟨-, board, hf, -⟩ := hbo hnm
      exact nomatch hn.symm.trans hf
    · exact h.bound hnm hn ht hchg

/-- A board is bound: nothing was held for it before. -/
theorem Solvent.bindBoard (h : s.Solvent now) {key : String ×ₗ String} (board : BoardBudget)
    (hnm : (ofLex key).2 ≠ "") (hnew : s.boards.find? key = none) :
    { s with boards := s.boards.insert key board }.Solvent now where
  within := by
    intro ownerScope boardId board' hf
    rw [find?_insert] at hf
    split_ifs at hf with hk
    · subst hk
      have hn : ∀ id task, s.tasks.find? id = some task →
          leaseCount ownerScope boardId now task = 0
            ∧ heldCost ownerScope boardId now task = 0 := by
        intro id task hr
        have hbd : IsCharged ownerScope boardId task →
            task.state ≠ .leased ∧ task.state ≠ .published :=
          h.bound hnm hnew hr
        exact ⟨if_neg fun hc => (hbd hc.1).1 (state_of_isActive hc.2),
          if_neg fun hc => hc.2.elim (hbd hc.1).2
            fun hlv => (hbd hc.1).1 (state_of_isActive hlv)⟩
      have hlv : s.liveLeases ownerScope boardId now = 0 :=
        sumBy_eq_zero_of fun id task hr => (hn id task hr).1
      have hcs : s.boardCost ownerScope boardId now = 0 :=
        sumBy_eq_zero_of fun id task hr => (hn id task hr).2
      exact ⟨hlv.le.trans (zero_le _), hcs.le.trans (zero_le _)⟩
    · exact h.within hf
  named := by
    intro ownerScope boardId board' hf
    rw [find?_insert] at hf
    split_ifs at hf with hk
    · rw [← hk] at hnm
      exact hnm
    · exact h.named hf
  bound := by
    intro ownerScope boardId hnm' hn id task hr hchg
    rw [find?_insert] at hn
    split at hn
    · cases hn
    · exact h.bound hnm' hn hr hchg

/-- A row that is not leased counts for no lease. -/
theorem leaseCount_of_not_leased (h : task.state ≠ .leased) (ownerScope boardId : String) (now : ℕ)
    : leaseCount ownerScope boardId now task = 0 :=
  if_neg fun hc => h (state_of_isActive hc.2)

/-- **A step keeps every board within its budget** at its own reading. -/
theorem LedgerStep.solvent (hkd : s.Keyed) (h : s.Solvent now) (hs : LedgerStep now s s') :
    s'.Solvent now := by
  cases hs with
  | bound key board hnm hnew => exact h.bindBoard board hnm hnew
  | granted request deadline hr hnow how hfr hbo hrm =>
    exact h.granted deadline (hkd _ _ hr ▸ hr) hnow how hfr hbo hrm
  | renewed taskId deadline hr hlv =>
    rename_i task
    have hr' : s.tasks.find? task.spec.taskId = some task := hkd _ _ hr ▸ hr
    refine h.insert hr' rfl rfl (fun _ _ => ?_) (fun _ _ => ?_)
      fun _ _ hchg _ => ⟨hchg, state_of_isActive hlv⟩
    · unfold leaseCount
      split
      · rename_i hcnt
        rw [if_pos ⟨hcnt.1, hlv⟩]
      · exact zero_le _
    · unfold heldCost
      split
      · rename_i hh
        rw [if_pos ⟨hh.1, .inr hlv⟩]
      · exact zero_le _
  | expired taskId hr hst hle =>
    rename_i task
    have hr' : s.tasks.find? task.spec.taskId = some task := hkd _ _ hr ▸ hr
    refine h.insert hr' rfl rfl (fun _ _ => ?_) (fun _ _ => ?_) fun _ _ _ hh => hh.elim
        (fun hl => nomatch (show ready = .leased from hl))
        fun hp => nomatch (show ready = .published from hp)
    · rw [leaseCount_of_not_leased (show (clearedTask task).state ≠ .leased from nofun)]
      exact zero_le _
    · have hn : ∀ t : ResearchTask, ¬((clearedTask t).state = .published
          ∨ isActive (clearedTask t) now = true) := fun t hh =>
        hh.elim (fun hp => nomatch (show ready = .published from hp))
          fun hl => nomatch (show ready = .leased from state_of_isActive hl)
      exact (if_neg fun hc => hn _ hc.2 : heldCost _ _ _ _ = 0).le.trans (zero_le _)
  | published taskId artifact hr hlv hnew hn htk =>
    rename_i task
    have hr' : s.tasks.find? task.spec.taskId = some task := hkd _ _ hr ▸ hr
    refine h.insert hr' rfl rfl (fun _ _ => ?_) (fun _ _ => ?_)
      fun _ _ hchg _ => ⟨hchg, state_of_isActive hlv⟩
    · rw [leaseCount_of_not_leased
        (show (publishedTask task artifact.artifactId).state ≠ .leased from nofun)]
      exact zero_le _
    · unfold heldCost
      split
      · rename_i hh
        rw [if_pos ⟨hh.1, .inr hlv⟩]
        exact le_rfl
      · exact zero_le _

/-! ## Runs -/

/-- A file as the ledger keeps it. -/
structure WellKept (s : EvidenceLedger β) : Prop where
  keyed : s.Keyed
  archived : s.Archived

theorem WellKept.steps (h : s.WellKept) (hst : LedgerSteps now s s') :
    Later s s' ∧ s'.WellKept := by
  induction hst with
  | refl => exact ⟨Later.refl s, h⟩
  | tail _ hs ih =>
    obtain ⟨hlt, hk⟩ := ih
    obtain ⟨hlt', hkd⟩ := hs.later hk.keyed
    exact ⟨hlt.trans hlt', hkd, hs.archived hk.keyed hk.archived⟩

theorem Solvent.steps (hk : s.WellKept) (h : s.Solvent now) (hst : LedgerSteps now s s') :
    s'.Solvent now := by
  induction hst with
  | refl => exact h
  | tail hst hs ih => exact hs.solvent (hk.steps hst).2.keyed ih

variable [DecidableEq β] {checkContent : β → Except Exn Unit}

/-- **Every run moves the file forward.** -/
theorem WellKept.after (h : s.WellKept) (calls : List (LedgerCall β)) :
    Later s (s.after checkContent calls) ∧ (s.after checkContent calls).WellKept := by
  refine runOps_invariant (P := fun t => Later s t ∧ t.WellKept) (fun t call t' ht hc => ?_)
    ⟨Later.refl s, h⟩ calls
  obtain ⟨hlt, hk⟩ := ht.2.steps (step_spec ht.2.keyed hc)
  exact ⟨ht.1.trans hlt, hk⟩

/-- **A run whose readings never decrease** keeps every board within its
budget at every later reading. -/
theorem Solvent.after (hk : s.WellKept) (h : s.Solvent now) {calls : List (LedgerCall β)}
    (hsrt : (calls.map LedgerCall.now).Pairwise (· ≤ ·))
    (hst : ∀ call ∈ calls, now ≤ call.now) {reading : ℕ} (hnow : now ≤ reading)
    (hl : ∀ call ∈ calls, call.now ≤ reading) :
    (s.after checkContent calls).Solvent reading := by
  induction calls generalizing s now with
  | nil => exact h.mono hnow
  | cons call calls ih =>
    obtain ⟨hhd, hsrt⟩ := pairwise_cons.mp hsrt
    have hst' : ∀ other ∈ calls, call.now ≤ other.now := fun other hot =>
      hhd other.now (mem_map_of_mem hot)
    have hl' : ∀ other ∈ calls, other.now ≤ reading := fun other hot =>
      hl other (mem_cons_of_mem _ hot)
    have hc := h.mono (hst call mem_cons_self)
    unfold EvidenceLedger.after runOps
    cases hs : step checkContent s call with
    | ok t =>
      have hsteps := step_spec hk.keyed hs
      exact ih (hk.steps hsteps).2 (hc.steps hk hsteps) hsrt hst'
        (hl call mem_cons_self) hl'
    | error e => exact ih hk hc hsrt hst' (hl call mem_cons_self) hl'

end EvidenceLedger

end NeoGraph.Research
