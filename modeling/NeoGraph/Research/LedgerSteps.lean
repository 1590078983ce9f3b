import NeoGraph.Lib.Machine
import NeoGraph.Research.EvidenceLedger

/-!
# What a call does to the ledger

A call that returns changes the file in at most five ways: it renews, clears
or grants a lease, publishes a task, or records the budget of a board. A
`LedgerStep` is one such change, with what the call checked before it, and
every call is a sequence of steps at its own clock reading
(`EvidenceLedger.step_spec`). The facts about the ledger are proved of single
steps.
-/

namespace NeoGraph.Research

open List

variable {β : Type}

/-- A call of a worker. -/
inductive LedgerCall (β : Type) where
  | acquireLease (request : ResearchLeaseRequest)
  | renewLease (lease : ResearchTaskLease) (now : ℕ)
  | expireLeases (ownerScope : String) (now : ℕ)
  | publish (lease : ResearchTaskLease) (artifact : EvidenceArtifact β) (now : ℕ)

/-- The clock reading of a call. -/
def LedgerCall.now : LedgerCall β → ℕ
  | .acquireLease request => request.nowUnixMs
  | .renewLease _ now => now
  | .expireLeases _ now => now
  | .publish _ _ now => now

/-- Nobody holds the task at a reading. -/
def IsFree (task : ResearchTask) (now : ℕ) : Prop :=
  task.state = .ready ∨ task.state = .leased ∧ task.leaseExpiresAtUnixMs ≤ now

/-- The row of a task after a grant. -/
def leasedTask (task : ResearchTask) (request : ResearchLeaseRequest) (deadline : ℕ) :
    ResearchTask :=
  { task with
    state := .leased
    generation := task.generation + 1
    leaseId := request.leaseId
    leasedBy := request.workerId
    leaseExpiresAtUnixMs := deadline
    boardId := request.boardId }

/-- The row of a task after its publication. -/
def publishedTask (task : ResearchTask) (artifactId : String) : ResearchTask :=
  { task with
    state := .published
    leaseId := ""
    leasedBy := ""
    leaseExpiresAtUnixMs := 0
    publishedArtifactId := artifactId }

/-- The row of a task whose lease was cleared. -/
def clearedTask (task : ResearchTask) : ResearchTask :=
  { task with state := .ready, leaseId := "", leasedBy := "", leaseExpiresAtUnixMs := 0 }

namespace EvidenceLedger

/-- The board of a request is bound to the budget the request brings. -/
def BoardAdmits (s : EvidenceLedger β) (request : ResearchLeaseRequest) (task : ResearchTask) :
    Prop :=
  request.boardId ≠ "" → request.costMicrounits = task.spec.costMicrounits
    ∧ ∃ board, s.boards.find? (toLex (request.ownerScope, request.boardId)) = some board
      ∧ board.maxActiveLeases = request.boardMaxActiveLeases.toNat
      ∧ boardCostLimit request.boardMaxCostMicrounits = .ok board.maxCostMicrounits

/-- One change of the file at a clock reading. -/
inductive LedgerStep (now : ℕ) : EvidenceLedger β → EvidenceLedger β → Prop
  | bound {s : EvidenceLedger β} (key : String ×ₗ String) (board : BoardBudget)
      (hnamed : (ofLex key).2 ≠ "") (hnew : s.boards.find? key = none) :
      LedgerStep now s { s with boards := s.boards.insert key board }
  | granted {s : EvidenceLedger β} {task : ResearchTask} (request : ResearchLeaseRequest)
      (deadline : ℕ) (hrow : s.tasks.find? request.taskId = some task)
      (hnow : request.nowUnixMs = now) (howner : task.spec.ownerScope = request.ownerScope)
      (hfree : IsFree task now) (hboard : s.BoardAdmits request task)
      (hroom : s.boardIsFull request = false) :
      LedgerStep now s
        { s with tasks := s.tasks.insert task.spec.taskId (leasedTask task request deadline) }
  | renewed {s : EvidenceLedger β} {task : ResearchTask} (taskId : String) (deadline : ℕ)
      (hrow : s.tasks.find? taskId = some task) (hlive : isActive task now = true) :
      LedgerStep now s { s with
        tasks := s.tasks.insert task.spec.taskId { task with leaseExpiresAtUnixMs := deadline } }
  | expired {s : EvidenceLedger β} {task : ResearchTask} (taskId : String)
      (hrow : s.tasks.find? taskId = some task) (hstate : task.state = .leased)
      (hle : task.leaseExpiresAtUnixMs ≤ now) :
      LedgerStep now s { s with tasks := s.tasks.insert task.spec.taskId (clearedTask task) }
  | published {s : EvidenceLedger β} {task : ResearchTask} (taskId : String)
      (artifact : EvidenceArtifact β) (hrow : s.tasks.find? taskId = some task)
      (hlive : isActive task now = true)
      (hnew : s.artifacts.find? artifact.artifactId = none)
      (hnone : s.loadTaskArtifact artifact.taskId = none)
      (htask : artifact.taskId = task.spec.taskId) :
      LedgerStep now s { s with
        artifacts := s.artifacts.insert artifact.artifactId artifact
        tasks := s.tasks.insert task.spec.taskId (publishedTask task artifact.artifactId) }

/-- Changes at one reading, one after another. -/
abbrev LedgerSteps (now : ℕ) : EvidenceLedger β → EvidenceLedger β → Prop :=
  Relation.ReflTransGen (LedgerStep now)

variable {s s' : EvidenceLedger β}

/-! ## Checks that passed -/

theorem require_eq_ok {condition : Bool} {message : String} {u : Unit} :
    require condition message = .ok u ↔ condition = true := by
  unfold require
  split
  · exact iff_of_true rfl ‹_›
  · exact iff_of_false nofun ‹_›

variable {task : ResearchTask}

theorem writeTask_eq_ok (h : s.writeTask task = .ok s') :
    s' = { s with tasks := s.tasks.insert task.spec.taskId task } := by
  unfold writeTask at h
  simp only [bind_unit_eq_ok] at h
  obtain ⟨-, -, h⟩ := h
  cases h
  rfl

variable {now : ℕ}

theorem clearExpiredLease_of_le (hst : task.state = .leased)
    (hle : task.leaseExpiresAtUnixMs ≤ now) : clearExpiredLease task now = clearedTask task := by
  unfold clearExpiredLease
  rw [if_pos ⟨hst, hle⟩]
  rfl

/-- A task that is ready once an expired lease was cleared is free. -/
theorem isFree_of_clearExpiredLease (h : (clearExpiredLease task now).state = .ready) :
    IsFree task now := by
  unfold clearExpiredLease at h
  split at h
  · exact .inr ‹_›
  · exact .inl h

/-- A grant writes over everything that clearing an expired lease writes. -/
theorem leasedTask_clearExpiredLease (task : ResearchTask) (request : ResearchLeaseRequest)
    (now deadline : ℕ) : leasedTask (clearExpiredLease task now) request deadline
      = leasedTask task request deadline := by
  unfold clearExpiredLease
  split <;> rfl

variable {lease : ResearchTaskLease}

/-- What renewing and publishing ask of a row implies that its lease is
live. -/
theorem isActive_of_ownsLiveLease (h : ownsLiveLease task lease now = true) :
    isActive task now = true := by
  unfold ownsLiveLease at h
  obtain ⟨-, hst, -, -, -, -, hlv⟩ := of_decide_eq_true h
  exact decide_eq_true ⟨hst, hlv⟩

/-! ## Acquiring -/

variable {request : ResearchLeaseRequest}

/-- A request whose board passed its checks found it bound to its budget, or
bound it. -/
theorem admitBoard_spec (now : ℕ) (h : s.admitBoard request task = .ok s') :
    LedgerSteps now s s' ∧ s'.tasks = s.tasks ∧ s'.BoardAdmits request task := by
  unfold admitBoard at h
  split at h
  · rename_i he
    cases h
    exact ⟨Relation.ReflTransGen.refl, rfl, fun hbo => absurd he hbo⟩
  rename_i hnm
  simp only [↓bind_unit_eq_ok, bind_eq_ok] at h
  obtain ⟨s₁, hen, hc, h⟩ := h
  cases h
  have hc' := of_decide_eq_true (require_eq_ok.mp hc)
  unfold ensureBoard at hen
  simp only [bind_unit_eq_ok] at hen
  obtain ⟨-, -, hen⟩ := hen
  obtain ⟨maxCost, hm, hen⟩ := bind_eq_ok.mp hen
  split at hen
  · rename_i board hf
    split at hen
    · cases hen
    rename_i hsm
    push Not at hsm
    cases hen
    exact ⟨Relation.ReflTransGen.refl, rfl, fun _ => ⟨hc', board, hf, hsm.1,
      hsm.2 ▸ hm⟩⟩
  · rename_i hn
    cases hen
    refine ⟨Relation.ReflTransGen.single (LedgerStep.bound _ _ hnm hn), rfl, fun _ =>
      ⟨hc', _, SortedMap.find?_insert_self .., rfl, hm⟩⟩

/-- What an acquisition answered. -/
inductive Acquired (s : EvidenceLedger β) (request : ResearchLeaseRequest) :
    Option ResearchTaskLease → EvidenceLedger β → Prop
  | refused {s' : EvidenceLedger β} (hrows : s'.tasks = s.tasks) : Acquired s request none s'
  | repeated {s' : EvidenceLedger β} {task : ResearchTask} (hrows : s'.tasks = s.tasks)
      (hrow : s.tasks.find? request.taskId = some task)
      (hlive : isActive task request.nowUnixMs = true) :
      Acquired s request (some (asLease task)) s'
  | granted {s' : EvidenceLedger β} {task : ResearchTask} (deadline : ℕ)
      (hrow : s.tasks.find? request.taskId = some task)
      (hrows : s'.tasks
        = s.tasks.insert task.spec.taskId (leasedTask task request deadline)) :
      Acquired s request (some (asLease (leasedTask task request deadline))) s'

/-- **An acquisition that returns** is a sequence of steps, and answers the
lease in the row it leaves. -/
theorem acquireLease_spec {answer : Option ResearchTaskLease}
    (h : s.acquireLease request = .ok (answer, s')) :
    LedgerSteps request.nowUnixMs s s' ∧ Acquired s request answer s' := by
  unfold acquireLease at h
  simp only [bind_unit_eq_ok] at h
  obtain ⟨-, -, -, -, -, h⟩ := h
  split at h
  · cases h
    exact ⟨Relation.ReflTransGen.refl, Acquired.refused rfl⟩
  rename_i task hr
  split at h
  · cases h
    exact ⟨Relation.ReflTransGen.refl, Acquired.refused rfl⟩
  rename_i how
  obtain ⟨s₁, hadmit, h⟩ := bind_eq_ok.mp h
  obtain ⟨hst, hrs, hbo⟩ := admitBoard_spec request.nowUnixMs hadmit
  unfold leaseTask at h
  split at h
  · rename_i hsm
    cases h
    exact ⟨hst, Acquired.repeated hrs hr hsm.1⟩
  dsimp only at h
  split at h
  · cases h
    exact ⟨hst, Acquired.refused hrs⟩
  rename_i hrdy
  split at h
  · cases h
    exact ⟨hst, Acquired.refused hrs⟩
  rename_i hrm
  unfold grantLease at h
  simp only [bind_eq_ok] at h
  obtain ⟨deadline, -, s₂, hw, h⟩ := h
  cases h
  have hwr := writeTask_eq_ok hw
  have hleased := leasedTask_clearExpiredLease task request request.nowUnixMs deadline
  unfold leasedTask at hleased
  rw [hleased] at hwr ⊢
  have hfr := isFree_of_clearExpiredLease (not_not.mp hrdy)
  rw [hwr]
  refine ⟨hst.tail (LedgerStep.granted request deadline (hrs ▸ hr) rfl (not_not.mp how)
    hfr hbo (Bool.eq_false_of_not_eq_true hrm)), Acquired.granted deadline hr ?_⟩
  rw [← hrs]
  rfl

/-! ## The other calls -/

/-- **A renewal that returns** leaves the file as it was, or the caller owned
the live lease. -/
theorem renewLease_spec {answer : Bool} (h : s.renewLease lease now = .ok (answer, s')) :
    answer = false ∧ s' = s
      ∨ ∃ task deadline, answer = true ∧ s.tasks.find? lease.taskId = some task
        ∧ ownsLiveLease task lease now = true
        ∧ s' = { s with
          tasks := s.tasks.insert task.spec.taskId
            { task with leaseExpiresAtUnixMs := deadline } } := by
  unfold renewLease at h
  simp only [bind_unit_eq_ok] at h
  obtain ⟨-, -, -, -, -, h⟩ := h
  split at h
  · cases h
    exact .inl ⟨rfl, rfl⟩
  rename_i task hr
  split_ifs at h with how
  · simp only [bind_eq_ok] at h
    obtain ⟨deadline, -, s₁, hw, h⟩ := h
    cases h
    exact .inr ⟨task, deadline, rfl, hr, how, writeTask_eq_ok hw⟩
  · cases h
    exact .inl ⟨rfl, rfl⟩

variable {checkContent : β → Except Exn Unit}

/-- **A publication that returns** found the same artifact stored, or
published under a live lease the caller owned. -/
theorem publish_spec [DecidableEq β]
    {artifact : EvidenceArtifact β} {answer : EvidencePublishResult}
    (h : s.publish checkContent lease artifact now = .ok (answer, s')) :
    ∃ task, s.tasks.find? lease.taskId = some task ∧ artifact.taskId = task.spec.taskId
      ∧ (answer = .duplicate ∧ s' = s ∧ task.state = .published
          ∧ s.loadTaskArtifact task.spec.taskId = some artifact
        ∨ answer = .published ∧ task.state ≠ .published ∧ ownsLiveLease task lease now = true
          ∧ s.artifacts.find? artifact.artifactId = none
          ∧ s.loadTaskArtifact artifact.taskId = none
          ∧ s' = { s with
            artifacts := s.artifacts.insert artifact.artifactId artifact
            tasks := s.tasks.insert task.spec.taskId
              (publishedTask task artifact.artifactId) }) := by
  unfold publish at h
  simp only [bind_unit_eq_ok] at h
  obtain ⟨-, -, -, -, -, h⟩ := h
  split at h
  · cases h
  rename_i task hr
  split at h
  · cases h
  obtain ⟨hv, h⟩ := bind_unit_eq_ok.mp h
  have htk : artifact.taskId = task.spec.taskId := by
    unfold validateArtifact at hv
    simp only [bind_unit_eq_ok] at hv
    obtain ⟨-, -, hsm, -⟩ := hv
    exact of_decide_eq_true (require_eq_ok.mp hsm)
  refine ⟨task, hr, htk, ?_⟩
  unfold publishTask at h
  split at h
  · rename_i hst
    split at h
    · rename_i hstr
      cases h
      exact .inl ⟨rfl, rfl, hst, hstr⟩
    · cases h
  rename_i hst
  split at h
  · cases h
  rename_i how
  split at h
  · split at h <;> cases h
  rename_i hnew
  simp only [bind_eq_ok] at h
  obtain ⟨s₁, hins, s₂, hw, h⟩ := h
  cases h
  unfold insertArtifact at hins
  split at hins
  · cases hins
  rename_i hn
  cases hins
  have how' : ownsLiveLease task lease now = true := by
    rw [Bool.not_eq_true', Bool.not_eq_false] at how
    exact how
  exact .inr ⟨rfl, hst, how', hnew, Option.not_isSome_iff_eq_none.mp hn,
    writeTask_eq_ok hw⟩

/-- Rows stand under the ids of their tasks. -/
def Keyed (s : EvidenceLedger β) : Prop :=
  ∀ id task, s.tasks.find? id = some task → task.spec.taskId = id

/-- The selected rows are different rows of the table. -/
theorem expiredTasks_spec (h : s.Keyed) (ownerScope : String) (now : ℕ) :
    (s.expiredTasks ownerScope now).Pairwise (fun a b => a.spec.taskId ≠ b.spec.taskId)
      ∧ ∀ task ∈ s.expiredTasks ownerScope now, s.tasks.find? task.spec.taskId = some task
        ∧ task.state = .leased ∧ task.leaseExpiresAtUnixMs ≤ now := by
  have hk : ∀ e ∈ s.tasks.entries, e.2.spec.taskId = e.1 := fun e he =>
    h e.1 e.2 ((s.tasks.mem_entries_iff e.1 e.2).mp he)
  unfold expiredTasks
  constructor
  · refine List.Pairwise.filter _ (pairwise_map.mpr ?_)
    refine s.tasks.sorted.imp_of_mem fun ha hb hlt => ?_
    rw [hk _ ha, hk _ hb]
    exact hlt.ne
  · intro task htk
    obtain ⟨hm, hexp⟩ := mem_filter.mp htk
    obtain ⟨e, he, rfl⟩ := mem_map.mp hm
    obtain ⟨-, hst, hle⟩ := of_decide_eq_true hexp
    rw [hk e he]
    exact ⟨(s.tasks.mem_entries_iff e.1 e.2).mp he, hst, hle⟩

/-- Clearing rows one after another, each still as it was selected. -/
theorem ledgerSteps_of_foldlM {rows : List ResearchTask}
    (hd : rows.Pairwise (fun a b => a.spec.taskId ≠ b.spec.taskId))
    (hrs : ∀ task ∈ rows, s.tasks.find? task.spec.taskId = some task ∧ task.state = .leased
      ∧ task.leaseExpiresAtUnixMs ≤ now)
    (h : rows.foldlM (fun s task => s.writeTask (clearExpiredLease task now)) s = .ok s') :
    LedgerSteps now s s' := by
  induction rows generalizing s with
  | nil =>
    cases h
    exact Relation.ReflTransGen.refl
  | cons task rows ih =>
    rw [foldlM_cons] at h
    obtain ⟨s₁, hw, h⟩ := bind_eq_ok.mp h
    obtain ⟨hr, hst, hle⟩ := hrs task mem_cons_self
    obtain ⟨hhd, hd⟩ := pairwise_cons.mp hd
    rw [clearExpiredLease_of_le hst hle] at hw
    obtain rfl := writeTask_eq_ok hw
    refine Relation.ReflTransGen.head (LedgerStep.expired _ hr hst hle)
      (ih hd (fun other hot => ?_) h)
    obtain ⟨hot', he⟩ := hrs other (mem_cons_of_mem _ hot)
    refine ⟨?_, he⟩
    rw [← hot']
    exact SortedMap.find?_insert_of_ne _ (hhd other hot).symm _

/-- Expiring is a sequence of steps. -/
theorem expireLeases_spec (hkd : s.Keyed) {ownerScope : String} {ids : List String}
    (h : s.expireLeases ownerScope now = .ok (ids, s')) : LedgerSteps now s s' := by
  unfold expireLeases at h
  simp only [bind_unit_eq_ok] at h
  obtain ⟨-, -, -, h⟩ := h
  obtain ⟨s₁, hf, h⟩ := bind_eq_ok.mp h
  cases h
  obtain ⟨hd, hrs⟩ := expiredTasks_spec hkd ownerScope now
  exact ledgerSteps_of_foldlM hd hrs hf

/-! ## Calls -/

/-- A call, without its answer. -/
def step [DecidableEq β] (checkContent : β → Except Exn Unit) (s : EvidenceLedger β) :
    LedgerCall β → Except Exn (EvidenceLedger β)
  | .acquireLease request => do
    let result ← s.acquireLease request
    .ok result.2
  | .renewLease lease now => do
    let result ← s.renewLease lease now
    .ok result.2
  | .expireLeases ownerScope now => do
    let result ← s.expireLeases ownerScope now
    .ok result.2
  | .publish lease artifact now => do
    let result ← s.publish checkContent lease artifact now
    .ok result.2

/-- **Every call is a sequence of steps** at its clock reading. -/
theorem step_spec [DecidableEq β] (hkd : s.Keyed)
    {call : LedgerCall β} (h : s.step checkContent call = .ok s') : LedgerSteps call.now s s' := by
  cases call with
  | acquireLease request =>
    obtain ⟨⟨answer, s₁⟩, hc, h⟩ := bind_eq_ok.mp h
    cases h
    exact (acquireLease_spec hc).1
  | renewLease lease now =>
    obtain ⟨⟨answer, s₁⟩, hc, h⟩ := bind_eq_ok.mp h
    cases h
    obtain ⟨-, rfl⟩ | ⟨task, deadline, -, hr, how, rfl⟩ := renewLease_spec hc
    · exact Relation.ReflTransGen.refl
    · exact Relation.ReflTransGen.single
        (LedgerStep.renewed _ deadline hr (isActive_of_ownsLiveLease how))
  | expireLeases ownerScope now =>
    obtain ⟨⟨ids, s₁⟩, hc, h⟩ := bind_eq_ok.mp h
    cases h
    exact expireLeases_spec hkd hc
  | publish lease artifact now =>
    obtain ⟨⟨answer, s₁⟩, hc, h⟩ := bind_eq_ok.mp h
    cases h
    obtain ⟨task, hr, htk, ⟨-, rfl, -, -⟩ | ⟨-, -, how, hnew, hn, rfl⟩⟩ :=
      publish_spec hc
    · exact Relation.ReflTransGen.refl
    · exact Relation.ReflTransGen.single
        (LedgerStep.published _ artifact hr (isActive_of_ownsLiveLease how) hnew hn htk)

/-- The file after a sequence of calls, of which those that throw change
nothing. -/
def after [DecidableEq β] (checkContent : β → Except Exn Unit) (s : EvidenceLedger β)
    (calls : List (LedgerCall β)) : EvidenceLedger β :=
  runOps (step checkContent) s calls

end EvidenceLedger

end NeoGraph.Research
