import NeoGraph.Research.LedgerSafety

/-!
# Workers that share a ledger

Workers lease, renew, clear and publish in any order, over a file that
starts with its tasks and sources and nothing else. At every moment of every
run a task belongs to one lease, an earlier lease of it is worth nothing
once a later one was granted, and what was published once is published for
good (`EvidenceLedger.Coordinated`). When the clock readings of the calls
never decrease, no board ever holds more leases or more cost than the budget
it was bound to when it was first used.
-/

namespace NeoGraph.Research

variable {β : Type}

namespace EvidenceLedger

/-- A file in which tasks were created for sources, and nothing happened
since. -/
def opened (specs : List ResearchTaskSpec) (sources : SortedMap String SourceIdentity) :
    EvidenceLedger β where
  tasks := .ofList (specs.map fun spec => (spec.taskId, { spec := spec }))
  sources := sources

variable {task : ResearchTask}

theorem opened_row {specs : List ResearchTaskSpec} {sources : SortedMap String SourceIdentity}
    {id : String} (h : (opened specs sources : EvidenceLedger β).tasks.find? id = some task) :
    task.spec.taskId = id ∧ task.state = .ready := by
  obtain ⟨spec, -, heq⟩ := List.mem_map.mp (SortedMap.mem_of_find?_ofList h)
  cases heq
  exact ⟨rfl, rfl⟩

/-- A ledger that is opened is well kept. -/
theorem opened_wellKept (specs : List ResearchTaskSpec)
    (sources : SortedMap String SourceIdentity) :
    (opened specs sources : EvidenceLedger β).WellKept where
  keyed _ _ h := (opened_row h).1
  archived := ⟨nofun, nofun, nofun⟩

theorem opened_solvent (specs : List ResearchTaskSpec) (sources : SortedMap String SourceIdentity)
    (now : ℕ) : (opened specs sources : EvidenceLedger β).Solvent now where
  within := nofun
  named := nofun
  bound _ _ _ _ hr _ := by
    rw [(opened_row hr).2]
    exact ⟨nofun, nofun⟩

variable [DecidableEq β] {s s' : EvidenceLedger β} {checkContent : β → Except Exn Unit}

/-- A lease is live at a reading: its owner could renew it. -/
def HoldsLease (s : EvidenceLedger β) (lease : ResearchTaskLease) (now : ℕ) : Prop :=
  ∃ task, s.tasks.find? lease.taskId = some task ∧ ownsLiveLease task lease now = true

/-- Two leases are one lease of a task, perhaps renewed in between. -/
def SameLease (lease lease' : ResearchTaskLease) : Prop :=
  lease'.generation = lease.generation ∧ lease'.leaseId = lease.leaseId
    ∧ lease'.workerId = lease.workerId ∧ lease'.boardId = lease.boardId

/-! ## Leases -/

variable {lease : ResearchTaskLease}

omit [DecidableEq β] in
/-- At most one lease of a task is live. -/
theorem sameLease_of_holdsLease {lease' : ResearchTaskLease} {now : ℕ} (h : s.HoldsLease lease now)
    (h' : s.HoldsLease lease' now) (htk : lease'.taskId = lease.taskId) :
    SameLease lease lease' := by
  obtain ⟨task, hr, how⟩ := h
  obtain ⟨task', hr', how'⟩ := h'
  rw [htk, hr] at hr'
  cases hr'
  obtain ⟨-, -, hid, hwk, hgen, hbo, -⟩ := of_decide_eq_true how
  obtain ⟨-, -, hid', hwk', hgen', hbo', -⟩ := of_decide_eq_true how'
  exact ⟨hgen'.symm.trans hgen, hid'.symm.trans hid, hwk'.symm.trans hwk,
    hbo'.symm.trans hbo⟩

variable {request : ResearchLeaseRequest}

omit [DecidableEq β] in
/-- A lease that was answered stands in the row of its task. -/
theorem acquireLease_row (hk : s.WellKept) (h : s.acquireLease request = .ok (some lease, s')) :
    ∃ task, s'.tasks.find? lease.taskId = some task ∧ task.state = .leased
      ∧ lease = asLease task := by
  obtain ⟨hst, ha⟩ := acquireLease_spec h
  cases ha with
  | repeated hrs hr hlv =>
    refine ⟨_, ?_, state_of_isActive hlv, rfl⟩
    rw [← hk.keyed _ _ hr] at hr
    rw [hrs]
    exact hr
  | granted deadline hr hrs =>
    refine ⟨_, ?_, rfl, rfl⟩
    rw [hrs]
    exact SortedMap.find?_insert_self ..

omit [DecidableEq β] in
/-- **A lease answered later** is the same lease, or of a later
generation. -/
theorem acquireLease_later {s₀ : EvidenceLedger β} (hl : Later s₀ s) (hk : s.WellKept)
    {taskId : String} (hr : s₀.tasks.find? taskId = some task)
    (h : s.acquireLease request = .ok (some lease, s')) (htk : lease.taskId = taskId) :
    task.generation < lease.generation ∨ SameLease (asLease task) lease := by
  obtain ⟨hst, -⟩ := acquireLease_spec h
  obtain ⟨task', hr', hst', hls'⟩ := acquireLease_row hk h
  obtain ⟨task'', hr'', hrowLater⟩ := (hl.trans (hk.steps hst).1).row hr
  rw [htk, hr''] at hr'
  cases hr'
  rw [hls']
  obtain hlt | heq := Nat.lt_or_eq_of_le hrowLater.generation
  · exact .inl hlt
  · obtain ⟨-, hid, hwk, hbo⟩ := hrowLater.lease heq.symm hst'
    exact .inr ⟨heq.symm, hid, hwk, hbo⟩

/-! ## Coordination -/

/-- **What workers can rely on** at a moment of a run, whatever calls
follow. -/
structure Coordinated (checkContent : β → Except Exn Unit) (s : EvidenceLedger β) : Prop where
  /-- At any reading at most one lease of a task is live. -/
  exclusive : ∀ {lease lease' : ResearchTaskLease} {now : ℕ}, s.HoldsLease lease now →
    s.HoldsLease lease' now → lease'.taskId = lease.taskId → SameLease lease lease'
  /-- A lease answered after another of its task is that lease again, or has a
  later generation. -/
  ordered : ∀ {request : ResearchLeaseRequest} {lease : ResearchTaskLease} {s' : EvidenceLedger β},
    s.acquireLease request = .ok (some lease, s') →
    ∀ (calls : List (LedgerCall β)) {request' : ResearchLeaseRequest} {lease' : ResearchTaskLease}
      {t : EvidenceLedger β},
      (s'.after checkContent calls).acquireLease request' = .ok (some lease', t) →
      lease'.taskId = lease.taskId →
      lease.generation < lease'.generation ∨ SameLease lease lease'
  /-- Once a lease was answered, a lease of an earlier generation never renews
  and never publishes. -/
  fenced : ∀ {request : ResearchLeaseRequest} {lease : ResearchTaskLease} {s' : EvidenceLedger β},
    s.acquireLease request = .ok (some lease, s') →
    ∀ (calls : List (LedgerCall β)) {earlier : ResearchTaskLease},
      earlier.taskId = lease.taskId → earlier.generation < lease.generation →
      ∀ (now : ℕ) {t : EvidenceLedger β},
        (∀ {answer : Bool},
          (s'.after checkContent calls).renewLease earlier now = .ok (answer, t) →
          answer = false ∧ t = s'.after checkContent calls)
        ∧ ∀ {artifact : EvidenceArtifact β} {answer : EvidencePublishResult},
          (s'.after checkContent calls).publish checkContent earlier artifact now
            = .ok (answer, t) →
          answer = .duplicate ∧ t = s'.after checkContent calls
  /-- What was published stays the artifact of its task; another publication
  of the task answers `Duplicate` to the same artifact, or throws. -/
  published : ∀ {lease : ResearchTaskLease} {artifact : EvidenceArtifact β} {now : ℕ}
    {s' : EvidenceLedger β}, s.publish checkContent lease artifact now = .ok (.published, s') →
    ∀ calls : List (LedgerCall β),
      (s'.after checkContent calls).loadTaskArtifact lease.taskId = some artifact
      ∧ ∀ {lease' : ResearchTaskLease} {artifact' : EvidenceArtifact β} {now' : ℕ}
          {answer : EvidencePublishResult} {t : EvidenceLedger β}, lease'.taskId = lease.taskId →
          (s'.after checkContent calls).publish checkContent lease' artifact' now'
            = .ok (answer, t) →
          answer = .duplicate ∧ artifact' = artifact ∧ t = s'.after checkContent calls
  /-- The budget a board was bound to stays its budget. -/
  bound : ∀ {key : String ×ₗ String} {board : BoardBudget}, s.boards.find? key = some board →
    ∀ calls : List (LedgerCall β), (s.after checkContent calls).boards.find? key = some board

/-- A ledger that is well kept is coordinated. -/
theorem WellKept.coordinated (h : s.WellKept) : s.Coordinated checkContent where
  exclusive := sameLease_of_holdsLease
  bound hbo calls := (h.after calls).1.board hbo
  ordered := by
    intro request lease s' hc calls request' lease' t hc' htk
    obtain ⟨task, hr, hst, hls⟩ := acquireLease_row h hc
    have hk := (h.steps (acquireLease_spec hc).1).2
    obtain ⟨hlt, hk'⟩ :
        Later s' (s'.after checkContent calls) ∧ (s'.after checkContent calls).WellKept :=
      hk.after calls
    rw [hls]
    exact acquireLease_later hlt hk' hr hc' htk
  fenced := by
    intro request lease s' hc calls earlier htk hgen now t
    obtain ⟨task, hr, hst, hls⟩ := acquireLease_row h hc
    have hk := (h.steps (acquireLease_spec hc).1).2
    have hlaterFile : Later s' (s'.after checkContent calls) := (hk.after calls).1
    obtain ⟨task', hr', hlt⟩ := hlaterFile.row hr
    have href : ownsLiveLease task' earlier now ≠ true := by
      intro how
      obtain ⟨-, -, -, -, heq, -, -⟩ := of_decide_eq_true how
      rw [hls] at hgen
      exact absurd hlt.generation (not_le.mpr (heq.trans_lt hgen))
    rw [← htk] at hr'
    refine ⟨fun hrenew => ?_, fun hpub => ?_⟩
    · obtain hkp | ⟨task'', deadline, -, hr'', how, -⟩ := renewLease_spec hrenew
      · exact hkp
      · rw [hr'] at hr''
        cases hr''
        exact absurd how href
    · obtain ⟨task'', hr'', -, ⟨ha, ht, -, -⟩ | ⟨-, -, how, -, -, -⟩⟩ :=
        publish_spec hpub
      · exact ⟨ha, ht⟩
      · rw [hr'] at hr''
        cases hr''
        exact absurd how href
  published := by
    intro lease artifact now s' hc calls
    obtain ⟨task, hr, htk, ⟨ha, -, -, -⟩ | ⟨-, -, how, hnew, hn, hs'⟩⟩ :=
      publish_spec hc
    · cases ha
    have hlv := isActive_of_ownsLiveLease how
    have hid : task.spec.taskId = lease.taskId := h.keyed _ _ hr
    have hsteps : LedgerSteps now s s' := by
      rw [hs']
      exact Relation.ReflTransGen.single
        (LedgerStep.published lease.taskId artifact hr hlv hnew hn htk)
    obtain ⟨hlt, hk⟩ :
        Later s' (s'.after checkContent calls) ∧ (s'.after checkContent calls).WellKept :=
      (h.steps hsteps).2.after calls
    have hstr : s'.artifacts.find? artifact.artifactId = some artifact := by
      rw [hs']
      exact SortedMap.find?_insert_self ..
    have hl : (s'.after checkContent calls).loadTaskArtifact lease.taskId = some artifact := by
      rw [← hid, ← htk]
      exact hk.archived.loadTaskArtifact_eq (hlt.artifact hstr)
    have hr' : s'.tasks.find? lease.taskId = some (publishedTask task artifact.artifactId) := by
      rw [hs', ← hid]
      exact SortedMap.find?_insert_self ..
    obtain ⟨task', hlaterRow, hrowLater⟩ := hlt.row hr'
    have hsm : task' = publishedTask task artifact.artifactId := hrowLater.published rfl
    refine ⟨hl, fun {lease' artifact' now' answer t} htk' hc' => ?_⟩
    obtain ⟨task'', hr'', htk'', hcs⟩ := publish_spec hc'
    rw [htk', hlaterRow] at hr''
    cases hr''
    obtain ⟨ha, ht, -, hl'⟩ | ⟨-, hst, -⟩ := hcs
    · have hid' : task'.spec.taskId = lease.taskId := hk.keyed _ _ hlaterRow
      rw [hid', hl] at hl'
      exact ⟨ha, (Option.some.inj hl').symm, ht⟩
    · rw [hsm] at hst
      exact absurd rfl hst

/-- **Boards do not overspend**: in a run whose readings never decrease, at
any later reading. -/
structure WithinBudgets (checkContent : β → Except Exn Unit) (s : EvidenceLedger β)
    (calls : List (LedgerCall β)) : Prop where
  within : (calls.map LedgerCall.now).Pairwise (· ≤ ·) →
    ∀ {now : ℕ}, (∀ call ∈ calls, call.now ≤ now) →
    ∀ {ownerScope boardId : String} {board : BoardBudget},
      (s.after checkContent calls).boards.find? (toLex (ownerScope, boardId)) = some board →
      (s.after checkContent calls).liveLeases ownerScope boardId now ≤ board.maxActiveLeases
        ∧ (s.after checkContent calls).boardCost ownerScope boardId now ≤ costLimit board

/-- **Leases are exclusive and boards never overspend.** In every run over a
file in which tasks were created, the workers are coordinated after every
call, and the boards stay within the budgets they were bound to, a board
whose limit is stored as the largest number being limited by 64 bits
alone. -/
theorem leases_exclusive_boards_solvent (checkContent : β → Except Exn Unit)
    (specs : List ResearchTaskSpec) (sources : SortedMap String SourceIdentity)
    (calls : List (LedgerCall β)) :
    ((opened specs sources).after checkContent calls).Coordinated checkContent
      ∧ (opened specs sources).WithinBudgets checkContent calls := by
  have hk : (opened specs sources : EvidenceLedger β).WellKept := opened_wellKept specs sources
  refine ⟨(hk.after calls).2.coordinated, ⟨fun hs now hl _ _ _ hbo => ?_⟩⟩
  have hsolvent : ((opened specs sources).after checkContent calls).Solvent now :=
    (opened_solvent specs sources 0).after hk hs (fun _ _ => Nat.zero_le _)
      (Nat.zero_le now) hl
  exact hsolvent.within hbo

/-- A board that was bound without a limit takes a task that costs more than
the limit it is recorded with. -/
theorem spends_past_the_recorded_limit : let spec : ResearchTaskSpec :=
      { taskId := "task"
        sourceId := "source"
        claimId := "claim"
        ownerScope := "owner"
        leaseDurationMs := 60000
        costMicrounits := 2 ^ 63
        cost_pos := by decide
        cost_le := by decide }
    let request : ResearchLeaseRequest :=
      { taskId := "task"
        leaseId := "lease"
        workerId := "worker"
        ownerScope := "owner"
        nowUnixMs := 1
        boardId := "board"
        boardMaxActiveLeases := 1
        costMicrounits := 2 ^ 63 }
    let s : EvidenceLedger Unit :=
      (opened [spec] .empty).after (fun _ => .ok ()) [.acquireLease request]
    (s.boards.find? (toLex ("owner", "board"))).map BoardBudget.maxCostMicrounits
        = some sqliteIntegerMax
      ∧ sqliteIntegerMax < s.boardCost "owner" "board" 1 := by
  decide +kernel

end EvidenceLedger

end NeoGraph.Research
