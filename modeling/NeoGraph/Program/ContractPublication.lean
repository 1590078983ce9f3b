import NeoGraph.Program.Contract

/-!
# Only complete evidence is published

A verdict is publishable exactly when every required gate and every oracle
has a passing record and no failing one, and no diagnostic blocks
(`evaluate_publishable_iff`). Whatever calls are made, a run that counts as
verified or published is complete for the lineage that was evaluated last
(`publication_complete`), since every call that could spoil the verdict
drops it. A published run keeps its verdict for good: it answers it for every
lineage, also for one that nothing is recorded for
(`published_answers_any_lineage`).

The recording calls drop it before they check their argument. So a call that
is refused leaves the run as it was unless it is one of those, on a run
whose verdict was negative (`unchanged_iff`).
-/

namespace NeoGraph.Program.Contract

open ByteOrder List

variable {run : ContractRun} {call : Call}

/-! ## Complete evidence -/

/-- Some record that is for a gate or an oracle has passed, and none failed. -/
def Settled (isFor : ContractEvidence → Bool) (evidence : List ContractEvidence) : Prop :=
  (∃ e ∈ evidence, isFor e = true ∧ e.passed = true)
    ∧ ∀ e ∈ evidence, isFor e = true → e.passed = true

/-- **Nothing is left to be shown** for a lineage. -/
structure Complete (run : ContractRun) (l : Lineage) : Prop where
  gates : ∀ gate ∈ run.manifest.acceptance, gate.required = true →
    Settled (ContractEvidence.isForGate run.manifest l gate) run.evidence
  oracles : ∀ oracle ∈ run.manifest.independentOracles,
    Settled (ContractEvidence.isForOracle run.manifest l oracle) run.evidence
  diagnostics : ∀ d ∈ run.diagnostics, d.blocking = false

variable {isFor : ContractEvidence → Bool} {evidence : List ContractEvidence}

theorem isMissing_eq_false_iff : isMissing isFor evidence = false ↔ Settled isFor evidence := by
  simp [isMissing, Settled]

theorem failedIds_eq_nil_iff :
    failedIds isFor evidence = [] ↔ ∀ e ∈ evidence, isFor e = true → e.passed = true := by
  simp [failedIds]

variable {l : Lineage}

/-- The verdict is good when every criterion is met by evidence of this lineage.
-/
theorem evaluate_publishable_iff : (evaluate run l).publishable = true ↔ Complete run l := by
  simp only [evaluate, Bool.and_eq_true, decide_eq_true_eq, append_eq_nil_iff, flatMap_eq_nil_iff,
    map_eq_nil_iff, filter_eq_nil_iff, mem_filter, failedIds_eq_nil_iff, Bool.not_eq_true,
    isMissing_eq_false_iff]
  constructor
  · rintro ⟨-, hgs, ho, hd⟩
    exact ⟨fun gate hg hr => hgs gate ⟨hg, hr⟩, ho, hd⟩
  intro h
  exact ⟨⟨fun gate hg => (h.gates gate hg.1 hg.2).2,
      fun oracle hor => (h.oracles oracle hor).2⟩,
    fun gate hg => h.gates gate hg.1 hg.2, h.oracles, h.diagnostics⟩

/-! ## Reports of the worker -/

variable {manifest : ContractManifest} {e : ContractEvidence}

theorem kind_ne_of_isForGate {gate : ContractAcceptance}
    (h : ContractEvidence.isForGate manifest l gate e = true) : e.kind ≠ .workerReport := by
  simp only [ContractEvidence.isForGate, Bool.and_eq_true, decide_eq_true_eq] at h
  exact h.1.1

theorem kind_ne_of_isForOracle {oracle : Bytes}
    (h : ContractEvidence.isForOracle manifest l oracle e = true) : e.kind ≠ .workerReport := by
  simp only [ContractEvidence.isForOracle, Bool.and_eq_true, decide_eq_true_eq] at h
  rw [h.1.1]
  decide

/-- The run as if the worker had reported nothing. -/
def withoutReports (run : ContractRun) : ContractRun :=
  { run with evidence := run.evidence.filter (·.kind ≠ .workerReport) }

theorem filter_withoutReports (hfor : ∀ e, isFor e = true → e.kind ≠ .workerReport)
    (evidence : List ContractEvidence) (p : ContractEvidence → Bool) :
    (evidence.filter (·.kind ≠ .workerReport)).filter (fun e => isFor e && p e)
      = evidence.filter fun e => isFor e && p e := by
  rw [filter_filter]
  refine filter_congr fun e _ => ?_
  by_cases h : isFor e = true
  · simp [h, hfor e h]
  · simp [h]

theorem failedIds_withoutReports (hfor : ∀ e, isFor e = true → e.kind ≠ .workerReport)
    (evidence : List ContractEvidence) :
    failedIds isFor (evidence.filter (·.kind ≠ .workerReport)) = failedIds isFor evidence :=
  congrArg (map _) (filter_withoutReports hfor evidence _)

/-- What a worker says of itself does not count. -/
theorem isMissing_withoutReports (hfor : ∀ e, isFor e = true → e.kind ≠ .workerReport)
    (evidence : List ContractEvidence) :
    isMissing isFor (evidence.filter (·.kind ≠ .workerReport)) = isMissing isFor evidence := by
  have hany : ∀ (l : List ContractEvidence) (p : ContractEvidence → Bool),
      l.any p = (l.filter p).any fun _ => true := fun l p => by simp
  unfold isMissing
  rw [hany _ fun e => isFor e && e.passed, hany _ fun e => isFor e && !e.passed,
    filter_withoutReports hfor, filter_withoutReports hfor, ← hany, ← hany]

/-- **Reports of the worker do not count.** -/
theorem evaluate_withoutReports (run : ContractRun) (l : Lineage) :
    evaluate (withoutReports run) l = evaluate run l := by
  have hg : ∀ gate e, ContractEvidence.isForGate run.manifest l gate e = true →
      e.kind ≠ .workerReport := fun _ _ => kind_ne_of_isForGate
  have ho : ∀ oracle e, ContractEvidence.isForOracle run.manifest l oracle e = true →
      e.kind ≠ .workerReport := fun _ _ => kind_ne_of_isForOracle
  unfold evaluate withoutReports
  simp only [failedIds_withoutReports (hg _), failedIds_withoutReports (ho _),
    isMissing_withoutReports (hg _), isMissing_withoutReports (ho _)]

/-! ## What a call can do -/

/-- The calls that record something. -/
def Call.Records : Call → Prop
  | .recordWorkerReport _ _ | .recordEvidence _ | .recordDiagnostic _ => True
  | _ => False

/-- **What a call answers and leaves behind.** -/
inductive Change (run : ContractRun) : Call → Except Exn Unit × ContractRun → Prop
  | refused (call : Call) (e : Exn) (h : call.Records → run.status.isOpen = false) :
      Change run call (.error e, run)
  | exhausted (e : Exn) (h : ¬(run.status = .published ∨ run.status = .verified)) :
      Change run .beginAttempt (.error e, { run with status := .blocked })
  | begun (h : ¬(run.status = .published ∨ run.status = .verified))
      (hlt : run.attempt < run.manifest.maxAttempts) :
      Change run .beginAttempt
        (.ok (), { run with attempt := run.attempt + 1, status := .running, verification := none })
  | setBack (call : Call) (e : Exn) (h : call.Records) (hopen : run.status.isOpen = true) :
      Change run call (.error e, { run with status := .running, verification := none })
  | recorded (call : Call) (evidence : List ContractEvidence)
      (diagnostics : List ContractDiagnostic) (h : call.Records)
      (hopen : run.status.isOpen = true) :
      Change run call (.ok (), { run with
        status := .running, verification := none, evidence := run.evidence ++ evidence,
        diagnostics := run.diagnostics ++ diagnostics })
  | cached (l : Lineage) (h : run.status = .published) : Change run (.verify l) (.ok (), run)
  | verified (l : Lineage) (hopen : run.status.isOpen = true) :
      Change run (.verify l) (.ok (), { run with
        verification := some (evaluate run l), status := (evaluate run l).status })
  | published (v : ContractVerification) (h : run.status = .verified) :
      Change run .publish (.ok (), { run with
        status := .published, verification := some { v with status := .published } })

theorem record_change {what : String} {check : Except Exn Unit} {evidence : List ContractEvidence}
    {diagnostics : List ContractDiagnostic} (h : call.Records) :
    Change run call (record what check evidence diagnostics run) := by
  unfold record
  split_ifs with hop
  · exact .refused call _ fun _ => by simpa using hop
  rw [Bool.not_eq_true', Bool.not_eq_false] at hop
  dsimp only
  split
  · exact .setBack call _ h hop
  · exact .recorded call evidence diagnostics h hop

theorem perform_change (run : ContractRun) (call : Call) : Change run call (perform run call) := by
  cases call with
  | beginAttempt =>
    show Change run _ (beginAttempt run)
    unfold beginAttempt
    split
    · exact .refused _ _ fun h => h.elim
    split
    · exact .exhausted _ ‹_›
    · exact .begun ‹_› (not_le.mp ‹_›)
  | recordWorkerReport report claimsSuccess | recordEvidence e | recordDiagnostic d =>
    exact record_change trivial
  | verify l =>
    show Change run _ ((verify l run).1.map fun _ => (), (verify l run).2)
    unfold verify
    split
    · rename_i hcached
      split at hcached
      · exact .cached l ‹_›
      · cases hcached
    split
    · exact .refused _ _ fun h => h.elim
    split
    · exact .refused _ _ fun h => h.elim
    · rename_i hop _
      exact .verified l (by simpa using hop)
  | publish =>
    show Change run _ (publish run)
    unfold publish
    split
    · split
      · exact .published _ (And.left ‹_›)
      · exact .refused _ _ fun h => h.elim
    · exact .refused _ _ fun h => h.elim

/-! ## Whole runs -/

/-- A run with the lineage that was evaluated last and the number of attempts
that were started. -/
structure Trace where
  run : ContractRun
  evaluated : Option Lineage := none
  started : ℕ := 0

/-- The next call. Of the calls of `verify` only those evaluate a lineage that
are answered while the run is not published: a published run answers the
verdict it was published with, whatever lineage it is asked for. -/
def Trace.next (t : Trace) (call : Call) : Trace :=
  let answered := perform t.run call
  { run := answered.2
    evaluated := match call, answered.1 with
      | .verify l, .ok () => if t.run.status = .published then t.evaluated else some l
      | _, _ => t.evaluated
    started := match call, answered.1 with
      | .beginAttempt, .ok () => t.started + 1
      | _, _ => t.started }

/-- Some calls on a new run. -/
def Trace.of (manifest : ContractManifest) (calls : List Call) : Trace :=
  calls.foldl Trace.next { run := { manifest := manifest } }

theorem Trace.run_of (manifest : ContractManifest) (calls : List Call) :
    (Trace.of manifest calls).run = performAll manifest calls :=
  (foldl_hom Trace.run (fun _ _ => rfl)).symm

/-- What holds of every run. -/
structure Trace.Sound (manifest : ContractManifest) (t : Trace) : Prop where
  ofManifest : t.run.manifest = manifest
  running : t.run.status = .running → t.run.verification = none
  complete : t.run.status = .verified ∨ t.run.status = .published →
    ∃ l, t.evaluated = some l ∧ Complete t.run l
  started : t.started = t.run.attempt
  attempts : t.run.attempt ≤ manifest.maxAttempts

/-- The status of a verdict says whether it is publishable. -/
theorem evaluate_status (run : ContractRun) :
    (evaluate run l).status ≠ .running ∧ (evaluate run l).status ≠ .published
      ∧ ((evaluate run l).status = .verified → (evaluate run l).publishable = true) := by
  unfold evaluate
  dsimp only
  split
  · exact ⟨nofun, nofun, fun _ => ‹_›⟩
  · split <;> exact ⟨nofun, nofun, nofun⟩

theorem not_isOpen_of {status : ContractRunStatus} (h : status = .verified ∨ status = .published) :
    ¬status.isOpen = true := by
  obtain rfl | rfl := h <;> decide

/-- **Every call keeps the run sound.** -/
theorem Trace.Sound.next {t : Trace} (ht : t.Sound manifest)
    (call : Call) : (t.next call).Sound manifest := by
  obtain ⟨hman, hr, hcm, hst, ha⟩ := ht
  have hc := perform_change t.run call
  unfold Trace.next
  revert hc
  generalize perform t.run call = answered
  intro hc
  cases hc with
  | refused _ e => cases call <;> exact ⟨hman, hr, hcm, hst, ha⟩
  | exhausted e h => exact ⟨hman, nofun, fun h => h.elim nofun nofun, hst, ha⟩
  | begun h hlt =>
    exact ⟨hman, fun _ => rfl, fun h => h.elim nofun nofun, congrArg (· + 1) hst,
      hman ▸ hlt⟩
  | setBack _ e h | recorded _ evidence diagnostics h =>
    cases call <;> first
      | exact h.elim
      | exact ⟨hman, fun _ => rfl, fun h => h.elim nofun nofun, hst, ha⟩
  | cached l h =>
    refine ⟨hman, hr, ?_, hst, ha⟩
    dsimp only
    rw [if_pos h]
    exact hcm
  | verified l hop =>
    have hpub : t.run.status ≠ .published := fun h => not_isOpen_of (.inr h) hop
    refine ⟨hman, fun h => absurd h (evaluate_status t.run).1, fun h => ?_, hst, ha⟩
    obtain h | h := h
    · obtain ⟨hgs, ho, hd⟩ :=
        evaluate_publishable_iff.mp ((evaluate_status t.run).2.2 h)
      exact ⟨l, if_neg hpub, hgs, ho, hd⟩
    · exact absurd h (evaluate_status t.run).2.1
  | published v h =>
    obtain ⟨l, hl, hgs, ho, hd⟩ := hcm (.inl h)
    exact ⟨hman, nofun, fun _ => ⟨l, hl, hgs, ho, hd⟩, hst, ha⟩

theorem Trace.sound_of (manifest : ContractManifest) (calls : List Call) :
    (Trace.of manifest calls).Sound manifest := by
  unfold Trace.of
  induction calls using reverseRecOn with
  | nil => exact ⟨rfl, nofun, fun h => h.elim nofun nofun, rfl, Nat.zero_le _⟩
  | append_singleton calls call ih =>
    rw [foldl_concat]
    exact ih.next call

/-- A call adds records and takes none away. -/
theorem prefix_perform (run : ContractRun) (call : Call) :
    run.evidence <+: (perform run call).2.evidence
      ∧ run.diagnostics <+: (perform run call).2.diagnostics := by
  have hc := perform_change run call
  generalize perform run call = answered at hc ⊢
  cases hc with
  | recorded _ evidence diagnostics =>
    exact ⟨prefix_append run.evidence evidence, prefix_append run.diagnostics diagnostics⟩
  | _ => exact ⟨prefix_rfl, prefix_rfl⟩

/-- **A contract is published only on complete evidence.** In every run that
counts as verified or published, the lineage that was evaluated last is
complete. Records stay. Reports of the worker do not change a verdict: with
nothing else a verdict is publishable only if the contract asks for nothing.
No more attempts are started than the contract allows. -/
theorem publication_complete (manifest : ContractManifest) (calls : List Call) :
    ((Trace.of manifest calls).run.status = .verified
        ∨ (Trace.of manifest calls).run.status = .published →
      ∃ l, (Trace.of manifest calls).evaluated = some l
        ∧ Complete (Trace.of manifest calls).run l)
      ∧ (∀ call, (Trace.of manifest calls).run.evidence
          <+: ((Trace.of manifest calls).next call).run.evidence
        ∧ (Trace.of manifest calls).run.diagnostics
          <+: ((Trace.of manifest calls).next call).run.diagnostics)
      ∧ (∀ l, evaluate (Trace.of manifest calls).run l
          = evaluate (withoutReports (Trace.of manifest calls).run) l
        ∧ ((∀ e ∈ (Trace.of manifest calls).run.evidence, e.kind = .workerReport) →
          (evaluate (Trace.of manifest calls).run l).publishable = true →
          (∀ gate ∈ manifest.acceptance, gate.required = false)
            ∧ manifest.independentOracles = []))
      ∧ (Trace.of manifest calls).started ≤ manifest.maxAttempts := by
  have hsd := Trace.sound_of manifest calls
  refine ⟨hsd.complete, prefix_perform _, fun l => ⟨(evaluate_withoutReports _ l).symm, ?_⟩,
    hsd.started ▸ hsd.attempts⟩
  intro hrp hpublishable
  obtain ⟨hgs, ho, -⟩ := evaluate_publishable_iff.mp hpublishable
  rw [hsd.ofManifest] at hgs ho
  constructor
  · intro gate hg
    by_contra hr
    obtain ⟨⟨e, he, hfor, -⟩, -⟩ := hgs gate hg (by simpa using hr)
    exact kind_ne_of_isForGate hfor (hrp e he)
  · refine eq_nil_iff_forall_not_mem.mpr fun oracle hor => ?_
    obtain ⟨⟨e, he, hfor, -⟩, -⟩ := ho oracle hor
    exact kind_ne_of_isForOracle hfor (hrp e he)

/-- A contract that asks for one gate, and calls that publish it for one
lineage. -/
def publishedContract : ContractManifest × List Call :=
  (⟨[{ id := ascii "build" }], [], 1, ascii "sha256:contract"⟩,
    [.beginAttempt,
      .recordEvidence {
        evidenceId := ascii "build-1"
        acceptanceId := ascii "build"
        kind := .deterministicRun
        manifestHash := ascii "sha256:contract"
        programVersionId := ascii "v1"
        runId := ascii "run-1"
        workspaceRevision := ascii "tree-1"
        command := ascii "ctest"
        toolchain := ascii "gcc"
        artifactHash := ascii "sha256:artifact"
        executed := true
        passed := true },
      .verify ⟨ascii "v1", ascii "run-1", ascii "tree-1"⟩, .publish])

/-- The published run answers a `verify` of another version, run and
workspace, and nothing is recorded for these. -/
theorem published_answers_any_lineage :
    ¬∀ (manifest : ContractManifest) (calls : List Call) (l : Lineage),
      (performAll manifest (calls ++ [.verify l])).status = .verified
        ∨ (performAll manifest (calls ++ [.verify l])).status = .published →
      Complete (performAll manifest (calls ++ [.verify l])) l := by
  intro h
  have hc := h publishedContract.1 publishedContract.2
    ⟨ascii "v2", ascii "run-2", ascii "tree-2"⟩ (.inr rfl)
  obtain ⟨⟨e, he, hfor, -⟩, -⟩ := hc.gates _ (.head _) rfl
  obtain rfl := mem_singleton.mp he
  exact absurd hfor (by decide)

/-! ## Refused calls -/

/-- **A refused call changes nothing, unless it is a recording call on a run
that is blocked or failed.** -/
theorem unchanged_iff {manifest : ContractManifest} {calls : List Call} {e : Exn}
    {run' : ContractRun} (hc : call ≠ .beginAttempt)
    (h : perform (performAll manifest calls) call = (.error e, run')) :
    run' = performAll manifest calls
      ↔ ¬(call.Records ∧ ((performAll manifest calls).status = .blocked
        ∨ (performAll manifest calls).status = .failed)) := by
  have hn := (Trace.sound_of manifest calls).running
  have hchg := perform_change (performAll manifest calls) call
  rw [← Trace.run_of] at *
  rw [h] at hchg
  generalize (Trace.of manifest calls).run = run at *
  cases hchg with
  | refused _ _ hnot =>
    refine iff_of_true rfl ?_
    rintro ⟨hrc, hst⟩
    have := hnot hrc
    obtain hs | hs := hst <;> rw [hs] at this <;> cases this
  | exhausted => exact absurd rfl hc
  | setBack _ _ hrc hop =>
    constructor
    · rintro hsm ⟨-, hst⟩
      have := congrArg ContractRun.status hsm
      obtain hs | hs := hst <;> rw [hs] at this <;> cases this
    · intro hnot
      have hr : run.status = .running := by
        rw [not_and, not_or] at hnot
        have hop := hop
        simp only [ContractRunStatus.isOpen, Bool.or_eq_true, decide_eq_true_eq] at hop
        obtain (h | h) | h := hop
        · exact h
        · exact absurd h (hnot hrc).1
        · exact absurd h (hnot hrc).2
      rw [← hr, ← hn hr]

/-- A contract that asks for one gate, after a first verification. -/
def blockedContract : ContractManifest × List Call :=
  (⟨[{ id := ascii "build" }], [], 2, ascii "sha256:contract"⟩,
    [.beginAttempt, .verify ⟨ascii "v1", ascii "run-1", ascii "tree"⟩])

theorem unchanged_publish :
    performAll blockedContract.1 blockedContract.2 = performAll blockedContract.1 blockedContract.2
      ↔ ¬(Call.Records .publish
        ∧ ((performAll blockedContract.1 blockedContract.2).status = .blocked
          ∨ (performAll blockedContract.1 blockedContract.2).status = .failed)) :=
  @unchanged_iff .publish _ _ (.logicError "Contract run is not independently verified") _ nofun rfl

/-- A diagnostic without a code is refused, and the negative verdict is
gone. -/
theorem not_unchanged :
    ¬∀ (manifest : ContractManifest) (calls : List Call) (call : Call) (e : Exn)
      (run' : ContractRun), call ≠ .beginAttempt →
      perform (performAll manifest calls) call = (.error e, run') →
      run' = performAll manifest calls := by
  intro h
  have hs := congrArg ContractRun.status
    (h blockedContract.1 blockedContract.2 (.recordDiagnostic ⟨[], ascii "lost", true⟩)
      (.invalidArgument "Contract field 'diagnostic.code' must not be empty") _ nofun rfl)
  exact absurd hs (by decide)

end NeoGraph.Program.Contract
