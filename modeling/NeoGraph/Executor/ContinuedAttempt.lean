import NeoGraph.Executor.Pause

/-!
# Whether a resume continues the attempt that paused

An invocation pauses in its attempt `k`. A resume of the pause collects the
pending writes and counts the attempts that are recorded. Under a checkpoint
the step started from, the starts of all attempts up to `k` are recorded, one
by one. Under the pause of a step that started from none, only attempt `k`
is: the count of the resume begins at the first attempt, does not find it,
and the resume starts over, unless `k` is 0 or 1.

The count also goes too far when the namespace of attempt `k + 1` is taken:
by a write that was there before the step, or by the result of a node that
is named like that attempt. These are the only ways to go wrong.
-/

namespace NeoGraph.Executor

open List Nat StepPart

open Relation (ReflTransGen)

variable {R : Type}

/-! ## A step anchored at a checkpoint -/

/-- A resume of a pause whose step started from a checkpoint gets through to
the writes recorded there, the replayed ones among them. -/
structure Anchored (store : CheckpointStore R) (threadId : String) (step : ℕ)
    (start : StoredCheckpoint) (replay : List (PendingWrite R)) : Prop where
  load : store.loadById start.id = some start
  id_ne : start.id ≠ ""
  thread : start.threadId = threadId
  schema : start.schemaVersion = checkpointSchemaVersion
  past : start.resumePhase = .nodeInterrupt → start.step ≤ step
  walk : ∃ out, resumeWalk store threadId true step (store.checkpoints.entries.length + 1) start
    [] [] = .ok out
  replayed : ∀ id, OfStep step id → Recorded replay id →
    FiledAlong store threadId true step start id

section

variable {store store' : CheckpointStore R} {threadId : String} {step : ℕ} {cp : StoredCheckpoint}

theorem pauseChainContinues_of_not_pause (h : cp.resumePhase ≠ .nodeInterrupt) (selectedStep : ℕ) :
    pauseChainContinues cp selectedStep threadId = .ok false := by
  unfold pauseChainContinues
  rw [if_pos (.inl h)]

/-- The walk stops at the checkpoint a step went on from. -/
theorem pauseChainContinues_of_past (hs : cp.parentId ≠ cp.id)
    (hp : cp.resumePhase = .nodeInterrupt → cp.step < step) :
    pauseChainContinues cp step threadId = .ok false := by
  by_cases hph : cp.resumePhase = .nodeInterrupt
  · unfold pauseChainContinues
    split
    · rfl
    · split
      · rfl
      · rw [decide_eq_false (hp hph).ne]
  · exact pauseChainContinues_of_not_pause hph step

/-- The walk goes on from a pause of the step. -/
theorem pauseChainContinues_of_pause (hph : cp.resumePhase = .nodeInterrupt)
    (hpar : cp.parentId ≠ "") (hs : cp.parentId ≠ cp.id)
    (hbd : cp.isExternalResumeBoundary threadId = false) :
    pauseChainContinues cp cp.step threadId = .ok true := by
  have hp : ¬ (cp.resumePhase ≠ .nodeInterrupt ∨ cp.parentId = "") :=
    fun h => h.elim (fun h => h hph) hpar
  unfold pauseChainContinues
  rw [if_neg hp, if_neg hs, hbd, decide_eq_true rfl]
  rfl

/-- A walk ends at the first checkpoint where the chain stops. -/
theorem walk_of_stop (hid : cp.id ≠ "") (ht : cp.threadId = threadId)
    (hs : cp.schemaVersion = checkpointSchemaVersion)
    (hsp : pauseChainContinues cp step threadId = .ok false) (bound : ℕ) :
    ∃ out, resumeWalk store threadId true step (bound + 1) cp [] [] = .ok out :=
  ⟨_, (resumeWalk_succ_eq_ok store threadId).mpr ⟨_, (requireVisitable_eq_ok threadId).mpr
    ⟨not_mem_nil, hid, ht, fun _ => hs, rfl⟩, .inl ⟨hsp, rfl⟩⟩⟩

theorem Filed.mono (hrs : ∀ id, ∀ row ∈ store.getWrites threadId id,
    row ∈ store'.getWrites threadId id) {checkpointId id : String}
    (h : Filed store threadId true step checkpointId id) :
    Filed store' threadId true step checkpointId id := by
  obtain ⟨row, hr, hs, hid⟩ := h
  exact ⟨row, hrs checkpointId row hr, hs, hid⟩

variable {start : StoredCheckpoint}

theorem FiledAlong.mono (hl : Extends store store')
    (hrs : ∀ id, ∀ row ∈ store.getWrites threadId id, row ∈ store'.getWrites threadId id)
    {taskId : String} (h : FiledAlong store threadId true step start taskId) :
    FiledAlong store' threadId true step start taskId := by
  obtain ⟨cp, hpt, hfil⟩ := h
  exact ⟨cp, hpt.lift id fun _ _ hs => ⟨hs.1, hl _ _ hs.2⟩, hfil.mono hrs⟩

variable {replay : List (PendingWrite R)}

/-- **Every start of a step but the first of a thread is anchored.** -/
theorem StepEntry.anchored {parentId : String} (h : StepEntry store threadId step parentId replay)
    (htagged : store.StepTagged threadId) (hp : parentId ≠ "") : ∃ start, start.id = parentId ∧
      Anchored store threadId step start replay := by
  cases h with
  | fresh => exact absurd rfl hp
  | continues cp hl hid ht hsch hsl hps =>
    exact ⟨cp, rfl, hl, hid, ht, hsch, fun hph => (hps hph).le,
      walk_of_stop hid ht hsch (pauseChainContinues_of_past hsl hps) _,
      fun id _ hrec => absurd hrec not_mem_nil⟩
  | resumes cp hl hsch _ hrs hs =>
    obtain ⟨visited, hv, -⟩ := (resumeWalk_succ_eq_ok store threadId).mp hrs
    obtain ⟨-, hid, ht, -⟩ := (requireVisitable_eq_ok threadId).mp hv
    refine ⟨cp, rfl, ?_⟩
    by_cases hph : cp.resumePhase = .nodeInterrupt
    · -- a pause is re-entered in its own step, by the walk that was made
      have hcp : cp.step = step := by
        unfold StoredCheckpoint.resumeStartStep at hs
        rw [hph] at hs
        split at hs
        · cases hs
        · exact Except.ok.inj hs
      have hc := mem_collectResumeWrites_iff store threadId hrs
      unfold collectResumeWrites at hrs
      simp only [hph, decide_true, hcp] at hrs hc
      exact ⟨hl, hid, ht, hsch, fun _ => hcp.le, ⟨replay, hrs⟩,
        fun id _ hrec => (hc id).mp hrec⟩
    · have hsp : ∀ selected, pauseChainContinues cp selected threadId = .ok false :=
        pauseChainContinues_of_not_pause hph
      have hne : ∀ selected, pauseChainContinues cp selected threadId ≠ .ok true := by
        intro selected h
        rw [hsp selected] at h
        cases h
      refine ⟨hl, hid, ht, hsch, fun h => absurd h hph,
        walk_of_stop hid ht hsch (hsp step) _, fun id hof hrec => ?_⟩
      have hfil := (mem_collectResumeWrites_iff store threadId hrs id).mp hrec
      rw [filedAlong_iff_of_stop store threadId (hne _)] at hfil
      rw [filedAlong_iff_of_stop store threadId (hne _)]
      obtain ⟨row, hr, -, rfl⟩ := hfil
      exact ⟨row, hr, fun _ => (htagged _ row hr).unique hof, rfl⟩

/-- A step stays anchored while the store grows. -/
theorem Anchored.mono (h : Anchored store threadId step start replay)
    (hcps : store'.checkpoints = store.checkpoints)
    (hrs : ∀ id, ∀ row ∈ store.getWrites threadId id, row ∈ store'.getWrites threadId id) :
    Anchored store' threadId step start replay := by
  have hl := Extends.of_checkpoints_eq hcps
  obtain ⟨out, ho⟩ := h.walk
  refine ⟨hl _ _ h.load, h.id_ne, h.thread, h.schema, h.past, ?_, fun id hof hr =>
    (h.replayed id hof hr).mono hl hrs⟩
  obtain ⟨out', ho'⟩ := resumeWalk_extends hl [] (fun id hid => nomatch hid) [] h.load ho
  rw [hcps]
  exact ⟨out', ho'⟩

end

/-! ## What a step records -/

namespace StepPart

variable {started : R} {part : StepPart R}

/-- A task id is taken by the part: an invocation of it finishes under it,
or, where the results of the ready nodes are recorded with the pause, a
ready node has it. -/
def Takes (started : R) (part : StepPart R) (id : String) : Prop :=
  (∃ inv ∈ part.invocations, inv.kind.taskId part.step = id ∧
    ∃ result, (part.run started inv).exit = .finished result) ∨
  part.parentId = "" ∧ ∃ r ∈ part.readyResults.getD [], makeStaticTaskId part.step r.1 = id

theorem eq_of_taskId_eq {inv inv' : Invocation R} (hi : inv ∈ part.invocations)
    (hi' : inv' ∈ part.invocations)
    (h : inv'.kind.taskId part.step = inv.kind.taskId part.step) : inv' = inv :=
  inj_on_of_nodup_map part.taskIds_nodup hi' hi h

variable {row : PendingWrite R}

theorem mem_log_iff : row ∈ part.log started ↔
    ∃ inv ∈ part.invocations, row ∈ (part.run started inv).writes :=
  mem_flatMap

/-- What the part records is of its step. -/
theorem step_of_mem_log (h : row ∈ part.log started) :
    row.step = part.step ∧ OfStep part.step row.taskId := by
  obtain ⟨inv, -, hr⟩ := mem_log_iff.mp h
  obtain ⟨j, -, rfl⟩ | ⟨result, -, rfl⟩ := mem_writes_runInvocation hr
  · exact ⟨rfl, (inv.kind.ofStep_taskId part.step).attemptEffectNamespace j⟩
  · exact ⟨rfl, inv.kind.ofStep_taskId part.step⟩

variable {inv : Invocation R} {k : ℕ} {b : Bool} {j : ℕ}

/-- **Which attempts of a paused invocation the part records** under its
parent: those it started, and any that a result is named like. -/
theorem mem_log_attempt_iff (hinv : inv ∈ part.invocations)
    (hex : (part.run started inv).exit = .interrupted k b) (hj : 0 < j) :
    (∃ row ∈ part.log started, row.taskId = attemptEffectNamespace (inv.kind.taskId part.step) j) ↔
      (resumedFirstAttempt (inv.kind.taskId part.step) part.replay < j ∧ j ≤ k) ∨
      ∃ inv' ∈ part.invocations,
        inv'.kind.taskId part.step = attemptEffectNamespace (inv.kind.taskId part.step) j ∧
        ¬ Recorded part.replay (inv'.kind.taskId part.step) ∧
        ∃ result, (part.run started inv').exit = .finished result := by
  obtain ⟨-, -, -, hws⟩ := runInvocation_interrupted hex
  constructor
  · rintro ⟨row, hr, hid⟩
    obtain ⟨inv', hinv', hr⟩ := mem_log_iff.mp hr
    have hr' := hr
    obtain ⟨j', hj', rfl⟩ | ⟨result, hfin, rfl⟩ := mem_writes_runInvocation hr
    · obtain ⟨htk, rfl⟩ := attemptEffectNamespace_inj hj' hj hid
      obtain rfl := eq_of_taskId_eq hinv hinv' htk
      obtain ⟨i, hi, hik, heq⟩ := (hws _).mp hr'
      obtain ⟨-, rfl⟩ :=
        attemptEffectNamespace_inj hj (zero_lt_of_lt hi) (congrArg PendingWrite.taskId heq)
      exact .inl ⟨hi, hik⟩
    · refine .inr ⟨inv', hinv', hid, fun hrec => ?_, result, hfin⟩
      obtain ⟨result', hrun⟩ := runInvocation_of_recorded started part.nodes hrec
      rw [run, hrun] at hr'
      cases hr'
  · rintro (⟨hlt, hle⟩ | ⟨inv', hinv', hid, hrec, result, hfin⟩)
    · exact ⟨_, mem_log_iff.mpr ⟨inv, hinv, (hws _).mpr ⟨j, hlt, hle, rfl⟩⟩, rfl⟩
    · obtain hrec' | ⟨row, hr, hrowid⟩ := recorded_of_finished hfin
      · exact absurd hrec' hrec
      · exact ⟨row, mem_log_iff.mpr ⟨inv', hinv', hr⟩, hrowid.trans hid⟩

/-- **Which attempts of a paused invocation are recorded with a pause**
without a parent: the one it paused in, and any that a result is named
like. -/
theorem mem_pauseWrites_attempt_iff (hp : part.parentId = "") (hi : inv ∈ part.invocations)
    (hx : (part.run started inv).exit = .interrupted k b) (hj : 0 < j) :
    (∃ row ∈ part.pauseWrites started,
        row.taskId = attemptEffectNamespace (inv.kind.taskId part.step) j) ↔
      j = k ∨ part.Takes started (attemptEffectNamespace (inv.kind.taskId part.step) j) := by
  unfold pauseWrites Takes
  simp only [mem_append, or_and_right, exists_or, mem_flatMap]
  constructor
  · rintro (⟨row, hrow, hid⟩ | ⟨row, ⟨inv', hi', hrow⟩, hid⟩)
    · obtain ⟨r, hr, rfl⟩ := mem_map.mp hrow
      exact .inr (.inr ⟨hp, r, hr, hid⟩)
    unfold pauseWrite at hrow
    dsimp only at hrow
    split at hrow
    · rename_i result hres
      rw [mem_singleton] at hrow
      subst hrow
      refine .inr (.inl ⟨inv', hi', hid, result, ?_⟩)
      cases hex : (part.run started inv').exit with
      | finished result' =>
        rw [hex] at hres
        cases hres
        rfl
      | interrupted _ _ | failed | stopped => rw [hex] at hres; cases hres
    · split_ifs at hrow with hpos
      · cases hrow
      rw [mem_singleton] at hrow
      subst hrow
      obtain ⟨htk, hj'⟩ := attemptEffectNamespace_inj (not_le.mp hpos) hj hid
      obtain rfl := eq_of_taskId_eq hi hi' htk
      rw [hx] at hj'
      exact .inl hj'.symm
  · rintro (rfl | ⟨inv', hi', hid, result, hfin⟩ | ⟨-, r, hr, hid⟩)
    · refine .inr ⟨attemptStart started (inv.kind.taskId part.step) inv.kind.nodeName j part.step,
        ⟨inv, hi, ?_⟩, rfl⟩
      unfold pauseWrite
      rw [hx]
      show _ ∈ (if j ≤ 0 then [] else _)
      rw [if_neg (not_le.mpr hj)]
      exact mem_singleton_self _
    · refine .inr ⟨⟨inv'.kind.taskId part.step, inv'.kind.nodeName, result, part.step⟩,
        ⟨inv', hi', ?_⟩, hid⟩
      unfold pauseWrite
      rw [hfin]
      exact mem_singleton_self _
    · exact .inl ⟨_, mem_map.mpr ⟨r, hr, rfl⟩, hid⟩

theorem step_of_mem_pauseWrites (h : row ∈ part.pauseWrites started) :
    row.step = part.step ∧ OfStep part.step row.taskId := by
  unfold pauseWrites at h
  obtain h | h := mem_append.mp h
  · obtain ⟨r, -, rfl⟩ := mem_map.mp h
    exact ⟨rfl, ofStep_makeStaticTaskId part.step r.1⟩
  obtain ⟨inv, -, hr⟩ := mem_flatMap.mp h
  unfold pauseWrite at hr
  dsimp only at hr
  split at hr
  · obtain rfl := mem_singleton.mp hr
    exact ⟨rfl, inv.kind.ofStep_taskId part.step⟩
  split at hr
  · cases hr
  · obtain rfl := mem_singleton.mp hr
    exact ⟨rfl, (inv.kind.ofStep_taskId part.step).attemptEffectNamespace _⟩

/-- An attempt that was made is not named like a result of a step without
replay: such an attempt is refused. -/
theorem not_takes_of_attempt (hrep : part.replay = [])
    (hex : (part.run started inv).exit = .interrupted k b) (hj : 0 < j) (hjk : j ≤ k) :
    ¬ part.Takes started (attemptEffectNamespace (inv.kind.taskId part.step) j) := by
  obtain ⟨-, -, hn, -⟩ := runInvocation_interrupted hex
  rw [hrep, resumedFirstAttempt_nil] at hn
  have hno := hn j hj (zero_le j) hjk
  rintro (⟨inv', -, hid, result, hfin⟩ | ⟨-, r, hr, hid⟩)
  · have hnd : inv'.kind.nodeName ∈ part.nodes := by
      refine nodeName_mem_of_finished ?_ hfin
      rw [hrep]
      exact not_mem_nil
    cases hkd : inv'.kind with
    | static nodeName =>
      rw [hkd] at hid hnd
      refine hno ⟨nodeName, ?_, hnd⟩
      rw [← hid]
      exact afterColon_makeStaticTaskId part.step nodeName
    | send index target input =>
      rw [hkd] at hid
      exact makeSendTaskId_ne_attemptEffectNamespace _ _ _ _ _ hj hid
  · refine hno ⟨r.1, ?_, ?_⟩
    · rw [← hid]
      exact afterColon_makeStaticTaskId part.step r.1
    cases hrdy : part.readyResults with
    | none =>
      rw [hrdy] at hr
      cases hr
    | some l =>
      rw [hrdy] at hr
      exact part.readyResults_mem l hrdy r hr

end StepPart

/-! ## What a resume of the pause collects -/

/-- A write of a task id was there before the step: a resume finds it under
the checkpoint the step started from, or under an earlier pause of the
step. -/
def FiledBefore (store : CheckpointStore R) (threadId : String) (step : ℕ) (parentId id : String) :
    Prop :=
  parentId ≠ "" ∧ ∃ start, store.loadById parentId = some start ∧
    FiledAlong store threadId true step start id

section Pause

variable {started : R} {part : StepPart R} {store store' : CheckpointStore R}
  {log : List (PendingWrite R)} {pauseId : String} {cp : StoredCheckpoint}

/-- A pause's checkpoint, and what it leaves in the store. -/
theorem pause_eq_some (h : part.pause started store log pauseId = some (store', cp)) :
    (∃ currentNode, cp = part.pauseCheckpoint pauseId currentNode) ∧
      store' = if part.parentId = "" then
        ((store.recordPendingWrites part.threadId part.parentId log).save cp).recordPendingWrites
          part.threadId pauseId (part.pauseWrites started)
      else (store.recordPendingWrites part.threadId part.parentId log).save cp := by
  unfold pause at h
  dsimp only at h
  split at h
  · obtain ⟨rfl, rfl⟩ := Prod.mk.inj (Option.some.inj h)
    exact ⟨⟨_, rfl⟩, rfl⟩
  · cases h

theorem resumePhase_pauseCheckpoint (id currentNode : String) :
    (part.pauseCheckpoint id currentNode).resumePhase = .nodeInterrupt := rfl

/-- The fuel of the walk: the pause is one more checkpoint. -/
theorem collectResumeWrites_pause (hl : store'.checkpoints.entries.length
      = store.checkpoints.entries.length + 1) (currentNode : String) :
    collectResumeWrites store' part.threadId (part.pauseCheckpoint pauseId currentNode)
      = resumeWalk store' part.threadId true part.step
          (store.checkpoints.entries.length + 1 + 1) (part.pauseCheckpoint pauseId currentNode)
          [] [] := by
  unfold collectResumeWrites
  rw [hl]
  rfl

/-- **A pause without a parent**: a resume collects what was recorded with
it. -/
theorem collectResumeWrites_of_no_parent (hp : part.parentId = "")
    (hid : pauseId ≠ "") (he : store.getWrites part.threadId pauseId = [])
    (h : part.pause started store log pauseId = some (store', cp)) :
    ∃ rows, collectResumeWrites store' part.threadId cp = .ok rows ∧
      ∀ id, Recorded rows id ↔ ∃ row ∈ part.pauseWrites started, row.taskId = id := by
  obtain ⟨⟨currentNode, rfl⟩, hst⟩ := pause_eq_some h
  rw [if_pos hp] at hst
  have hsp : pauseChainContinues (part.pauseCheckpoint pauseId currentNode) part.step
      part.threadId = .ok false := by
    unfold pauseChainContinues
    exact if_pos (.inr hp)
  have hw : ∃ rows, collectResumeWrites store' part.threadId
      (part.pauseCheckpoint pauseId currentNode) = .ok rows :=
    walk_of_stop hid rfl rfl hsp _
  obtain ⟨rows, hrs⟩ := hw
  refine ⟨rows, hrs, fun id => ?_⟩
  have hne : pauseChainContinues (part.pauseCheckpoint pauseId currentNode) part.step
      part.threadId ≠ .ok true := by
    rw [hsp]
    nofun
  refine (mem_collectResumeWrites_iff store' part.threadId hrs id).trans ?_
  refine (filedAlong_iff_of_stop store' part.threadId hne _ id).trans ?_
  have hws : store'.getWrites part.threadId pauseId = part.pauseWrites started := by
    rw [hst, getWrites_recordPendingWrites, if_pos ⟨rfl, hid⟩, getWrites_save,
      getWrites_recordPendingWrites, if_neg fun h => h.2 hp, he, nil_append]
  show (∃ row ∈ store'.getWrites part.threadId pauseId, _) ↔ _
  rw [hws]
  exact exists_congr fun row => and_congr_right fun hr =>
    and_iff_right fun _ => (step_of_mem_pauseWrites hr).1

/-- **A pause under a checkpoint**: a resume collects what was recorded there
before the step, and what the step recorded. -/
theorem collectResumeWrites_of_anchored {start : StoredCheckpoint}
    (hst : start.id = part.parentId)
    (ha : Anchored store part.threadId part.step start part.replay)
    (hlog : log.Perm (part.log started)) (hid : pauseId ≠ "") (hn : store.loadById pauseId = none)
    (he : store.getWrites part.threadId pauseId = [])
    (h : part.pause started store log pauseId = some (store', cp)) :
    ∃ rows, collectResumeWrites store' part.threadId cp = .ok rows ∧
      ∀ id, Recorded rows id ↔ FiledAlong store part.threadId true part.step start id ∨
        ∃ row ∈ part.log started, row.taskId = id := by
  have hp : part.parentId ≠ "" := hst ▸ ha.id_ne
  obtain ⟨⟨currentNode, rfl⟩, hstore⟩ := pause_eq_some h
  rw [if_neg hp] at hstore
  set recorded := store.recordPendingWrites part.threadId part.parentId log with hrc
  have hcps : recorded.checkpoints = store.checkpoints :=
    checkpoints_recordPendingWrites store part.threadId part.parentId log
  have hn' : recorded.loadById pauseId = none := by
    show recorded.checkpoints.find? pauseId = none
    rw [hcps]
    exact hn
  have hl : Extends store store' := by
    rw [hstore]
    exact (Extends.of_checkpoints_eq hcps).trans (Extends.save hn')
  have hlen : store'.checkpoints.entries.length = store.checkpoints.entries.length + 1 := by
    rw [hstore, length_checkpoints_save recorded hn', hcps]
  have hws : ∀ id, store'.getWrites part.threadId id
      = if id = part.parentId ∧ part.parentId ≠ "" then store.getWrites part.threadId id ++ log
        else store.getWrites part.threadId id := by
    intro id
    rw [hstore, getWrites_save, hrc, getWrites_recordPendingWrites]
  have hne : start.id ≠ pauseId := by
    intro heq
    rw [← heq, ha.load] at hn
    cases hn
  -- the walk: from the pause to the checkpoint of the step, and on as before
  have hbd : (part.pauseCheckpoint pauseId currentNode).isExternalResumeBoundary
      part.threadId = false := by
    unfold StoredCheckpoint.isExternalResumeBoundary
    exact if_neg hp
  have hon : pauseChainContinues (part.pauseCheckpoint pauseId currentNode) part.step
      part.threadId = .ok true :=
    pauseChainContinues_of_pause (resumePhase_pauseCheckpoint pauseId currentNode) hp
      (show part.parentId ≠ pauseId from hst ▸ hne) hbd
  have hparentLoad : store'.loadById part.parentId = some start := by
    rw [← hst]
    exact hl _ _ ha.load
  have hw : ∃ rows, collectResumeWrites store' part.threadId
      (part.pauseCheckpoint pauseId currentNode) = .ok rows := by
    obtain ⟨out, ho⟩ := ha.walk
    obtain ⟨rows, hrs⟩ := resumeWalk_extends hl [pauseId]
      (fun id hid => (mem_singleton.mp hid).symm ▸ hn)
      (selectNewestRows (store'.getWrites part.threadId pauseId) true part.step [])
      ha.load ho
    refine ⟨rows, ?_⟩
    rw [collectResumeWrites_pause hlen, resumeWalk_succ_eq_ok]
    refine ⟨[pauseId], ?_, .inr ⟨hon, start, ?_, hrs⟩⟩
    · rw [requireVisitable_eq_ok]
      exact ⟨not_mem_nil, hid, rfl, fun _ => rfl, rfl⟩
    · rw [requireParent_eq_ok]
      exact ⟨hparentLoad, hst, ha.thread, ha.schema, ha.past⟩
  obtain ⟨rows, hrs⟩ := hw
  refine ⟨rows, hrs, fun id => ?_⟩
  refine (mem_collectResumeWrites_iff store' part.threadId hrs id).trans ?_
  have hc : Continues store' part.threadId part.step
      (part.pauseCheckpoint pauseId currentNode) start := ⟨hon, hparentLoad⟩
  refine (filedAlong_iff_of_continues store' part.threadId hc _ id).trans ?_
  have hpauseEmpty : ¬ Filed store' part.threadId true part.step pauseId id := by
    rintro ⟨row, hr, -⟩
    rw [hws, if_neg fun h => hne (hst.trans h.1.symm), he] at hr
    cases hr
  refine (or_iff_right hpauseEmpty).trans ?_
  obtain ⟨out, ho⟩ := ha.walk
  have hpt := continues_path_iff hl ho
  constructor
  · rintro ⟨cp, hcp, row, hr, hs, rfl⟩
    rw [hws] at hr
    split at hr
    · obtain hr | hr := mem_append.mp hr
      · exact .inl ⟨cp, (hpt cp).mp hcp, row, hr, hs, rfl⟩
      · exact .inr ⟨row, hlog.mem_iff.mp hr, rfl⟩
    · exact .inl ⟨cp, (hpt cp).mp hcp, row, hr, hs, rfl⟩
  · rintro (⟨cp, hcp, row, hr, hs, rfl⟩ | ⟨row, hr, rfl⟩)
    · refine ⟨cp, (hpt cp).mpr hcp, row, ?_, hs, rfl⟩
      rw [hws]
      split
      · exact mem_append_left _ hr
      · exact hr
    · refine ⟨start, ReflTransGen.refl, row, ?_, fun _ => (step_of_mem_log hr).1, rfl⟩
      rw [hws, if_pos ⟨hst, hp⟩]
      exact mem_append_right _ (hlog.mem_iff.mpr hr)

end Pause

/-! ## The attempt a resume continues -/

/-- **A resume continues an attempt**: its count of the recorded attempts gives
that attempt, and the resumed invocation, whatever its node does, makes no
attempt before it. -/
def ContinuesAttempt (started : R) (part : StepPart R) (kind : InvocationKind)
    (rows : List (PendingWrite R)) (k : ℕ) : Prop :=
  resumedFirstAttempt (kind.taskId part.step) rows = k ∧
    ∀ inv : Invocation R, inv.kind = kind →
      ∀ a ∈ (runInvocation started part.nodes part.step rows inv).attempts, k ≤ a

/-- An invocation goes on with the attempt that its rows tell of. -/
theorem continuesAttempt_iff {started : R} {part : StepPart R} {kind : InvocationKind}
    {rows : List (PendingWrite R)} {k : ℕ} : ContinuesAttempt started part kind rows k ↔
      resumedFirstAttempt (kind.taskId part.step) rows = k := by
  refine and_iff_left_of_imp ?_
  rintro rfl inv rfl a ha
  exact resumedFirstAttempt_le_of_mem_attempts ha

section Continued

variable {started : R} {part : StepPart R} {store store' : CheckpointStore R}
  {log : List (PendingWrite R)} {pauseId : String} {cp : StoredCheckpoint} {inv : Invocation R}
  {k : ℕ} {b : Bool} {rows : List (PendingWrite R)}

/-- Without a parent only the attempt that paused is recorded, and the count
begins at the first. -/
theorem continuesAttempt_of_no_parent (hr : part.replay = []) (hp : part.parentId = "")
    (hi : inv ∈ part.invocations) (hex : (part.run started inv).exit = .interrupted k b)
    (hrs : ∀ id, Recorded rows id ↔ ∃ row ∈ part.pauseWrites started, row.taskId = id) :
    resumedFirstAttempt (inv.kind.taskId part.step) rows = k ↔ k ≤ 1 ∧
      (k < intMax → ¬ part.Takes started
        (attemptEffectNamespace (inv.kind.taskId part.step) (k + 1))) := by
  obtain ⟨-, hm, -, -⟩ := runInvocation_interrupted hex
  have hrc : ∀ j, 0 < j →
      (Recorded rows (attemptEffectNamespace (inv.kind.taskId part.step) j) ↔
        j = k ∨ part.Takes started (attemptEffectNamespace (inv.kind.taskId part.step) j)) :=
    fun j hj => (hrs _).trans (mem_pauseWrites_attempt_iff hp hi hex hj)
  have hmd : ∀ j, 0 < j → j ≤ k →
      (Recorded rows (attemptEffectNamespace (inv.kind.taskId part.step) j) ↔ j = k) :=
    fun j hj hjk => (hrc j hj).trans
      (or_iff_left (not_takes_of_attempt hr hex hj hjk))
  rw [resumedFirstAttempt_eq_iff, and_iff_right hm]
  refine and_congr ?_ (imp_congr Iff.rfl (not_congr ?_))
  · constructor
    · intro ha
      by_contra hlt
      rw [not_le] at hlt
      exact hlt.ne ((hmd 1 one_pos hlt.le).mp (ha 1 one_pos hlt.le))
    · intro hle j hj hjk
      exact (hmd j hj hjk).mpr (le_antisymm hjk (hle.trans hj))
  · rw [hrc (k + 1) (succ_pos k)]
    exact or_iff_right (succ_ne_self k)

/-- Under a checkpoint every attempt of the step is recorded, and those of
the replay were. -/
theorem continuesAttempt_of_anchored {start : StoredCheckpoint} (hs : start.id = part.parentId)
    (han : Anchored store part.threadId part.step start part.replay)
    (hi : inv ∈ part.invocations) (hex : (part.run started inv).exit = .interrupted k b)
    (hrs : ∀ id, Recorded rows id ↔ FiledAlong store part.threadId true part.step start id ∨
      ∃ row ∈ part.log started, row.taskId = id) :
    resumedFirstAttempt (inv.kind.taskId part.step) rows = k ↔
      (k < intMax → ¬ FiledBefore store part.threadId part.step part.parentId
          (attemptEffectNamespace (inv.kind.taskId part.step) (k + 1)) ∧
        ¬ part.Takes started (attemptEffectNamespace (inv.kind.taskId part.step) (k + 1))) := by
  have hp : part.parentId ≠ "" := hs ▸ han.id_ne
  obtain ⟨-, hm, -, -⟩ := runInvocation_interrupted hex
  have hof : ∀ j, OfStep part.step (attemptEffectNamespace (inv.kind.taskId part.step) j) :=
    fun j => (inv.kind.ofStep_taskId part.step).attemptEffectNamespace j
  have hfil : ∀ id, FiledBefore store part.threadId part.step part.parentId id ↔
      FiledAlong store part.threadId true part.step start id := by
    intro id
    unfold FiledBefore
    rw [← hs, han.load]
    constructor
    · rintro ⟨-, _, ⟨⟩, h⟩
      exact h
    · exact fun h => ⟨han.id_ne, start, rfl, h⟩
  have ha : ∀ j, 0 < j → j ≤ k →
      Recorded rows (attemptEffectNamespace (inv.kind.taskId part.step) j) := by
    intro j hj hjk
    rw [hrs]
    obtain hle | hlt := le_or_gt j (resumedFirstAttempt (inv.kind.taskId part.step) part.replay)
    · exact .inl (han.replayed _ (hof j) (recorded_of_le_resumedFirstAttempt hj hle))
    · exact .inr ((mem_log_attempt_iff hi hex hj).mpr (.inl ⟨hlt, hjk⟩))
  rw [resumedFirstAttempt_eq_iff, and_iff_right hm, and_iff_right ha]
  refine imp_congr Iff.rfl ?_
  rw [hrs, ← hfil, mem_log_attempt_iff hi hex (succ_pos k), not_or,
    or_iff_right fun h => absurd h.2 (not_succ_le_self k)]
  refine and_congr_right fun hn => not_congr ⟨?_, ?_⟩
  · rintro ⟨inv', hi', hid, -, hfin⟩
    exact .inl ⟨inv', hi', hid, hfin⟩
  rintro (⟨inv', hi', hid, hfin⟩ | ⟨h, -⟩)
  · refine ⟨inv', hi', hid, fun hr => hn ?_, hfin⟩
    rw [hfil, ← hid]
    exact han.replayed _ (inv'.kind.ofStep_taskId part.step) hr
  · exact absurd h hp

/-- **When a resume continues the attempt that paused.** Let an invocation of
a step pause in attempt `k`: the step's one ready node, a branch, or a Send,
after whatever the step recorded before it. A resume of the pause goes through
its pending writes, and continues attempt `k` if and only if a checkpoint
preceded the step or `k` is at most 1, and the namespace of attempt `k + 1`
is not taken. -/
theorem continuesAttempt_pause_iff (earlier : CheckpointStore R) (before : List (PendingWrite R))
    (hen : StepEntry earlier part.threadId part.step part.parentId part.replay)
    (hst : store = earlier.recordPendingWrites part.threadId part.parentId before)
    (htagged : store.StepTagged part.threadId) (hlog : log.Perm (part.log started))
    (hid : pauseId ≠ "")
    (hn : store.loadById pauseId = none)
    (he : store.getWrites part.threadId pauseId = [])
    (hpause : part.pause started store log pauseId = some (store', cp))
    (hi : inv ∈ part.invocations) (hex : (part.run started inv).exit = .interrupted k b) :
    ∃ rows, collectResumeWrites store' part.threadId cp = .ok rows ∧
      (ContinuesAttempt started part inv.kind rows k ↔
        (part.parentId ≠ "" ∨ k ≤ 1) ∧
        (k < intMax →
          ¬ FiledBefore store part.threadId part.step part.parentId
            (attemptEffectNamespace (inv.kind.taskId part.step) (k + 1)) ∧
          ¬ part.Takes started (attemptEffectNamespace (inv.kind.taskId part.step) (k + 1)))) := by
  by_cases hpar : part.parentId = ""
  · have hrep : part.replay = [] := by
      rw [hpar] at hen
      generalize part.replay = replay at hen
      generalize hp : ("" : String) = p at hen
      cases hen with
      | fresh => rfl
      | continues cp _ hid => exact absurd hp.symm hid
      | resumes cp _ _ _ hrs =>
        obtain ⟨_, hv, -⟩ := (resumeWalk_succ_eq_ok _ _).mp hrs
        exact absurd hp.symm ((requireVisitable_eq_ok _).mp hv).2.1
    obtain ⟨rows, hc, hrs⟩ :=
      collectResumeWrites_of_no_parent hpar hid he hpause
    refine ⟨rows, hc, ?_⟩
    rw [continuesAttempt_iff, continuesAttempt_of_no_parent hrep hpar hi hex hrs,
      or_iff_right (not_not.mpr hpar)]
    refine and_congr Iff.rfl (imp_congr Iff.rfl (and_iff_right fun hfil => ?_).symm)
    exact hfil.1 hpar
  · have hrowsLe : ∀ id, ∀ row ∈ earlier.getWrites part.threadId id,
        row ∈ store.getWrites part.threadId id := by
      intro id row hr
      rw [hst, getWrites_recordPendingWrites]
      split
      · exact mem_append_left _ hr
      · exact hr
    obtain ⟨start, hs, ha⟩ := hen.anchored
      (fun id row hr => htagged id row (hrowsLe id row hr)) hpar
    have ha' : Anchored store part.threadId part.step start part.replay := by
      refine ha.mono ?_ hrowsLe
      rw [hst, checkpoints_recordPendingWrites]
    obtain ⟨rows, hc, hrs⟩ :=
      collectResumeWrites_of_anchored hs ha' hlog hid hn he hpause
    refine ⟨rows, hc, ?_⟩
    rw [continuesAttempt_iff, continuesAttempt_of_anchored hs ha' hi hex hrs]
    exact (and_iff_right (.inl hpar)).symm

end Continued

/-! ## A node that fails, and then asks -/

/-- A node that fails so many times, and then asks. -/
def asking (failures : ℕ) : Invocation Unit :=
  { kind := .static "ask"
    maxRetries := 3
    visitLimited := false
    cached := none
    attempt := fun k => if k < failures then .failed true else .interrupted false
    giveUp := fun _ => none
    stopsRetrying := fun _ => false
    cancelledInBackoff := fun _ => false }

/-- The first step of a thread, with that node alone. -/
def firstStep (failures : ℕ) : StepPart Unit :=
  { step := 0
    threadId := "thread"
    parentId := ""
    replay := []
    nodes := {"ask"}
    invocations := [asking failures]
    taskIds_nodup := nodup_singleton _
    readyResults_mem := by rintro l ⟨⟩ }

/-- The second attempt is continued, without a parent too. -/
theorem continuesAttempt_pause_iff_second :
    ∃ store' cp rows,
      (firstStep 1).pause () {} ((firstStep 1).log ()) "pause" = some (store', cp) ∧
      collectResumeWrites store' "thread" cp = .ok rows ∧
      ContinuesAttempt () (firstStep 1) (.static "ask") rows 1 := by
  have hex : ((firstStep 1).run () (asking 1)).exit = .interrupted 1 false := by
    decide +kernel
  have hst : ({} : CheckpointStore Unit)
      = CheckpointStore.recordPendingWrites {} "thread" "" [] := rfl
  have hid : "pause" ≠ "" := by decide
  obtain ⟨rows, hrs, hiff⟩ := continuesAttempt_pause_iff {} [] StepEntry.fresh hst
    (fun _ _ h => nomatch h) (List.Perm.refl _) hid rfl rfl rfl
    (mem_singleton_self (asking 1)) hex
  refine ⟨_, _, rows, rfl, hrs, hiff.mpr ⟨.inr le_rfl, fun _ => ⟨fun h => h.1 rfl, ?_⟩⟩⟩
  rintro (⟨inv, hi, -, result, hfin⟩ | ⟨-, r, hr, -⟩)
  · obtain rfl := mem_singleton.mp hi
    cases hfin.symm.trans hex
  · cases hr

/-- **The attempt is lost without a parent**: the step pauses in attempt 2,
and its resume starts over with attempt 0. -/
theorem firstStep_starts_over :
    ((firstStep 2).run () (asking 2)).exit = .interrupted 2 false ∧
      ∃ store' cp rows,
        (firstStep 2).pause () {} ((firstStep 2).log ()) "pause" = some (store', cp) ∧
        collectResumeWrites store' "thread" cp = .ok rows ∧
        resumedFirstAttempt "s0:ask" rows = 0 := by
  refine ⟨by decide +kernel, _, _, _, rfl, rfl, ?_⟩
  decide +kernel

end NeoGraph.Executor
