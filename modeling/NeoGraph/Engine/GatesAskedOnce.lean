import NeoGraph.Engine.Gates

/-!
# Every gate is asked once

A super-step with gates `g₁, …, gₙ`, in the order they are ready, is entered
and resumed with `v₁, v₂, …`. After `i` answers the run pauses before
`gᵢ₊₁`, and nothing of the step has executed; after `n` it executes, and the
invocation of `gᵢ` receives `vᵢ`.

What keeps this going is `Answered`: a resumed run knows the answers to the
first `i` gates, no others, and for this step only. A pause writes them to
the metadata and the next resume reads them back.

Answers find their invocation by its task id. A Send whose task id is that of
a gate, because the gate is named like the Send, receives the gate's answer
too; there is no other exception.
-/

namespace NeoGraph

open Executor NeoGraph.Graph Bool GateRun List Option GateAnswer SortedMap

variable {σ : Type}

/-! ## What a loop executes -/

/-- The node a super-step pauses before. -/
def Graph.heldGate (g : Graph σ) (env : Environment σ) (enabled : Bool) (step : ℕ)
    (ready : List String) : Option String :=
  ready.find? fun node => node ∈ g.interruptBefore && enabled && !env.gatePassed step node

/-- A loop gets to execute a super-step, in a state. -/
inductive Graph.Executes (g : Graph σ) (env : Environment σ) (enabled : Bool) :
    ℕ → ℕ → RunState σ → ℕ → RunState σ → Prop where
  | here {remaining step : ℕ} {s : RunState σ} (hbudget : env.budgetExhausted step = false)
      (hcancelled : env.cancelled step = false) (hready : s.ready ≠ [])
      (hgates : g.heldGate env enabled step s.ready = none) :
      Executes g env enabled (remaining + 1) step s step s
  | later {remaining step step' : ℕ} {s s₁ s' : RunState σ} {record : StepRecord σ}
      (hnext : g.superStep env enabled step s = .next record s₁)
      (h : Executes g env enabled remaining (step + 1) s₁ step' s') :
      Executes g env enabled (remaining + 1) step s step' s'

variable {g : Graph σ} {env : Environment σ} {enabled : Bool} {s s' : RunState σ} {step step' : ℕ}
  {remaining : ℕ}

/-- A loop does not go back. -/
theorem Graph.Executes.le (h : g.Executes env enabled remaining step s step' s') :
    step ≤ step' := by
  induction h with
  | here => exact le_rfl
  | later _ _ ih => exact (Nat.le_succ _).trans ih

variable {node : String}

/-- A gate that has no answer interrupts the run. -/
theorem superStep_of_heldGate (hbud : env.budgetExhausted step = false)
    (hc : env.cancelled step = false)
    (hg : g.heldGate env enabled step s.ready = some node) : g.superStep env enabled step s
      = .stopped (.interruptedBefore node) (s.save s.state node s.ready .before step) := by
  have hr : s.ready ≠ [] := by
    intro hn
    rw [hn] at hg
    cases hg
  unfold Graph.superStep
  rw [hbud, hc, if_neg Bool.false_ne_true, if_neg Bool.false_ne_true, if_neg hr]
  unfold Graph.heldGate at hg
  rw [hg]

/-- **A gate that holds its step**: the loop ends there, and nothing of the
step, nor any later step, is executed. -/
theorem loop_of_heldGate (remaining : ℕ) (hbud : env.budgetExhausted step = false)
    (hc : env.cancelled step = false)
    (hg : g.heldGate env enabled step s.ready = some node) :
    g.loop env enabled (remaining + 1) step s
        = ([], s.save s.state node s.ready .before step, some (.interruptedBefore node)) ∧
      ∀ step' s', ¬ g.Executes env enabled (remaining + 1) step s step' s' := by
  have hs := superStep_of_heldGate hbud hc hg
  constructor
  · rw [loop, hs]
  intro step' s' h
  cases h with
  | here _ _ _ hgs => cases hgs.symm.trans hg
  | later hnx _ => cases hnx.symm.trans hs

/-- Only a gate stops a super-step before a node. -/
theorem heldGate_of_superStep
    (h : g.superStep env enabled step s = .stopped (.interruptedBefore node) s') :
    g.heldGate env enabled step s.ready = some node ∧
      s' = s.save s.state node s.ready .before step := by
  unfold superStep at h
  split at h
  · cases h
  split at h
  · cases h
  split at h
  · cases h
  split at h
  · rename_i held hh
    cases h
    exact ⟨hh, rfl⟩
  · split at h
    · cases h
    · cases h
    split at h
    · cases h
    unfold finishStep at h
    split at h
    · cases h
    dsimp only at h
    split at h
    · cases h
    · split at h <;> cases h

/-- A loop that pauses before a node without having executed a step was held
by the node's gate. -/
theorem heldGate_of_loop
    (h : g.loop env enabled (remaining + 1) step s = ([], s', some (.interruptedBefore node))) :
    g.heldGate env enabled step s.ready = some node ∧
      s' = s.save s.state node s.ready .before step := by
  rw [loop] at h
  split at h
  · cases h
  · rename_i how s₁ hs
    obtain ⟨-, rfl, hhow⟩ : ([] : List (StepRecord σ)) = [] ∧ s₁ = s' ∧
        some how = some (.interruptedBefore node) := by
      simpa only [Prod.mk.injEq] using h
    rw [Option.some.inj hhow] at hs
    exact heldGate_of_superStep hs
  · cases h
  · cases h

/-! ## The answers a run has -/

/-- The gates of a step, in the order they are ready. -/
def Graph.gatesOf (g : Graph σ) (ready : List String) : List String :=
  ready.filter fun node => node ∈ g.interruptBefore

/-- The answers to the first gates of a step. -/
def gateAnswersOf (step : ℕ) (gates : List String) (values : List (Json String)) :
    List GateAnswer :=
  (gates.zip values).map fun p => ⟨makeStaticTaskId step p.1, answerOf p.2⟩

/-- **A run that comes to a step for the first time**: a fresh run, a resume
that entered an earlier step, or a resume at this step that answers neither
a gate nor an interrupt. -/
inductive GateRun.Enters (gates : Finset String) (step : ℕ) : GateRun → Prop where
  | fresh : Enters gates step {}
  | earlier {run : GateRun} (cp : Checkpoint σ) (metadata : Json String) (request : ResumeRequest)
      (hresume : resumeRun gates cp metadata request = .ok run) (hstep : cp.startStep < step) :
      Enters gates step run
  | unanswering {run : GateRun} (cp : Checkpoint σ) (metadata : Json String)
      (request : ResumeRequest) (hresume : resumeRun gates cp metadata request = .ok run)
      (hphase : cp.phase ≠ .nodeInterrupt) (hgate : cp.phase = .before → cp.currentNode ∉ gates) :
      Enters gates step run

/-- **What a run knows** when the first gates of a step are answered with
some values: these answers, in order, and no others. -/
structure GateRun.Answered (run : GateRun) (step : ℕ) (gates : List String)
    (values : List (Json String)) : Prop where
  gateAnswers : run.resumedStep step = true → run.gateAnswers = gateAnswersOf step gates values
  /-- The step is entered by a resume once an answer was given. -/
  resumed : values ≠ [] → run.resumedStep step = true
  notPassed : values = [] → run.resumedStep step = true → run.resumeAnswersGate = false
  answers : run.answeredStep = some step →
    ∀ id, run.answers.find? id = (answerMap (gateAnswersOf step gates values)).find? id
  answeredStep : ∀ step', step ≤ step' →
    (run.answeredStep = some step' ↔ step' = step ∧ values ≠ [])

variable {run : GateRun} {interruptBefore : Finset String}

/-- A run that enters a super-step has no answers for it yet. -/
theorem answered_of_enters (h : Enters (σ := σ) interruptBefore step run) (gates : List String) :
    run.Answered step gates [] := by
  have key : (run.resumedStep step = true → run.resumeAnswersGate = false ∧ run.gateAnswers = []) →
      (∀ step', step ≤ step' → run.answeredStep ≠ some step') → run.Answered step gates [] := by
    intro hr hs
    refine ⟨fun h => ?_, fun h => absurd rfl h, fun _ h => (hr h).1,
      fun h => absurd h (hs step le_rfl), fun step' hle => ?_⟩
    · rw [(hr h).2, gateAnswersOf, zip_nil_right]
      rfl
    · exact ⟨fun h => absurd h (hs step' hle), fun h => absurd rfl h.2⟩
  cases h with
  | fresh => exact key (fun h => nomatch h) fun step' _ => (some_ne_none step').symm
  | earlier cp metadata request hrsm hs =>
    obtain ⟨-, hst, han⟩ := resumeRun_step hrsm
    refine key (fun h => ?_) fun step' hle => ?_
    · have hsm : step = run.startStep := of_decide_eq_true (and_eq_true_iff.mp h).2
      exact absurd (hsm.trans hst) hs.ne'
    obtain h | h := han
    · rw [h]
      exact (some_ne_none step').symm
    · rw [h]
      exact fun heq => (hs.trans_le hle).ne (Option.some.inj heq)
  | unanswering cp metadata request hrsm hph hg =>
    obtain ⟨hp, ha, hs⟩ := resumeRun_unanswering hph hg hrsm
    refine key (fun _ => ⟨hp, ha⟩) fun step' _ => ?_
    rw [hs]
    exact (some_ne_none step').symm

theorem makeStaticTaskId_inj {node' : String} :
    makeStaticTaskId step node = makeStaticTaskId step node' ↔ node = node' := by
  constructor
  · intro h
    have hn := congrArg afterColon h
    rw [afterColon_makeStaticTaskId, afterColon_makeStaticTaskId] at hn
    exact Option.some.inj hn
  · rintro rfl
    rfl

theorem map_fst_zip_eq_take {α β : Type*} (l : List α) (l' : List β) :
    (l.zip l').map Prod.fst = l.take l'.length := by
  induction l generalizing l' with
  | nil => exact take_nil.symm
  | cons a l ih =>
    cases l' with
    | nil => rfl
    | cons b l' => exact congrArg (a :: ·) (ih l')

theorem any_gateAnswersOf_iff (step : ℕ) (gates : List String) (values : List (Json String))
    (node : String) :
    (gateAnswersOf step gates values).any (fun gate => gate.id = makeStaticTaskId step node) = true
      ↔ node ∈ gates.take values.length := by
  rw [← map_fst_zip_eq_take, List.any_eq_true, List.mem_map]
  unfold gateAnswersOf
  constructor
  · rintro ⟨gate, hg, hid⟩
    obtain ⟨p, hp, rfl⟩ := List.mem_map.mp hg
    exact ⟨p, hp, makeStaticTaskId_inj.mp (of_decide_eq_true hid)⟩
  · rintro ⟨p, hp, rfl⟩
    exact ⟨_, List.mem_map.mpr ⟨p, hp, rfl⟩, decide_eq_true rfl⟩

variable {gates : List String} {values : List (Json String)}

/-- The gates that are passed are those that are answered. -/
theorem gatePassed_iff (h : run.Answered step gates values) (hl : values.length ≤ gates.length)
    (node : String) : run.gatePassed step node = true ↔ node ∈ gates.take values.length := by
  rw [← any_gateAnswersOf_iff step]
  unfold gatePassed
  rw [and_eq_true, or_eq_true]
  cases values with
  | nil =>
    rw [show gateAnswersOf step gates [] = [] by rw [gateAnswersOf, zip_nil_right]; rfl]
    constructor
    · rintro ⟨hrsm, hp | hp⟩
      · rw [h.notPassed rfl hrsm, Bool.false_and] at hp
        exact absurd hp false_ne_true
      · rw [h.gateAnswers hrsm, gateAnswersOf, zip_nil_right] at hp
        exact hp
    · intro hany
      exact absurd hany false_ne_true
  | cons value values =>
    have hrsm := h.resumed (cons_ne_nil value values)
    rw [h.gateAnswers hrsm, and_iff_right hrsm]
    refine or_iff_right fun hp => ?_
    have he := isEmpty_iff.mp (and_eq_true_iff.mp hp).2
    have hn := map_eq_nil_iff.mp he
    cases gates with
    | nil => exact absurd hl (Nat.not_succ_le_zero _)
    | cons gate gates => cases hn

/-- In a list without repetitions, the first member that is not among the
first `i` is the next one. -/
theorem find?_notMem_take {α : Type*} [DecidableEq α] {l : List α} (h : l.Nodup) (i : ℕ) :
    l.find? (fun a => a ∉ l.take i) = l[i]? := by
  have hspl : (l.take i ++ l.drop i).find? (fun a => a ∉ l.take i) = l[i]? := by
    have hf : (l.take i).find? (fun a => a ∉ l.take i) = none := by
      rw [find?_eq_none]
      exact fun a ha hn => of_decide_eq_true hn ha
    rw [find?_append, hf, none_or, ← head?_drop]
    cases hdr : l.drop i with
    | nil => rfl
    | cons a rest =>
      have hnd := (take_append_drop i l).symm ▸ h
      rw [hdr, nodup_append] at hnd
      refine find?_cons_of_pos (decide_eq_true fun hm => ?_)
      exact hnd.2.2 a hm a mem_cons_self rfl
  rwa [take_append_drop] at hspl

variable {ready : List String}

/-- The gate a step is held by is the next one. -/
theorem heldGate_eq (hnd : ready.Nodup) (h : run.Answered step (g.gatesOf ready) values)
    (hl : values.length ≤ (g.gatesOf ready).length) :
    g.heldGate (env.withGates run) true step ready = (g.gatesOf ready)[values.length]? := by
  have hgs : (g.gatesOf ready).Nodup := hnd.filter _
  rw [← find?_notMem_take hgs]
  unfold Graph.gatesOf
  rw [List.find?_filter]
  unfold Graph.heldGate
  refine congrArg (fun p => ready.find? p) (funext fun node => ?_)
  have hpassed := gatePassed_iff h hl node
  refine Bool.eq_iff_iff.mpr (Iff.trans ?_ decide_eq_true_iff.symm)
  rw [Bool.and_true, Bool.and_eq_true, Bool.not_eq_true', ← Bool.not_eq_true]
  exact and_congr Iff.rfl ((not_congr hpassed).trans decide_eq_true_iff.symm)

/-! ## From one answer to the next -/

variable {answers : List GateAnswer}

/-- The answers found are those of the list, when no task id occurs twice. -/
theorem find?_answerMap (h : (answers.map GateAnswer.id).Nodup)
    (id : String) : (answerMap answers).find? id
      = (answers.find? fun answer => answer.id = id).map value := by
  have key : ∀ (answers : List GateAnswer) (found : SortedMap String (Option (Json String))),
      (answers.map GateAnswer.id).Nodup →
      (answers.foldl (fun found answer => found.insert answer.id answer.value) found).find? id
        = ((answers.find? fun answer => answer.id = id).map value).or
            (found.find? id) := by
    intro answers
    induction answers with
    | nil =>
      intro found _
      rfl
    | cons answer answers ih =>
      intro found h
      rw [map_cons, nodup_cons] at h
      rw [foldl_cons, ih _ h.2, find?_insert, find?_cons]
      by_cases hid : answer.id = id
      · have hn : answers.find? (fun answer => answer.id = id) = none := by
          rw [find?_eq_none]
          intro other hot hsm
          exact h.1 (hid ▸ of_decide_eq_true hsm ▸ mem_map_of_mem hot)
        rw [hn, if_pos hid.symm, decide_eq_true hid]
        rfl
      · rw [if_neg (Ne.symm hid), decide_eq_false hid]
  exact (key answers empty h).trans (or_none)

theorem find?_answerMap_of_mem (h : (answers.map GateAnswer.id).Nodup) {answer : GateAnswer}
    (hm : answer ∈ answers) : (answerMap answers).find? answer.id = some answer.value := by
  have hf : (answers.find? fun other => other.id = answer.id).isSome := by
    rw [find?_isSome]
    exact ⟨answer, hm, decide_eq_true rfl⟩
  obtain ⟨other, hot⟩ := isSome_iff_exists.mp hf
  have hid := find?_some hot
  obtain rfl : other = answer :=
    inj_on_of_nodup_map h (mem_of_find?_eq_some hot) hm (of_decide_eq_true hid)
  rw [find?_answerMap h, hot]
  rfl

theorem gateAnswersOf_ids (step : ℕ) (gates : List String) (values : List (Json String)) :
    (gateAnswersOf step gates values).map GateAnswer.id
      = (gates.take values.length).map (makeStaticTaskId step) := by
  rw [← map_fst_zip_eq_take, List.map_map, gateAnswersOf, List.map_map]
  rfl

theorem gateAnswersOf_nodup (step : ℕ) (h : gates.Nodup) (values : List (Json String)) :
    ((gateAnswersOf step gates values).map GateAnswer.id).Nodup := by
  rw [gateAnswersOf_ids]
  exact (h.sublist (take_sublist _ _)).map fun _ _ => makeStaticTaskId_inj.mp

/-- One more answer is one more member of the list. -/
theorem gateAnswersOf_append (step : ℕ) (h : gates[values.length]? = some node)
    (value : Json String) : gateAnswersOf step gates (values ++ [value])
      = gateAnswersOf step gates values ++ [⟨makeStaticTaskId step node, answerOf value⟩] := by
  unfold gateAnswersOf
  induction values generalizing gates with
  | nil =>
    cases gates with
    | nil => cases h
    | cons gate gates =>
      cases h
      show [_] ++ (gates.zip []).map _ = _
      rw [zip_nil_right, zip_nil_right]
      rfl
  | cons first values ih =>
    cases gates with
    | nil => cases h
    | cons gate gates => exact congrArg (_ :: ·) (ih h)

variable {stored : Json String}

/-- The metadata of a gate's checkpoint gives back the answers before it. -/
theorem recordedGateAnswers_gateMetadata (h : run.Answered step gates values)
    (reserved : ReservedMetadata)
    (hst : stored.get? metadataNamespace
      = (run.gateMetadata step (checkpointMetadata reserved)).get? metadataNamespace) :
    recordedGateAnswers stored = .ok (gateAnswersOf step gates values) := by
  unfold gateMetadata at hst
  split_ifs at hst with hin
  · rw [h.gateAnswers hin] at hst
    exact recordedGateAnswers_eq reserved _ hst
  have hn : values = [] := by
    by_contra hne
    exact hin (h.resumed hne)
  subst hn
  rw [gateAnswersOf, zip_nil_right]
  exact recordedGateAnswers_eq reserved [] hst

/-- **The pause of a gate and its resume**: the next answer is known, and
nothing else changes. -/
theorem answered_of_resumeRun {run' : GateRun} {cp : Checkpoint σ} {request : ResumeRequest}
    {reserved : ReservedMetadata} (hgs : gates.Nodup) (h : run.Answered step gates values)
    (hnd : gates[values.length]? = some node) (hg : node ∈ interruptBefore)
    (hph : cp.phase = .before) (hc : cp.currentNode = node) (hs : cp.step = step)
    (hst : stored.get? metadataNamespace
      = (run.gateMetadata step (checkpointMetadata reserved)).get? metadataNamespace)
    (hrs : resumeRun interruptBefore cp stored request = .ok run') :
    run'.Answered step gates (values ++ [request.value]) := by
  have hstart : cp.startStep = step := by
    unfold Checkpoint.startStep
    rw [hph]
    exact hs
  obtain ⟨hrsm, hstartStep, -⟩ := resumeRun_step hrs
  subst hc
  obtain ⟨recorded, hr, hp, ha, hmap, han, -⟩ :=
    resumeRun_gate hph hg hrs
  have hrd := recordedGateAnswers_gateMetadata h reserved hst
  have hcarried : recorded = gateAnswersOf step gates values :=
    Except.ok.inj (hr.symm.trans hrd)
  rw [hcarried, hstart, ← gateAnswersOf_append step hnd] at ha
  rw [hstart, ha] at hmap
  rw [hstart] at han hstartStep
  have hne : values ++ [request.value] ≠ [] := append_ne_nil_of_right_ne_nil _ nofun
  have hin : run'.resumedStep step = true := by
    unfold resumedStep
    rw [hrsm, hstartStep, decide_eq_true rfl]
    rfl
  refine ⟨fun _ => ha, fun _ => hin, fun hn => absurd hn hne, fun _ id => ?_,
    fun step' _ => ?_⟩
  · rw [hmap, find?_insert]
    split_ifs with hid
    · have hm : (⟨makeStaticTaskId step cp.currentNode, answerOf request.value⟩ : GateAnswer)
          ∈ gateAnswersOf step gates (values ++ [request.value]) := by
        rw [gateAnswersOf_append step hnd]
        exact mem_append_right _ (mem_singleton_self _)
      rw [hid]
      exact (find?_answerMap_of_mem (gateAnswersOf_nodup step hgs _) hm).symm
    · rfl
  · rw [han]
    exact ⟨fun heq => ⟨(Option.some.inj heq).symm, hne⟩, fun heq => congrArg some heq.1.symm⟩

/-! ## What the invocations receive -/

/-- What an invocation is meant to receive: the node of a gate the value that
was given for it, and every other invocation nothing. -/
def expectedValue (step : ℕ) (gates : List String) (values : List (Json String)) (step' : ℕ) :
    InvocationKind → Option (Json String)
  | .static node =>
    if step' = step then ((gates.zip values).find? fun p => p.1 = node).bind fun p => answerOf p.2
    else none
  | .send _ _ _ => none

/-- A Send has the task id of a gate that was answered with a value: the
gate is named like the Send. -/
def SharesGateId (step : ℕ) (gates : List String) (values : List (Json String)) (step' : ℕ) :
    InvocationKind → Prop
  | .static _ => False
  | .send index target input => step' = step ∧ ∃ p ∈ gates.zip values,
      makeStaticTaskId step p.1 = makeSendTaskId step index target input ∧ answerOf p.2 ≠ none

theorem find?_gateAnswersOf (step : ℕ) (gates : List String) (values : List (Json String))
    (id : String) : ((gateAnswersOf step gates values).find? fun answer => answer.id = id).map value
      = ((gates.zip values).find? fun p => makeStaticTaskId step p.1 = id).map
          fun p => answerOf p.2 := by
  unfold gateAnswersOf
  rw [List.find?_map, Option.map_map]
  rfl

/-- **The value an invocation receives** in a run that executes the step. -/
theorem bindResumeValue_eq (hgs : gates.Nodup) (h : run.Answered step gates values)
    (hle : step ≤ step') (id : String) : (run.bindResumeValue step' id).1
      = if step' = step then ((gates.zip values).find? fun p => makeStaticTaskId step p.1 = id).bind
          fun p => answerOf p.2
        else none := by
  have ha := h.answeredStep step' hle
  unfold bindResumeValue
  by_cases hs : step' = step
  · subst hs
    rw [if_pos rfl]
    split_ifs with hr
    · dsimp only
      rw [h.answers hr, find?_answerMap (gateAnswersOf_nodup step' hgs values),
        find?_gateAnswersOf]
      cases (gates.zip values).find? fun p => makeStaticTaskId step' p.1 = id with
      | none | some p => rfl
    · have hn : values = [] := by
        by_contra hne
        exact hr (ha.mpr ⟨rfl, hne⟩)
      rw [hn, zip_nil_right]
      rfl
  · rw [if_neg fun hr => hs (ha.mp hr).1, if_neg hs]

/-- No value is found under a task id exactly if no gate that was answered
with a value has it. -/
theorem answer_eq_none_iff (step : ℕ) (hgs : gates.Nodup) (values : List (Json String))
    (id : String) : (((gates.zip values).find? fun p => makeStaticTaskId step p.1 = id).bind
        fun p => answerOf p.2) = none ↔
      ¬ ∃ p ∈ gates.zip values, makeStaticTaskId step p.1 = id ∧ answerOf p.2 ≠ none := by
  have hnd : ((gates.zip values).map Prod.fst).Nodup := by
    rw [map_fst_zip_eq_take]
    exact hgs.sublist (take_sublist _ _)
  cases hf : (gates.zip values).find? fun p => makeStaticTaskId step p.1 = id with
  | none =>
    rw [find?_eq_none] at hf
    refine iff_of_true rfl ?_
    rintro ⟨p, hp, hid, -⟩
    exact hf p hp (decide_eq_true hid)
  | some p =>
    have hp := mem_of_find?_eq_some hf
    have hid := find?_some hf
    constructor
    · rintro hn ⟨q, hq, hqid, hv⟩
      have hnode : q.1 = p.1 := makeStaticTaskId_inj.mp (hqid.trans (of_decide_eq_true hid).symm)
      obtain rfl := inj_on_of_nodup_map hnd hq hp hnode
      exact hv hn
    · intro hno
      by_contra hv
      exact hno ⟨p, hp, of_decide_eq_true hid, hv⟩

/-- **An invocation receives what it is meant to**, unless it is a Send that
shares the task id of an answered gate. -/
theorem received_eq_expected_iff (hgs : gates.Nodup) (h : run.Answered step gates values)
    (hle : step ≤ step') (kind : InvocationKind) :
    (run.bindResumeValue step' (kind.taskId step')).1 = expectedValue step gates values step' kind
      ↔ ¬ SharesGateId step gates values step' kind := by
  rw [bindResumeValue_eq hgs h hle]
  cases kind with
  | static node =>
    refine iff_of_true ?_ not_false
    show (if step' = step then _ else none) = (if step' = step then _ else none)
    split_ifs with hs
    · subst hs
      congr 2
      funext p
      rw [decide_eq_decide]
      exact makeStaticTaskId_inj
    · rfl
  | send index target input =>
    show (if step' = step then _ else none) = none ↔ ¬ (step' = step ∧ _)
    by_cases hs : step' = step
    · subst hs
      rw [if_pos rfl, and_iff_right rfl]
      exact answer_eq_none_iff step' hgs values (makeSendTaskId step' index target input)
    · rw [if_neg hs]
      exact iff_of_true rfl fun h => hs h.1

/-! ## Every gate is asked once -/

/-- **A super-step that is entered and resumed.** The answers given so far,
and the run that has them. A resume answers the checkpoint its predecessor
paused with; the metadata may have got other members beside the reserved
one. -/
inductive Asked (g : Graph σ) (step : ℕ) (ready : List String) :
    List (Json String) → GateRun → Prop where
  | entered {run : GateRun} (hrun : Enters (σ := σ) g.interruptBefore step run) :
      Asked g step ready [] run
  | answered {values : List (Json String)} {run run' : GateRun}
      (h : Asked g step ready values run) {env : Environment σ} {remaining : ℕ}
      {s s' : RunState σ} {node : String} (hready : s.ready = ready)
      (hpause : g.loop (env.withGates run) true (remaining + 1) step s
        = ([], s', some (.interruptedBefore node)))
      {cp : Checkpoint σ} (hcp : s'.saved.getLast? = some cp) (reserved : ReservedMetadata)
      {stored : Json String} (hstored : stored.get? metadataNamespace
        = (run.gateMetadata step (checkpointMetadata reserved)).get? metadataNamespace)
      (request : ResumeRequest)
      (hresume : resumeRun g.interruptBefore cp stored request = .ok run') :
      Asked g step ready (values ++ [request.value]) run'

/-- The checkpoint of a gate. -/
theorem getLast?_saved_save (s : RunState σ) (state : σ) (currentNode : String)
    (nextNodes : List String) (phase : CheckpointPhase) (step : ℕ) :
    (s.save state currentNode nextNodes phase step).saved.getLast?
      = some ⟨state, currentNode, nextNodes, phase, step, s.lastCheckpoint, s.barrierState,
          s.marks⟩ :=
  getLast?_concat

theorem mem_gatesOf_iff : node ∈ g.gatesOf ready ↔ node ∈ ready ∧ node ∈ g.interruptBefore := by
  unfold gatesOf
  rw [mem_filter, decide_eq_true_iff]

/-- **Answers accumulate in order**, at most one for each gate. -/
theorem Asked.answered_spec (hnd : ready.Nodup) (h : Asked g step ready values run) :
    values.length ≤ (g.gatesOf ready).length ∧ run.Answered step (g.gatesOf ready) values := by
  induction h with
  | entered hr => exact ⟨Nat.zero_le _, answered_of_enters hr _⟩
  | @answered values run run' h env remaining s s' node hrdy hp cp hcp reserved stored
      hst request hrsm ih =>
    obtain ⟨hl, ha⟩ := ih
    obtain ⟨hh, rfl⟩ := heldGate_of_loop hp
    rw [hrdy, heldGate_eq hnd ha hl] at hh
    rw [getLast?_saved_save] at hcp
    obtain rfl := Option.some.inj hcp
    obtain ⟨hlt, -⟩ := List.getElem?_eq_some_iff.mp hh
    refine ⟨?_, answered_of_resumeRun (hnd.filter _) ha hh
      (mem_gatesOf_iff.mp (mem_of_getElem? hh)).2 rfl rfl rfl hst hrsm⟩
    rw [length_append]
    exact hlt

/-- **Every gate is asked once, and its answer reaches its node.** Let a
super-step be entered and resumed, each time from the pause before, with as
many answers as `values`. There are at most as many answers as gates. While
there are fewer, the loop pauses before the next gate in ready order, with
nothing of the step executed, and the pause can be resumed. When every gate
is answered the step executes; and from there on an invocation receives what
it is meant to – the node of a gate the value given for it, every other
invocation of this step and of later ones nothing – if and only if it is no
Send that shares the task id of a gate answered with a value. -/
theorem gate_answers_reach_iff {step : ℕ} {ready : List String} {values : List (Json String)}
    {run : GateRun} (hnd : ready.Nodup) (h : Asked g step ready values run) (hne : ready ≠ [])
    {s : RunState σ} (hr : s.ready = ready) (hbud : env.budgetExhausted step = false)
    (hc : env.cancelled step = false) (remaining : ℕ) :
    values.length ≤ (g.gatesOf ready).length ∧
      (∀ node, (g.gatesOf ready)[values.length]? = some node →
        g.loop (env.withGates run) true (remaining + 1) step s
            = ([], s.save s.state node ready .before step, some (.interruptedBefore node)) ∧
          (∀ step' s', ¬ g.Executes (env.withGates run) true (remaining + 1) step s step' s') ∧
          ∀ cp reserved stored request,
            (s.save s.state node ready .before step).saved.getLast? = some cp →
            stored.get? metadataNamespace
              = (run.gateMetadata step (checkpointMetadata reserved)).get? metadataNamespace →
            request.requested = "" →
            ∃ run', resumeRun g.interruptBefore cp stored request = .ok run') ∧
      (values.length = (g.gatesOf ready).length →
        g.Executes (env.withGates run) true (remaining + 1) step s step s ∧
          ∀ step' s', g.Executes (env.withGates run) true (remaining + 1) step s step' s' →
            ∀ kind : InvocationKind,
              (run.bindResumeValue step' (kind.taskId step')).1
                  = expectedValue step (g.gatesOf ready) values step' kind ↔
                ¬ SharesGateId step (g.gatesOf ready) values step' kind) := by
  obtain ⟨hl, han⟩ := h.answered_spec hnd
  have hh : g.heldGate (env.withGates run) true step s.ready
      = (g.gatesOf ready)[values.length]? := by
    rw [hr]
    exact heldGate_eq hnd han hl
  refine ⟨hl, fun node hn => ?_, fun ha => ⟨?_, fun step' s' hexec kind => ?_⟩⟩
  · rw [hn] at hh
    have hbud' : (env.withGates run).budgetExhausted step = false := hbud
    have hc' : (env.withGates run).cancelled step = false := hc
    obtain ⟨hlp, hnothing⟩ := loop_of_heldGate remaining hbud' hc' hh
    rw [hr] at hlp
    refine ⟨hlp, hnothing, fun cp reserved stored request hcp hst hreqd => ?_⟩
    rw [getLast?_saved_save] at hcp
    obtain rfl := Option.some.inj hcp
    exact resumeRun_gate_ok rfl (mem_gatesOf_iff.mp (mem_of_getElem? hn)).2 hreqd
      (recordedGateAnswers_gateMetadata han reserved hst)
  · rw [ha, getElem?_eq_none le_rfl] at hh
    exact Graph.Executes.here hbud hc (hr ▸ hne) hh
  · exact received_eq_expected_iff (hnd.filter _) han hexec.le kind

/-! ## Approvals -/

/-- A graph with one gate and no edges. -/
def approvalGraph (gate : String) : Graph Unit :=
  { scheduler :=
      { edges := []
        conditionalEdges := []
        barrierSpecs := empty
        joinSpecs := empty
        failureTargets := empty
        registry := ⟨fun name => .error (.runtimeError name), fun _ => none⟩ }
    failureExits := empty
    interruptBefore := {gate}
    interruptAfter := ∅
    failureTarget_ne_end := nofun }

/-- An environment in which nothing stops a run, and no node runs. -/
def calmEnvironment : Environment Unit :=
  { budgetExhausted := fun _ => false
    cancelled := fun _ => false
    gatePassed := fun _ _ => false
    runReady := fun _ _ => .error .interrupted
    runSends := fun _ _ _ => .error .interrupted
    safePoint := fun _ => false }

/-- A run before its first step. -/
def approvalStart (ready : List String) : RunState Unit :=
  enter () ready empty none []

/-- A run that paused before its only gate is resumed with an approval. -/
theorem exists_asked_approved {gate : String} (hnd : ready.Nodup)
    (hg : (approvalGraph gate).gatesOf ready = [gate]) :
    ∃ run, Asked (approvalGraph gate) 0 ready [.bool true] run := by
  have he : Asked (approvalGraph gate) 0 ready [] {} := Asked.entered GateRun.Enters.fresh
  obtain ⟨hl, ha⟩ := he.answered_spec hnd
  have hh : (approvalGraph gate).heldGate (calmEnvironment.withGates {}) true 0
      (approvalStart ready).ready = some gate := by
    refine (heldGate_eq hnd ha hl).trans ?_
    rw [hg]
    rfl
  obtain ⟨hp, -⟩ := loop_of_heldGate 0 rfl rfl hh
  have hrsm : ∃ run, resumeRun {gate}
      (⟨(), gate, ready, .before, 0, none, SortedMap.empty, {}⟩ : Checkpoint Unit)
      .null ⟨.bool true, "", "pause", .ok [], fun _ => false⟩ = .ok run :=
    resumeRun_gate_ok rfl (Finset.mem_singleton_self gate) rfl (recordedGateAnswers_eq {} [] rfl)
  obtain ⟨run, hr⟩ := hrsm
  exact ⟨run, Asked.answered he rfl hp (getLast?_saved_save ..) {} rfl _ hr⟩

/-- A run that paused before its gate and got an approval executes the step,
and the node of the gate receives the approval. -/
theorem gate_answers_reach_iff_approved :
    ∃ run, Asked (approvalGraph "ask") 0 ["ask"] [.bool true] run
      ∧ (approvalGraph "ask").Executes (calmEnvironment.withGates run) true 1 0
        (approvalStart ["ask"]) 0 (approvalStart ["ask"])
      ∧ (run.bindResumeValue 0 ((InvocationKind.static "ask").taskId 0)).1
        = some (.bool true) := by
  have hg : (approvalGraph "ask").gatesOf ["ask"] = ["ask"] := by
    decide +kernel
  obtain ⟨run, has⟩ := exists_asked_approved (nodup_singleton "ask") hg
  have hr : (approvalStart ["ask"]).ready = ["ask"] := rfl
  have hbud : calmEnvironment.budgetExhausted 0 = false := rfl
  obtain ⟨-, -, ha⟩ := gate_answers_reach_iff (nodup_singleton "ask") has
    (cons_ne_nil _ _) hr hbud rfl 0
  obtain ⟨hexec, hrecv⟩ := ha (by rw [hg]; rfl)
  refine ⟨run, has, hexec, ((hrecv 0 _ hexec (.static "ask")).mpr not_false).trans ?_⟩
  rw [hg]
  rfl

/-- A name that makes a node's task id that of a Send. -/
def sendLikeName : String := "send[0]:work:" ++ fnv1aHex "\x7b\x7d"

theorem makeStaticTaskId_sendLikeName :
    makeStaticTaskId 0 sendLikeName = makeSendTaskId 0 0 "work" "\x7b\x7d" := by
  decide +kernel

/-- The super-step of that node and of one that emits the Send. -/
def approvalReady : List String := [sendLikeName, "plan"]

theorem approvalReady_nodup : approvalReady.Nodup := by
  decide +kernel

theorem gatesOf_approvalReady :
    (approvalGraph sendLikeName).gatesOf approvalReady = [sendLikeName] := by
  decide +kernel

/-- **A gate that is named like a Send** of its step: the run pauses before
it, is resumed with an approval, and executes; the Send is meant to receive
nothing, and receives the approval of the gate. -/
theorem send_receives_gate_answer :
    ∃ run, Asked (approvalGraph sendLikeName) 0 approvalReady [.bool true] run ∧
      expectedValue 0 ((approvalGraph sendLikeName).gatesOf approvalReady) [.bool true] 0
        (.send 0 "work" "\x7b\x7d") = none ∧
      (run.bindResumeValue 0 ((InvocationKind.send 0 "work" "\x7b\x7d").taskId 0)).1
        = some (.bool true) := by
  obtain ⟨run, has⟩ := exists_asked_approved approvalReady_nodup gatesOf_approvalReady
  obtain ⟨-, ha⟩ := has.answered_spec approvalReady_nodup
  refine ⟨run, has, rfl, ?_⟩
  rw [gatesOf_approvalReady] at ha
  rw [bindResumeValue_eq (nodup_singleton sendLikeName) ha le_rfl, if_pos rfl]
  have hf : find? (fun p : String × Json String =>
      makeStaticTaskId 0 p.1 = makeSendTaskId 0 0 "work" "\x7b\x7d")
      [(sendLikeName, Json.bool true)] = some (sendLikeName, Json.bool true) :=
    find?_cons_of_pos (decide_eq_true makeStaticTaskId_sendLikeName)
  show (find? _ [(sendLikeName, Json.bool true)]).bind _ = _
  refine (congrArg (fun found => Option.bind found fun p => answerOf p.2) hf).trans ?_
  rfl

end NeoGraph
