import NeoGraph.PlanSpec

/-!
# A plan does not depend on the order of its routings

The barrier state belongs to the caller: planning writes to it while it runs,
and an exception leaves it as it is at that moment. Here planning is written
with the barrier state as a variable (`PlanM`), in the order in which the
scheduler reads, resolves and gates: `Scheduler.planM_run` says that this is
the function of `Scheduler.planNextStep`, and that an exception finds the
state as it was.

What is planned depends on which nodes are routed to what, and on nothing
else: the routings may come in any order and more than once
(`Scheduler.plan_order_independent`). Without declared joins the signals of
the targets need not be kept, and sorting the successors gives the same plan.
-/

namespace NeoGraph

open List SortedMap Scheduler

variable {σ : Type}

/-! ## Planning with effects -/

/-- A computation that may write to the barrier state, and may throw. -/
abbrev PlanM := ExceptT Exn (StateM BarrierState)

/-- A computation that cannot write to the barrier state. -/
def PlanM.lift {α : Type} (x : Except Exn α) : PlanM α := ExceptT.mk (pure x)

/-- A computation goes on from the state its first part left. -/
theorem PlanM.run_bind {α β : Type} {x : PlanM α} {barriers after : BarrierState} {a : α}
    (h : x.run.run barriers = (.ok a, after)) (f : α → PlanM β) :
    (x >>= f).run.run barriers = (f a).run.run after := by
  show (match x.run.run barriers with
    | (r, b) => StateT.run (ExceptT.bindCont f r) b) = _
  rw [h]
  rfl

namespace Scheduler

variable (sch : Scheduler σ)

/-- A successor that ends the run. -/
def noteEnd (node : String) (plan : NextStepPlan) : NextStepPlan :=
  { plan with
    hitEnd := true
    hitExplicitEnd := plan.hitExplicitEnd || !sch.endsImplicitly node }

/-- One successor, where every successor fires. -/
def fireNext (node : String) (plan : NextStepPlan) (next : String) : NextStepPlan :=
  if next = endNode then sch.noteEnd node plan else { plan with ready := plan.ready ++ [next] }

/-- The plan where every successor fires. -/
def fastPath (state : σ) (routed : List (StepRouting × Bool)) : Except Exn NextStepPlan := do
  let plan ← routed.foldlM (fun plan p => do
    let nexts ← sch.successorsOf state p.1.nodeName p.2
    .ok (nexts.foldl (sch.fireNext p.1.nodeName) plan)) {}
  .ok { plan with ready := sortUnique plan.ready }

/-- One successor, where targets are gated: the signaler is kept. -/
def signalNext (node : String) (acc : NextStepPlan × SortedMap String (Finset String))
    (next : String) : NextStepPlan × SortedMap String (Finset String) :=
  if next = endNode then (sch.noteEnd node acc.1, acc.2)
  else (acc.1, acc.2.alterD next ∅ (insert node))

/-- Who signalled whom, from resolving every routing. -/
def signalAll (state : σ) (routed : List (StepRouting × Bool)) :
    Except Exn (NextStepPlan × SortedMap String (Finset String)) :=
  routed.foldlM (fun acc p => do
    let nexts ← sch.successorsOf state p.1.nodeName p.2
    .ok (nexts.foldl (sch.signalNext p.1.nodeName) acc)) ({}, ∅)

/-- One signalled target: a join records its signals with the caller, and
clears them when it fires. -/
def gateTarget (ready : List String) (entry : String × Finset String) : PlanM (List String) := do
  if sch.isBarrier entry.1 then
    modify fun barriers => barriers.alterD entry.1 ∅ (· ∪ entry.2)
    let accum := (← get).getD entry.1 ∅
    if satisfied (sch.barrierSpecs.find? entry.1) (sch.joinSpecs.find? entry.1) accum then
      modify fun barriers => barriers.insert entry.1 ∅
      return ready ++ [entry.1]
    else return ready
  else return ready ++ [entry.1]

/-- The plan of gated targets. -/
def signalPath (state : σ) (routed : List (StepRouting × Bool)) : PlanM NextStepPlan := do
  let (plan, signals) ← PlanM.lift (sch.signalAll state routed)
  let ready ← signals.entries.foldlM sch.gateTarget []
  return { plan with ready := ready }

/-- **Planning the next super-step**, over the caller's barrier state. -/
def planM (routings : List StepRouting) (state : σ) (failed : List Bool) : PlanM NextStepPlan := do
  let flags ← PlanM.lift (failedFlags routings failed)
  match winningGoto routings with
  | some target => return gotoPlan target
  | none =>
    if sch.barrierSpecs.isEmpty && sch.joinSpecs.isEmpty then
      PlanM.lift (sch.fastPath state (routings.zip flags))
    else sch.signalPath state (routings.zip flags)

/-- What planning returns or throws, and the barrier state it leaves. -/
def runPlan (routings : List StepRouting) (state : σ) (failed : List Bool)
    (barriers : BarrierState) : Except Exn NextStepPlan × BarrierState :=
  (sch.planM routings state failed).run.run barriers

/-! ## The loops -/

/-- The loop over the routings resolves all of them, and then visits what they
resolved to. -/
theorem foldlM_successorsOf {α : Type} (f : String → α → String → α) (state : σ)
    (l : List (StepRouting × Bool)) (acc : α) :
    l.foldlM (fun acc p => do
      let nexts ← sch.successorsOf state p.1.nodeName p.2
      Except.ok (nexts.foldl (f p.1.nodeName) acc)) acc
      = (sch.routeAll state l).map fun routed =>
        routed.foldl (fun acc p => p.2.foldl (f p.1) acc) acc := by
  induction l generalizing acc with
  | nil => rfl
  | cons p l ih =>
    rw [foldlM_cons, routeAll]
    cases hnexts : sch.successorsOf state p.1.nodeName p.2 with
    | error x => rfl
    | ok nexts =>
      refine (ih (nexts.foldl (f p.1.nodeName) acc)).trans ?_
      cases hr : sch.routeAll state l with
      | error x | ok routed => rfl

theorem foldl_fireNext (node : String) (nexts : List String) (plan : NextStepPlan) :
    nexts.foldl (sch.fireNext node) plan = { plan with
      ready := plan.ready ++ nexts.filter (· ≠ endNode)
      hitEnd := plan.hitEnd || nexts.contains endNode
      hitExplicitEnd := plan.hitExplicitEnd
        || nexts.contains endNode && !sch.endsImplicitly node } := by
  induction nexts generalizing plan with
  | nil =>
    show plan = { plan with
      ready := plan.ready ++ []
      hitEnd := plan.hitEnd || false
      hitExplicitEnd := plan.hitExplicitEnd || false }
    rw [List.append_nil, Bool.or_false, Bool.or_false]
  | cons next nexts ih =>
    rw [foldl_cons, ih]
    unfold fireNext noteEnd
    by_cases hnx : next = endNode
    · subst hnx
      rw [if_pos rfl, filter_cons_of_neg (by simp), contains_cons]
      simp only [beq_self_eq_true, Bool.true_or, Bool.or_true, Bool.true_and, Bool.or_assoc]
      cases sch.endsImplicitly node with
      | true | false => simp
    · rw [if_neg hnx, filter_cons_of_pos (by simpa using hnx), contains_cons,
        beq_eq_false_iff_ne.mpr (Ne.symm hnx), Bool.false_or, List.append_assoc]
      rfl

theorem foldl_signalNext (node : String) (nexts : List String)
    (acc : NextStepPlan × SortedMap String (Finset String)) :
    nexts.foldl (sch.signalNext node) acc = ({ acc.1 with
      hitEnd := acc.1.hitEnd || nexts.contains endNode
      hitExplicitEnd := acc.1.hitExplicitEnd
        || nexts.contains endNode && !sch.endsImplicitly node },
      nexts.foldl (addSignal node) acc.2) := by
  induction nexts generalizing acc with
  | nil =>
    show acc = ({ acc.1 with
      hitEnd := acc.1.hitEnd || false
      hitExplicitEnd := acc.1.hitExplicitEnd || false }, acc.2)
    rw [Bool.or_false, Bool.or_false]
  | cons next nexts ih =>
    rw [foldl_cons, foldl_cons, ih]
    unfold signalNext noteEnd addSignal
    by_cases hnx : next = endNode
    · subst hnx
      rw [if_pos rfl, if_pos rfl, contains_cons]
      simp only [beq_self_eq_true, Bool.true_or, Bool.or_true, Bool.true_and, Bool.or_assoc]
      cases sch.endsImplicitly node with
      | true | false => simp
    · rw [if_neg hnx, if_neg hnx, contains_cons,
        beq_eq_false_iff_ne.mpr (Ne.symm hnx), Bool.false_or]

/-- The plan of a super-step where every successor fires. -/
theorem foldl_fireNext_routed (routed : List (String × List String)) :
    routed.foldl (fun plan p => p.2.foldl (sch.fireNext p.1) plan) {}
      = sch.routedPlan routed ((routed.flatMap Prod.snd).filter (· ≠ endNode)) := by
  induction routed using reverseRecOn with
  | nil => rfl
  | append_singleton routed p ih =>
    rw [foldl_append, ih, foldl_cons, foldl_nil, foldl_fireNext]
    unfold routedPlan
    rw [flatMap_append, filter_append, any_append, any_append,
      List.flatMap_singleton, List.any_cons, List.any_nil, Bool.or_false, List.any_cons,
      any_nil, Bool.or_false]

/-- Who signalled whom in a super-step. -/
theorem foldl_signalNext_routed (routed : List (String × List String)) :
    routed.foldl (fun acc p => p.2.foldl (sch.signalNext p.1) acc) ({}, ∅)
      = (sch.routedPlan routed [], collectSignals routed) := by
  induction routed using reverseRecOn with
  | nil => rfl
  | append_singleton routed p ih =>
    rw [foldl_append, ih, foldl_cons, foldl_nil, foldl_signalNext]
    unfold routedPlan collectSignals
    rw [List.any_append, List.any_append, List.any_cons, List.any_nil, Bool.or_false,
      any_cons, any_nil, Bool.or_false, foldl_append, foldl_cons,
      foldl_nil]

/-! ## What planning does to the barrier state -/

/-- Gating a target writes what the gate says. -/
theorem run_gateTarget (ready : List String) (entry : String × Finset String)
    (barriers : BarrierState) : (sch.gateTarget ready entry).run.run barriers
      = (.ok (sch.gate (ready, barriers) entry).1, (sch.gate (ready, barriers) entry).2) := by
  unfold gateTarget gate
  by_cases hb : sch.isBarrier entry.1 = true
  · have hg : (barriers.alterD entry.1 ∅ (· ∪ entry.2)).getD entry.1 ∅
        = barriers.getD entry.1 ∅ ∪ entry.2 := by
      unfold SortedMap.getD
      rw [find?_alterD, if_pos rfl]
      rfl
    have hclr : (barriers.alterD entry.1 ∅ (· ∪ entry.2)).insert entry.1 ∅
        = barriers.insert entry.1 ∅ := by
      refine ext_find? fun k => ?_
      rw [find?_insert, find?_insert, find?_alterD]
      by_cases hk : k = entry.1
      · rw [if_pos hk, if_pos hk]
      · rw [if_neg hk, if_neg hk, if_neg hk]
    have haccum : barriers.alterD entry.1 ∅ (· ∪ entry.2)
        = barriers.insert entry.1 (barriers.getD entry.1 ∅ ∪ entry.2) := rfl
    rw [if_pos hb, if_pos hb]
    dsimp only
    rw [← hg]
    by_cases hfil : satisfied (sch.barrierSpecs.find? entry.1) (sch.joinSpecs.find? entry.1)
        ((barriers.alterD entry.1 ∅ (· ∪ entry.2)).getD entry.1 ∅) = true
    · rw [if_pos hfil, ← hclr]
      show (ite _ _ _ : PlanM (List String)).run.run _ = _
      rw [if_pos hfil]
      rfl
    · rw [if_neg hfil, hg, ← haccum]
      show (ite _ _ _ : PlanM (List String)).run.run _ = _
      rw [if_neg hfil]
      rfl
  · rw [if_neg hb, if_neg hb]
    rfl

/-- Gating the signalled targets writes what the gates say. -/
theorem run_foldlM_gateTarget (entries : List (String × Finset String)) (ready : List String)
    (barriers : BarrierState) : (entries.foldlM sch.gateTarget ready).run.run barriers
      = (.ok (entries.foldl sch.gate (ready, barriers)).1,
        (entries.foldl sch.gate (ready, barriers)).2) := by
  induction entries generalizing ready barriers with
  | nil => rfl
  | cons entry entries ih =>
    rw [foldlM_cons, foldl_cons, PlanM.run_bind (sch.run_gateTarget ready entry barriers)]
    exact ih _ _

variable (state : σ)

theorem fastPath_eq (routed : List (StepRouting × Bool)) :
    sch.fastPath state routed = (sch.routeAll state routed).map fun routed =>
      sch.routedPlan routed (sortUnique ((routed.flatMap Prod.snd).filter (· ≠ endNode))) := by
  unfold fastPath
  rw [foldlM_successorsOf sch sch.fireNext]
  cases sch.routeAll state routed with
  | error x => rfl
  | ok routed =>
    dsimp only [Except.map, bind, Except.bind]
    rw [foldl_fireNext_routed]
    rfl

theorem signalAll_eq (routed : List (StepRouting × Bool)) :
    sch.signalAll state routed = (sch.routeAll state routed).map fun routed =>
      (sch.routedPlan routed [], collectSignals routed) := by
  unfold signalAll
  rw [foldlM_successorsOf sch sch.signalNext]
  cases sch.routeAll state routed with
  | error x => rfl
  | ok routed => exact congrArg Except.ok (sch.foldl_signalNext_routed routed)

/-- **The gated path**: nothing is written before every routing has been
resolved. -/
theorem run_signalPath (routed : List (StepRouting × Bool)) (barriers : BarrierState) :
    (sch.signalPath state routed).run.run barriers
      = match sch.routeAll state routed with
        | .error x => (.error x, barriers)
        | .ok routed =>
          (.ok (sch.routedPlan routed
              ((collectSignals routed).entries.foldl sch.gate ([], barriers)).1),
            ((collectSignals routed).entries.foldl sch.gate ([], barriers)).2) := by
  unfold signalPath
  rw [signalAll_eq]
  cases sch.routeAll state routed with
  | error x => rfl
  | ok routed =>
    have hlift : (PlanM.lift ((Except.ok routed : Except Exn _).map fun routed =>
        (sch.routedPlan routed [], collectSignals routed))).run.run barriers
          = (.ok (sch.routedPlan routed [], collectSignals routed), barriers) := rfl
    rw [PlanM.run_bind hlift]
    dsimp only
    rw [PlanM.run_bind (sch.run_foldlM_gateTarget (collectSignals routed).entries [] barriers)]
    rfl

/-- **Planning with effects is the planning function**: it returns what that
returns with the state it leaves, and an exception finds the state as it
was. -/
theorem runPlan_eq (routings : List StepRouting) (state : σ) (failed : List Bool)
    (barriers : BarrierState) :
    sch.runPlan routings state failed barriers
      = match sch.planNextStep routings state barriers failed with
        | .error x => (.error x, barriers)
        | .ok (plan, after) => (.ok plan, after) := by
  unfold runPlan planM planNextStep planImpl
  cases failedFlags routings failed with
  | error x => rfl
  | ok flags =>
    cases hg : winningGoto routings with
    | some target => rfl
    | none =>
      show (ite _ _ _ : PlanM NextStepPlan).run.run barriers = _
      by_cases he : (sch.barrierSpecs.isEmpty && sch.joinSpecs.isEmpty) = true
      · rw [if_pos he, fastPath_eq]
        dsimp only [bind, Except.bind]
        cases sch.routeAll state (routings.zip flags) with
        | error x => rfl
        | ok routed =>
          dsimp only
          rw [if_pos he]
          rfl
      · rw [if_neg he, run_signalPath]
        dsimp only [bind, Except.bind]
        cases sch.routeAll state (routings.zip flags) with
        | error x => rfl
        | ok routed =>
          dsimp only
          rw [if_neg he]
          rfl

/-! ## Routings as a set -/

theorem routeAll_isOk_iff (l : List (StepRouting × Bool)) :
    (∃ routed, sch.routeAll state l = .ok routed)
      ↔ ∀ q ∈ l, ∃ nexts, sch.successorsOf state q.1.nodeName q.2 = .ok nexts := by
  induction l with
  | nil => exact ⟨fun _ => nofun, fun _ => ⟨[], rfl⟩⟩
  | cons p l ih =>
    rw [forall_mem_cons, ← ih]
    constructor
    · rintro ⟨routed, h⟩
      obtain ⟨nexts, hnexts, h⟩ := bind_eq_ok.mp h
      obtain ⟨rest, hr, -⟩ := bind_eq_ok.mp h
      exact ⟨⟨nexts, hnexts⟩, rest, hr⟩
    · rintro ⟨⟨nexts, hnexts⟩, rest, hr⟩
      exact ⟨_, bind_eq_ok.mpr ⟨nexts, hnexts, bind_eq_ok.mpr ⟨rest, hr, rfl⟩⟩⟩

/-- The same routings resolve to the same successors. -/
theorem routeAll_congr {state : σ} {l l' : List (StepRouting × Bool)} (h : ∀ q, q ∈ l ↔ q ∈ l')
    {routed : List (String × List String)} (hrt : sch.routeAll state l = .ok routed) :
    ∃ routed', sch.routeAll state l' = .ok routed' ∧ ∀ p, p ∈ routed ↔ p ∈ routed' := by
  obtain ⟨routed', hrt'⟩ := (sch.routeAll_isOk_iff state l').mpr fun q hq =>
    (sch.routeAll_isOk_iff state l).mp ⟨routed, hrt⟩ q ((h q).mpr hq)
  refine ⟨routed', hrt', fun p => ?_⟩
  rw [sch.mem_routeAll_iff state hrt, sch.mem_routeAll_iff state hrt']
  exact exists_congr fun q => and_congr_left fun _ => h q

theorem routedPlan_congr {routed routed' : List (String × List String)}
    (h : ∀ p, p ∈ routed ↔ p ∈ routed') (ready : List String) :
    sch.routedPlan routed ready = sch.routedPlan routed' ready := by
  have hany : ∀ f : String × List String → Bool, routed.any f = routed'.any f := by
    intro f
    rw [Bool.eq_iff_iff, List.any_eq_true, List.any_eq_true]
    exact exists_congr fun p => and_congr_left fun _ => h p
  unfold routedPlan
  rw [hany, hany]

end Scheduler

theorem collectSignals_congr {routed routed' : List (String × List String)}
    (h : ∀ p, p ∈ routed ↔ p ∈ routed') : collectSignals routed = collectSignals routed' := by
  have hsignalers : ∀ t, signalers routed t = signalers routed' t := by
    intro t
    ext node
    exact and_congr Iff.rfl (exists_congr fun p => and_congr_left fun _ => h p)
  refine ext_find? fun t => ?_
  obtain ⟨hn, hf⟩ | ⟨hsm, s, hf, hs⟩ := find?_collectSignals routed t
  · obtain ⟨-, hf'⟩ | ⟨hsm', -⟩ := find?_collectSignals routed' t
    · rw [hf, hf']
    · rw [← hsignalers, hn] at hsm'
      exact absurd hsm' Set.not_nonempty_empty
  · obtain ⟨hn', -⟩ | ⟨-, s', hf', hs'⟩ := find?_collectSignals routed' t
    · rw [← hsignalers] at hn'
      rw [hn'] at hsm
      exact absurd hsm Set.not_nonempty_empty
    · rw [hf, hf']
      exact congrArg some (Finset.coe_injective (hs.trans ((hsignalers t).trans hs'.symm)))

/-! ## Sorted successors -/

theorem pairwise_sortUnique (l : List String) : (sortUnique l).Pairwise (· < ·) := by
  have hs := pairwise_insertionSort (· ≤ ·) l
  unfold sortUnique
  rw [hs.destutter_eq_dedup]
  refine ((hs.sublist (dedup_sublist _)).and (nodup_dedup _)).imp ?_
  exact fun h => lt_of_le_of_ne h.1 h.2

/-- Sorting without duplicates gives the one sorted list with these members. -/
theorem sortUnique_eq {l l' : List String} (hs : l'.Pairwise (· < ·))
    (h : ∀ t, t ∈ l ↔ t ∈ l') : sortUnique l = l' := by
  exact (pairwise_sortUnique l).eq_of_mem_iff hs fun t => (mem_sortUnique l t).trans (h t)

namespace Scheduler

variable (sch : Scheduler σ)

/-! ## One plan for one set of routings -/

/-- Without declared joins every signalled target fires, in order. -/
theorem foldl_gate_plain (hjs : ∀ t, sch.isBarrier t = false)
    (entries : List (String × Finset String)) (ready : List String) (barriers : BarrierState) :
    entries.foldl sch.gate (ready, barriers) = (ready ++ entries.map Prod.fst, barriers) := by
  induction entries generalizing ready with
  | nil => exact Prod.ext (append_nil _).symm rfl
  | cons entry entries ih =>
    rw [foldl_cons]
    unfold gate
    rw [if_neg (by rw [hjs]; exact Bool.false_ne_true)]
    refine (ih _).trans ?_
    rw [map_cons, append_assoc]
    rfl

theorem isBarrier_of_isEmpty (h : (sch.barrierSpecs.isEmpty && sch.joinSpecs.isEmpty) = true)
    (t : String) : sch.isBarrier t = false := by
  obtain ⟨hspecs, hjs⟩ := Bool.and_eq_true_iff.mp h
  unfold isBarrier SortedMap.contains SortedMap.find?
  rw [isEmpty_iff.mp hspecs, isEmpty_iff.mp hjs]
  rfl

/-- The targets that are signalled. -/
theorem mem_keys_collectSignals (routed : List (String × List String)) (t : String) :
    t ∈ (collectSignals routed).keys ↔ t ≠ endNode ∧ ∃ p ∈ routed, t ∈ p.2 := by
  have hk : t ∈ (collectSignals routed).keys ↔ (signalers routed t).Nonempty := by
    unfold SortedMap.keys
    rw [mem_map]
    constructor
    · rintro ⟨⟨t', s⟩, he, rfl⟩
      have hs := (mem_entries_iff _ _ _).mp he
      obtain ⟨-, hn⟩ | ⟨hsm, -⟩ := find?_collectSignals routed t'
      · rw [hs] at hn
        cases hn
      · exact hsm
    · intro hsm
      obtain ⟨hn, -⟩ | ⟨-, s, hs, -⟩ := find?_collectSignals routed t
      · rw [hn] at hsm
        exact absurd hsm Set.not_nonempty_empty
      · exact ⟨(t, s), (mem_entries_iff _ _ _).mpr hs, rfl⟩
  rw [hk]
  constructor
  · rintro ⟨node, hne, p, hp, -, ht⟩
    exact ⟨hne, p, hp, ht⟩
  · rintro ⟨hne, p, hp, ht⟩
    exact ⟨p.1, hne, p, hp, rfl, ht⟩

/-- **Without declared joins the two paths agree.** -/
theorem run_signalPath_eq_fastPath (h : (sch.barrierSpecs.isEmpty && sch.joinSpecs.isEmpty) = true)
    (state : σ) (routed : List (StepRouting × Bool)) (barriers : BarrierState) :
    (sch.signalPath state routed).run.run barriers = (sch.fastPath state routed, barriers) := by
  rw [run_signalPath, fastPath_eq]
  cases sch.routeAll state routed with
  | error x => rfl
  | ok routed =>
    have hr : sortUnique ((routed.flatMap Prod.snd).filter (· ≠ endNode))
        = (collectSignals routed).entries.map Prod.fst := by
      refine sortUnique_eq (pairwise_map.mpr (collectSignals routed).sorted) fun t => ?_
      rw [List.mem_filter, List.mem_flatMap, decide_eq_true_eq, and_comm]
      exact (mem_keys_collectSignals routed t).symm
    dsimp only [Except.map]
    rw [foldl_gate_plain sch (sch.isBarrier_of_isEmpty h), hr]
    rfl

variable {routings : List StepRouting}

/-- No routing has a `Command` target. -/
theorem winningGoto_eq_none_iff :
    winningGoto routings = none ↔ ∀ r ∈ routings, r.commandGoto = none := by
  unfold winningGoto
  induction routings using reverseRecOn with
  | nil => exact ⟨fun _ => nofun, fun _ => rfl⟩
  | append_singleton routings r ih =>
    rw [foldl_append, foldl_cons, foldl_nil, Option.or_eq_none_iff, ih]
    constructor
    · rintro ⟨hr, ha⟩ r' hr'
      rw [mem_append, mem_singleton] at hr'
      obtain hr' | rfl := hr'
      · exact ha r' hr'
      · exact hr
    · intro ha
      exact ⟨ha r (mem_append_right _ mem_cons_self),
        fun r' hr' => ha r' (mem_append_left _ hr')⟩

variable {flags failed : List Bool}

theorem length_of_failedFlags (h : failedFlags routings failed = .ok flags) :
    flags.length = routings.length := by
  unfold failedFlags at h
  split at h
  · cases h
    exact length_map _
  split at h
  · cases h
  · rename_i hl
    cases h
    exact not_not.mp hl

/-- Every routing has a flag. -/
theorem mem_routings_iff (h : failedFlags routings failed = .ok flags) (r : StepRouting) :
    r ∈ routings ↔ ∃ flag, (r, flag) ∈ routings.zip flags := by
  have hfst : (routings.zip flags).map Prod.fst = routings :=
    map_fst_zip (length_of_failedFlags h).ge
  conv_lhs => rw [← hfst]
  rw [mem_map]
  constructor
  · rintro ⟨⟨r', flag⟩, hp, rfl⟩
    exact ⟨flag, hp⟩
  · rintro ⟨flag, hp⟩
    exact ⟨(r, flag), hp, rfl⟩

/-- A call without a `Command` target, by its routings with their flags. -/
theorem runPlan_of_flags (hf : failedFlags routings failed = .ok flags)
    (hg : ∀ r ∈ routings, r.commandGoto = none) (state : σ) (barriers : BarrierState) :
    sch.runPlan routings state failed barriers
      = if (sch.barrierSpecs.isEmpty && sch.joinSpecs.isEmpty) = true then
          (sch.fastPath state (routings.zip flags), barriers)
        else (sch.signalPath state (routings.zip flags)).run.run barriers := by
  unfold runPlan planM
  rw [hf, winningGoto_eq_none_iff.mpr hg]
  show (ite _ _ _ : PlanM NextStepPlan).run.run barriers = _
  split <;> rfl

/-- **The next-step plan is a function of the set of routings.** Routings
without a `Command` target give the same plan and leave the same barrier state
in any order and number, or throw in each. Without declared joins sorting the
successors gives the plan that their signals give. An exception finds the
barrier state as it was. -/
theorem plan_order_independent (state : σ) (barriers : BarrierState) :
    (∀ (routings routings' : List StepRouting) (failed failed' flags flags' : List Bool),
      failedFlags routings failed = .ok flags → failedFlags routings' failed' = .ok flags' →
      (∀ r ∈ routings, r.commandGoto = none) →
      (∀ p, p ∈ routings.zip flags ↔ p ∈ routings'.zip flags') →
      (sch.runPlan routings state failed barriers).1.toOption
          = (sch.runPlan routings' state failed' barriers).1.toOption
        ∧ (sch.runPlan routings state failed barriers).2
          = (sch.runPlan routings' state failed' barriers).2)
    ∧ ((sch.barrierSpecs.isEmpty && sch.joinSpecs.isEmpty) = true →
      ∀ routed, (sch.signalPath state routed).run.run barriers
        = (sch.fastPath state routed, barriers))
    ∧ ∀ routings failed x after,
      sch.runPlan routings state failed barriers = (.error x, after) → after = barriers := by
  refine ⟨?_, fun h routed => sch.run_signalPath_eq_fastPath h state routed barriers, ?_⟩
  · intro routings routings' failed failed' flags flags' hf hf' hg hsm
    have hg' : ∀ r ∈ routings', r.commandGoto = none := by
      intro r hr
      obtain ⟨flag, hp⟩ := (mem_routings_iff hf' r).mp hr
      exact hg r ((mem_routings_iff hf r).mpr ⟨flag, (hsm _).mpr hp⟩)
    rw [runPlan_of_flags sch hf hg, runPlan_of_flags sch hf' hg', fastPath_eq,
      fastPath_eq, run_signalPath, run_signalPath]
    cases hrt : sch.routeAll state (routings.zip flags) with
    | error x =>
      cases hrt' : sch.routeAll state (routings'.zip flags') with
      | error x' =>
        split <;> exact ⟨rfl, rfl⟩
      | ok routed' =>
        obtain ⟨routed, hok, -⟩ := sch.routeAll_congr (fun p => (hsm p).symm) hrt'
        rw [hrt] at hok
        cases hok
    | ok routed =>
      obtain ⟨routed', hrt', hm⟩ := sch.routeAll_congr hsm hrt
      have hrdy : sortUnique ((routed.flatMap Prod.snd).filter (· ≠ endNode))
          = sortUnique ((routed'.flatMap Prod.snd).filter (· ≠ endNode)) := by
        refine sortUnique_eq (pairwise_sortUnique _) fun t => ?_
        rw [mem_sortUnique, mem_filter, mem_filter, mem_flatMap, mem_flatMap]
        exact and_congr_left fun _ => exists_congr fun p => and_congr_left fun _ => hm p
      rw [hrt']
      dsimp only [Except.map]
      rw [hrdy, collectSignals_congr hm, sch.routedPlan_congr hm,
        sch.routedPlan_congr hm]
      exact ⟨rfl, rfl⟩
  · intro routings failed x after h
    rw [runPlan_eq] at h
    split at h
    · exact (congrArg Prod.snd h).symm
    · cases congrArg Prod.fst h

end Scheduler

end NeoGraph
