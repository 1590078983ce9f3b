import NeoGraph.Engine.Loop
import NeoGraph.PlanSpec

/-!
# When stalls are reported

A run that ends with nothing ready should report a stall exactly when, at
its last super-step, a declared join holds a signal and that step did not
reach `endNode` explicitly. What counts as explicit is said by
`ReachesEndExplicitly` in terms of the graph and of what the nodes returned,
not of the planner's flags: an edge or a conditional route that is taken, a
`Command`, or a failure exit.

`planned_spec` says it for one super-step. Over a run the marks stay empty
as long as something is ready (`superStep_next`), so only the last
super-step can set one, and the checkpoint it saves carries the same mark.

The result need not carry it. When the loop comes round after the last
super-step it looks at the budget before it looks at the ready set, and a run
that is left there answers without marks: a stall is reported unless the
budget was exhausted by then (`stall_reported_iff`).
-/

namespace NeoGraph

open List Scheduler RunState

variable {σ : Type}

/-! ## The end, explicitly -/

/-- A node takes an edge or a conditional route to `endNode`. -/
def Scheduler.TakesRouteToEnd (sch : Scheduler σ) (node : String) (state : σ) : Prop :=
  match sch.conditionalEdges.find? (fun ce => ce.src = node) with
  | some ce => ∃ condFn label, sch.registry.condition ce.condition = .ok condFn
      ∧ condFn state = .ok label
      ∧ ce.route (sch.registry.conditionSpec ce.condition) label = some endNode
  | none => ∃ e ∈ sch.edges, e.src = node ∧ e.dst = endNode

namespace Graph

/-- The failure of a node is routed along its failure edge. -/
def Handled (g : Graph σ) (r : StepRouting × Bool) : Prop :=
  g.scheduler.failureTargets.isEmpty = false ∧ r.2 = true

/-- **A super-step reaches the end explicitly**: a failure exit completed,
a `Command` went there, or a node took an edge or a route to it. -/
def ReachesEndExplicitly (g : Graph σ) (r : StepRecord σ) : Prop :=
  (∃ p ∈ r.routings, ¬g.Handled p ∧ g.failureExits.contains p.1.nodeName = true)
    ∨ (∃ p ∈ r.routings, p.1.commandGoto = some endNode)
    ∨ ∃ p ∈ r.routings, ¬g.Handled p ∧ g.scheduler.TakesRouteToEnd p.1.nodeName r.state

/-- A declared join holds a signal. -/
def HoldsSignal (g : Graph σ) (barriers : BarrierState) : Prop :=
  ∃ node, g.scheduler.isBarrier node = true ∧ (barriers.getD node ∅).Nonempty

end Graph

/-! ## One plan -/

variable {routings : List StepRouting}

theorem winningGoto_eq_none_iff :
    winningGoto routings = none ↔ ∀ r ∈ routings, r.commandGoto = none := by
  unfold winningGoto
  induction routings using List.reverseRecOn with
  | nil => simp
  | append_singleton routings r ih =>
    rw [List.foldl_append, List.foldl_cons, List.foldl_nil, Option.or_eq_none_iff, ih]
    simp [or_imp, forall_and, and_comm]

theorem mem_of_winningGoto {target : String}
    (h : winningGoto routings = some target) : ∃ r ∈ routings, r.commandGoto = some target := by
  unfold winningGoto at h
  induction routings using reverseRecOn with
  | nil => cases h
  | append_singleton routings r ih =>
    rw [foldl_append, foldl_cons, foldl_nil, Option.or_eq_some_iff] at h
    obtain h | ⟨-, h⟩ := h
    · exact ⟨r, by simp, h⟩
    · obtain ⟨r', hr', h⟩ := ih h
      exact ⟨r', by simp [hr'], h⟩

variable {state : σ}

/-- Reaching `endNode` other than by having no edge is taking a route
there. -/
theorem Scheduler.takesRouteToEnd_iff {sch : Scheduler σ} {node : String}
    {next : List String} (h : sch.resolveNextNodes node state = .ok next) :
    (endNode ∈ next ∧ sch.endsImplicitly node = false) ↔ sch.TakesRouteToEnd node state := by
  unfold resolveNextNodes at h
  unfold TakesRouteToEnd endsImplicitly
  cases hce : sch.conditionalEdges.find? (fun ce => ce.src = node) with
  | some ce =>
    rw [hce] at h
    obtain ⟨condFn, hc, h⟩ := bind_eq_ok.mp h
    obtain ⟨label, hlab, h⟩ := bind_eq_ok.mp h
    have hany : sch.conditionalEdges.any (fun ce => ce.src = node) = true :=
      any_eq_true.mpr ⟨ce, mem_of_find?_eq_some hce,
        find?_some (p := fun ce : ConditionalEdge => decide (ce.src = node)) hce⟩
    dsimp only at h ⊢
    rw [hany]
    cases hrt : ce.route (sch.registry.conditionSpec ce.condition) label with
    | none =>
      rw [hrt] at h
      cases h
    | some target =>
      rw [hrt] at h
      cases h
      simp [hc, hlab, hrt, eq_comm]
  | none =>
    rw [hce] at h
    have hany : sch.conditionalEdges.any (fun ce => ce.src = node) = false := by
      simpa using find?_eq_none.mp hce
    dsimp only at h ⊢
    rw [hany]
    split_ifs at h with hemp
    · cases h
      have hn : ∀ e ∈ sch.edges, ¬e.src = node := by simpa using hemp
      have hed : sch.edges.any (fun e => e.src = node) = false := by simpa using hn
      rw [hed]
      constructor
      · rintro ⟨-, h⟩
        cases h
      · rintro ⟨e, he, hsrc, -⟩
        exact absurd hsrc (hn e he)
    · cases h
      constructor
      · rintro ⟨hm, -⟩
        obtain ⟨e, he, hdst⟩ := mem_map.mp hm
        obtain ⟨he, hsrc⟩ := mem_filter.mp he
        exact ⟨e, he, by simpa using hsrc, hdst⟩
      · rintro ⟨e, he, hsrc, hdst⟩
        have hed : sch.edges.any (fun e => e.src = node) = true :=
          any_eq_true.mpr ⟨e, he, by simpa using hsrc⟩
        rw [hed]
        exact ⟨mem_map.mpr ⟨e, mem_filter.mpr ⟨he, by simpa using hsrc⟩, hdst⟩, rfl⟩

/-- Every node of a plan that was made resolved. -/
theorem Scheduler.exists_of_mem_routeAll (sch : Scheduler σ)
    {l : List (StepRouting × Bool)} {routed : List (String × List String)}
    (h : sch.routeAll state l = .ok routed) {q : StepRouting × Bool} (hq : q ∈ l) :
    ∃ next, sch.successorsOf state q.1.nodeName q.2 = .ok next := by
  induction l generalizing routed with
  | nil => cases hq
  | cons a l ih =>
    obtain ⟨next, hnx, h⟩ := bind_eq_ok.mp h
    obtain ⟨tail, ht, -⟩ := bind_eq_ok.mp h
    obtain rfl | hq := mem_cons.mp hq
    · exact ⟨next, hnx⟩
    · exact ih ht hq

namespace Graph

variable {g : Graph σ} {routings : List (StepRouting × Bool)}

/-- Where no flags are kept, no routing was handled. -/
theorem handledFlags_eq_nil (h : g.handledFlags routings = []) : ∀ p ∈ routings, ¬g.Handled p := by
  rintro p hp ⟨htargets, hf⟩
  have hany : routings.any Prod.snd = true := any_eq_true.mpr ⟨p, hp, hf⟩
  unfold handledFlags at h
  rw [htargets, hany] at h
  rw [if_neg (by decide), map_eq_nil_iff] at h
  rw [h] at hp
  cases hp

theorem handledFlags_ne_nil (h : g.handledFlags routings ≠ []) :
    g.handledFlags routings = routings.map Prod.snd
      ∧ ∀ p : StepRouting × Bool, g.Handled p ↔ p.2 = true := by
  unfold handledFlags at h ⊢
  split_ifs at h with hc
  · exact absurd rfl h
  · rw [if_neg hc]
    rw [Bool.or_eq_true, not_or] at hc
    exact ⟨rfl, fun p => ⟨fun hp => hp.2, fun hp => ⟨Bool.eq_false_iff.mpr hc.1, hp⟩⟩⟩

/-- The flags the planner gets are those of the handled failures. -/
theorem zip_handledFlags (g : Graph σ) {flags : List Bool}
    (h : failedFlags (routings.map Prod.fst) (g.handledFlags routings) = .ok flags)
    (q : StepRouting × Bool) : q ∈ (routings.map Prod.fst).zip flags
      ↔ ∃ p ∈ routings, q.1 = p.1 ∧ (q.2 = true ↔ g.Handled p) := by
  unfold failedFlags at h
  by_cases hn : g.handledFlags routings = []
  · rw [hn, if_pos (by rfl)] at h
    cases h
    have hnot := handledFlags_eq_nil hn
    rw [map_map, zip_map', mem_map]
    constructor
    · rintro ⟨p, hp, rfl⟩
      exact ⟨p, hp, rfl, iff_of_false Bool.false_ne_true (hnot p hp)⟩
    · rintro ⟨p, hp, hfst, hsnd⟩
      refine ⟨p, hp, Prod.ext hfst.symm ?_⟩
      exact (Bool.eq_false_iff.mpr fun hq => hnot p hp (hsnd.mp hq)).symm
  · obtain ⟨hf, hhd⟩ := handledFlags_ne_nil hn
    rw [if_neg (by simpa using hn), hf, if_neg (by simp)] at h
    cases h
    rw [zip_map', map_id']
    constructor
    · intro hq
      exact ⟨q, hq, rfl, (hhd q).symm⟩
    · rintro ⟨p, hp, hfst, hsnd⟩
      rw [hhd, Bool.coe_iff_coe] at hsnd
      rwa [show q = p from Prod.ext hfst hsnd]

/-- No exit completed exactly when no node that completed is an exit. -/
theorem completedExit_eq_none_iff (g : Graph σ) (routings : List (StepRouting × Bool)) :
    g.completedExit routings (g.handledFlags routings) = none
      ↔ ∀ p ∈ routings, ¬g.Handled p → g.failureExits.contains p.1.nodeName = false := by
  unfold completedExit SortedMap.contains
  rw [findSome?_eq_none_iff]
  refine forall₂_congr fun p hp => ?_
  have hsk : (!(g.handledFlags routings).isEmpty && p.2) = true ↔ g.Handled p := by
    by_cases hn : g.handledFlags routings = []
    · rw [hn]
      exact iff_of_false Bool.false_ne_true (handledFlags_eq_nil hn p hp)
    · obtain ⟨-, hhd⟩ := handledFlags_ne_nil hn
      rw [hhd]
      simp [hn]
  by_cases hhd : g.Handled p
  · rw [if_pos (hsk.mpr hhd)]
    exact iff_of_true rfl fun hnot => absurd hhd hnot
  · rw [if_neg fun h => hhd (hsk.mp h), Option.map_eq_none_iff]
    simp [hhd]

variable {plan : NextStepPlan} {state : σ} {before after : BarrierState}

/-- **The planner's flag is right** when the plan leaves nothing ready. -/
theorem planStep_hitExplicitEnd (step : ℕ)
    (h : g.planStep routings state before
      (g.completedExit routings (g.handledFlags routings)) = .ok (plan, after))
    (hrdy : plan.ready = []) :
    plan.hitExplicitEnd = true ↔ g.ReachesEndExplicitly ⟨step, routings, state⟩ := by
  obtain ⟨⟨plan', after'⟩, hpl, h⟩ := bind_eq_ok.mp h
  dsimp only at h
  cases hex : g.completedExit routings (g.handledFlags routings) with
  | some exit =>
    rw [hex] at h
    cases h
    refine iff_of_true rfl (.inl ?_)
    by_contra hno
    have hn := (g.completedExit_eq_none_iff routings).mpr fun p hp hhd =>
      Bool.eq_false_iff.mpr fun hc => hno ⟨p, hp, hhd, hc⟩
    rw [hex] at hn
    cases hn
  | none =>
    rw [hex] at h
    cases h
    have hexits := (g.completedExit_eq_none_iff routings).mp hex
    obtain ⟨target, hg, rfl, -⟩ | ⟨flags, routed, hg, hf, hrt, hfl, -⟩ :=
      planNextStep_cases hpl
    · -- a `Command` that leaves nothing ready went to the end
      obtain ⟨r, hr, hg⟩ := mem_of_winningGoto hg
      obtain ⟨p, hp, rfl⟩ := mem_map.mp hr
      unfold gotoPlan at hrdy ⊢
      split at hrdy
      · rename_i ht
        rw [if_pos ht]
        exact iff_of_true rfl (.inr (.inl ⟨p, hp, ht ▸ hg⟩))
      · cases hrdy
    · rw [hfl]
      show (routed.any fun p => p.2.contains endNode && !g.scheduler.endsImplicitly p.1) = true ↔ _
      have hgotos := winningGoto_eq_none_iff.mp hg
      rw [any_eq_true]
      constructor
      · rintro ⟨⟨node, next⟩, hm, he⟩
        rw [Bool.and_eq_true, contains_iff_mem, Bool.not_eq_true'] at he
        obtain ⟨q, hq, hnd, hnx⟩ := (g.scheduler.mem_routeAll_iff state hrt _).mp hm
        obtain ⟨p, hp, hqp, hhd⟩ := (g.zip_handledFlags hf q).mp hq
        dsimp only at hnd hnx he
        subst hnd
        unfold successorsOf at hnx
        split at hnx
        · -- a failure edge does not lead to the end
          split at hnx
          · rename_i target ht
            cases hnx
            have := g.failureTarget_ne_end _ _ ht
            exact absurd (mem_singleton.mp he.1).symm this
          · cases hnx
        · rename_i hq
          rw [hqp] at hnx he
          refine .inr (.inr ⟨p, hp, fun hp => hq (hhd.mpr hp), ?_⟩)
          exact (takesRouteToEnd_iff hnx).mp he
      · rintro (⟨p, hp, hhd, hex⟩ | ⟨p, hp, hcmd⟩ | ⟨p, hp, hhd, hroute⟩)
        · rw [hexits p hp hhd] at hex
          cases hex
        · have hn := hgotos p.1 (mem_map.mpr ⟨p, hp, rfl⟩)
          rw [hn] at hcmd
          cases hcmd
        · -- the node resolved, to a list that holds the end
          have hq := (g.zip_handledFlags hf (p.1, false)).mpr
            ⟨p, hp, rfl, iff_of_false Bool.false_ne_true hhd⟩
          obtain ⟨next, hnx⟩ := g.scheduler.exists_of_mem_routeAll hrt hq
          have he := (takesRouteToEnd_iff hnx).mpr hroute
          refine ⟨(p.1.nodeName, next),
            (g.scheduler.mem_routeAll_iff state hrt _).mpr ⟨_, hq, rfl, hnx⟩, ?_⟩
          rw [Bool.and_eq_true, contains_iff_mem, Bool.not_eq_true']
          exact he

/-- A super-step that leaves nothing ready stalls. -/
def Stalls (g : Graph σ) (barriers : BarrierState) (r : StepRecord σ) : Prop :=
  g.HoldsSignal barriers ∧ ¬g.ReachesEndExplicitly r

/-- The ready set of a plan does not hold `endNode`. -/
theorem endNode_notMem_ready {exit : Option (String × String)}
    (h : g.planStep routings state before exit = .ok (plan, after)) : endNode ∉ plan.ready := by
  obtain ⟨⟨plan', after'⟩, hp, h⟩ := bind_eq_ok.mp h
  dsimp only at h
  split at h
  · cases h
    exact not_mem_nil
  cases h
  obtain ⟨target, -, rfl, -⟩ | ⟨flags, routed, -, -, -, -, hg⟩ :=
    planNextStep_cases hp
  · unfold gotoPlan
    split_ifs with hne
    · exact not_mem_nil
    · exact fun hm => hne (mem_singleton.mp hm).symm
  · have hn : signalers routed endNode = ∅ :=
      Set.eq_empty_of_forall_notMem fun node hnd => hnd.1 rfl
    cases hb : g.scheduler.isBarrier endNode with
    | true => exact (hg.silent endNode hb hn).1
    | false =>
      rw [(hg.plain endNode hb).1, hn]
      exact Set.not_nonempty_empty

/-- The mark of a plan that leaves nothing ready. -/
theorem isSome_markStall_iff {s : RunState σ} (hr : plan.ready = [])
    (hmk : s.marks.barrierStall = none) : (g.markStall plan s).isSome = true
      ↔ g.HoldsSignal s.barrierState ∧ ¬plan.hitExplicitEnd = true := by
  have hh : stalledBarriers s.barrierState g.scheduler.barrierSpecs g.scheduler.joinSpecs
      s.trace g.successors = [] ↔ ¬g.HoldsSignal s.barrierState := by
    rw [stalledBarriers_eq_nil_iff]
    unfold HoldsSignal
    push Not
    rfl
  unfold markStall
  rw [hr]
  cases he : plan.hitExplicitEnd with
  | true =>
    rw [if_neg (by decide), hmk]
    simp
  | false =>
    rw [if_pos (by decide)]
    split
    · rename_i hn
      rw [hmk]
      exact iff_of_false Bool.false_ne_true fun h => hh.mp hn h.1
    · rename_i hne
      refine iff_of_true rfl ⟨?_, Bool.false_ne_true⟩
      by_contra hno
      exact hne (hh.mpr hno)

/-- **Planning one super-step**: nothing is marked while something is
ready, and a step that leaves nothing ready is marked exactly when it
stalls. -/
theorem planned_spec {s s' : RunState σ} (step : ℕ) (hmks : s.marks = {})
    (h : g.planned routings s = .ok (plan, s')) :
    endNode ∉ plan.ready ∧ (plan.ready ≠ [] → s'.marks = {})
      ∧ (plan.ready = [] → (s'.marks.barrierStall.isSome = true
        ↔ g.Stalls s'.barrierState ⟨step, routings, s.state⟩)) := by
  have hor : (s.marks.failureExit <|> g.completedExit routings (g.handledFlags routings))
      = g.completedExit routings (g.handledFlags routings) := by
    rw [hmks]
    rfl
  obtain ⟨⟨plan', barriers⟩, hp, h⟩ := bind_eq_ok.mp h
  cases h
  rw [hor] at hp
  refine ⟨endNode_notMem_ready hp, fun hr => ?_, fun hr => ?_⟩
  · dsimp only
    have hex : g.completedExit routings (g.handledFlags routings) = none := by
      by_contra hs
      obtain ⟨⟨plan', barriers'⟩, -, hp⟩ := bind_eq_ok.mp hp
      dsimp only at hp
      rw [if_pos (Option.isSome_iff_ne_none.mpr hs)] at hp
      cases hp
      exact hr rfl
    unfold markStall
    rw [if_neg (by simp [hr]), hor, hex]
    show RunStatusMarks.mk s.marks.barrierStall none = {}
    rw [hmks]
  · dsimp only
    have hexplicit := planStep_hitExplicitEnd step hp hr
    rw [isSome_markStall_iff hr (by rw [hmks])]
    unfold Stalls
    rw [hexplicit]

end Graph

/-! ## One super-step -/

/-- The last checkpoint of a run is one of its current state. -/
def RunState.SavedWith (s : RunState σ) (next : List String) : Prop :=
  ∃ id cp, s.lastCheckpoint = some id ∧ s.saved[id]? = some cp ∧ cp.nextNodes = next
    ∧ cp.marks = s.marks

theorem RunState.savedWith_save (s : RunState σ) (state : σ) (node : String) (next : List String)
    (phase : CheckpointPhase) (step : ℕ) : (s.save state node next phase step).SavedWith next :=
  ⟨s.saved.length, _, rfl, getElem?_concat_length, rfl, rfl⟩

@[simp] theorem RunState.marks_anchor (s : RunState σ) (enabled : Bool) (state : σ) (step : ℕ) :
    (s.anchor enabled state step).marks = s.marks := by
  unfold anchor
  split <;> rfl

theorem executeStep_marks (env : Environment σ) (enabled : Bool) (step : ℕ) (s : RunState σ) :
    (executeStep env enabled step s).1.marks = s.marks := by
  have hanchor : (if s.ready.length = 1 then s else s.anchor enabled s.state step).marks
      = s.marks := by
    split <;> simp
  unfold executeStep
  dsimp only
  generalize (if s.ready.length = 1 then s else s.anchor enabled s.state step) = s₁ at hanchor ⊢
  split
  · exact hanchor
  split
  · exact hanchor
  split <;> simpa using hanchor

namespace Graph

variable (g : Graph σ) {s : RunState σ}

/-- A super-step that is neither done nor stopped was executed, planned
and finished. -/
theorem superStep_cases (env : Environment σ) (enabled : Bool) (step : ℕ) (hmks : s.marks = {}) :
    g.superStep env enabled step s = .done
      ∨ (∃ how s', g.superStep env enabled step s = .stopped how s')
      ∨ ∃ routings s₁ plan s₂, s₁.marks = {} ∧ g.planned routings s₁ = .ok (plan, s₂)
        ∧ g.superStep env enabled step s
          = g.finishStep env enabled step ⟨step, routings, s₁.state⟩ plan s₂ := by
  have hexecuted := executeStep_marks env enabled step s
  unfold superStep
  split
  · exact .inr (.inl ⟨_, _, rfl⟩)
  split
  · exact .inr (.inl ⟨_, _, rfl⟩)
  split
  · exact .inl rfl
  split
  · exact .inr (.inl ⟨_, _, rfl⟩)
  split
  · exact .inr (.inl ⟨_, _, rfl⟩)
  · exact .inr (.inl ⟨_, _, rfl⟩)
  rename_i s₁ routings hs
  split
  · exact .inr (.inl ⟨_, _, rfl⟩)
  · rename_i plan s₂ hp
    rw [hs, hmks] at hexecuted
    exact .inr (.inr ⟨routings, s₁, plan, s₂, hexecuted, hp, rfl⟩)

/-- Nothing else is done when nothing is ready. -/
theorem superStep_of_ready_eq_nil (env : Environment σ) (enabled : Bool) (step : ℕ)
    (h : s.ready = []) : g.superStep env enabled step s = .done
      ∨ ∃ how s', g.superStep env enabled step s = .stopped how s' := by
  unfold superStep
  split
  · exact .inr ⟨_, _, rfl⟩
  split
  · exact .inr ⟨_, _, rfl⟩
  · exact .inl rfl

/-- How a step that was planned is finished: its marks are those of the
plan, and a checkpoint that is saved carries them. It may pause the run, but
not for the budget. -/
theorem finishStep_cases (env : Environment σ) (enabled : Bool) (step : ℕ) (record : StepRecord σ)
    (plan : NextStepPlan) (s : RunState σ) :
    (∃ s', g.finishStep env enabled step record plan s = .next record s'
        ∧ s'.ready = plan.ready ∧ s'.barrierState = s.barrierState ∧ s'.marks = s.marks
        ∧ (enabled = true → s'.SavedWith (nextNodes plan.ready)))
      ∨ ∃ how s', g.finishStep env enabled step record plan s = .paused record how s'
        ∧ how ≠ .budget := by
  unfold finishStep
  split
  · exact .inr ⟨_, _, rfl, nofun⟩
  dsimp only
  split
  · rename_i hdisabled
    refine .inl ⟨_, rfl, rfl, rfl, rfl, fun hen => ?_⟩
    rw [hen] at hdisabled
    cases hdisabled
  split
  · exact .inr ⟨_, _, rfl, nofun⟩
  · exact .inl ⟨_, rfl, rfl, rfl, rfl, fun _ => savedWith_save ..⟩

variable {s' : RunState σ} {env : Environment σ} {step : ℕ} {enabled : Bool}

/-- The loop goes on with empty marks, or the step is marked right and its
checkpoint is terminal. -/
theorem superStep_next {g : Graph σ} {record : StepRecord σ} (hmks : s.marks = {})
    (h : g.superStep env enabled step s = .next record s') :
    record.step = step ∧ ((s'.ready ≠ [] ∧ s'.marks = {})
      ∨ (s'.ready = [] ∧ (s'.marks.barrierStall.isSome = true ↔ g.Stalls s'.barrierState record)
        ∧ (enabled = true → s'.SavedWith [endNode]))) := by
  obtain hdn | ⟨how, s₁, hstp⟩ | ⟨routings, s₁, plan, s₂, hs₁, hp, hf⟩ :=
    g.superStep_cases env enabled step hmks
  · rw [hdn] at h
    cases h
  · rw [hstp] at h
    cases h
  · obtain ⟨-, hg, hmk⟩ := planned_spec step hs₁ hp
    rw [hf] at h
    obtain ⟨s₃, hnx, hr, hbarriers, hs₃, hsv⟩ | ⟨how, s₃, hpd, -⟩ :=
      g.finishStep_cases env enabled step ⟨step, routings, s₁.state⟩ plan s₂
    · rw [hnx] at h
      cases h
      rw [hr, hbarriers, hs₃]
      by_cases hn : plan.ready = []
      · rw [hn] at hsv
        exact ⟨rfl, .inr ⟨hn, hmk hn, hsv⟩⟩
      · exact ⟨rfl, .inl ⟨hn, hg hn⟩⟩
    · rw [hpd] at h
      cases h

/-- Only the flag makes a super-step stop for the budget. -/
theorem budgetExhausted_of_superStep {g : Graph σ}
    (h : g.superStep env enabled step s = .stopped .budget s') :
    env.budgetExhausted step = true := by
  by_contra hf
  unfold superStep at h
  rw [if_neg hf] at h
  split at h
  · cases h
  split at h
  · cases h
  split at h
  · cases h
  split at h
  · cases h
  · cases h
  split at h
  · cases h
  rename_i s₁ routings _ _ plan s₂ _
  obtain ⟨s₃, hnx, -⟩ | ⟨how, s₃, hpd, -⟩ :=
    g.finishStep_cases env enabled step ⟨step, routings, s₁.state⟩ plan s₂
  · rw [hnx] at h
    cases h
  · rw [hpd] at h
    cases h

/-- A super-step does not pause for the budget. -/
theorem ne_budget_of_superStep {g : Graph σ} {record : StepRecord σ} {pause : Stopped}
    (hmks : s.marks = {}) (h : g.superStep env enabled step s = .paused record pause s') :
    pause ≠ .budget := by
  obtain hdn | ⟨how, s₁, hstp⟩ | ⟨routings, s₁, plan, s₂, -, -, hf⟩ :=
    g.superStep_cases env enabled step hmks
  · rw [hdn] at h
    cases h
  · rw [hstp] at h
    cases h
  · rw [hf] at h
    obtain ⟨s₃, hnx, -⟩ | ⟨how, s₃, hpd, hne⟩ :=
      g.finishStep_cases env enabled step ⟨step, routings, s₁.state⟩ plan s₂
    · rw [hnx] at h
      cases h
    · rw [hpd] at h
      cases h
      exact hne

/-! ## Whole runs -/

variable {remaining : ℕ} {how : Option Stopped}

/-- The loop ended, or was left for the budget. -/
def Ends (how : Option Stopped) : Prop := how = none ∨ how = some .budget

/-- **The last super-step of a run.** The marks are empty before it, and the
loop went on and executed nothing more. -/
theorem loop_last (env : Environment σ) (enabled : Bool) {records : List (StepRecord σ)}
    (he : Ends how) (hmks : s.marks = {})
    (h : g.loop env enabled remaining step s = (records, s', how)) :
    records = [] ∨ ∃ init last rest s₁ s₂, records = init ++ [last] ∧ s₁.marks = {}
      ∧ last.step + 1 + rest = step + remaining
      ∧ g.superStep env enabled last.step s₁ = .next last s₂
      ∧ g.loop env enabled rest (last.step + 1) s₂ = ([], s', how) := by
  induction remaining generalizing s step records with
  | zero =>
    cases h
    exact .inl rfl
  | succ remaining ih =>
    unfold loop at h
    split at h
    · cases h
      exact .inl rfl
    · cases h
      exact .inl rfl
    · rename_i record pause s₂ hpd
      cases h
      obtain hn | hbud := he
      · cases hn
      · cases hbud
        exact absurd rfl (ne_budget_of_superStep hmks hpd)
    · rename_i record s₂ hnx
      dsimp only at h
      generalize hr : g.loop env enabled remaining (step + 1) s₂ = rest at h
      obtain ⟨tail, s₃, how⟩ := rest
      cases h
      obtain ⟨rfl, hmk⟩ := superStep_next hmks hnx
      have hl : tail = [] → record :: tail = [] ∨ ∃ init last rest s₁ s₂,
          record :: tail = init ++ [last] ∧ s₁.marks = {}
          ∧ last.step + 1 + rest = record.step + (remaining + 1)
          ∧ g.superStep env enabled last.step s₁ = .next last s₂
          ∧ g.loop env enabled rest (last.step + 1) s₂ = ([], s₃, how) := by
        rintro rfl
        exact .inr ⟨[], record, remaining, s, s₂, rfl, hmks, by omega, hnx, hr⟩
      obtain ⟨-, hs₂⟩ | ⟨hnil, -⟩ := hmk
      · obtain ht | ⟨init, last, rest, s₁, s₄, rfl, hs₁, hst, hs, hlp⟩ :=
          ih hs₂ hr
        · exact hl ht
        · exact .inr ⟨record :: init, last, rest, s₁, s₄, rfl, hs₁, by omega, hs, hlp⟩
      · -- with nothing ready, the rest of the loop executes nothing
        refine hl ?_
        cases remaining with
        | zero =>
          cases hr
          rfl
        | succ remaining =>
          unfold loop at hr
          obtain hdn | ⟨how, s₄, hstp⟩ :=
            g.superStep_of_ready_eq_nil env enabled (record.step + 1) hnil
          · rw [hdn] at hr
            cases hr
            rfl
          · rw [hstp] at hr
            cases hr
            rfl

/-- A loop that executes nothing leaves the state as it is; it is left for the
budget exactly when it comes round with the flag set. -/
theorem loop_nil {g : Graph σ} (he : Ends how)
    (h : g.loop env enabled remaining step s = ([], s', how)) :
    (how = none ∧ s' = s ∧ ¬(0 < remaining ∧ env.budgetExhausted step = true))
      ∨ (how = some .budget ∧ (0 < remaining ∧ env.budgetExhausted step = true)
        ∧ s'.ready = s.ready ∧ s'.barrierState = s.barrierState) := by
  cases remaining with
  | zero =>
    cases h
    exact .inl ⟨rfl, rfl, fun hf => absurd hf.1 (Nat.lt_irrefl 0)⟩
  | succ remaining =>
    unfold loop at h
    by_cases hf : env.budgetExhausted step = true
    · have hs : g.superStep env enabled step s = .stopped .budget
          (if enabled then
            s.save s.state (traceTag "__budget__" s.trace step) s.ready .completed step
           else s) := if_pos hf
      rw [hs] at h
      cases h
      refine .inr ⟨rfl, ⟨remaining.succ_pos, hf⟩, ?_⟩
      cases enabled with
      | true | false => exact ⟨rfl, rfl⟩
    · split at h
      · cases h
        exact .inl ⟨rfl, rfl, fun h => hf h.2⟩
      · rename_i hstp
        cases h
        obtain hn | hbud := he
        · cases hn
        · cases hbud
          exact absurd (budgetExhausted_of_superStep hstp) hf
      · cases h
      · cases h

end Graph

/-- Resuming a terminal checkpoint reports its marks, whatever was saved
later. -/
theorem resumeCompleted_of_savedWith {s : RunState σ} (h : s.SavedWith [endNode]) :
    ∃ id, s.lastCheckpoint = some id ∧ ∀ later, ∃ result,
      resumeCompleted (s.saved ++ later) id = some result
        ∧ result.barrierStalled = s.marks.barrierStall
        ∧ result.failureExit = s.marks.failureExit := by
  obtain ⟨id, cp, hl, hcp, hnx, hmks⟩ := h
  refine ⟨id, hl, fun later => ⟨⟨cp.state, false, cp.marks.barrierStall, cp.marks.failureExit,
    some id⟩, ?_, ?_, ?_⟩⟩
  · unfold resumeCompleted
    rw [List.getElem?_append_left (List.getElem?_eq_some_iff.mp hcp).1, hcp]
    exact if_pos hnx
  · exact congrArg RunStatusMarks.barrierStall hmks
  · exact congrArg RunStatusMarks.failureExit hmks

namespace Graph

/-- The loop comes round after a super-step and finds the budget exhausted. -/
def OutOfBudgetAfter (env : Environment σ) (endStep : ℕ) (r : StepRecord σ) : Prop :=
  r.step + 1 < endStep ∧ env.budgetExhausted (r.step + 1) = true

/-- **When stalls are reported.** Let a run end with nothing ready, after
whatever super-steps, interrupts and answers came before. Its result carries
the mark exactly when a declared join holds a signal and the final super-step
did not reach the end explicitly – unless the loop came round after a step that
stalled and found the budget exhausted. If it did not find it exhausted, a later
resume of the terminal checkpoint reports the same mark. -/
theorem stall_reported_iff (g : Graph σ) (env : Environment σ) (enabled : Bool)
    (maxSteps startStep : ℕ) (state : σ) (ready : List String) (barriers : BarrierState)
    (lastCheckpoint : Option ℕ) (saved : List (Checkpoint σ)) {records : List (StepRecord σ)}
    {s : RunState σ} {how : Option Stopped} (he : Ends how)
    (h : g.loop env enabled maxSteps startStep (enter state ready barriers lastCheckpoint saved)
      = (records, s, how))
    (hrdy : s.ready = []) :
    (records = [] ∧ (s.resultOf how).barrierStalled = none)
      ∨ ∃ init final, records = init ++ [final]
        ∧ (((s.resultOf how).barrierStalled.isSome = true
            ↔ g.HoldsSignal s.barrierState ∧ ¬g.ReachesEndExplicitly final)
          ↔ ¬(OutOfBudgetAfter env (startStep + maxSteps) final
            ∧ g.Stalls s.barrierState final))
        ∧ (¬OutOfBudgetAfter env (startStep + maxSteps) final → enabled = true →
          ∃ id, (s.resultOf how).checkpointId = some id
            ∧ ∀ later, ∃ result, resumeCompleted (s.saved ++ later) id = some result
              ∧ result.barrierStalled = (s.resultOf how).barrierStalled) := by
  obtain rfl | ⟨init, final, rest, s₁, s₂, rfl, hs₁, hst, hnx, hr⟩ :=
    g.loop_last env enabled he rfl h
  · obtain ⟨rfl, rfl, -⟩ | ⟨rfl, -⟩ := loop_nil he h
    · exact .inl ⟨rfl, rfl⟩
    · exact .inl ⟨rfl, rfl⟩
  have hrnd : 0 < rest ↔ final.step + 1 < startStep + maxSteps := by omega
  obtain ⟨-, hmk⟩ := superStep_next hs₁ hnx
  refine .inr ⟨init, final, rfl, ?_⟩
  obtain ⟨rfl, rfl, hf⟩ | ⟨rfl, hf, hsm, hbarriers⟩ := loop_nil he hr
  · -- the loop ended: the result is read off the state the step left
    rw [hrnd] at hf
    obtain ⟨hne, -⟩ | ⟨-, hmark, hsv⟩ := hmk
    · exact absurd hrdy hne
    refine ⟨iff_of_true hmark fun ho => hf ho.1, fun _ hen => ?_⟩
    obtain ⟨id, hid, hrsm⟩ := resumeCompleted_of_savedWith (hsv hen)
    refine ⟨id, hid, fun later => ?_⟩
    obtain ⟨result, hres, hstalled, -⟩ := hrsm later
    exact ⟨result, hres, hstalled⟩
  · -- the loop was left for the budget: there is no mark
    rw [hrnd] at hf
    refine ⟨?_, fun hnot => absurd hf hnot⟩
    have hn : ¬(s.resultOf (some .budget)).barrierStalled.isSome = true :=
      Bool.false_ne_true
    constructor
    · rintro hiff ⟨-, hstalls⟩
      exact hn (hiff.mpr hstalls)
    · intro hnot
      exact iff_of_false hn fun hstalls => hnot ⟨hf, hstalls⟩

/-- A barrier that waits for `a` and `b`, of which only `a` runs. -/
def halfDiamond : Graph Unit where
  scheduler :=
    { edges := [⟨startNode, "a"⟩, ⟨"a", "j"⟩, ⟨"b", "j"⟩]
      conditionalEdges := []
      barrierSpecs := SortedMap.ofList [("j", {"a", "b"})]
      joinSpecs := ∅
      failureTargets := ∅
      registry := ⟨fun _ => .error (.runtimeError "no condition"), fun _ => none⟩ }
  failureExits := ∅
  interruptBefore := ∅
  interruptAfter := ∅
  failureTarget_ne_end := fun _ _ h => by cases h

/-- Nodes that only complete, without signals from outside. -/
def quiet : Environment Unit where
  budgetExhausted _ := false
  cancelled _ := false
  gatePassed _ _ := false
  runReady _ s := .ok (s.ready.map fun _ => ⟨none, [], false⟩, ())
  runSends _ _ _ := .ok ([], ())
  safePoint _ := false

/-- Without a budget the stall is reported. -/
theorem stall_reported_iff_halfDiamond :
    ∃ records s, halfDiamond.loop quiet true 10 0
        (enter () halfDiamond.scheduler.planStartStep ∅ none []) = (records, s, none)
      ∧ s.ready = [] ∧ (s.resultOf none).barrierStalled.isSome = true
      ∧ ∃ init final, records = init ++ [final] ∧ halfDiamond.HoldsSignal s.barrierState
        ∧ ¬halfDiamond.ReachesEndExplicitly final := by
  refine ⟨_, _, rfl, rfl, rfl, ?_⟩
  obtain ⟨hn, -⟩ | ⟨init, final, hr, hmk, -⟩ :=
    halfDiamond.stall_reported_iff quiet true 10 0 () halfDiamond.scheduler.planStartStep ∅
      none [] (.inl rfl) rfl rfl
  · cases hn
  · have hf : ¬OutOfBudgetAfter quiet (0 + 10) final := fun ho => Bool.false_ne_true ho.2
    exact ⟨init, final, hr, (hmk.mpr fun ho => hf ho.1).mp rfl⟩

/-- The node of the only super-step exhausts the budget. -/
def exhausted : Environment Unit := { quiet with budgetExhausted := fun step => step = 1 }

/-- The join holds a signal and the end was not reached, and the result has no
mark. -/
theorem stall_hidden_by_budget :
    ∃ records s, halfDiamond.loop exhausted true 10 0
        (enter () halfDiamond.scheduler.planStartStep ∅ none []) = (records, s, some .budget)
      ∧ s.ready = [] ∧ (s.resultOf (some .budget)).barrierStalled = none
      ∧ ∃ init final, records = init ++ [final] ∧ halfDiamond.HoldsSignal s.barrierState
        ∧ ¬halfDiamond.ReachesEndExplicitly final := by
  refine ⟨_, _, rfl, rfl, rfl, [], _, rfl, ?_⟩
  have hnx : halfDiamond.superStep exhausted true 0
      (enter () halfDiamond.scheduler.planStartStep ∅ none []) = .next _ _ := rfl
  obtain ⟨-, ⟨hne, -⟩ | ⟨-, hmk, -⟩⟩ := superStep_next rfl hnx
  · exact absurd rfl hne
  · exact hmk.mp rfl

end Graph

end NeoGraph
