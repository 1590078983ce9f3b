import NeoGraph.Validator.Reachability

/-!
# Where a node may continue

The successors that the validator gives a node (`successors`) are to be the
targets that the scheduler may send it to. The scheduler asks the condition of
the first conditional edge; what it answers is not known beforehand, so every
answer counts that does not end in an exception (`CanContinue`).

The two agree on a topology if and only if `RoutesAsScheduled` holds of it
(`continuations_exact_iff`): the validator takes a route that a closed condition
never takes for one, and forgets the implicit end of a node that has nothing but
a failure edge.
-/

namespace NeoGraph

open Compiler ConditionalEdge SortedMap List Finset Option FailureEdge

/-! ## Routes of a conditional edge -/

/-- A route may be taken: it is the legacy default, or its key is a label that
the condition may return. -/
def ConditionalEdge.CanRoute (ce : ConditionalEdge) (spec : Option ConditionSpec)
    (target : String) : Prop :=
  ∃ key, ce.routes.find? key = some target
    ∧ (key = legacyDefaultRoute ∨ outsideClosedContract spec key = false)

theorem outsideClosedContract_of_open {spec : Option ConditionSpec}
    (h : spec.elim true ConditionSpec.open = true) (key : String) :
    outsideClosedContract spec key = false := by
  unfold outsideClosedContract
  cases spec with
  | none => rfl
  | some spec =>
    have hop : spec.open = true := h
    dsimp only
    rw [hop]
    rfl

/-- The targets that a conditional edge has for some label. -/
theorem ConditionalEdge.exists_route_iff (ce : ConditionalEdge) (spec : Option ConditionSpec)
    (target : String) : (∃ label, ce.route spec label = some target) ↔ ce.CanRoute spec target := by
  constructor
  · rintro ⟨label, hrt⟩
    unfold route at hrt
    dsimp only at hrt
    split at hrt
    · rename_i hex
      cases hrt
      split at hex
      · cases hex
      · rename_i hi
        exact ⟨label, hex, .inr (Bool.eq_false_of_not_eq_true hi)⟩
    · split at hrt
      · rename_i hl
        cases hrt
        exact ⟨legacyDefaultRoute, hl, .inl rfl⟩
      · split at hrt
        · rename_i hop
          rw [Bool.and_eq_true] at hop
          exact ⟨defaultRoute, hrt, .inr (outsideClosedContract_of_open hop.2 _)⟩
        · cases hrt
  · rintro ⟨key, hf, hl | hi⟩
    · refine ⟨legacyDefaultRoute, ?_⟩
      unfold route
      rw [hl] at hf
      dsimp only
      rw [hf]
      split
      · rename_i hex
        split at hex
        · cases hex
        · exact hex.symm
      · rfl
    · refine ⟨key, ?_⟩
      unfold route
      dsimp only
      rw [hi, hf]
      rfl

namespace GraphValidator

/-! ## The two sides -/

/-- Conditions that return one label. -/
def returning (conditionSpec : String → Option ConditionSpec) (label : String) :
    ConditionRegistry Unit where
  condition := fun _ => .ok fun _ => .ok label
  conditionSpec := conditionSpec

def failureTarget (topology : TopologySpec) (n : String) : Option String :=
  (failureTargets topology.failureEdges).find? n

/-- The scheduler sends a node to a target for some label, or its failure. -/
def CanContinue (conditionSpec : String → Option ConditionSpec) (topology : TopologySpec)
    (n target : String) : Prop :=
  (∃ label next, (topology.scheduler (returning conditionSpec label)).resolveNextNodes n ()
      = .ok next ∧ target ∈ next)
    ∨ failureTarget topology n = some target

/-- The successors that the validator gives a node; none means the end. -/
def continuations (topology : TopologySpec) (n : String) : Finset String :=
  if successors topology n = ∅ then {endNode} else successors topology n

/-- A conditional edge of the linked graph. -/
def linked (topology : TopologySpec) (ce : ConditionalEdge) : ConditionalEdge :=
  if topology.schemaVersion = 0 then withHistoricalRoute ce else ce

/-- **The validator routes a node as the scheduler does**: a route of the node
may be taken, or leads where its failure goes; and a node with a failure edge
has an edge, or else only a conditional edge without routes. -/
def RoutesAsScheduled (conditionSpec : String → Option ConditionSpec) (topology : TopologySpec) :
    Prop :=
  ∀ n ∈ nodeNames topology,
    match topology.conditionalEdges.find? fun ce => ce.src = n with
    | some ce => (targets ce = ∅ → failureTarget topology n ≠ none)
        ∧ ∀ target ∈ targets ce, (linked topology ce).CanRoute (conditionSpec ce.condition) target
          ∨ failureTarget topology n = some target
    | none => (∃ e ∈ topology.edges, e.src = n) ∨ failureTarget topology n = none

/-- What the parser sees to: no node is called like the entry or the exit, and
a node has one failure edge at most. -/
structure WellFormed (topology : TopologySpec) : Prop where
  entry : startNode ∉ nodeNames topology
  exit : endNode ∉ nodeNames topology
  failure : (topology.failureEdges.map FailureEdge.src).Nodup

variable {topology : TopologySpec}

/-! ## What the parser sees to -/

/-- The sources of accepted failure edges are distinct, and different from
those seen before. -/
theorem nodup_readFailureEdges {context : FailureKeyContext} {exits : SortedMap String String}
    {index : ℕ} {sources : List String} {items : List Document} {edges : List FailureEdge}
    (h : (readFailureEdges context exits index sources items).Accepts edges) :
    (edges.map FailureEdge.src).Nodup ∧ ∀ e ∈ edges, e.src ∉ sources := by
  induction items generalizing index sources edges with
  | nil =>
    obtain rfl := Checked.pure_accepts.mp h
    exact ⟨nodup_nil, fun _ he => absurd he not_mem_nil⟩
  | cons v items ih =>
    rw [readFailureEdges, Checked.bind_accepts] at h
    obtain ⟨_, he, h⟩ := h
    obtain ⟨e, rfl, -⟩ := readFailureEdge_accepts he
    dsimp only at h
    split at h
    · exact absurd h Checked.not_report_bind
    rename_i hproblem
    rw [Checked.bind_accepts] at h
    obtain ⟨rest, hr, h⟩ := h
    obtain rfl := Checked.pure_accepts.mp h
    unfold failureEdgeProblem at hproblem
    split_ifs at hproblem with hen hs
    all_goals
      rw [if_neg hen] at hr
      obtain ⟨hnd, hfr⟩ := ih hr
      refine ⟨nodup_cons.mpr ⟨fun hm => ?_, hnd⟩, fun e' he' => ?_⟩
      · obtain ⟨e', he', heq⟩ := List.mem_map.mp hm
        exact hfr e' he' (heq ▸ mem_cons_self)
      · obtain rfl | he' := mem_cons.mp he'
        · exact hs
        · exact fun hm => hfr e' he' (mem_cons_of_mem _ hm)

/-- An accepted node is not called like the entry or the exit. -/
theorem ne_sentinel_of_parseNode {ctx : ParseContext} {strict : Bool} {m : String × Document}
    {n : ParsedNode} (h : (parseNode ctx strict m).Accepts (some n)) :
    n.name ≠ startNode ∧ n.name ≠ endNode := by
  unfold parseNode at h
  rw [Checked.bind_unit_accepts, Checked.bind_unit_accepts] at h
  obtain ⟨-, hnm, h⟩ := h
  split at h
  · obtain ⟨n', hfields, heq⟩ := Checked.map_accepts.mp h
    cases heq
    unfold parseNodeFields at hfields
    simp only [Checked.bind_accepts, Checked.pure_accepts] at hfields
    obtain ⟨_, -, _, -, _, -, rfl⟩ := hfields
    unfold Checked.ensure at hnm
    split_ifs at hnm with hok
    · simpa using hok
    · exact absurd hnm Checked.not_report_accepts
  · rw [Checked.bind_unit_accepts] at h
    cases Checked.pure_accepts.mp h.2

/-- **Parsed topologies are well formed.** -/
theorem wellFormed_of_parse {ctx : ParseContext} {definition : Document}
    (h : Compiler.parse ctx definition = .ok topology) : WellFormed topology := by
  obtain ⟨version, -, ha⟩ := parse_eq_ok h
  unfold parseFields at ha
  simp only [Checked.bind_accepts, Checked.pure_accepts] at ha
  obtain ⟨_, -, _, -, _, -, _, -, _, -, _, -, nodes, hnds, _, -, _, -, _, -, _, -, _, -, _, -,
    keys, hk, _, -, _, -, rfl⟩ := ha
  have hnms : ∀ name ∈ (SortedMap.ofList (nodes.map fun n => (n.name, n.definition))).keys,
      name ≠ startNode ∧ name ≠ endNode := by
    intro name hnm
    obtain ⟨⟨_, v⟩, hmm, rfl⟩ := List.mem_map.mp hnm
    obtain ⟨n, hn, heq⟩ := List.mem_map.mp
      (SortedMap.mem_of_find?_ofList ((SortedMap.mem_entries_iff _ _ _).mp hmm))
    obtain ⟨hd, rfl⟩ := Checked.collect_accepts.mp hnds
    obtain ⟨m, hm, hv⟩ := List.mem_filterMap.mp hn
    cases heq
    exact ne_sentinel_of_parseNode ⟨hd m hm, hv⟩
  refine ⟨fun hs => (hnms _ hs).1 rfl, fun he => (hnms _ he).2 rfl, ?_⟩
  show (keys.failureEdges.map FailureEdge.src).Nodup
  unfold readFailureRoutingKeys at hk
  split at hk
  · unfold parseFailureRoutingKeys at hk
    simp only [Checked.bind_accepts, Checked.pure_accepts] at hk
    obtain ⟨_, -, _, -, edges, hed, rfl⟩ := hk
    unfold parseFailureEdges at hed
    split at hed
    · obtain rfl := Checked.pure_accepts.mp hed
      exact nodup_nil
    · rw [Checked.bind_accepts] at hed
      obtain ⟨read, hrd, hsrt⟩ := hed
      obtain rfl := Checked.pure_accepts.mp hsrt
      exact ((List.perm_insertionSort _ read).map _).nodup_iff.mpr (nodup_readFailureEdges hrd).1
    · exact absurd hed Checked.not_report_bind
  · obtain rfl := Checked.pure_accepts.mp hk
    exact nodup_nil

/-! ## Successors -/

theorem getD_alterD (succ : Successors) (k n : String) (f : Finset String → Finset String) :
    (succ.alterD k ∅ f).getD n ∅ = if n = k then f (succ.getD n ∅) else succ.getD n ∅ := by
  unfold SortedMap.getD
  rw [find?_alterD]
  split_ifs with hn
  · rw [hn]
    rfl
  · rfl

theorem foldl_routeConditional (l : List ConditionalEdge) (state : Finset String × Successors) :
    (∀ n, n ∈ (l.foldl routeConditional state).1
        ↔ n ∈ state.1 ∨ n ≠ startNode ∧ ∃ ce ∈ l, ce.src = n)
      ∧ ∀ n, (l.foldl routeConditional state).2.getD n ∅ = state.2.getD n ∅
        ∪ if n = startNode ∨ n ∈ state.1 then ∅
          else ((l.find? fun ce => ce.src = n).map targets).getD ∅ := by
  induction l generalizing state with
  | nil => simp
  | cons ce l ih =>
    obtain ⟨hrt, hs⟩ := ih (routeConditional state ce)
    rw [foldl_cons]
    by_cases hsk : ce.src = startNode ∨ ce.src ∈ state.1
    · have hst : routeConditional state ce = state := by
        unfold routeConditional
        rw [if_pos hsk]
      rw [hst] at hrt hs ⊢
      constructor
      · intro n
        rw [hrt]
        simp only [List.mem_cons, exists_eq_or_imp]
        constructor
        · rintro (h | ⟨hne, h⟩)
          · exact .inl h
          · exact .inr ⟨hne, .inr h⟩
        · rintro (h | ⟨hne, rfl | h⟩)
          · exact .inl h
          · exact .inl (hsk.resolve_left hne)
          · exact .inr ⟨hne, h⟩
      · intro n
        rw [hs]
        split_ifs with hn
        · rfl
        rw [find?_cons_of_neg]
        rw [decide_eq_true_eq]
        rintro rfl
        exact hn hsk
    · have hst : routeConditional state ce
          = (insert ce.src state.1, state.2.alterD ce.src ∅ (· ∪ targets ce)) := by
        unfold routeConditional
        rw [if_neg hsk]
      rw [hst] at hrt hs ⊢
      rw [not_or] at hsk
      constructor
      · intro n
        rw [hrt, mem_insert]
        simp only [List.mem_cons, exists_eq_or_imp]
        constructor
        · rintro ((rfl | h) | ⟨hne, h⟩)
          · exact .inr ⟨hsk.1, .inl rfl⟩
          · exact .inl h
          · exact .inr ⟨hne, .inr h⟩
        · rintro (h | ⟨hne, rfl | h⟩)
          · exact .inl (.inr h)
          · exact .inl (.inl rfl)
          · exact .inr ⟨hne, h⟩
      · intro n
        rw [hs, getD_alterD]
        by_cases hn : n = ce.src
        · subst hn
          rw [if_pos rfl, if_pos (.inr (mem_insert_self _ _)), union_empty,
            if_neg (not_or.mpr hsk)]
          have hf : (ce :: l).find? (fun ce' => ce'.src = ce.src) = some ce :=
            find?_cons_of_pos (decide_eq_true rfl)
          rw [hf]
          rfl
        · rw [if_neg hn, find?_cons_of_neg (by rw [decide_eq_true_eq]; exact Ne.symm hn)]
          refine congrArg _ (if_congr ?_ rfl rfl)
          rw [mem_insert, or_iff_right hn]

theorem foldl_routeStatic (routed : Finset String) (l : List Edge) (succ : Successors)
    (n : String) : (l.foldl (routeStatic routed) succ).getD n ∅ = succ.getD n ∅
      ∪ if n ∈ routed then ∅ else ((l.filter fun e => e.src = n).map Edge.dst).toFinset := by
  induction l generalizing succ with
  | nil => simp
  | cons e l ih =>
    rw [foldl_cons, ih]
    unfold routeStatic
    by_cases hrt : n ∈ routed
    · rw [if_pos hrt, if_pos hrt, union_empty, union_empty]
      split_ifs with ho
      · rfl
      · rw [getD_alterD, if_neg]
        rintro rfl
        exact ho hrt
    · rw [if_neg hrt, if_neg hrt]
      by_cases hn : e.src = n
      · subst hn
        rw [if_neg hrt, getD_alterD, if_pos rfl, List.filter_cons, if_pos (decide_eq_true rfl),
          List.map_cons, List.toFinset_cons, Finset.insert_union, Finset.union_insert]
      · rw [List.filter_cons_of_neg (by rw [decide_eq_true_eq]; exact hn)]
        split
        · rfl
        · rw [getD_alterD, if_neg (Ne.symm hn)]

theorem foldl_routeFailure (l : List FailureEdge) (succ : Successors) (n : String) :
    (l.foldl routeFailure succ).getD n ∅ = succ.getD n ∅
      ∪ ((l.filter fun fe => fe.src = n).map dst).toFinset := by
  induction l generalizing succ with
  | nil => simp
  | cons fe l ih =>
    rw [foldl_cons, ih]
    unfold routeFailure
    rw [getD_alterD]
    by_cases hn : fe.src = n
    · subst hn
      rw [if_pos rfl, List.filter_cons, if_pos (decide_eq_true rfl), List.map_cons,
        toFinset_cons, insert_union, union_insert]
    · rw [if_neg (Ne.symm hn), List.filter_cons_of_neg (by rw [decide_eq_true_eq]; exact hn)]

/-- Static and conditional targets of a node, without its failure edges. -/
def routedTargets (topology : TopologySpec) (n : String) : Finset String :=
  match topology.conditionalEdges.find? fun ce => ce.src = n with
  | some ce => targets ce
  | none => ((topology.edges.filter fun e => e.src = n).map Edge.dst).toFinset

def failureTargetsOf (topology : TopologySpec) (n : String) : Finset String :=
  ((topology.failureEdges.filter fun fe => fe.src = n).map dst).toFinset

variable {n : String}

/-- The successors of a node are where it is routed and where its failure leads.
-/
theorem successors_eq (hn : n ≠ startNode) :
    successors topology n = routedTargets topology n ∪ failureTargetsOf topology n := by
  unfold successors buildSuccessors
  rw [if_neg Bool.false_ne_true]
  obtain ⟨hrt, hs⟩ := foldl_routeConditional topology.conditionalEdges (∅, ∅)
  rw [foldl_routeFailure, foldl_routeStatic, hs]
  unfold routedTargets failureTargetsOf
  have he : getD (∅ : Successors) n ∅ = ∅ := rfl
  rw [he, empty_union, if_neg (by simp [hn])]
  cases hf : topology.conditionalEdges.find? fun ce => ce.src = n with
  | some ce =>
    have hsrc := find?_some hf
    rw [if_pos ((hrt n).mpr (.inr ⟨hn, ce, mem_of_find?_eq_some hf,
      of_decide_eq_true hsrc⟩))]
    dsimp only [map_some, getD_some]
    rw [union_empty]
  | none =>
    rw [if_neg, map_none, getD_none, empty_union]
    rw [hrt]
    rintro (h | ⟨-, ce, hce, hsrc⟩)
    · exact notMem_empty n h
    · exact find?_eq_none.mp hf ce hce (decide_eq_true hsrc)

/-! ## The scheduler's side -/

theorem mem_targets_iff (ce : ConditionalEdge) (target : String) :
    target ∈ targets ce ↔ ∃ key, ce.routes.find? key = some target := by
  unfold targets
  rw [List.mem_toFinset, List.mem_map]
  constructor
  · rintro ⟨⟨key, _⟩, hm, rfl⟩
    exact ⟨key, (SortedMap.mem_entries_iff _ _ _).mp hm⟩
  · rintro ⟨key, hf⟩
    exact ⟨(key, target), (SortedMap.mem_entries_iff _ _ _).mpr hf, rfl⟩

/-- Linking gives a conditional edge no new target. -/
theorem mem_targets_of_canRoute {ce : ConditionalEdge} {spec : Option ConditionSpec}
    {target : String} (h : (linked topology ce).CanRoute spec target) : target ∈ targets ce := by
  obtain ⟨key, hf, -⟩ := h
  unfold linked withHistoricalRoute at hf
  split at hf
  · split at hf
    · exact (mem_targets_iff _ _).mpr ⟨key, hf⟩
    rename_i e hl
    obtain ⟨-, rfl⟩ | hf := find?_insert_cases hf
    · exact mem_toFinset.mpr (mem_map_of_mem (mem_of_getLast? hl))
    · exact (mem_targets_iff _ _).mpr ⟨key, hf⟩
  · exact (mem_targets_iff _ _).mpr ⟨key, hf⟩

theorem linked_src (ce : ConditionalEdge) : (linked topology ce).src = ce.src := by
  unfold linked
  split
  · exact (Compiler.withHistoricalRoute_spec ce).1
  · rfl

theorem linked_condition (ce : ConditionalEdge) :
    (linked topology ce).condition = ce.condition := by
  unfold linked
  split
  · exact (Compiler.withHistoricalRoute_spec ce).2.1
  · rfl

theorem find?_linkConditionalEdges (n : String) :
    (linkConditionalEdges topology).find? (fun ce => ce.src = n)
      = (topology.conditionalEdges.find? fun ce => ce.src = n).map (linked topology) := by
  have hlk : linkConditionalEdges topology
      = topology.conditionalEdges.map (linked topology) := by
    unfold linkConditionalEdges linked
    split
    · rfl
    · exact (map_id _).symm
  rw [hlk, find?_map]
  refine congrArg _ (congrArg (fun p => find? p topology.conditionalEdges) ?_)
  funext ce
  show decide ((linked topology ce).src = n) = _
  rw [linked_src]

/-- Where the scheduler sends a node for some label. -/
theorem resolves_iff (conditionSpec : String → Option ConditionSpec) (n target : String) :
    (∃ label next, (topology.scheduler (returning conditionSpec label)).resolveNextNodes n ()
        = .ok next ∧ target ∈ next) ↔
      match topology.conditionalEdges.find? fun ce => ce.src = n with
      | some ce => (linked topology ce).CanRoute (conditionSpec ce.condition) target
      | none =>
        if topology.edges.filter (fun e => e.src = n) = [] then target = endNode
        else target ∈ (topology.edges.filter fun e => e.src = n).map Edge.dst := by
  have hf := @find?_linkConditionalEdges topology n
  cases hce : topology.conditionalEdges.find? fun ce => ce.src = n with
  | some ce =>
    rw [hce, map_some] at hf
    dsimp only
    rw [← exists_route_iff]
    refine exists_congr fun label => ?_
    unfold Scheduler.resolveNextNodes
    have hed : (topology.scheduler (returning conditionSpec label)).conditionalEdges.find?
        (fun ce => ce.src = n) = some (linked topology ce) := hf
    rw [hed]
    dsimp only [TopologySpec.scheduler, returning, bind, Except.bind]
    rw [linked_condition]
    constructor
    · rintro ⟨next, hnx, ht⟩
      split at hnx
      · rename_i route hrt
        cases hnx
        rw [List.mem_singleton.mp ht]
        exact hrt
      · cases hnx
    · intro hrt
      rw [hrt]
      exact ⟨[target], rfl, List.mem_singleton_self _⟩
  | none =>
    rw [hce, map_none] at hf
    have hresolve : ∀ label,
        (topology.scheduler (returning conditionSpec label)).resolveNextNodes n ()
          = .ok (if topology.edges.filter (fun e => e.src = n) = [] then [endNode]
            else (topology.edges.filter fun e => e.src = n).map Edge.dst) := by
      intro label
      unfold Scheduler.resolveNextNodes
      have hed : (topology.scheduler (returning conditionSpec label)).conditionalEdges.find?
          (fun ce => ce.src = n) = none := hf
      rw [hed]
      dsimp only [TopologySpec.scheduler]
      cases topology.edges.filter fun e => e.src = n with
      | nil | cons e rest => rfl
    constructor
    · rintro ⟨label, next, hnx, ht⟩
      rw [hresolve] at hnx
      cases hnx
      split_ifs at ht with he
      · rw [if_pos he]
        exact List.mem_singleton.mp ht
      · rw [if_neg he]
        exact ht
    · intro ht
      refine ⟨"", _, hresolve "", ?_⟩
      split_ifs with he
      · rw [if_pos he] at ht
        exact List.mem_singleton.mpr ht
      · rw [if_neg he] at ht
        exact ht

/-! ## Failure edges -/

theorem find?_foldl_insert_failure (l : List FailureEdge) (m : SortedMap String String)
    (hnd : (l.map FailureEdge.src).Nodup) (n target : String) :
    (l.foldl (fun targets e => targets.insert e.src e.dst) m).find? n = some target ↔
      (∃ fe ∈ l, fe.src = n ∧ fe.dst = target)
        ∨ n ∉ l.map FailureEdge.src ∧ m.find? n = some target := by
  induction l generalizing m with
  | nil => simp
  | cons fe l ih =>
    rw [List.map_cons, List.nodup_cons] at hnd
    rw [List.foldl_cons, ih _ hnd.2, SortedMap.find?_insert]
    simp only [List.mem_cons, List.map_cons, exists_eq_or_imp, not_or]
    by_cases hn : n = fe.src
    · subst hn
      simp only [if_pos, Option.some.injEq, true_and, not_true_eq_false, false_and, or_false,
        hnd.1, not_false_eq_true]
      exact or_comm
    · simp only [hn, if_false, Ne.symm hn, false_and, false_or, not_false_eq_true, true_and]

theorem mem_failureTargetsOf_iff (h : WellFormed topology) (n target : String) :
    target ∈ failureTargetsOf topology n ↔ failureTarget topology n = some target := by
  unfold failureTarget failureTargets failureTargetsOf
  rw [find?_foldl_insert_failure _ _ h.failure, List.mem_toFinset, List.mem_map]
  simp only [List.mem_filter, decide_eq_true_eq]
  constructor
  · rintro ⟨fe, ⟨hfe, hsrc⟩, hdst⟩
    exact .inl ⟨fe, hfe, hsrc, hdst⟩
  · rintro (⟨fe, hfe, hsrc, hdst⟩ | ⟨-, hn⟩)
    · exact ⟨fe, ⟨hfe, hsrc⟩, hdst⟩
    · cases hn

/-! ## Exactness -/

/-- The validator and the scheduler agree on where a node goes on. -/
theorem mem_continuations_iff (h : WellFormed topology) (hn : n ∈ nodeNames topology)
    (target : String) : target ∈ continuations topology n ↔
      target ∈ routedTargets topology n ∨ failureTarget topology n = some target
        ∨ target = endNode ∧ routedTargets topology n = ∅ ∧ failureTarget topology n = none := by
  have hs : n ≠ startNode := fun heq => h.entry (heq ▸ hn)
  have hf := mem_failureTargetsOf_iff h n
  have hnn : failureTargetsOf topology n = ∅ ↔ failureTarget topology n = none := by
    rw [eq_empty_iff_forall_notMem, eq_none_iff_forall_ne_some]
    exact forall_congr' fun target => not_congr (hf target)
  unfold continuations
  rw [successors_eq hs]
  split
  · rename_i he
    rw [union_eq_empty] at he
    rw [Finset.mem_singleton, he.1, ← hf, he.2, ← hnn]
    simp [he.2]
  · rename_i hsm
    rw [mem_union, hf]
    constructor
    · rintro (hm | hm)
      · exact .inl hm
      · exact .inr (.inl hm)
    · rintro (hm | hm | ⟨-, he, hno⟩)
      · exact .inl hm
      · exact .inr hm
      · exact absurd (union_eq_empty.mpr ⟨he, hnn.mpr hno⟩) hsm

/-- **When the successors of the validator are those of the scheduler.** -/
theorem continuations_exact_iff (h : WellFormed topology)
    (hflr : ∀ fe ∈ topology.failureEdges, fe.dst ∈ nodeNames topology)
    (conditionSpec : String → Option ConditionSpec) :
    (∀ n ∈ nodeNames topology, ∀ target, target ∈ continuations topology n
        ↔ CanContinue conditionSpec topology n target)
      ↔ RoutesAsScheduled conditionSpec topology := by
  unfold RoutesAsScheduled
  refine forall_congr' fun n => forall_congr' fun hn => ?_
  have hend : failureTarget topology n ≠ some endNode := by
    intro ht
    rw [← mem_failureTargetsOf_iff h] at ht
    obtain ⟨fe, hfe, hdst⟩ := mem_map.mp (mem_toFinset.mp ht)
    exact h.exit (hdst ▸ hflr fe (mem_of_mem_filter hfe))
  have hcontinue : ∀ target, CanContinue conditionSpec topology n target ↔ _ := fun target =>
    or_congr (resolves_iff conditionSpec n target) Iff.rfl
  simp only [mem_continuations_iff h hn, hcontinue]
  unfold routedTargets
  cases hce : topology.conditionalEdges.find? fun ce => ce.src = n with
  | some ce =>
    constructor
    · intro hex
      refine ⟨fun he hnn => ?_, fun target ht => (hex target).mp (.inl ht)⟩
      obtain hrt | hf := (hex endNode).mp (.inr (.inr ⟨rfl, he, hnn⟩))
      · have hm := mem_targets_of_canRoute hrt
        rw [he] at hm
        exact notMem_empty _ hm
      · exact hend hf
    · rintro ⟨he, hr⟩ target
      constructor
      · rintro (hm | hf | ⟨-, hno, hnn⟩)
        · exact hr target hm
        · exact .inr hf
        · exact absurd hnn (he hno)
      · rintro (hrt | hf)
        · exact .inl (mem_targets_of_canRoute hrt)
        · exact .inr (.inl hf)
  | none =>
    have hed : topology.edges.filter (fun e => e.src = n) = []
        ↔ ¬∃ e ∈ topology.edges, e.src = n := by
      rw [filter_eq_nil_iff]
      push Not
      exact forall_congr' fun e => forall_congr' fun _ => not_congr decide_eq_true_iff
    dsimp only
    by_cases he : topology.edges.filter (fun e => e.src = n) = []
    · simp only [he, map_nil, toFinset_nil, notMem_empty, false_or, true_and, if_true]
      rw [or_iff_right (hed.mp he)]
      constructor
      · intro hex
        by_contra hs
        obtain hf | ⟨-, hnn⟩ := (hex endNode).mpr (.inl rfl)
        · exact hend hf
        · exact hs hnn
      · intro hnn target
        rw [hnn]
        simp
    · simp only [he, if_false]
      refine iff_of_true (fun target => ?_) (.inl (not_not.mp (mt hed.mpr he)))
      rw [List.mem_toFinset]
      constructor
      · rintro (hm | hf | ⟨-, hno, -⟩)
        · exact .inl hm
        · exact .inr hf
        · rw [toFinset_eq_empty_iff, map_eq_nil_iff] at hno
          exact absurd hno he
      · rintro (hm | hf)
        · exact .inl hm
        · exact .inr (.inl hf)

end GraphValidator

end NeoGraph
