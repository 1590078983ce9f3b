import NeoGraph.Validator.RoutedSuccessors

/-!
# The reachability findings are exact

A chain goes from a node to one of its successors, and on (`Step`). On a
topology without dangling references the validator reports exactly the nodes
that no chain from the entry comes to, the reached nodes that no chain leads to
an end, and the nodes between cycles: the search, the saturation and the peeling
find what chains find (`unreachable_iff`, `trapped_iff`, `cyclic_iff`).

Whether chains are those of a run is the question of `continuations_exact_iff`,
and so the findings are exact for the scheduler if and only if the validator
routes as it does (`reachability_exact_iff`).
-/

namespace NeoGraph

open List SortedMap Finset

open Compiler (TopologySpec FailureEdge)
open Relation

namespace GraphValidator

variable {dump : Document → String} {topology : TopologySpec}

/-! ## Chains -/

/-- One step of a chain: from a node to a successor. -/
def Step (topology : TopologySpec) (x y : String) : Prop :=
  x ∈ nodeNames topology ∧ y ∈ successors topology x

/-- A chain from the entry comes here. -/
def Reached (topology : TopologySpec) (n : String) : Prop :=
  ∃ first ∈ successors topology startNode, ReflTransGen (Step topology) first n

/-- A chain leads to the end, or to a node without successors. -/
def ComesToEnd (topology : TopologySpec) (n : String) : Prop :=
  ∃ m, ReflTransGen (Step topology) n m
    ∧ (m = endNode ∨ m ∈ nodeNames topology ∧ successors topology m = ∅)

/-- A node lies on a path from a cycle to a cycle. -/
def BetweenCycles (topology : TopologySpec) (n : String) : Prop :=
  ∃ c c', TransGen (Step topology) c c ∧ ReflTransGen (Step topology) c n
    ∧ ReflTransGen (Step topology) n c' ∧ TransGen (Step topology) c' c'

variable {x y : String}

/-- A chain to a node stays among nodes. -/
theorem chain_among_nodes (h : ReflTransGen (Step topology) x y) (hy : y ∈ nodeNames topology) :
    ReflTransGen (fun a b => a ∈ nodeNames topology ∧ b ∈ nodeNames topology
      ∧ b ∈ successors topology a) x y := by
  induction h with
  | refl => exact ReflTransGen.refl
  | tail _ hs ih => exact (ih hs.1).tail ⟨hs.1, hy, hs.2⟩

theorem chain_of_among_nodes
    (h : ReflTransGen (fun a b => a ∈ nodeNames topology ∧ b ∈ nodeNames topology
      ∧ b ∈ successors topology a) x y) :
    ReflTransGen (Step topology) x y :=
  h.lift id fun _ _ hs => ⟨hs.1, hs.2.2⟩

/-! ## References -/

theorem exists_mem_zipIdx {α : Type} {l : List α} {a : α} (h : a ∈ l) : ∃ i, (a, i) ∈ l.zipIdx := by
  obtain ⟨i, hi⟩ := mem_iff_getElem?.mp h
  exact ⟨i, mem_zipIdx_iff_getElem?.mpr hi⟩

theorem isNode_iff (n : String) : isNode topology n = true ↔ n ∈ nodeNames topology := by
  unfold isNode nodeNames SortedMap.contains SortedMap.keys
  rw [Option.isSome_iff_exists, List.mem_map]
  constructor
  · rintro ⟨v, hv⟩
    exact ⟨(n, v), (SortedMap.mem_entries_iff _ _ _).mpr hv, rfl⟩
  · rintro ⟨⟨_, v⟩, hm, rfl⟩
    exact ⟨v, (SortedMap.mem_entries_iff _ _ _).mp hm⟩

/-- What a topology without dangling references declares. -/
structure Declared (topology : TopologySpec) : Prop where
  edge : ∀ e ∈ topology.edges, e.src = startNode ∨ e.src ∈ nodeNames topology
  conditional : ∀ ce ∈ topology.conditionalEdges, ce.src ∈ nodeNames topology
  failureSrc : ∀ fe ∈ topology.failureEdges, fe.src ∈ nodeNames topology
  failureDst : ∀ fe ∈ topology.failureEdges, fe.dst ∈ nodeNames topology

/-- References that pass the check are to declared nodes. -/
theorem declared_of_checkReferences (h : checkReferences dump topology = []) :
    Declared topology := by
  unfold checkReferences at h
  simp only [List.append_eq_nil_iff] at h
  obtain ⟨⟨⟨⟨⟨⟨⟨⟨hed, hc⟩, -⟩, -⟩, hflr⟩, -⟩, -⟩, -⟩, -⟩ := h
  have hen : ∀ fe ∈ topology.failureEdges, ∀ n ∈ [fe.src, fe.dst], n ∈ nodeNames topology := by
    intro fe hfe n hn
    obtain ⟨i, hi⟩ := exists_mem_zipIdx hfe
    have hno := List.flatMap_eq_nil_iff.mp hflr (fe, i) hi
    unfold checkFailureEdge at hno
    have ha := (List.append_eq_nil_iff.mp hno).1
    rw [List.map_eq_nil_iff, List.filter_eq_nil_iff] at ha
    have hkn := ha n hn
    rw [Bool.not_eq_true, Bool.not_eq_false'] at hkn
    exact (isNode_iff n).mp hkn
  refine ⟨fun e he => ?_, fun ce hce => ?_, fun fe hfe => hen fe hfe _ List.mem_cons_self,
    fun fe hfe => hen fe hfe _ (List.mem_cons_of_mem _ List.mem_cons_self)⟩
  · obtain ⟨i, hi⟩ := exists_mem_zipIdx he
    have hno := List.flatMap_eq_nil_iff.mp hed (e, i) hi
    unfold checkEdge at hno
    have hsrc := (List.append_eq_nil_iff.mp hno).1
    split at hsrc
    · cases hsrc
    rename_i hkn
    by_cases hs : e.src = startNode
    · exact .inl hs
    rw [Bool.and_eq_true, not_and] at hkn
    have hin := hkn (decide_eq_true hs)
    rw [Bool.not_eq_true, Bool.not_eq_false'] at hin
    exact .inr ((isNode_iff _).mp hin)
  · obtain ⟨i, hi⟩ := exists_mem_zipIdx hce
    have hno := List.flatMap_eq_nil_iff.mp hc (ce, i) hi
    unfold checkConditionalEdge at hno
    have hsrc := (List.append_eq_nil_iff.mp hno).1
    split at hsrc
    · cases hsrc
    · rename_i hkn
      rw [Bool.not_eq_true, Bool.not_eq_false'] at hkn
      exact (isNode_iff _).mp hkn

/-- Only the entry and nodes have successors. -/
theorem source_known (h : Declared topology) (hy : y ∈ successors topology x) :
    x = startNode ∨ x ∈ nodeNames topology := by
  by_cases hx : x = startNode
  · exact .inl hx
  rw [successors_eq hx, mem_union] at hy
  obtain hrt | hf := hy
  · unfold routedTargets at hrt
    split at hrt
    · rename_i ce hce
      have hsrc := find?_some hce
      exact .inr (of_decide_eq_true hsrc ▸ h.conditional ce (mem_of_find?_eq_some hce))
    · obtain ⟨e, he, -⟩ := mem_map.mp (mem_toFinset.mp hrt)
      obtain ⟨he, hsrc⟩ := mem_filter.mp he
      exact of_decide_eq_true hsrc ▸ h.edge e he
  · obtain ⟨fe, hfe, -⟩ := mem_map.mp (mem_toFinset.mp hf)
    obtain ⟨hfe, hsrc⟩ := mem_filter.mp hfe
    exact .inr (of_decide_eq_true hsrc ▸ h.failureSrc fe hfe)

/-! ## The search -/

variable {n : String}

theorem mem_searchSpace (h : x ∈ successors topology n) : x ∈ searchSpace topology := by
  unfold successors SortedMap.getD at h
  cases hf : (buildSuccessors topology false).find? n with
  | none =>
    rw [hf] at h
    exact absurd h (notMem_empty x)
  | some names =>
    rw [hf, Option.getD_some] at h
    have hen := (mem_entries_iff _ _ _).mpr hf
    unfold searchSpace
    generalize (buildSuccessors topology false).entries = l at hen
    induction l with
    | nil => exact absurd hen not_mem_nil
    | cons e l ih =>
      rw [foldr_cons, mem_union]
      obtain rfl | hen := mem_cons.mp hen
      · exact .inl h
      · exact .inr (ih hen)

theorem startNode_mem_searchSpace : startNode ∈ searchSpace topology := by
  unfold searchSpace
  induction (buildSuccessors topology false).entries with
  | nil => exact Finset.mem_singleton_self _
  | cons e l ih =>
    rw [foldr_cons]
    exact mem_union_right _ ih

theorem mem_reachableFromStart (h : Declared topology) (hn : n ≠ startNode) :
    n ∈ reachableFromStart topology ↔ Reached topology n := by
  unfold reachableFromStart
  rw [mem_search_iff startNode_mem_searchSpace (fun x _ y hy =>
    mem_searchSpace ((mem_sort _).mp hy))]
  simp only [mem_sort]
  constructor
  · intro hpt
    have hreached : n = startNode ∨ Reached topology n := by
      induction hpt with
      | refl => exact .inl rfl
      | @tail b c _ he ih =>
        by_cases hb : b = startNode
        · rw [hb] at he
          exact .inr ⟨c, he, ReflTransGen.refl⟩
        · obtain ⟨first, hf, hch⟩ := (ih hb).resolve_left hb
          exact .inr ⟨first, hf, hch.tail ⟨(source_known h he).resolve_left hb, he⟩⟩
    exact hreached.resolve_left hn
  · rintro ⟨first, hf, hch⟩
    exact ReflTransGen.head hf (hch.lift id fun _ _ hs => hs.2)

/-! ## The saturation -/

/-- The nodes from which the end can be reached. -/
theorem mem_canEnd (hex : endNode ∉ nodeNames topology) (hn : n ∈ nodeNames topology) :
    n ∈ canEnd topology ↔ ComesToEnd topology n := by
  unfold canEnd
  rw [mem_saturate_iff, and_iff_right hn]
  unfold Saturation.ReachesExit ComesToEnd reachesEndDirectly
  simp only [mem_sort, Bool.or_eq_true, decide_eq_true_eq]
  constructor
  · rintro ⟨y, hpt, hend⟩
    have hch := chain_of_among_nodes hpt
    have hy : y ∈ nodeNames topology := by
      obtain rfl | ⟨z, -, hs⟩ := ReflTransGen.cases_tail hpt
      · exact hn
      · exact hs.2.1
    obtain he | hl := hend
    · exact ⟨y, hch, .inr ⟨hy, he⟩⟩
    · exact ⟨endNode, hch.tail ⟨hy, hl⟩, .inl rfl⟩
  · rintro ⟨m, hch, rfl | ⟨hm, he⟩⟩
    · obtain heq | ⟨y, hb, hs⟩ := ReflTransGen.cases_tail hch
      · exact absurd (heq ▸ hn) hex
      · exact ⟨y, chain_among_nodes hb hs.1, .inr hs.2⟩
    · exact ⟨m, chain_among_nodes hch hm, .inl he⟩

/-! ## The peeling -/

theorem foldl_addEdge (topology : TopologySpec) (src : String) (l : List String)
    (maps : Successors × Successors) :
    (∀ a b, a ∈ (l.foldl (addEdge topology src) maps).1.getD b ∅ ↔ a ∈ maps.1.getD b ∅
        ∨ a = src ∧ b ∈ l ∧ isNode topology b = true)
      ∧ ∀ a b, b ∈ (l.foldl (addEdge topology src) maps).2.getD a ∅ ↔ b ∈ maps.2.getD a ∅
        ∨ a = src ∧ b ∈ l ∧ isNode topology b = true := by
  induction l generalizing maps with
  | nil => simp
  | cons dst l ih =>
    obtain ⟨hin, ho⟩ := ih (addEdge topology src maps dst)
    rw [foldl_cons]
    by_cases hnd : isNode topology dst = true
    · have had : addEdge topology src maps dst
          = (maps.1.alterD dst ∅ (insert src), maps.2.alterD src ∅ (insert dst)) := by
        unfold addEdge
        rw [if_pos hnd]
      rw [had] at hin ho ⊢
      constructor
      · intro a b
        rw [hin, getD_alterD, List.mem_cons]
        by_cases hb : b = dst
        · subst hb
          rw [if_pos rfl, mem_insert]
          tauto
        · rw [if_neg hb]
          tauto
      · intro a b
        rw [ho, getD_alterD, List.mem_cons]
        by_cases ha : a = src
        · subst ha
          rw [if_pos rfl, mem_insert]
          constructor
          · rintro ((rfl | h) | h)
            · exact .inr ⟨rfl, .inl rfl, hnd⟩
            · exact .inl h
            · exact .inr ⟨rfl, .inr h.2.1, h.2.2⟩
          · rintro (h | ⟨-, rfl | h, hb⟩)
            · exact .inl (.inr h)
            · exact .inl (.inl rfl)
            · exact .inr ⟨rfl, h, hb⟩
        · rw [if_neg ha]
          tauto
    · have had : addEdge topology src maps dst = maps := by
        unfold addEdge
        rw [if_neg hnd]
      rw [had] at hin ho ⊢
      have hco : ∀ b, (b = dst ∨ b ∈ l) ∧ isNode topology b = true
          ↔ b ∈ l ∧ isNode topology b = true := by
        intro b
        constructor
        · rintro ⟨rfl | h, hb⟩
          · exact absurd hb hnd
          · exact ⟨h, hb⟩
        · exact fun h => ⟨.inr h.1, h.2⟩
      constructor
      · intro a b
        rw [hin, List.mem_cons, hco]
      · intro a b
        rw [ho, List.mem_cons, hco]

variable {a b : String}

theorem foldl_degrees (ha : a ∈ nodeNames topology) (hb : b ∈ nodeNames topology)
    (l : List (String × Finset String)) (maps : Successors × Successors) :
    (a ∈ (l.foldl (fun maps e => if isNode topology e.1 then
          (e.2.sort (· ≤ ·)).foldl (addEdge topology e.1) maps else maps) maps).1.getD b ∅
        ↔ a ∈ maps.1.getD b ∅ ∨ ∃ e ∈ l, e.1 = a ∧ b ∈ e.2)
      ∧ (b ∈ (l.foldl (fun maps e => if isNode topology e.1 then
          (e.2.sort (· ≤ ·)).foldl (addEdge topology e.1) maps else maps) maps).2.getD a ∅
        ↔ b ∈ maps.2.getD a ∅ ∨ ∃ e ∈ l, e.1 = a ∧ b ∈ e.2) := by
  induction l generalizing maps with
  | nil => simp
  | cons e l ih =>
    rw [List.foldl_cons]
    simp only [List.mem_cons, exists_eq_or_imp]
    by_cases hnd : isNode topology e.1 = true
    · rw [if_pos hnd]
      obtain ⟨hin, ho⟩ := ih ((e.2.sort (· ≤ ·)).foldl (addEdge topology e.1) maps)
      obtain ⟨had, had'⟩ := foldl_addEdge topology e.1 (e.2.sort (· ≤ ·)) maps
      have hone : (a = e.1 ∧ b ∈ e.2.sort (· ≤ ·) ∧ isNode topology b = true)
          ↔ e.1 = a ∧ b ∈ e.2 := by
        rw [Finset.mem_sort, and_iff_left ((isNode_iff b).mpr hb), @eq_comm _ a]
      rw [hin, ho, had, had', hone]
      exact ⟨or_assoc, or_assoc⟩
    · rw [if_neg hnd]
      have hne : e.1 ≠ a := fun heq => hnd (heq ▸ (isNode_iff a).mpr ha)
      simp only [hne, false_and, false_or]
      exact ih maps

theorem mem_entries_successors (a b : String) :
    (∃ e ∈ (buildSuccessors topology false).entries, e.1 = a ∧ b ∈ e.2)
      ↔ b ∈ successors topology a := by
  unfold successors SortedMap.getD
  constructor
  · rintro ⟨⟨_, names⟩, hen, rfl, hm⟩
    rw [(mem_entries_iff _ _ _).mp hen]
    exact hm
  · intro hm
    cases hf : (buildSuccessors topology false).find? a with
    | none =>
      rw [hf] at hm
      exact absurd hm (notMem_empty b)
    | some names =>
      rw [hf] at hm
      exact ⟨(a, names), (mem_entries_iff _ _ _).mpr hf, rfl, hm⟩

/-- The degrees are the successors between nodes, from both ends. -/
theorem mem_degrees (ha : a ∈ nodeNames topology) (hb : b ∈ nodeNames topology) :
    (a ∈ (degrees topology).1.getD b ∅ ↔ b ∈ successors topology a)
      ∧ (b ∈ (degrees topology).2.getD a ∅ ↔ b ∈ successors topology a) := by
  obtain ⟨hin, ho⟩ := foldl_degrees ha hb (buildSuccessors topology false).entries (∅, ∅)
  have he : ∀ x y : String, x ∉ getD (∅ : Successors) y ∅ :=
    fun x y => notMem_empty x
  unfold degrees
  rw [hin, ho, mem_entries_successors]
  exact ⟨or_iff_right (he a b), or_iff_right (he b a)⟩

/-- A cycle runs among nodes. -/
theorem cycle_among_nodes (h : TransGen (Step topology) x y) (hy : y ∈ nodeNames topology) :
    TransGen (fun a b => a ∈ nodeNames topology ∧ b ∈ nodeNames topology
      ∧ b ∈ successors topology a) x y := by
  obtain ⟨z, hb, hs⟩ := TransGen.tail'_iff.mp h
  exact TransGen.tail' (chain_among_nodes hb hs.1) ⟨hs.1, hy, hs.2⟩

theorem mem_of_step_chain (h : TransGen (Step topology) x y) : x ∈ nodeNames topology := by
  obtain ⟨z, hs, -⟩ := TransGen.head'_iff.mp h
  exact hs.1

/-- The nodes on a way from a cycle to a cycle. -/
theorem mem_cyclicNodes (n : String) : n ∈ cyclicNodes topology ↔ BetweenCycles topology n := by
  unfold cyclicNodes
  rw [mem_peelBoth_iff (fun x hx y hy => by
    rw [mem_toFinset] at hx hy
    rw [(mem_degrees hx hy).1, (mem_degrees hx hy).2])]
  have he : (fun a b => a ∈ (nodeNames topology).toFinset ∧ b ∈ (nodeNames topology).toFinset
      ∧ b ∈ (degrees topology).2.getD a ∅) = fun a b => a ∈ nodeNames topology
        ∧ b ∈ nodeNames topology ∧ b ∈ successors topology a := by
    funext a b
    rw [mem_toFinset, mem_toFinset]
    exact propext (and_congr_right fun ha => and_congr_right fun hb => (mem_degrees ha hb).2)
  rw [he]
  unfold BetweenCycles
  constructor
  · rintro ⟨c, c', hcyc, hf, hto, hcyc'⟩
    exact ⟨c, c', hcyc.lift id fun _ _ h => ⟨h.1, h.2.2⟩, chain_of_among_nodes hf,
      chain_of_among_nodes hto, hcyc'.lift id fun _ _ h => ⟨h.1, h.2.2⟩⟩
  · rintro ⟨c, c', hcyc, hf, hto, hcyc'⟩
    have hn : n ∈ nodeNames topology := mem_of_step_chain (TransGen.trans_right hto hcyc')
    exact ⟨c, c', cycle_among_nodes hcyc (mem_of_step_chain hcyc), chain_among_nodes hf hn,
      chain_among_nodes hto (mem_of_step_chain hcyc'),
      cycle_among_nodes hcyc' (mem_of_step_chain hcyc')⟩

/-! ## What is reported -/

/-- A diagnostic of a code names a node. -/
def Names (report : List Diagnostic) (code key n : String) : Prop :=
  ∃ d ∈ report, d.code = code ∧ n ∈ d.names key

theorem names_witness (names : List String) (code severity path message pointer key : String) :
    Diagnostic.names ⟨code, severity, path, message, .obj [(key, stringSetToArray names)], pointer⟩
      key = names := by
  unfold Diagnostic.names
  rw [show (Json.obj [(key, stringSetToArray names)] : Document).get? key
    = some (stringSetToArray names) by
      unfold Json.get? Json.members
      rw [lookup_cons_self]]
  unfold stringSetToArray
  dsimp only
  induction names with
  | nil => rfl
  | cons n names ih =>
    rw [List.map_cons, List.filterMap_cons]
    exact congrArg (n :: ·) ih

/-- **What the findings are to say**: the successors of a node are the targets
that the scheduler may send it to; an unreachable node is one that no chain
comes to, a trapped one comes to no end, and a graph is refused for its cycles
if it has one. -/
structure ReachabilityExact (dump : Document → String)
    (conditionSpec : String → Option ConditionSpec) (topology : TopologySpec) : Prop where
  successors : ∀ n ∈ nodeNames topology, ∀ target, target ∈ continuations topology n
    ↔ CanContinue conditionSpec topology n target
  unreachable : ∀ requireAcyclic n,
    Names (reachabilityReport dump topology requireAcyclic) "E7" "unreachable" n
      ↔ n ∈ nodeNames topology ∧ ¬Reached topology n
  trapped : ∀ requireAcyclic n,
    Names (reachabilityReport dump topology requireAcyclic) "E11" "trapped" n
      ↔ n ∈ nodeNames topology ∧ Reached topology n ∧ ¬ComesToEnd topology n
  refused : (∃ d ∈ reachabilityReport dump topology true, d.code = "E16")
    ↔ ∃ n, TransGen (Step topology) n n
  cyclic : ∀ n, Names (reachabilityReport dump topology true) "E16" "nodes" n
    ↔ BetweenCycles topology n

/-- A finding is made unless there is nothing to name. -/
theorem mem_unless_empty (names : List String) (finding d : Diagnostic) :
    d ∈ (if names.isEmpty then [] else [finding]) ↔ names ≠ [] ∧ d = finding := by
  cases names with
  | nil => exact iff_of_false not_mem_nil fun h => h.1 rfl
  | cons n names =>
    rw [and_iff_right (cons_ne_nil n names)]
    exact List.mem_singleton

variable (d : Diagnostic)

theorem mem_checkReachability : d ∈ checkReachability dump topology ↔
    unreachableNodes topology ≠ [] ∧ d = warn "E7" "$" ""
      ("node(s) unreachable from __start__ via static edges/routes: "
        ++ dump (stringSetToArray (unreachableNodes topology))
        ++ " (only Command.goto / Send can reach them at runtime — "
        ++ "if none of your nodes emits those, this is dead topology)")
      [("unreachable", stringSetToArray (unreachableNodes topology))] :=
  mem_unless_empty _ _ _

theorem mem_checkTermination : d ∈ checkTermination dump topology ↔
    trappedNodes topology ≠ [] ∧ d = warn "E11" "$" ""
      ("node(s) with no static path to __end__ (cycle without exit): "
        ++ dump (stringSetToArray (trappedNodes topology))
        ++ " (a Command.goto could still exit at runtime; otherwise "
        ++ "the run only stops at the recursion limit)")
      [("trapped", stringSetToArray (trappedNodes topology))] :=
  mem_unless_empty _ _ _

theorem mem_checkAcyclic : d ∈ checkAcyclic dump topology ↔
    (cyclicNodes topology).sort (· ≤ ·) ≠ [] ∧ d = error "E16" "$" "" ("graph has a cycle through "
        ++ dump (stringSetToArray ((cyclicNodes topology).sort (· ≤ ·)))
        ++ " but this compile requires an acyclic graph")
      [("nodes", stringSetToArray ((cyclicNodes topology).sort (· ≤ ·)))] :=
  mem_unless_empty _ _ _

theorem code_of_checkReachability {d : Diagnostic} (h : d ∈ checkReachability dump topology) :
    d.code = "E7" := by
  rw [((mem_checkReachability d).mp h).2]
  rfl

theorem code_of_checkTermination {d : Diagnostic} (h : d ∈ checkTermination dump topology) :
    d.code = "E11" := by
  rw [((mem_checkTermination d).mp h).2]
  rfl

theorem code_of_checkAcyclic {d : Diagnostic} (h : d ∈ checkAcyclic dump topology) :
    d.code = "E16" := by
  rw [((mem_checkAcyclic d).mp h).2]
  rfl

/-- A finding of one of the three checks. -/
theorem mem_reachabilityReport (h : checkReferences dump topology = []) (requireAcyclic : Bool)
    (d : Diagnostic) : d ∈ reachabilityReport dump topology requireAcyclic ↔
      d ∈ checkReachability dump topology ∨ d ∈ checkTermination dump topology
        ∨ requireAcyclic = true ∧ d ∈ checkAcyclic dump topology := by
  unfold reachabilityReport
  rw [h, List.nil_append, List.mem_append, List.mem_append, or_assoc]
  refine or_congr_right (or_congr_right ?_)
  cases requireAcyclic with
  | true => exact (and_iff_right rfl).symm
  | false => exact iff_of_false List.not_mem_nil fun h => Bool.false_ne_true h.1

theorem names_unreachable_iff (h : checkReferences dump topology = []) (requireAcyclic : Bool)
    (n : String) : Names (reachabilityReport dump topology requireAcyclic) "E7" "unreachable" n
      ↔ n ∈ unreachableNodes topology := by
  unfold Names
  constructor
  · rintro ⟨d, hd, hc, hn⟩
    obtain hd | hd | ⟨-, hd⟩ := (mem_reachabilityReport h _ d).mp hd
    · obtain ⟨-, rfl⟩ := (mem_checkReachability d).mp hd
      rwa [warn, names_witness] at hn
    · exact absurd ((code_of_checkTermination hd).symm.trans hc) (by decide)
    · exact absurd ((code_of_checkAcyclic hd).symm.trans hc) (by decide)
  · intro hn
    refine ⟨_, (mem_reachabilityReport h _ _).mpr (.inl ((mem_checkReachability _).mpr
      ⟨ne_nil_of_mem hn, rfl⟩)), rfl, ?_⟩
    rwa [warn, names_witness]

theorem names_trapped_iff (h : checkReferences dump topology = []) (requireAcyclic : Bool)
    (n : String) : Names (reachabilityReport dump topology requireAcyclic) "E11" "trapped" n
      ↔ n ∈ trappedNodes topology := by
  unfold Names
  constructor
  · rintro ⟨d, hd, hc, hn⟩
    obtain hd | hd | ⟨-, hd⟩ := (mem_reachabilityReport h _ d).mp hd
    · exact absurd ((code_of_checkReachability hd).symm.trans hc) (by decide)
    · obtain ⟨-, rfl⟩ := (mem_checkTermination d).mp hd
      rwa [warn, names_witness] at hn
    · exact absurd ((code_of_checkAcyclic hd).symm.trans hc) (by decide)
  · intro hn
    refine ⟨_, (mem_reachabilityReport h _ _).mpr (.inr (.inl ((mem_checkTermination _).mpr
      ⟨ne_nil_of_mem hn, rfl⟩))), rfl, ?_⟩
    rwa [warn, names_witness]

/-- Whether the graph is refused, and which nodes are named then. -/
theorem mem_report_acyclic (h : checkReferences dump topology = []) (d : Diagnostic) :
    d ∈ reachabilityReport dump topology true ∧ d.code = "E16"
      ↔ d ∈ checkAcyclic dump topology := by
  rw [mem_reachabilityReport h]
  constructor
  · rintro ⟨hd | hd | ⟨-, hd⟩, hc⟩
    · exact absurd ((code_of_checkReachability hd).symm.trans hc) (by decide)
    · exact absurd ((code_of_checkTermination hd).symm.trans hc) (by decide)
    · exact hd
  · intro hd
    refine ⟨.inr (.inr ⟨rfl, hd⟩), ?_⟩
    obtain ⟨-, rfl⟩ := (mem_checkAcyclic d).mp hd
    rfl

theorem mem_unreachableNodes (h : WellFormed topology) (hd : Declared topology)
    (n : String) :
    n ∈ unreachableNodes topology ↔ n ∈ nodeNames topology ∧ ¬Reached topology n := by
  unfold unreachableNodes
  rw [mem_filter, decide_eq_true_eq]
  refine and_congr_right fun hn => not_congr (mem_reachableFromStart hd ?_)
  rintro rfl
  exact h.entry hn

theorem mem_trappedNodes (h : WellFormed topology) (hd : Declared topology) (n : String) :
    n ∈ trappedNodes topology
      ↔ n ∈ nodeNames topology ∧ Reached topology n ∧ ¬ComesToEnd topology n := by
  unfold trappedNodes
  simp only [mem_filter, Bool.and_eq_true, decide_eq_true_eq]
  refine and_congr_right fun hn => and_congr (mem_reachableFromStart hd ?_)
    (not_congr (mem_canEnd h.exit hn))
  rintro rfl
  exact h.entry hn

/-- **The reachability findings are exact if and only if the validator routes as
the scheduler does.** -/
theorem reachability_exact_iff (h : WellFormed topology)
    (hr : checkReferences dump topology = [])
    (conditionSpec : String → Option ConditionSpec) :
    ReachabilityExact dump conditionSpec topology ↔ RoutesAsScheduled conditionSpec topology := by
  have hdc := declared_of_checkReferences hr
  rw [← continuations_exact_iff h hdc.failureDst]
  refine ⟨fun hex => hex.successors, fun hsuccs => {
    successors := hsuccs
    unreachable := fun requireAcyclic n => by
      rw [names_unreachable_iff hr, mem_unreachableNodes h hdc]
    trapped := fun requireAcyclic n => by
      rw [names_trapped_iff hr, mem_trappedNodes h hdc]
    refused := ?_
    cyclic := fun n => ?_ }⟩
  · constructor
    · rintro ⟨d, hd⟩
      obtain ⟨hs, -⟩ := (mem_checkAcyclic d).mp ((mem_report_acyclic hr d).mp hd)
      obtain ⟨n, hn⟩ := exists_mem_of_ne_nil _ hs
      obtain ⟨c, -, hcyc, -⟩ := (mem_cyclicNodes n).mp ((mem_sort _).mp hn)
      exact ⟨c, hcyc⟩
    · rintro ⟨n, hcyc⟩
      have hn : n ∈ (cyclicNodes topology).sort (· ≤ ·) := by
        rw [mem_sort, mem_cyclicNodes]
        exact ⟨n, n, hcyc, ReflTransGen.refl, ReflTransGen.refl, hcyc⟩
      exact ⟨_, (mem_report_acyclic hr _).mpr ((mem_checkAcyclic _).mpr
        ⟨ne_nil_of_mem hn, rfl⟩)⟩
  · rw [← mem_cyclicNodes, ← mem_sort (· ≤ ·)]
    unfold Names
    constructor
    · rintro ⟨d, hd, hc, hn⟩
      obtain ⟨-, rfl⟩ := (mem_checkAcyclic d).mp ((mem_report_acyclic hr d).mp ⟨hd, hc⟩)
      rw [error, names_witness] at hn
      exact hn
    · intro hn
      obtain ⟨hd, hc⟩ := (mem_report_acyclic hr _).mpr ((mem_checkAcyclic _).mpr
        ⟨ne_nil_of_mem hn, rfl⟩)
      refine ⟨_, hd, hc, ?_⟩
      rw [error, names_witness]
      exact hn

/-- A worker whose failure is handled, and whose handler goes back to it. -/
def recoveryTopology (explicitEnd : Bool) : TopologySpec where
  name := "recovery"
  channelDefs := []
  edges := ⟨startNode, "worker"⟩ :: ⟨"ha", "worker"⟩
    :: if explicitEnd then [⟨"worker", endNode⟩] else []
  conditionalEdges := []
  barrierSpecs := ∅
  joinSpecs := ∅
  interruptBefore := ∅
  interruptAfter := ∅
  retryPolicy := none
  schemaVersion := 1
  nodeDefs := ofList [("ha", .obj [("type", .str "tool")]),
    ("worker", .obj [("type", .str "llm_call")])]
  metadata := none
  nodeRetryPolicies := ∅
  failureEdges := [⟨"worker", "ha", none⟩]
  failureExits := ∅

theorem wellFormed_recoveryTopology (explicitEnd : Bool) :
    WellFormed (recoveryTopology explicitEnd) :=
  ⟨show startNode ∉ ["ha", "worker"] by decide,
    show endNode ∉ ["ha", "worker"] by decide, nodup_singleton _⟩

theorem checkReferences_recoveryTopology (explicitEnd : Bool) :
    checkReferences (fun _ => "") (recoveryTopology explicitEnd) = [] := by
  unfold checkReferences checkInterrupts
  rw [show (recoveryTopology explicitEnd).interruptBefore = ∅ from rfl,
    show (recoveryTopology explicitEnd).interruptAfter = ∅ from rfl, sort_empty]
  cases explicitEnd with
  | false | true => rfl

theorem reachability_exact_iff_recovery :
    ReachabilityExact (fun _ => "") (fun _ => none) (recoveryTopology true) := by
  refine (reachability_exact_iff (wellFormed_recoveryTopology true)
    (checkReferences_recoveryTopology true) _).mpr ?_
  have hed : ∀ n ∈ ["ha", "worker"],
      ∃ e ∈ (recoveryTopology true).edges, e.src = n := by decide
  exact fun n hn => .inl (hed n hn)

/-- **The implicit end of a node is forgotten** when it has a failure edge: the
worker may end, and no chain leads it to the end. -/
theorem implicit_end_forgotten :
    WellFormed (recoveryTopology false)
      ∧ checkReferences (fun _ => "") (recoveryTopology false) = []
      ∧ ¬ReachabilityExact (fun _ => "") (fun _ => none) (recoveryTopology false) := by
  refine ⟨wellFormed_recoveryTopology false, checkReferences_recoveryTopology false, fun hex => ?_⟩
  have hwk := (hex.successors "worker" (by decide) endNode).mpr
    (.inl ⟨"", [endNode], rfl, List.mem_singleton_self _⟩)
  exact absurd hwk (by decide +kernel)

end GraphValidator

end NeoGraph
