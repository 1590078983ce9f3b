import NeoGraph.Compiler.Topology
import NeoGraph.Engine.Gates
import NeoGraph.Executor.StepEnd

/-!
# Visit counters

A node may declare how often it is activated before its failure target
completes. A run counts the activations of such nodes: `activate` takes one, or
refuses it when the limit is reached, and `targetCompleted` forgets the counts
of the nodes whose failures lead to a target.

The counters travel in the metadata of checkpoints, under a reserved member. A
checkpoint saved between super-steps keeps the counters as they are; one saved
while a super-step runs keeps those from before the step, since a resume enters
the step again. `restore_checkpointMetadataFor` says that counters in range are
read back as they were.
-/

namespace NeoGraph

open Executor SortedMap Json List Int64
open Compiler (NodeRetryPolicySpec FailureEdge)

/-! ## Where failures go -/

/-- What a node does about its failures. -/
structure NodeFailurePlan where
  nonRetryable : Finset String := ∅
  maxVisits : Option ℤ := none
  errorText : Bool := false
  /-- The target of the failure edge; empty without a failure edge. -/
  target : String := ""
  errorChannel : Option String := none

/-- The failure routing of a linked graph. -/
structure FailureRouting where
  nodes : SortedMap String NodeFailurePlan := ∅
  /-- Failure-exit nodes and their codes. -/
  exits : SortedMap String String := ∅
  /-- For a failure target, the nodes whose counters it resets. -/
  visitResets : SortedMap String (List String) := ∅
  targets : SortedMap String String := ∅
  visitLimits : Bool := false

namespace FailureRouting

/-- The retry fields of a node. -/
def addPolicy (routing : FailureRouting) (policy : String × NodeRetryPolicySpec) : FailureRouting :=
  { routing with
      nodes := routing.nodes.alterD policy.1 {} fun plan =>
        { plan with
            nonRetryable := plan.nonRetryable ∪ policy.2.nonRetryable
            maxVisits := policy.2.maxVisits
            errorText := policy.2.errorText.getD false } }

/-- A failure edge. -/
def addEdge (routing : FailureRouting) (edge : FailureEdge) : FailureRouting :=
  { routing with
      nodes := routing.nodes.alterD edge.src {} fun plan =>
        { plan with target := edge.dst, errorChannel := edge.errorChannel }
      targets := routing.targets.insert edge.src edge.dst }

/-- The target of a node with a limit resets its counter. -/
def addReset (routing : FailureRouting) (node : String × NodeFailurePlan) : FailureRouting :=
  if node.2.maxVisits.isSome then
    { routing with
        visitLimits := true
        visitResets :=
          if node.2.target = "" then routing.visitResets
          else routing.visitResets.alterD node.2.target [] (· ++ [node.1]) }
  else routing

/-- A failure exit; one without a code has the default one. -/
def addExit (routing : FailureRouting) (exit : String × String) : FailureRouting :=
  { routing with
      exits := routing.exits.insert exit.1 (if exit.2 = "" then "NG.Aborted" else exit.2) }

/-- **The failure routing of a graph**, from what it declares. -/
def build (policies : SortedMap String NodeRetryPolicySpec) (edges : List FailureEdge)
    (exits : SortedMap String String) : FailureRouting :=
  let routing := policies.entries.foldl addPolicy {}
  let routing := edges.foldl addEdge routing
  let routing := routing.nodes.entries.foldl addReset routing
  exits.entries.foldl addExit routing

/-- What is planned for the failures of a node. -/
def plan (routing : FailureRouting) (node : String) : Option NodeFailurePlan :=
  routing.nodes.find? node

/-- The limit a node declares. -/
def limit (routing : FailureRouting) (node : String) : Option ℤ :=
  (routing.plan node).bind NodeFailurePlan.maxVisits

/-- The failure target of a node. -/
def target (routing : FailureRouting) (node : String) : Option String :=
  match routing.plan node with
  | some plan => if plan.target = "" then none else some plan.target
  | none => none

/-- Some node has a failure edge. -/
def routes (routing : FailureRouting) : Bool := !routing.targets.isEmpty

/-- Some node has a limit. -/
def countsVisits (routing : FailureRouting) : Bool := routing.visitLimits

end FailureRouting

/-! ## Counters -/

/-- The counters of a run, and those it had when its super-step began. -/
structure FailureRunState where
  visits : SortedMap String ℤ := ∅
  stepStart : SortedMap String ℤ := ∅

namespace FailureRunState

variable (routing : FailureRouting) (s : FailureRunState)

/-- **One activation of a node**; none, and nothing counted, past its limit. -/
def activate (node : String) : Bool × FailureRunState :=
  match routing.limit node with
  | none => (true, s)
  | some limit =>
    let count := s.visits.getD node 0
    if limit ≤ count then
      (false, if count = 0 then { s with visits := s.visits.erase node } else s)
    else (true, { s with visits := s.visits.insert node (count + 1) })

/-- **A target has completed.** -/
def targetCompleted (target : String) : FailureRunState :=
  match routing.visitResets.find? target with
  | none => s
  | some nodes => { s with visits := nodes.foldl erase s.visits }

/-- Counters as they are stored; null when there are none. -/
def encode (visits : SortedMap String ℤ) : Json String :=
  match (visits.entries.filter fun e => 0 < e.2).map
      fun e => (e.1, sint (ofInt e.2)) with
  | [] => .null
  | members => .obj members

/-- The counters now. -/
def visitsJson : Json String := encode s.visits

/-- A super-step starts. -/
def markStepStart : FailureRunState := { s with stepStart := s.visits }

/-- The counters from before the step. -/
def stepStartVisits : Json String := encode s.stepStart

/-- The largest count that is read. -/
def countLimit : ℤ := 1048576

/-- A positive count of a stored value. -/
def readCount (value : Json String) : Option ℤ :=
  let count : ℤ :=
    match value with
    | .sint n => n.toInt
    | .uint n => n.toInt64.toInt
    | _ => 0
  if 0 < count then some (min count countLimit) else none

/-- One stored counter is read. -/
def restoreCount (visits : SortedMap String ℤ) (m : String × Json String) : SortedMap String ℤ :=
  match readCount m.2 with
  | some count => visits.insert m.1 count
  | none => visits

end FailureRunState

/-- The counters in the metadata of a checkpoint. -/
def nodeVisits (metadata : Json String) : Option (Json String) :=
  (metadata.get? metadataNamespace).bind fun owned => owned.get? "node_visits"

/-- **The counters of a resumed run.** -/
def FailureRunState.restore (s : FailureRunState) (metadata : Json String) : FailureRunState :=
  match nodeVisits metadata with
  | some (.obj members) =>
    let visits := members.foldl restoreCount ∅
    ⟨visits, visits⟩
  | _ => { s with visits := ∅ }

/-! ## The metadata of a checkpoint -/

/-- Whether a checkpoint is saved while a super-step runs. -/
inductive CheckpointTiming where
  | duringStep
  | betweenSteps
deriving DecidableEq

/-- A reserved member of the metadata is assigned. -/
def putReserved (metadata : Json String) (name : String) (value : Json String) : Json String :=
  .obj (put metadata.members metadataNamespace
    (.obj (put ((metadata.get? metadataNamespace).map members |>.getD []) name value)))

/-- The metadata without counters; the reserved member goes too when nothing
else is in it. -/
def withoutNodeVisits (metadata : Json String) : Json String :=
  let owned := rebuild
    (((metadata.get? metadataNamespace).map members |>.getD []).filter
      fun m => m.1 ≠ "node_visits")
  .obj (rebuild (metadata.members.filterMap fun m =>
    if m.1 ≠ metadataNamespace then some m
    else if owned = [] then none
    else some (m.1, .obj owned)))

/-- **The metadata of a checkpoint**, from what else the engine keeps in it. -/
def checkpointMetadataFor (kept : ReservedMetadata) (failure : Option FailureRunState)
    (timing : CheckpointTiming) : Json String :=
  let metadata := checkpointMetadata
    { kept with nodeVisits := failure.bind fun s => answerOf s.stepStartVisits }
  match timing, failure with
  | .betweenSteps, some s =>
    match answerOf s.visitsJson with
    | some visits => putReserved metadata "node_visits" visits
    | none => if (nodeVisits metadata).isSome then withoutNodeVisits metadata else metadata
  | _, _ => metadata

/-- The interrupts of a pause, where they are listed. -/
def withPendingInterrupts (metadata : Json String) (interrupts : List PendingInterrupt)
    (listed : Bool) : Json String :=
  if interrupts = [] ∨ interrupts.length < 2 ∧ listed = false then metadata
  else putReserved metadata "interrupts" (.arr (interrupts.map fun interrupt =>
    .obj [("id", .str interrupt.id), ("node", .str interrupt.node),
      ("interrupt_value", interrupt.value)]))

/-- The guard of the ephemeral channels, where there is one. -/
def withEphemeralGuard (metadata : Json String) (guard : Json String) : Json String :=
  match guard with
  | .null => metadata
  | guard => .obj (put metadata.members "_neograph_ephemeral_guard" guard)

/-! ## Reading the metadata back -/

variable (metadata : Json String)

theorem nodeVisits_putReserved (name : String) (value : Json String) :
    nodeVisits (putReserved metadata name value)
      = if name = "node_visits" then some value else nodeVisits metadata := by
  have how : (putReserved metadata name value).get? metadataNamespace
      = some (.obj (put ((metadata.get? metadataNamespace).map members |>.getD []) name
          value)) :=
    (lookup_put _ _ _ _).trans (if_pos rfl)
  unfold nodeVisits
  rw [how]
  refine ((lookup_put _ _ _ _).trans (if_congr eq_comm rfl ?_))
  cases metadata.get? metadataNamespace with
  | none | some owned => rfl

/-- The counts can be taken out of the metadata. -/
theorem nodeVisits_withoutNodeVisits : nodeVisits (withoutNodeVisits metadata) = none := by
  unfold nodeVisits
  rw [Option.bind_eq_none_iff]
  intro owned how
  have hmm := mem_of_mem_rebuild ((lookup_eq_some_iff (nodup_rebuild _)).mp how)
  obtain ⟨m, -, hm⟩ := mem_filterMap.mp hmm
  by_cases hnm : m.1 ≠ metadataNamespace
  · rw [if_pos hnm] at hm
    cases hm
    exact absurd rfl hnm
  · rw [if_neg hnm] at hm
    split at hm
    · cases hm
    obtain rfl := congrArg Prod.snd (Option.some.inj hm)
    show lookup "node_visits" (rebuild _) = none
    rw [← Option.not_isSome_iff_eq_none, ← mem_names_iff, mem_map]
    rintro ⟨m', hm', hvs⟩
    have := of_mem_filter (mem_of_mem_rebuild hm')
    simp [hvs] at this

theorem nodeVisits_checkpointMetadata (r : ReservedMetadata) :
    nodeVisits (checkpointMetadata r) = r.nodeVisits := by
  have hlk : (present r.fields).lookup "node_visits" = r.nodeVisits := by
    rw [lookup_present]
    · show (some r.nodeVisits).join = _
      exact Option.join_some
    · show ["subgraph_invocation_id", "subgraph_write_journal_version", "subgraph_write_journal",
        "subgraph_parent_call_id", "node_visits", "barrier_stalled", "failure_exit"].Nodup
      decide
  unfold checkpointMetadata
  split_ifs with he
  · rw [he] at hlk
    exact hlk
  · exact hlk

/-- **The counters a checkpoint keeps** are those of before the step, or those
of now, by when it is saved. -/
theorem nodeVisits_checkpointMetadataFor (kept : ReservedMetadata) (s : FailureRunState)
    (timing : CheckpointTiming) :
    nodeVisits (checkpointMetadataFor kept (some s) timing)
      = match timing with
        | .duringStep => answerOf s.stepStartVisits
        | .betweenSteps => answerOf s.visitsJson := by
  unfold checkpointMetadataFor
  cases timing with
  | duringStep => exact nodeVisits_checkpointMetadata _
  | betweenSteps =>
    dsimp only
    cases answerOf s.visitsJson with
    | some visits => rw [nodeVisits_putReserved, if_pos rfl]
    | none =>
      split_ifs with hn
      · exact nodeVisits_withoutNodeVisits _
      · exact Option.not_isSome_iff_eq_none.mp hn

theorem nodeVisits_withGateAnswers (answers : List GateAnswer) :
    nodeVisits (withGateAnswers metadata answers) = nodeVisits metadata := by
  unfold withGateAnswers
  split
  · rfl
  · exact (nodeVisits_putReserved metadata "answered_gates" _).trans (if_neg (by decide))

theorem nodeVisits_withPendingInterrupts (interrupts : List PendingInterrupt) (listed : Bool) :
    nodeVisits (withPendingInterrupts metadata interrupts listed) = nodeVisits metadata := by
  unfold withPendingInterrupts
  split
  · rfl
  · exact (nodeVisits_putReserved metadata "interrupts" _).trans (if_neg (by decide))

theorem nodeVisits_withEphemeralGuard (metadata guard : Json String) :
    nodeVisits (withEphemeralGuard metadata guard) = nodeVisits metadata := by
  have hput : nodeVisits (.obj (put metadata.members "_neograph_ephemeral_guard" guard))
      = nodeVisits metadata :=
    congrArg (Option.bind · _) ((lookup_put _ _ _ _).trans (if_neg (by decide)))
  unfold withEphemeralGuard
  split
  · rfl
  · exact hput

namespace FailureRunState

theorem stepStart_activate (routing : FailureRouting) (s : FailureRunState) (node : String) :
    (s.activate routing node).2.stepStart = s.stepStart := by
  unfold activate
  split
  · rfl
  dsimp only
  split
  · split <;> rfl
  · rfl

theorem stepStart_targetCompleted (routing : FailureRouting) (s : FailureRunState)
    (target : String) : (s.targetCompleted routing target).stepStart = s.stepStart := by
  unfold targetCompleted
  split <;> rfl

/-- Counters that can be stored: positive, and not too large. -/
def InRange (visits : SortedMap String ℤ) : Prop :=
  ∀ node count, visits.find? node = some count → 0 < count ∧ count ≤ countLimit

theorem readCount_ofInt {count : ℤ} (hp : 0 < count) (hle : count ≤ countLimit) :
    readCount (.sint (ofInt count)) = some count := by
  have hle' : count ≤ 1048576 := hle
  have htoInt : (ofInt count).toInt = count :=
    toInt_ofInt_of_le (by omega) (by omega)
  unfold readCount
  dsimp only
  rw [htoInt, if_pos hp, min_eq_left hle]

/-- **Counters in range are read back** as they were stored. -/
theorem restore_encode (s : FailureRunState) {visits : SortedMap String ℤ} (h : InRange visits)
    {metadata : Json String} (hmt : nodeVisits metadata = answerOf (encode visits)) :
    (s.restore metadata).visits = visits := by
  have hens : ∀ e ∈ visits.entries, 0 < e.2 ∧ e.2 ≤ countLimit := fun e he =>
    h e.1 e.2 ((visits.mem_entries_iff e.1 e.2).mp he)
  have hflt : (visits.entries.filter fun e => 0 < e.2) = visits.entries :=
    filter_eq_self.mpr fun e he => decide_eq_true (hens e he).1
  have hrd : ∀ (l : List (String × ℤ)) (m : SortedMap String ℤ),
      (∀ e ∈ l, 0 < e.2 ∧ e.2 ≤ countLimit) →
      (l.map fun e => (e.1, sint (ofInt e.2))).foldl restoreCount m
        = l.foldl (fun m e => m.insert e.1 e.2) m := by
    intro l
    induction l with
    | nil => exact fun _ _ => rfl
    | cons e l ih =>
      intro m hl
      have he := hl e mem_cons_self
      rw [map_cons, foldl_cons, foldl_cons, ih _ fun e' he' => hl e' (mem_cons_of_mem e he')]
      unfold restoreCount
      rw [readCount_ofInt he.1 he.2]
  have ha := (hrd visits.entries ∅ hens).trans visits.ofList_entries
  unfold restore
  rw [hmt]
  unfold encode
  rw [hflt]
  cases hm : visits.entries.map fun e => (e.1, sint (ofInt e.2)) with
  | nil | cons m members =>
    rw [hm] at ha
    exact ha

end FailureRunState

/-! ## What the routing of a graph resets -/

namespace FailureRouting

/-- What a linked graph promises of its routing: a target resets the counters
of the nodes with a limit whose failures lead to it, and a graph with limits
counts. -/
structure Linked (routing : FailureRouting) : Prop where
  mem_visitResets : ∀ target node,
    node ∈ (routing.visitResets.find? target).getD [] ↔
      (routing.limit node).isSome ∧ routing.target node = some target
  countsVisits : ∀ node, (routing.limit node).isSome → routing.countsVisits = true

theorem foldl_addExit (l : List (String × String)) (routing : FailureRouting) :
    ∃ exits, l.foldl addExit routing = { routing with exits := exits } := by
  induction l generalizing routing with
  | nil => exact ⟨routing.exits, rfl⟩
  | cons exit l ih => exact ih (routing.addExit exit)

theorem foldl_addEdge (l : List FailureEdge) (routing : FailureRouting) :
    ∃ nodes targets, l.foldl addEdge routing
      = { routing with nodes := nodes, targets := targets } := by
  induction l generalizing routing with
  | nil => exact ⟨routing.nodes, routing.targets, rfl⟩
  | cons edge l ih => exact ih (routing.addEdge edge)

theorem foldl_addPolicy (l : List (String × NodeRetryPolicySpec)) (routing : FailureRouting) :
    ∃ nodes, l.foldl addPolicy routing = { routing with nodes := nodes } := by
  induction l generalizing routing with
  | nil => exact ⟨routing.nodes, rfl⟩
  | cons policy l ih => exact ih (routing.addPolicy policy)

variable (routing : FailureRouting)

theorem addReset_nodes (node : String × NodeFailurePlan) :
    (routing.addReset node).nodes = routing.nodes := by
  unfold addReset
  split <;> rfl

theorem foldl_addReset_nodes (l : List (String × NodeFailurePlan)) (routing : FailureRouting) :
    (l.foldl addReset routing).nodes = routing.nodes := by
  induction l generalizing routing with
  | nil => rfl
  | cons node l ih => exact (ih _).trans (routing.addReset_nodes node)

theorem mem_visitResets_addReset (entry : String × NodeFailurePlan) (target node : String) :
    node ∈ ((routing.addReset entry).visitResets.find? target).getD [] ↔
      node ∈ (routing.visitResets.find? target).getD []
        ∨ node = entry.1 ∧ entry.2.maxVisits.isSome ∧ entry.2.target ≠ ""
            ∧ entry.2.target = target := by
  unfold addReset
  by_cases hl : entry.2.maxVisits.isSome
  · rw [if_pos hl]
    by_cases he : entry.2.target = ""
    · rw [if_pos he]
      exact ⟨.inl, fun h => h.resolve_right fun h => h.2.2.1 he⟩
    rw [if_neg he, find?_alterD]
    by_cases ht : target = entry.2.target
    · subst ht
      rw [if_pos rfl, Option.getD_some, mem_append, mem_singleton]
      exact or_congr Iff.rfl ⟨fun h => ⟨h, hl, he, rfl⟩, fun h => h.1⟩
    · rw [if_neg ht]
      exact ⟨.inl, fun h => h.resolve_right fun h => ht h.2.2.2.symm⟩
  · rw [if_neg hl]
    exact ⟨.inl, fun h => h.resolve_right fun h => hl h.2.1⟩

theorem mem_visitResets_foldl (l : List (String × NodeFailurePlan)) (routing : FailureRouting)
    (target node : String) : node ∈ ((l.foldl addReset routing).visitResets.find? target).getD [] ↔
      node ∈ (routing.visitResets.find? target).getD []
        ∨ ∃ plan, (node, plan) ∈ l ∧ plan.maxVisits.isSome ∧ plan.target ≠ ""
            ∧ plan.target = target := by
  induction l generalizing routing with
  | nil => simp
  | cons entry l ih =>
    rw [foldl_cons, ih, mem_visitResets_addReset, or_assoc]
    refine or_congr Iff.rfl ⟨?_, ?_⟩
    · rintro (⟨rfl, h⟩ | ⟨plan, hm, h⟩)
      · exact ⟨entry.2, mem_cons_self, h⟩
      · exact ⟨plan, mem_cons_of_mem entry hm, h⟩
    · rintro ⟨plan, hm, h⟩
      obtain heq | hm := mem_cons.mp hm
      · exact .inl (heq ▸ ⟨rfl, h⟩)
      · exact .inr ⟨plan, hm, h⟩

theorem visitLimits_addReset {routing : FailureRouting} {entry : String × NodeFailurePlan}
    (h : routing.visitLimits = true ∨ entry.2.maxVisits.isSome) :
    (routing.addReset entry).visitLimits = true := by
  unfold addReset
  split
  · rfl
  · rename_i hl
    exact h.resolve_right hl

theorem visitLimits_foldl {l : List (String × NodeFailurePlan)} {routing : FailureRouting}
    (h : routing.visitLimits = true ∨ ∃ entry ∈ l, entry.2.maxVisits.isSome) :
    (l.foldl addReset routing).visitLimits = true := by
  induction l generalizing routing with
  | nil =>
    obtain h | ⟨entry, hen, -⟩ := h
    · exact h
    · cases hen
  | cons entry l ih =>
    refine ih ?_
    obtain h | ⟨entry', hen, hl⟩ := h
    · exact .inl (visitLimits_addReset (.inl h))
    · obtain rfl | hen := mem_cons.mp hen
      · exact .inl (visitLimits_addReset (.inr hl))
      · exact .inr ⟨entry', hen, hl⟩

variable (policies : SortedMap String NodeRetryPolicySpec)

/-- The nodes of a graph's routing, and what its targets reset. -/
theorem build_eq (edges : List FailureEdge) (exits : SortedMap String String) :
    ∃ (nodes : SortedMap String NodeFailurePlan) (targets exits' : SortedMap String String),
      build policies edges exits
        = { nodes.entries.foldl addReset { nodes := nodes, targets := targets } with
              exits := exits' } := by
  obtain ⟨nodes, hpol⟩ := foldl_addPolicy policies.entries {}
  obtain ⟨nodes', targets, hed⟩ := foldl_addEdge edges { nodes := nodes }
  unfold build
  rw [hpol]
  dsimp only
  rw [hed]
  obtain ⟨exits', he⟩ := foldl_addExit exits.entries
    (nodes'.entries.foldl addReset { nodes := nodes', targets := targets })
  exact ⟨nodes', targets, exits', he⟩

/-- **The routing of a graph is linked.** -/
theorem linked_build (edges : List FailureEdge) (exits : SortedMap String String) :
    (build policies edges exits).Linked := by
  obtain ⟨nodes, targets, exits', heq⟩ := build_eq policies edges exits
  have hp : ∀ node, (build policies edges exits).plan node = nodes.find? node := by
    intro node
    rw [heq]
    exact congrArg (find? · node) (foldl_addReset_nodes _ _)
  have hl : ∀ node, ((build policies edges exits).limit node).isSome ↔
      ∃ plan, (node, plan) ∈ nodes.entries ∧ plan.maxVisits.isSome := by
    intro node
    unfold limit
    rw [hp]
    cases hf : nodes.find? node with
    | none =>
      refine ⟨nofun, fun ⟨plan, hm, _⟩ => ?_⟩
      rw [nodes.mem_entries_iff, hf] at hm
      cases hm
    | some plan =>
      refine ⟨fun h => ⟨plan, (nodes.mem_entries_iff _ _).mpr hf, h⟩, fun ⟨plan', hm, h⟩ => ?_⟩
      rw [nodes.mem_entries_iff, hf] at hm
      obtain rfl := Option.some.inj hm
      exact h
  refine ⟨fun t node => ?_, fun node hnd => ?_⟩
  · have hm := mem_visitResets_foldl nodes.entries { nodes := nodes, targets := targets } t node
    rw [heq]
    rw [heq] at hp
    refine hm.trans ⟨?_, ?_⟩
    · rintro (h | ⟨plan, hen, hs, hne, rfl⟩)
      · cases h
      have hf := (hp node).trans ((nodes.mem_entries_iff _ _).mp hen)
      unfold limit target
      rw [hf]
      exact ⟨hs, if_neg hne⟩
    · rintro ⟨hs, ht⟩
      unfold limit at hs
      unfold target at ht
      rw [hp] at hs ht
      cases hf : nodes.find? node with
      | none =>
        rw [hf] at hs
        cases hs
      | some plan =>
        rw [hf] at hs ht
        dsimp only at ht
        split at ht
        · cases ht
        · rename_i hne
          exact .inr ⟨plan, (nodes.mem_entries_iff _ _).mpr hf, hs, hne,
            Option.some.inj ht⟩
  · obtain ⟨plan, hm, hs⟩ := (hl node).mp hnd
    rw [heq]
    exact visitLimits_foldl (.inr ⟨_, hm, hs⟩)

/-! ## The limits of a graph -/

theorem limit_addPolicy (policy : String × NodeRetryPolicySpec) (node : String) :
    (routing.addPolicy policy).limit node
      = if node = policy.1 then policy.2.maxVisits else routing.limit node := by
  unfold limit plan addPolicy
  rw [find?_alterD]
  split <;> rfl

/-- The limit of a node is that of its policy. -/
theorem limit_foldl_addPolicy {l : List (String × NodeRetryPolicySpec)}
    (h : (l.map Prod.fst).Nodup) (routing : FailureRouting) (node : String) :
    (l.foldl addPolicy routing).limit node
      = match lookupEntry node l with
        | some policy => policy.maxVisits
        | none => routing.limit node := by
  induction l generalizing routing with
  | nil => rfl
  | cons policy l ih =>
    rw [map_cons, nodup_cons] at h
    rw [foldl_cons, ih h.2, limit_addPolicy, lookupEntry]
    by_cases hnd : node = policy.1
    · have hn : lookupEntry node l = none := by
        rw [Option.eq_none_iff_forall_ne_some]
        intro v hv
        refine h.1 (hnd ▸ mem_map_of_mem ((lookupEntry_eq_some_iff_of_unique ?_ v).mp hv))
        exact fun v w hv hw => congrArg Prod.snd (inj_on_of_nodup_map h.2 hv hw rfl)
      rw [hn, if_pos hnd, if_pos hnd]
    · rw [if_neg hnd, if_neg hnd]

theorem limit_addEdge (edge : FailureEdge) (node : String) :
    (routing.addEdge edge).limit node = routing.limit node := by
  unfold limit plan addEdge
  rw [find?_alterD]
  split_ifs with hnd
  · unfold SortedMap.getD
    rw [hnd]
    cases routing.nodes.find? edge.src with
    | none | some plan => rfl
  · rfl

theorem limit_foldl_addEdge (l : List FailureEdge) (routing : FailureRouting) (node : String) :
    (l.foldl addEdge routing).limit node = routing.limit node := by
  induction l generalizing routing with
  | nil => rfl
  | cons edge l ih => exact (ih _).trans (routing.limit_addEdge edge node)

/-- **The limit of a node is the one its policy declares.** -/
theorem limit_build (edges : List FailureEdge) (exits : SortedMap String String) (node : String) :
    (build policies edges exits).limit node
      = (policies.find? node).bind NodeRetryPolicySpec.maxVisits := by
  have hpol : (policies.entries.foldl addPolicy {}).limit node
      = (policies.find? node).bind NodeRetryPolicySpec.maxVisits := by
    rw [limit_foldl_addPolicy policies.nodup_keys]
    unfold SortedMap.find?
    cases lookupEntry node policies.entries with
    | none | some policy => rfl
  obtain ⟨exits', he⟩ := foldl_addExit exits.entries
    ((edges.foldl addEdge (policies.entries.foldl addPolicy {})).nodes.entries.foldl addReset
      (edges.foldl addEdge (policies.entries.foldl addPolicy {})))
  unfold build
  rw [he]
  unfold limit plan
  rw [foldl_addReset_nodes]
  exact (limit_foldl_addEdge edges _ node).trans hpol

end FailureRouting

end NeoGraph
