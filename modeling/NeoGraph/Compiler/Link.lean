import NeoGraph.Compiler.Accepted
import NeoGraph.Compiler.Parse

/-!
# Printing and linking a topology

`TopologySpec.toJson` writes a topology as a document again, key by key and
from what was compiled: a barrier is written from its compiled slots. Keys with
nothing to say are left out, and so are the values a channel has by default.

Linking turns a topology into the graph an engine runs. The routing part of
it is the scheduler: the edges, the conditional edges – with the historical
fallback route in a graph of schema version 0 – the joins, and the failure
targets.
-/

namespace NeoGraph.Compiler

/-! ## Channels -/

/-- Every printer leaves out what is the default. -/
def printRetention : ChannelRetentionPolicy → Option Document
  | .unbounded => none
  | .latest => some (.str "latest")
  | .bounded => some (.str "bounded")

def printPersistence : ChannelPersistencePolicy → Option Document
  | .checkpoint => none
  | .ephemeral => some (.str "ephemeral")

/-- A channel, without the fields that have their defaults. -/
def printChannel (cd : ChannelDef) : Document :=
  .obj (Json.present [
    ("reducer", some (.str cd.reducerName)),
    ("initial", if cd.hasInitial then some cd.initialValue else none),
    ("retention", printRetention cd.retention),
    ("retention_limit", if cd.retention = .bounded then some (.uint cd.retentionLimit) else none),
    ("persistence", printPersistence cd.persistence)])

def printChannels (defs : List ChannelDef) : Option Document :=
  if defs.isEmpty then none
  else some (.obj (Json.rebuild (defs.map fun cd => (cd.name, printChannel cd))))

/-! ## Nodes -/

/-- What a node waits for, as it is written under `barrier`. -/
def printBarrier (waitFor : Document) : Document := .obj [("wait_for", waitFor)]

/-- A node: its definition, with the barrier that was compiled. -/
def printNode (barrier : Option (Finset String)) (join : Option JoinSpec) (node : Document) :
    Document :=
  let members := Json.rebuild (node.items.filter fun m => m.1 ≠ "barrier")
  let members := Json.put? members "barrier" (barrier.map fun names =>
    printBarrier (printNames names))
  .obj (Json.put? members "barrier" (join.map fun join => printBarrier (printWaitFor join.slots)))

def printNodes (topology : TopologySpec) : Option Document :=
  if topology.nodeDefs.isEmpty then none
  else some (.obj (topology.nodeDefs.entries.map fun e =>
    (e.1, printNode (topology.barrierSpecs.find? e.1) (topology.joinSpecs.find? e.1) e.2)))

/-! ## Edges -/

def printEdge (e : Edge) : Document := .obj [("from", .str e.src), ("to", .str e.dst)]

/-- The routes of a conditional edge; the marker of a legacy graph is not
written. -/
def printRoutes (routes : SortedMap String String) : Option Document :=
  if routes.isEmpty then none
  else some (.obj ((routes.entries.filter fun e => e.1 ≠ legacyDefaultRoute).map fun e =>
    (e.1, .str e.2)))

def printConditionalEdge (ce : ConditionalEdge) : Document :=
  .obj (Json.present [
    ("from", some (.str ce.src)),
    ("condition", some (.str ce.condition)),
    ("routes", printRoutes ce.routes)])

/-- A list, unless it is empty. -/
def printList {α : Type} (print : α → Document) (l : List α) : Option Document :=
  if l.isEmpty then none else some (.arr (l.map print))

/-! ## Documents -/

def printSet (names : Finset String) : Option Document :=
  if names = ∅ then none else some (printNames names)

def printRetryPolicy (policy : RetryPolicy) : Document :=
  .obj [
    ("max_retries", ofInt policy.maxRetries),
    ("initial_delay_ms", ofInt policy.initialDelayMs),
    ("backoff_multiplier", .real policy.backoffMultiplier),
    ("max_delay_ms", ofInt policy.maxDelayMs)]

/-- Metadata is an object that is not empty. -/
def printMetadata : Option Document → Option Document
  | some (.obj (m :: members)) => some (.obj (m :: members))
  | _ => none

/-- The keys of a topology, each with what is written under it. -/
def TopologySpec.keys (topology : TopologySpec) : List (String × Option Document) := [
  ("schema_version",
    if 0 < topology.schemaVersion then some (ofInt topology.schemaVersion) else none),
  ("name", some (.str topology.name)),
  ("channels", printChannels topology.channelDefs),
  ("nodes", printNodes topology),
  ("edges", printList printEdge topology.edges),
  ("conditional_edges", printList printConditionalEdge topology.conditionalEdges),
  ("interrupt_before", printSet topology.interruptBefore),
  ("interrupt_after", printSet topology.interruptAfter),
  ("retry_policy", topology.retryPolicy.map printRetryPolicy),
  ("metadata", printMetadata topology.metadata),
  ("node_retry_policies", printNodeRetryPolicies topology.nodeRetryPolicies),
  ("failure_edges", printFailureEdges topology.failureEdges),
  ("failure_exits", printFailureExits topology.failureExits)]

/-- **A topology as a document.** -/
def TopologySpec.toJson (topology : TopologySpec) : Document :=
  .obj (Json.present topology.keys)

theorem TopologySpec.nodup_keys (topology : TopologySpec) : (topology.keys.map Prod.fst).Nodup := by
  show List.Nodup ["schema_version", "name", "channels", "nodes", "edges", "conditional_edges",
    "interrupt_before", "interrupt_after", "retry_policy", "metadata", "node_retry_policies",
    "failure_edges", "failure_exits"]
  decide

/-- What is written under a key. -/
theorem TopologySpec.get?_toJson (topology : TopologySpec) (name : String) :
    topology.toJson.get? name = (topology.keys.lookup name).join :=
  Json.lookup_present topology.nodup_keys name

/-! ## The linked graph -/

/-- The fallback route of a legacy graph: the last route in key order, under
the hidden marker. -/
def withHistoricalRoute (ce : ConditionalEdge) : ConditionalEdge :=
  match ce.routes.entries.getLast? with
  | none => ce
  | some e => { ce with routes := ce.routes.insert legacyDefaultRoute e.2 }

/-- The conditional edges of the linked graph. -/
def linkConditionalEdges (topology : TopologySpec) : List ConditionalEdge :=
  if topology.schemaVersion = 0 then topology.conditionalEdges.map withHistoricalRoute
  else topology.conditionalEdges

/-- Where the failure of a node goes; a later edge of a node replaces an
earlier one. -/
def failureTargets (edges : List FailureEdge) : SortedMap String String :=
  edges.foldl (fun targets e => targets.insert e.src e.dst) ∅

/-- The scheduler of the linked graph. -/
def TopologySpec.scheduler {σ : Type} (registry : ConditionRegistry σ) (topology : TopologySpec) :
    Scheduler σ where
  edges := topology.edges
  conditionalEdges := linkConditionalEdges topology
  barrierSpecs := topology.barrierSpecs
  joinSpecs := topology.joinSpecs
  failureTargets := failureTargets topology.failureEdges
  registry := registry

/-- The fallback route is all that linking adds to a conditional edge. -/
theorem withHistoricalRoute_spec (ce : ConditionalEdge) :
    (withHistoricalRoute ce).src = ce.src ∧ (withHistoricalRoute ce).condition = ce.condition
      ∧ ∀ key, key ≠ legacyDefaultRoute →
        (withHistoricalRoute ce).routes.find? key = ce.routes.find? key := by
  unfold withHistoricalRoute
  split
  · exact ⟨rfl, rfl, fun key _ => rfl⟩
  · rename_i e _
    exact ⟨rfl, rfl, fun key hk => SortedMap.find?_insert_of_ne ce.routes hk e.2⟩

/-! ## Accepted topologies -/

variable {ctx : ParseContext} {definition : Document} {topology : TopologySpec}

/-- A graph that is parsed has a version, and nothing was reported about it. -/
theorem parse_eq_ok (h : parse ctx definition = .ok topology) :
    ∃ version, readSchemaVersion ctx definition = .ok version
      ∧ (parseFields ctx version definition).Accepts topology := by
  unfold parse at h
  split at h
  · rename_i topology' hreport
    cases h
    have ha : (parseReport ctx definition).Accepts (some topology) := by
      rw [hreport]
      exact ⟨rfl, rfl⟩
    unfold parseReport at ha
    split at ha
    · split at ha
      · cases ha.1
      rename_i version hv
      obtain ⟨topology', ha, heq⟩ := Checked.map_accepts.mp ha
      cases heq
      exact ⟨version, hv, ha⟩
    · rw [Checked.bind_unit_accepts] at ha
      cases Checked.pure_accepts.mp ha.2
  · cases h

/-- There are two versions of the topology schema. -/
theorem readSchemaVersion_le {version : ℕ} (h : readSchemaVersion ctx definition = .ok version) :
    version ≤ 1 := by
  unfold readSchemaVersion at h
  split at h
  · cases h
    exact Nat.zero_le 1
  dsimp only at h
  split at h
  · cases h
  rename_i n hn
  split at h
  · cases h
  split at h
  · cases h
  rename_i hm
  cases h
  unfold topologySchemaVersion at hm
  omega

/-- An accepted topology has a known version, and its failure edges are in
the order of their sources. -/
theorem parse_spec (h : parse ctx definition = .ok topology) : topology.schemaVersion ≤ 1
      ∧ topology.failureEdges.Pairwise fun a b => a.src ≤ b.src := by
  obtain ⟨version, hv, ha⟩ := parse_eq_ok h
  unfold parseFields at ha
  simp only [Checked.bind_accepts, Checked.pure_accepts] at ha
  obtain ⟨_, -, _, -, _, -, _, -, _, -, _, -, _, -, _, -, _, -, _, -, _, -, _, -, _, -, keys, hk,
    _, -, _, -, rfl⟩ := ha
  refine ⟨readSchemaVersion_le hv, ?_⟩
  show keys.failureEdges.Pairwise _
  unfold readFailureRoutingKeys at hk
  split at hk
  · obtain ⟨-, hn⟩ | ⟨_, edges, -, -, hs⟩ := (parseFailureRoutingKeys_accepts hk).edges
    · rw [hn]
      exact List.Pairwise.nil
    rw [hs]
    have : IsTrans FailureEdge fun a b => a.src ≤ b.src := ⟨fun a b c => le_trans⟩
    have : Std.Total fun a b : FailureEdge => a.src ≤ b.src := ⟨fun a b => le_total a.src b.src⟩
    exact List.pairwise_insertionSort _ edges
  · obtain rfl := Checked.pure_accepts.mp hk
    exact List.Pairwise.nil

end NeoGraph.Compiler
