import NeoGraph.Compiler.Link
import NeoGraph.Lib.GraphSearch

/-!
# Reachability of a topology

The validator asks three questions of the graph that a topology routes: which
nodes are never reached from the entry, which reached nodes never come to an
end, and, for a host that wants no cycle, which nodes lie between cycles. The
graph is that of `buildSuccessors`: of a node with conditional edges only the
first one routes, any other node fires its static edges, and a failure edge is
one more way a node continues.

Every finding is a diagnostic with a code; the reference check, on whose code
the questions above rely, is modelled with them.
-/

namespace NeoGraph

open Compiler (TopologySpec FailureEdge pointerToken)

namespace GraphValidator

/-! ## Diagnostics -/

/-- A finding of the validator. -/
structure Diagnostic where
  code : String
  severity : String
  path : String
  message : String
  witness : Document
  pointer : String

/-- The names under a key of the witness. -/
def Diagnostic.names (d : Diagnostic) (key : String) : List String :=
  match d.witness.get? key with
  | some (.arr items) => items.filterMap fun
    | .str s => some s
    | _ => none
  | _ => []

def error (code path pointer message : String) (witness : List (String × Document)) :
    Diagnostic where
  code := code
  severity := "error"
  path := path
  message := message
  witness := .obj witness
  pointer := pointer

def warn (code path pointer message : String) (witness : List (String × Document)) :
    Diagnostic where
  code := code
  severity := "warning"
  path := path
  message := message
  witness := .obj witness
  pointer := pointer

/-- A set of names as an array, in order. -/
def stringSetToArray (names : List String) : Document := .arr (names.map Json.str)

variable (dump : Document → String) (topology : TopologySpec)

def nodeNames : List String := topology.nodeDefs.keys

def isNode (n : String) : Bool := topology.nodeDefs.contains n

/-! ## Dangling references -/

/-- A reference to something that is not declared. -/
def unknownReference (path pointer message unknown : String) (witness : List (String × Document)) :
    Diagnostic :=
  error "E3" path pointer message (witness ++ [("unknown", .str unknown)])

/-- Both ends of an edge exist. -/
def checkEdge (i : ℕ) (e : Edge) : List Diagnostic :=
  let path := "edges[" ++ toString i ++ "]"
  let pointer := "/edges/" ++ toString i
  let witness := [("edge_from", Json.str e.src), ("edge_to", Json.str e.dst)]
  (if e.src ≠ startNode && !isNode topology e.src then
    [unknownReference path pointer ("edge 'from' references unknown node '" ++ e.src ++ "'")
      e.src witness] else [])
    ++ (if e.dst ≠ endNode && !isNode topology e.dst then
      [unknownReference path pointer ("edge 'to' references unknown node '" ++ e.dst ++ "'")
        e.dst witness] else [])

/-- The source and every routed target exist. -/
def checkConditionalEdge (i : ℕ) (ce : ConditionalEdge) : List Diagnostic :=
  let path := "conditional_edges[" ++ toString i ++ "]"
  let pointer := "/conditional_edges/" ++ toString i
  (if !isNode topology ce.src then
    [unknownReference path pointer
      ("conditional edge 'from' references unknown node '" ++ ce.src ++ "'") ce.src
      [("from", .str ce.src)]] else [])
    ++ (ce.routes.entries.filter fun (key, target) =>
        key ≠ legacyDefaultRoute && target ≠ endNode && !isNode topology target).map
      fun (key, target) =>
        unknownReference (path ++ ".routes." ++ key) (pointer ++ "/routes/" ++ pointerToken key)
          ("route '" ++ key ++ "' targets unknown node '" ++ target ++ "'") target
          [("from", .str ce.src), ("route", .str key), ("target", .str target)]

local instance isTrans_le_name : IsTrans String fun a b => a ≤ b := inferInstance

local instance antisymm_le_name : Std.Antisymm fun a b : String => a ≤ b := inferInstance

def checkInterrupts (which : String) (names : Finset String) : List Diagnostic :=
  ((names.sort (· ≤ ·)).filter fun n => !isNode topology n).map fun n =>
    unknownReference which ("/" ++ which) (which ++ " references unknown node '" ++ n ++ "'") n
      [("node", .str n)]

/-- Both ends and the error channel exist. -/
def checkFailureEdge (i : ℕ) (fe : FailureEdge) : List Diagnostic :=
  let path := "failure_edges[" ++ toString i ++ "]"
  let pointer := "/failure_edges/" ++ toString i
  (([fe.src, fe.dst].filter fun n => !isNode topology n).map fun n =>
    unknownReference path pointer
      ("failure edge '" ++ fe.src ++ "' -> '" ++ fe.dst ++ "' references unknown node '" ++ n
        ++ "'") n [("from", .str fe.src), ("to", .str fe.dst)])
    ++ match fe.errorChannel with
      | none => []
      | some channel =>
        if topology.channelDefs.any fun c => c.name = channel then []
        else [unknownReference path (pointer ++ "/error_channel")
          ("failure edge '" ++ fe.src ++ "' writes undeclared error_channel '" ++ channel ++ "'")
          channel [("from", .str fe.src), ("channel", .str channel)]]

/-- Keys of a section that are no nodes. -/
def checkKeys (field : String) (keys : List String) : List Diagnostic :=
  (keys.filter fun n => !isNode topology n).map fun n =>
    unknownReference (field ++ "." ++ n) ("/" ++ field ++ "/" ++ pointerToken n)
      (field ++ " names unknown node '" ++ n ++ "'") n [("node", .str n)]

/-- A member of a slot of an `any_of` join. -/
def checkSlotMember (join : String) (slot : Finset String) (u : String) : List Diagnostic :=
  let path := "nodes." ++ join ++ ".barrier"
  let pointer := "/nodes/" ++ pointerToken join ++ "/barrier"
  let names := stringSetToArray (slot.sort (· ≤ ·))
  let witness := [("barrier", Json.str join), ("waits_for", .str u), ("slot", names)]
  if u = join then
    [error "E3" path pointer ("barrier slot " ++ dump names ++ " lists the join itself ('" ++ u
      ++ "') — it can never receive its own signal before firing") witness]
  else if !isNode topology u then
    [unknownReference path pointer ("barrier slot references unknown node '" ++ u ++ "'") u witness]
  else []

/-- A node that a barrier waits for. -/
def checkWaitFor (barrier u : String) : List Diagnostic :=
  let path := "nodes." ++ barrier ++ ".barrier"
  let pointer := "/nodes/" ++ pointerToken barrier ++ "/barrier"
  let witness := [("barrier", Json.str barrier), ("waits_for", .str u)]
  if u = barrier then
    [error "E3" path pointer ("barrier waits for the node itself ('" ++ u
      ++ "') — it can never receive its own signal before firing") witness]
  else if !isNode topology u then
    [unknownReference path pointer
      ("barrier wait_for references unknown node '" ++ u ++ "'") u witness]
  else []

/-- The findings of the reference check. -/
def checkReferences : List Diagnostic :=
  (topology.edges.zipIdx.flatMap fun (e, i) => checkEdge topology i e)
    ++ (topology.conditionalEdges.zipIdx.flatMap fun (ce, i) => checkConditionalEdge topology i ce)
    ++ checkInterrupts topology "interrupt_before" topology.interruptBefore
    ++ checkInterrupts topology "interrupt_after" topology.interruptAfter
    ++ (topology.failureEdges.zipIdx.flatMap fun (fe, i) => checkFailureEdge topology i fe)
    ++ checkKeys topology "node_retry_policies" topology.nodeRetryPolicies.keys
    ++ checkKeys topology "failure_exits" topology.failureExits.keys
    ++ (topology.joinSpecs.entries.flatMap fun (join, spec) => spec.slots.flatMap fun slot =>
      (slot.sort (· ≤ ·)).flatMap (checkSlotMember dump topology join slot))
    ++ (topology.barrierSpecs.entries.flatMap fun (barrier, waitFor) =>
      (waitFor.sort (· ≤ ·)).flatMap (checkWaitFor topology barrier))

/-! ## Successors -/

/-- Successors by node. -/
abbrev Successors := SortedMap String (Finset String)

def targets (ce : ConditionalEdge) : Finset String := (ce.routes.entries.map Prod.snd).toFinset

/-- The first conditional edge of a node routes it. -/
def routeConditional (state : Finset String × Successors) (ce : ConditionalEdge) :
    Finset String × Successors :=
  if ce.src = startNode ∨ ce.src ∈ state.1 then state
  else (insert ce.src state.1, state.2.alterD ce.src ∅ (· ∪ targets ce))

/-- A static edge fires if its source is not routed. -/
def routeStatic (routed : Finset String) (succ : Successors) (e : Edge) : Successors :=
  if e.src ∈ routed then succ else succ.alterD e.src ∅ (insert e.dst)

def routeFailure (succ : Successors) (fe : FailureEdge) : Successors :=
  succ.alterD fe.src ∅ (insert fe.dst)

/-- Under the original rules every edge and every route counts. -/
def originalSuccessors : Successors :=
  topology.conditionalEdges.foldl (fun succ ce =>
    (ce.routes.entries.filter fun r => r.1 ≠ legacyDefaultRoute).foldl
      (fun succ r => succ.alterD ce.src ∅ (insert r.2)) succ)
    (topology.edges.foldl (fun succ e => succ.alterD e.src ∅ (insert e.dst)) ∅)

def buildSuccessors (originalRules : Bool) : Successors :=
  if originalRules then originalSuccessors topology
  else
    let (routed, succ) := topology.conditionalEdges.foldl routeConditional (∅, ∅)
    topology.failureEdges.foldl routeFailure (topology.edges.foldl (routeStatic routed) succ)

/-- The successors of a node under the current rules, none if it has no entry. -/
def successors (n : String) : Finset String := (buildSuccessors topology false).getD n ∅

/-! ## The questions -/

/-- Every name that a search may come to. -/
def searchSpace : Finset String :=
  (buildSuccessors topology false).entries.foldr (fun e names => e.2 ∪ names) {startNode}

def reachableFromStart : Finset String :=
  search (searchSpace topology) (fun n => (successors topology n).sort (· ≤ ·)) startNode

def unreachableNodes : List String :=
  (nodeNames topology).filter fun n => n ∉ reachableFromStart topology

/-- Every node can be reached from the start. -/
def checkReachability : List Diagnostic :=
  let names := unreachableNodes topology
  if names.isEmpty then []
  else [warn "E7" "$" "" ("node(s) unreachable from __start__ via static edges/routes: "
    ++ dump (stringSetToArray names) ++ " (only Command.goto / Send can reach them at runtime — "
    ++ "if none of your nodes emits those, this is dead topology)")
    [("unreachable", stringSetToArray names)]]

/-- A node without successors routes to the end. -/
def reachesEndDirectly (n : String) : Bool :=
  successors topology n = ∅ || endNode ∈ successors topology n

def canEnd : Finset String :=
  saturate (nodeNames topology) (reachesEndDirectly topology)
    fun n => (successors topology n).sort (· ≤ ·)

def trappedNodes : List String :=
  (nodeNames topology).filter fun n =>
    n ∈ reachableFromStart topology && n ∉ canEnd topology

/-- Every node has a way to the end. -/
def checkTermination : List Diagnostic :=
  let names := trappedNodes topology
  if names.isEmpty then []
  else [warn "E11" "$" "" ("node(s) with no static path to __end__ (cycle without exit): "
    ++ dump (stringSetToArray names) ++ " (a Command.goto could still exit at runtime; otherwise "
    ++ "the run only stops at the recursion limit)")
    [("trapped", stringSetToArray names)]]

/-- What stands before and behind each node, over the edges between nodes. -/
def addEdge (src : String) (maps : Successors × Successors) (dst : String) :
    Successors × Successors :=
  if isNode topology dst then
    (maps.1.alterD dst ∅ (insert src), maps.2.alterD src ∅ (insert dst))
  else maps

def degrees : Successors × Successors :=
  (buildSuccessors topology false).entries.foldl (fun maps e =>
    if isNode topology e.1 then (e.2.sort (· ≤ ·)).foldl (addEdge topology e.1) maps else maps)
    (∅, ∅)

/-- The nodes between cycles. -/
def cyclicNodes : Finset String :=
  peelBoth (nodeNames topology).toFinset (fun n => (degrees topology).1.getD n ∅)
    fun n => (degrees topology).2.getD n ∅

def checkAcyclic : List Diagnostic :=
  let names := (cyclicNodes topology).sort (· ≤ ·)
  if names.isEmpty then []
  else [error "E16" "$" "" ("graph has a cycle through " ++ dump (stringSetToArray names)
    ++ " but this compile requires an acyclic graph") [("nodes", stringSetToArray names)]]

/-- The findings about references and reachability. -/
def reachabilityReport (requireAcyclic : Bool) : List Diagnostic :=
  checkReferences dump topology ++ checkReachability dump topology
    ++ checkTermination dump topology
    ++ if requireAcyclic then checkAcyclic dump topology else []

end GraphValidator

end NeoGraph
