import NeoGraph.Compiler.FailureRouting

/-!
# Reading a topology

`parseReport` reads a document into a `TopologySpec`, key by key, and
collects what it finds wrong. A document with `schema_version` 1 is strict:
names must not be empty and every key must be read; without it, or with
version 0, unknown keys are ignored as they always were.

Two checks only ever reject and are taken as they come: what the registered
schema of a node type finds in a node's configuration, and the rules on the
text and size of metadata (`ParseContext`).
-/

namespace NeoGraph.Compiler

open Checked

/-- What reading a document depends on. -/
structure ParseContext where
  floats : FloatOps
  /-- A value as text, for messages. -/
  dump : Document → String
  /-- What the schema of a node type finds: type, name and pointer of the
  node, its definition and its configuration. -/
  nodeConfig : String → String → String → Document → Document → List CompilerDiagnostic
  /-- What is found in a metadata object. -/
  metadata : Document → List CompilerDiagnostic

/-! ## Channels -/

/-- A channel field with a value it cannot have. -/
def invalidChannelValue (pointer display : String) : Checked Unit :=
  .report "GC_FIELD_VALUE" pointer (display ++ " has an invalid value")

/-- The reducer of a channel, the last value if none is named. -/
def readReducer (strict : Bool) (name pointer : String) : Option Document → Checked String
  | none => pure "overwrite"
  | some (.str s) => do
    ensure (!(strict && s.isEmpty)) "GC_FIELD_VALUE" (pointer ++ "/reducer")
      ("channels." ++ name ++ ".reducer must not be empty")
    pure s
  | some v => do
    fieldType (pointer ++ "/reducer") ("channels." ++ name ++ ".reducer") "string" v
    pure "overwrite"

/-- How much of a channel is kept, everything if nothing is said. -/
def readRetention (name pointer : String) : Option Document → Checked ChannelRetentionPolicy
  | none => pure .unbounded
  | some (.str s) =>
    if s = "latest" then pure .latest
    else if s = "bounded" then pure .bounded
    else do
      onlyIf (s ≠ "unbounded")
        (invalidChannelValue (pointer ++ "/retention") ("channels." ++ name ++ ".retention"))
      pure .unbounded
  | some v => do
    fieldType (pointer ++ "/retention") ("channels." ++ name ++ ".retention") "string" v
    pure .unbounded

/-- The limit of a bounded channel. -/
def readRetentionLimit (name pointer : String) : Option Document → Checked UInt64
  | none => pure 0
  | some (.uint n) => pure n
  | some (.sint n) =>
    if 0 ≤ n then pure n.toUInt64
    else do
      fieldType (pointer ++ "/retention_limit") ("channels." ++ name ++ ".retention_limit")
        "non-negative integer" (.sint n)
      pure 0
  | some v => do
    fieldType (pointer ++ "/retention_limit") ("channels." ++ name ++ ".retention_limit")
      "non-negative integer" v
    pure 0

/-- Whether a checkpoint has the channel. -/
def readPersistence (name pointer : String) : Option Document → Checked ChannelPersistencePolicy
  | none => pure .checkpoint
  | some (.str s) =>
    if s = "ephemeral" then pure .ephemeral
    else do
      onlyIf (s ≠ "checkpoint")
        (invalidChannelValue (pointer ++ "/persistence") ("channels." ++ name ++ ".persistence"))
      pure .checkpoint
  | some v => do
    fieldType (pointer ++ "/persistence") ("channels." ++ name ++ ".persistence") "string" v
    pure .checkpoint

/-- The fields of a channel. -/
def channelFields : List String :=
  ["reducer", "initial", "retention", "retention_limit", "persistence"]

/-- The fields of a channel are read. -/
def parseChannelFields (strict : Bool) (name pointer : String) (channel : Document) :
    Checked ChannelDef := do
  let reducerName ← readReducer strict name pointer (channel.get? "reducer")
  let retention ← readRetention name pointer (channel.get? "retention")
  let retentionLimit ← readRetentionLimit name pointer (channel.get? "retention_limit")
  ensure (retention ≠ .bounded || retentionLimit ≠ 0) "GC_FIELD_VALUE"
    (pointer ++ "/retention_limit")
    ("channels." ++ name ++ ".retention_limit has an invalid value")
  let persistence ← readPersistence name pointer (channel.get? "persistence")
  onlyIf strict (enforceConsumed channel channelFields ("channels." ++ name) pointer)
  pure ⟨name, reducerName, (channel.get? "initial").getD .null, channel.contains "initial",
    retention, retentionLimit, persistence⟩

/-- One channel. -/
def parseChannel (strict : Bool) (m : String × Document) : Checked (Option ChannelDef) := do
  let pointer := "/channels/" ++ pointerToken m.1
  ensure (!(strict && m.1.isEmpty)) "GC_FIELD_VALUE" pointer
    "channel name must not be empty"
  match m.2 with
  | .obj fields => some <$> parseChannelFields strict m.1 pointer (.obj fields)
  | v => do
    fieldType pointer ("topology 'channels." ++ m.1 ++ "'") "object" v
    pure none

/-! ## Nodes -/

/-- What a node waits for. -/
inductive Gate where
  | barrier (members : Finset String)
  | join (slots : List (Finset String))
deriving DecidableEq

/-- The names a barrier waits for, and whether something else is listed. -/
def readUpstreams (strict : Bool) (display pointer : String) :
    ℕ → List Document → Checked (Finset String × Bool)
  | _, [] => pure (∅, false)
  | index, .str s :: rest => do
    let place := pointer ++ "/wait_for/" ++ toString index
    if strict && s.isEmpty then
      report "GC_FIELD_VALUE" place (display ++ ".wait_for entries must not be empty")
      let (names, _) ← readUpstreams strict display pointer (index + 1) rest
      pure (names, true)
    else
      let (names, malformed) ← readUpstreams strict display pointer (index + 1) rest
      pure (insert s names, malformed)
  | index, v :: rest => do
    fieldType (pointer ++ "/wait_for/" ++ toString index) (display ++ ".wait_for") "string" v
    let (names, _) ← readUpstreams strict display pointer (index + 1) rest
    pure (names, true)

/-- The names under `wait_for`. -/
def readWaitFor (strict : Bool) (display pointer : String) :
    Document → Checked (Finset String × Bool)
  | .obj members =>
    match members.lookup "wait_for" with
    | none => pure (∅, false)
    | some (.arr items) => readUpstreams strict display pointer 0 items
    | some _ => pure (∅, true)
  | _ => pure (∅, true)

/-- A list of names to wait for. -/
def parseBarrier (strict : Bool) (display pointer : String) (barrier : Document) :
    Checked (Option Gate) := do
  let (names, malformed) ← readWaitFor strict display pointer barrier
  ensure (!malformed) "GC_BARRIER" pointer
    (display ++ ": 'wait_for' is malformed — expected an array of node names")
  ensure (malformed || !(strict && names = ∅)) "GC_BARRIER" pointer
    (display ++ ": 'wait_for' is missing or empty — the barrier would be silently dropped. "
      ++ "List the upstream nodes to wait for, or remove the 'barrier' block.")
  onlyIf strict (enforceConsumed barrier ["wait_for"] display pointer)
  pure (if names = ∅ then none else some (.barrier names))

/-- A list of slots; slots of single names make a barrier. -/
def parseSlots (display pointer : String) (barrier waitFor : Document) : Checked (Option Gate) := do
  let slots ← parseWaitForSlots waitFor display pointer
  enforceConsumed barrier ["wait_for"] display pointer
  pure (slots.map fun slots =>
    if legacySlots slots then .barrier (slots.foldl (· ∪ ·) ∅) else .join slots)

/-- What a node waits for, if it says so. Slots with alternatives are read
in strict documents only. -/
def parseGate (strict : Bool) (display pointer : String) : Option Document → Checked (Option Gate)
  | none => pure none
  | some barrier =>
    match barrier.get? "wait_for" with
    | some waitFor =>
      if strict && usesSlotSyntax waitFor then parseSlots display pointer barrier waitFor
      else parseBarrier strict display pointer barrier
    | none => parseBarrier strict display pointer barrier

/-- The configuration of a node: what is neither its type, its barrier nor
an annotation. -/
def nodeConfig (node : Document) : List (String × Document) :=
  Json.rebuild (node.members.filter fun m =>
    !(m.1 = "type" || m.1 = "barrier" || isAnnotationKey m.1))

/-- The configuration of a node of a known type is checked. -/
def checkNodeConfig (ctx : ParseContext) (name pointer : String) (node : Document) :
    Option String → Checked Unit
  | none => pure ()
  | some type => do
    let config := nodeConfig node
    ensure (config.all fun m => !m.1.isEmpty) "GC_FIELD_VALUE" (pointer ++ "/")
      ("nodes." ++ name ++ " configuration keys must not be empty")
    ⟨ctx.nodeConfig type name pointer node (.obj config), ()⟩

/-- A node, and what it waits for. -/
structure ParsedNode where
  name : String
  definition : Document
  gate : Option Gate

/-- A node that is an object. -/
def parseNodeFields (ctx : ParseContext) (strict : Bool) (name pointer : String)
    (node : Document) : Checked ParsedNode := do
  let type ← readString strict node "type" (pointer ++ "/type") ("nodes." ++ name)
  let gate ← parseGate strict ("nodes." ++ name ++ ".barrier") (pointer ++ "/barrier")
    (node.get? "barrier")
  onlyIf strict (checkNodeConfig ctx name pointer node type)
  pure ⟨name, node, gate⟩

/-- One node. -/
def parseNode (ctx : ParseContext) (strict : Bool) (m : String × Document) :
    Checked (Option ParsedNode) := do
  let pointer := "/nodes/" ++ pointerToken m.1
  ensure (!(strict && m.1.isEmpty)) "GC_FIELD_VALUE" pointer "node name must not be empty"
  ensure (!(m.1 = startNode || m.1 = endNode)) "GC_RESERVED_NODE" pointer
    ("node name '" ++ m.1 ++ "' is reserved for the graph's entry/exit sentinel")
  match m.2 with
  | .obj fields => some <$> parseNodeFields ctx strict m.1 pointer (.obj fields)
  | v => do
    fieldType pointer ("topology 'nodes." ++ m.1 ++ "'") "object" v
    pure none

/-! ## Edges -/

/-- One route. -/
def parseRoute (strict : Bool) (path pointer : String) (m : String × Document) :
    Checked (Option (String × String)) := do
  ensure (!(strict && m.1.isEmpty)) "GC_FIELD_VALUE" (pointer ++ "/routes/")
    (path ++ ".routes key must not be empty")
  match m.2 with
  | .str target => do
    ensure (!(strict && target.isEmpty)) "GC_FIELD_VALUE"
      (pointer ++ "/routes/" ++ pointerToken m.1)
      (path ++ ".routes." ++ m.1 ++ " must not be empty")
    pure (some (m.1, target))
  | v => do
    fieldType (pointer ++ "/routes/" ++ pointerToken m.1) (path ++ ".routes." ++ m.1) "string" v
    pure none

/-- The routes of a conditional edge. -/
def parseRoutes (strict : Bool) (path pointer : String) :
    Option Document → Checked (SortedMap String String)
  | none => pure ∅
  | some (.obj members) => do
    let routes ← collect members (parseRoute strict path pointer)
    pure (SortedMap.ofList routes)
  | some _ => do
    report "GC_EDGE" (pointer ++ "/routes") (path ++ ".routes must be an object")
    pure ∅

/-- An edge says it is of another type. -/
def otherType (edge : Document) : Bool :=
  ((edge.get? "type").bind string?).any fun type => type ≠ "conditional"

/-- A conditional edge that is an object. -/
def parseConditionalFields (strict inline : Bool) (path pointer : String) (edge : Document) :
    Checked (Option ConditionalEdge) := do
  ensure (!(strict && inline && otherType edge)) "GC_FIELD_VALUE" (pointer ++ "/type")
    (path ++ ".type must equal 'conditional' when an inline edge has a condition")
  let src ← readString strict edge "from" (pointer ++ "/from") path
  let condition ← readString strict edge "condition" (pointer ++ "/condition") path
  let routes ← parseRoutes strict path pointer (edge.get? "routes")
  onlyIf strict
    (enforceConsumed edge (["from", "condition", "routes"] ++ if inline then ["type"] else [])
      path pointer)
  pure (match src, condition with
    | some src, some condition => some ⟨src, condition, routes⟩
    | _, _ => none)

/-- One conditional edge. -/
def parseConditional (strict inline : Bool) (path pointer : String) :
    Document → Checked (Option ConditionalEdge)
  | .obj fields => parseConditionalFields strict inline path pointer (.obj fields)
  | _ => do
    report "GC_EDGE" pointer (path ++ ": conditional edge must be an object")
    pure none

/-- An edge under `edges` is conditional if it has a condition or says
so. -/
def isConditional (edge : Document) : Bool :=
  edge.contains "condition" || (edge.get? "type").bind string? = some "conditional"

/-- A static edge. -/
def parseStatic (strict : Bool) (path pointer : String) (edge : Document) :
    Checked (Option Edge) := do
  let src ← readString strict edge "from" (pointer ++ "/from") path
  let dst ← readString strict edge "to" (pointer ++ "/to") path
  onlyIf strict (enforceConsumed edge ["from", "to"] path pointer)
  pure (match src, dst with
    | some src, some dst => some ⟨src, dst⟩
    | _, _ => none)

/-- The type of an edge is text. -/
def checkEdgeType (path pointer : String) (edge : Document) : Checked Unit :=
  match edge.get? "type" with
  | none => pure ()
  | some (.str _) => pure ()
  | some v => fieldType (pointer ++ "/type") (path ++ ".type") "string" v

/-- One edge under `edges`, of either kind. -/
def parseEdge (strict : Bool) (item : Document × ℕ) :
    Checked (Option (Edge ⊕ ConditionalEdge)) := do
  let path := "edges[" ++ toString item.2 ++ "]"
  let pointer := "/edges/" ++ toString item.2
  match item.1 with
  | .obj fields => do
    let edge : Document := .obj fields
    checkEdgeType path pointer edge
    if isConditional edge then
      Option.map Sum.inr <$> parseConditional strict true path pointer edge
    else Option.map Sum.inl <$> parseStatic strict path pointer edge
  | _ => do
    report "GC_EDGE" pointer (path ++ ": edge must be an object")
    pure none

/-- One edge under `conditional_edges`. -/
def parseConditionalItem (strict : Bool) (item : Document × ℕ) : Checked (Option ConditionalEdge) :=
  parseConditional strict false ("conditional_edges[" ++ toString item.2 ++ "]")
    ("/conditional_edges/" ++ toString item.2) item.1

/-! ## Top-level keys -/

/-- A container of the right type under a key. Without strictness a list of
edges may be an object. -/
def container (strict : Bool) (definition : Document) (field : String)
    (object legacyObject : Bool) : Checked (Option Document) :=
  match definition.get? field with
  | none => pure none
  | some v =>
    if (legacyObject && !strict && v.isObject) || (if object then v.isObject else v.isArray) then
      pure (some v)
    else do
      fieldType ("/" ++ field) ("topology '$." ++ field ++ "'")
        (if object then "object" else "array") v
      pure none

/-- The name of the graph. -/
def parseName (strict : Bool) : Option Document → Checked String
  | none => pure "unnamed_graph"
  | some (.str s) => do
    ensure (!(strict && s.isEmpty)) "GC_FIELD_VALUE" "/name"
      "topology '$.name' must not be empty"
    pure s
  | some v => do
    fieldType "/name" "topology '$.name'" "string" v
    pure "unnamed_graph"

/-- One name of an interrupt list. -/
def parseInterrupt (strict : Bool) (field : String) (item : Document × ℕ) :
    Checked (Option String) :=
  let pointer := "/" ++ field ++ "/" ++ toString item.2
  match item.1 with
  | .str s => do
    ensure (!(strict && s.isEmpty)) "GC_FIELD_VALUE" pointer
      (field ++ " entries must not be empty")
    pure (some s)
  | v => do
    fieldType pointer field "string" v
    pure none

/-- A set of nodes to interrupt at. -/
def parseInterrupts (strict : Bool) (field : String) : Option Document → Checked (Finset String)
  | none => pure ∅
  | some (.arr items) => do
    let names ← collect items.zipIdx (parseInterrupt strict field)
    pure names.toFinset
  | some v => do
    fieldType ("/" ++ field) ("topology '$." ++ field ++ "'") "array" v
    pure ∅

/-- An integer of the retry policy. -/
def readRetryInteger (strict : Bool) (retry : Document) (field : String) (fallback : ℤ) :
    Checked ℤ :=
  match retry.get? field with
  | none => pure fallback
  | some value =>
    match int? value with
    | none => do
      fieldType ("/retry_policy/" ++ field) ("retry_policy." ++ field) "integer" value
      pure fallback
    | some n =>
      if strict then
        if 0 ≤ n ∧ n ≤ 2 ^ 31 - 1 then pure n
        else do
          report "GC_FIELD_VALUE" ("/retry_policy/" ++ field)
            ("retry_policy." ++ field ++ " must be a non-negative int32")
          pure fallback
      else
        -- the lenient reader converts to 64 signed bits first
        let n := (int64? value).getD 0
        if -2 ^ 31 ≤ n ∧ n ≤ 2 ^ 31 - 1 then pure n
        else do
          fieldType ("/retry_policy/" ++ field) ("retry_policy." ++ field) "integer in range" value
          pure fallback

/-- The backoff multiplier, as a single-precision number. -/
def readRetryBackoff (f : FloatOps) (strict : Bool) : Option Document → Checked UInt64
  | none => pure two
  | some value =>
    match double? f value with
    | none => do
      fieldType "/retry_policy/backoff_multiplier" "retry_policy.backoff_multiplier" "number" value
      pure two
    | some bits =>
      if !strict || withinFloatRange bits then pure (f.toFloat bits)
      else do
        report "GC_FIELD_VALUE" "/retry_policy/backoff_multiplier"
          "retry_policy.backoff_multiplier exceeds finite float range"
        pure two

/-- The fields of the retry policy. -/
def retryFields : List String :=
  ["max_retries", "initial_delay_ms", "backoff_multiplier", "max_delay_ms"]

/-- The unknown fields of the retry policy; failure routes are declared per
node. -/
def enforceRetryFields (retry : Document) : Checked Unit :=
  ⟨(retry.members.filter fun m =>
      !(isAnnotationKey m.1 || retryFields.contains m.1)).map fun m =>
    ⟨"GC_UNKNOWN_FIELD", "/retry_policy/" ++ pointerToken m.1,
      "retry_policy: unknown or unconsumed key '" ++ m.1 ++ "'"
        ++ if m.1 = "on_failure" || m.1 = "on_exhausted" then
            "; route a node's failures with node_retry_policies and failure_edges "
              ++ "(JavaScript: graph.retryPolicy(node, \x7bon_failure: ...\x7d))"
          else ""⟩, ()⟩

/-- A retry policy that is an object. -/
def parseRetryFields (f : FloatOps) (strict : Bool) (retry : Document) : Checked RetryPolicy := do
  let maxRetries ← readRetryInteger strict retry "max_retries" 0
  let initialDelayMs ← readRetryInteger strict retry "initial_delay_ms" 100
  let maxDelayMs ← readRetryInteger strict retry "max_delay_ms" 5000
  let backoffMultiplier ← readRetryBackoff f strict (retry.get? "backoff_multiplier")
  onlyIf strict (enforceRetryFields retry)
  pure ⟨maxRetries, initialDelayMs, backoffMultiplier, maxDelayMs⟩

/-- The policy of retries, if there is one. -/
def parseRetryPolicy (f : FloatOps) (strict : Bool) : Option Document → Checked (Option RetryPolicy)
  | none => pure none
  | some (.obj fields) => some <$> parseRetryFields f strict (.obj fields)
  | some v => do
    fieldType "/retry_policy" "topology '$.retry_policy'" "object" v
    pure none

/-- Metadata, read in strict documents only. An empty object counts as
none. -/
def parseMetadata (ctx : ParseContext) (strict : Bool) : Option Document → Checked (Option Document)
  | none => pure none
  | some metadata =>
    if strict then
      match metadata with
      | .obj members => do
        (⟨ctx.metadata (.obj members), ()⟩ : Checked Unit)
        pure (if members.isEmpty then none else some (.obj members))
      | v => do
        fieldType "/metadata" "topology '$.metadata'" "object" v
        pure none
    else pure none

/-- The keys a strict document may have. -/
def topKeys : List String :=
  ["schema_version", "name", "channels", "nodes", "edges", "conditional_edges",
    "interrupt_before", "interrupt_after", "retry_policy", "metadata", "node_retry_policies",
    "failure_edges", "failure_exits"]

/-- The newest version of the topology schema. -/
def topologySchemaVersion : ℤ := 1

/-- The schema version; a document with a bad one is not read further. -/
def readSchemaVersion (ctx : ParseContext) (definition : Document) : Except CompilerDiagnostic ℕ :=
  match definition.get? "schema_version" with
  | none => .ok 0
  | some value =>
    let bad : CompilerDiagnostic := ⟨"GC_SCHEMA_VERSION", "/schema_version",
      "topology 'schema_version' must be a non-negative integer, got: " ++ ctx.dump value⟩
    match int64? value with
    | none => .error bad
    | some version =>
      if version < 0 ∨ 2 ^ 31 - 1 < version then .error bad
      else if topologySchemaVersion < version then
        .error ⟨"GC_SCHEMA_VERSION", "/schema_version",
          "topology schema_version " ++ toString version
            ++ " is newer than this engine supports (max " ++ toString topologySchemaVersion
            ++ "). Upgrade NeoGraph or re-export the topology."⟩
      else .ok version.toNat

/-- The failure routing keys are read in strict documents only. -/
def readFailureRoutingKeys (f : FloatOps) (strict : Bool) (definition : Document) :
    Checked FailureRoutingKeys :=
  if strict then parseFailureRoutingKeys f definition else pure {}

/-- Every key of a document. -/
def parseFields (ctx : ParseContext) (version : ℕ) (definition : Document) :
    Checked TopologySpec := do
  let strict := decide (1 ≤ version)
  let channels ← container strict definition "channels" true false
  let nodes ← container strict definition "nodes" true false
  let edges ← container strict definition "edges" false true
  let conditionalEdges ← container strict definition "conditional_edges" false true
  let name ← parseName strict (definition.get? "name")
  let channelDefs ← collect ((channels.getD .null).members) (parseChannel strict)
  let parsedNodes ← collect ((nodes.getD .null).members) (parseNode ctx strict)
  let parsedEdges ← collect ((edges.getD .null).elements.zipIdx) (parseEdge strict)
  let topLevel ← collect ((conditionalEdges.getD .null).elements.zipIdx)
    (parseConditionalItem strict)
  let interruptBefore ←
    parseInterrupts strict "interrupt_before" (definition.get? "interrupt_before")
  let interruptAfter ← parseInterrupts strict "interrupt_after" (definition.get? "interrupt_after")
  let retryPolicy ← parseRetryPolicy ctx.floats strict (definition.get? "retry_policy")
  let metadata ← parseMetadata ctx strict (definition.get? "metadata")
  let keys ← readFailureRoutingKeys ctx.floats strict definition
  let staticEdges := parsedEdges.filterMap Sum.getLeft?
  -- only static edges from the start node start a run
  ensure (!(edges.isSome || !definition.contains "edges") || parsedNodes.isEmpty
      || staticEdges.any fun e => e.src = startNode) "GC_NO_ENTRY" "/edges"
    "graph has nodes but no edge from __start__, so nothing would run"
  onlyIf strict (enforceConsumed definition topKeys "$" "")
  pure {
    name := name
    channelDefs := channelDefs
    edges := staticEdges
    conditionalEdges := parsedEdges.filterMap Sum.getRight? ++ topLevel
    barrierSpecs := SortedMap.ofList (parsedNodes.filterMap fun n =>
      match n.gate with
      | some (.barrier members) => some (n.name, members)
      | _ => none)
    joinSpecs := SortedMap.ofList (parsedNodes.filterMap fun n =>
      match n.gate with
      | some (.join slots) => some (n.name, ⟨slots⟩)
      | _ => none)
    interruptBefore := interruptBefore
    interruptAfter := interruptAfter
    retryPolicy := retryPolicy
    schemaVersion := version
    nodeDefs := SortedMap.ofList (parsedNodes.map fun n => (n.name, n.definition))
    metadata := metadata
    nodeRetryPolicies := keys.nodeRetryPolicies
    failureEdges := keys.failureEdges
    failureExits := keys.failureExits }

/-- **Reading a document**: what is found wrong, and the topology. -/
def parseReport (ctx : ParseContext) (definition : Document) : Checked (Option TopologySpec) :=
  if definition.isObject then
    match readSchemaVersion ctx definition with
    | .error diagnostic => ⟨[diagnostic], none⟩
    | .ok version => some <$> parseFields ctx version definition
  else do
    fieldType "" "topology document" "object" definition
    pure none

/-- A document is accepted when nothing is found wrong. -/
def parse (ctx : ParseContext) (definition : Document) :
    Except (List CompilerDiagnostic) TopologySpec :=
  match parseReport ctx definition with
  | ⟨[], some topology⟩ => .ok topology
  | ⟨diagnostics, _⟩ => .error diagnostics

end NeoGraph.Compiler
