import NeoGraph.Compiler.Values

/-!
# Failure routing keys

The keys of a strict document that say what happens when a node fails:
retry fields of single nodes (`node_retry_policies`), edges a failure is
routed along (`failure_edges`), and nodes whose completion ends the run as
failed (`failure_exits`). They are read by `parseFailureRoutingKeys` and
written back by the printers at the end of this file.
-/

namespace NeoGraph.Compiler

open Checked

/-! ## Codes -/

/-- The codes of the engine that a document may name. -/
def isKnownFailureCode (code : String) : Bool :=
  ["NG.BudgetExhausted", "NG.ConfigError", "NG.EffectCommitted", "NG.EffectUncertain",
    "NG.LogicError", "NG.ProviderFailed", "NG.SafetyBlocked", "NG.SubgraphFailed",
    "NG.TaskFailed", "NG.Timeout", "NG.UnknownFailure"].contains code

/-- The rest of a code: the number of its segments and the length of the
last one. -/
def codeSegments : ℕ → ℕ → List Char → Bool
  | segments, length, [] => 2 ≤ segments && 0 < length
  | segments, length, '.' :: rest => length ≠ 0 && codeSegments (segments + 1) 0 rest
  | segments, length, c :: rest =>
    (('a' ≤ c && c ≤ 'z') || ('0' ≤ c && c ≤ '9') || c = '_')
      && codeSegments segments (length + 1) rest

/-- A code an author may use: segments of lower-case letters, digits and
underscores, outside the reserved segment. -/
def isAuthorFailureCode (code : String) : Bool :=
  code.utf8ByteSize ≤ 128
    && match code.toList with
      | 'n' :: 'g' :: '.' :: _ => false
      | c :: rest => ('a' ≤ c && c ≤ 'z') && codeSegments 1 1 rest
      | [] => false

/-! ## Reading -/

/-- What failure edges are checked against. -/
structure FailureKeyContext where
  nodes : List String
  /-- Nodes with a static edge or a route. -/
  withSuccessors : List String
  joins : List String
  channelReducers : List (String × String)

/-- The elements of an array, and none of anything else. -/
def arrayItems : Document → List Document
  | .arr items => items
  | _ => []

/-- The context a document gives. -/
def failureKeyContext (definition : Document) : FailureKeyContext where
  nodes := ((definition.get? "nodes").getD .null).members.map Prod.fst
  withSuccessors := ["edges", "conditional_edges"].flatMap fun field =>
    (arrayItems ((definition.get? field).getD .null)).filterMap fun edge =>
      (edge.get? "from").bind string?
  joins := (((definition.get? "nodes").getD .null).members.filter fun m =>
    m.2.contains "barrier").map Prod.fst
  channelReducers := ((definition.get? "channels").getD .null).members.map fun m =>
    (m.1, ((m.2.get? "reducer").bind string?).getD "overwrite")

/-- An integer between bounds. -/
def boundedInteger (value : Document) (pointer : String) (minimum maximum : ℤ) :
    Checked (Option ℤ) :=
  match int? value with
  | none => do
    report "GC_FIELD_TYPE" pointer (pointer ++ " must be an integer")
    pure none
  | some number =>
    if minimum ≤ number ∧ number ≤ maximum then pure (some number)
    else do
      report "GC_FIELD_VALUE" pointer
        (pointer ++ " must be between " ++ toString minimum ++ " and " ++ toString maximum)
      pure none

/-- A field that may be missing. -/
def optionalField {α : Type} (object : Document) (field : String)
    (read : Document → Checked (Option α)) : Checked (Option α) :=
  match object.get? field with
  | none => pure none
  | some v => read v

/-- A number between 1.0 and 10.0. -/
def readBackoff (f : FloatOps) (pointer : String) (value : Document) : Checked (Option UInt64) :=
  match double? f value with
  | none => do
    report "GC_FIELD_TYPE" pointer (pointer ++ " must be a number")
    pure none
  | some number =>
    if betweenOneAndTen number then pure (some number)
    else do
      report "GC_FIELD_VALUE" pointer (pointer ++ " must be between 1.0 and 10.0")
      pure none

/-- An optional flag. -/
def readBoolean (pointer : String) : Document → Checked (Option Bool)
  | .bool b => pure (some b)
  | _ => do
    report "GC_FIELD_TYPE" pointer (pointer ++ " must be a boolean")
    pure none

/-- Distinct codes. -/
def readCodes (pointer : String) : ℕ → Finset String → List Document → Checked (Finset String)
  | _, seen, [] => pure seen
  | index, seen, .str text :: rest => do
    let place := pointer ++ "/" ++ toString index
    if isAuthorFailureCode text || isKnownFailureCode text then
      ensure (decide (text ∉ seen)) "GC_FIELD_VALUE" place
        (place ++ ": '" ++ text ++ "' is listed twice")
      readCodes pointer (index + 1) (insert text seen) rest
    else
      report "GC_FIELD_VALUE" place
        (place ++ ": '" ++ text ++ "' is neither an author code "
          ++ "([a-z][a-z0-9_]*(.[a-z0-9_]+)+) nor a known NG code")
      readCodes pointer (index + 1) seen rest
  | index, seen, _ :: rest => do
    let place := pointer ++ "/" ++ toString index
    report "GC_FIELD_TYPE" place (place ++ " must be a string")
    readCodes pointer (index + 1) seen rest

/-- The codes of the failures that are not retried. -/
def readNonRetryable (pointer : String) : Document → Checked (Option (Finset String))
  | .arr codes =>
    if codes.length ≤ 16 then do
      let codes ← readCodes pointer 0 ∅ codes
      pure (some codes)
    else do
      report "GC_FIELD_VALUE" pointer (pointer ++ " lists at most 16 codes")
      pure none
  | _ => do
    report "GC_FIELD_TYPE" pointer (pointer ++ " must be an array of codes")
    pure none

/-- The fields of a node's retry policy. -/
def nodeRetryFields : List String :=
  ["max_retries", "initial_delay_ms", "backoff_multiplier", "max_delay_ms", "non_retryable",
    "max_visits", "error_text", "attempt_timeout_ms"]

/-- The retry fields of one node. -/
def parseNodeRetryPolicy (f : FloatOps) (policy : Document) (pointer : String) :
    Checked NodeRetryPolicySpec := do
  enforceConsumed policy nodeRetryFields pointer pointer
  let integer (field : String) (minimum maximum : ℤ) : Checked (Option ℤ) :=
    optionalField policy field fun v =>
      boundedInteger v (pointer ++ "/" ++ field) minimum maximum
  let maxRetries ← integer "max_retries" 0 10
  let initialDelayMs ← integer "initial_delay_ms" 10 60000
  let maxDelayMs ← integer "max_delay_ms" (initialDelayMs.getD 10) 300000
  let maxVisits ← integer "max_visits" 1 100
  let attemptTimeoutMs ← integer "attempt_timeout_ms" 100 3600000
  let backoffMultiplier ←
    optionalField policy "backoff_multiplier" (readBackoff f (pointer ++ "/backoff_multiplier"))
  let errorText ← optionalField policy "error_text" (readBoolean (pointer ++ "/error_text"))
  let nonRetryable ←
    optionalField policy "non_retryable" (readNonRetryable (pointer ++ "/non_retryable"))
  pure ⟨maxRetries, initialDelayMs, backoffMultiplier, maxDelayMs, nonRetryable.getD ∅, maxVisits,
    errorText, attemptTimeoutMs⟩

/-- A failure key of the wrong type. -/
def failureKeyType (pointer expected : String) (value : Document) : Checked Unit :=
  .report "GC_FIELD_TYPE" pointer
    ("topology '" ++ pointer ++ "' must be an " ++ expected ++ ", got " ++ jsonTypeName value)

/-- The members of an object under a failure key. -/
def failureKeyMembers {β : Type} (definition : Document) (key : String)
    (read : String → String → Document → Checked (Option β)) : Checked (List (String × β)) :=
  match definition.get? key with
  | none => pure []
  | some (.obj members) =>
    collect members fun m => do
      let pointer := "/" ++ key ++ "/" ++ pointerToken m.1
      match m.2 with
      | .obj fields => do
        let value ← read m.1 pointer (.obj fields)
        pure (value.map fun value => (m.1, value))
      | v => do
        failureKeyType pointer "object" v
        pure none
  | some v => do
    failureKeyType ("/" ++ key) "object" v
    pure []

/-- The retry fields of all nodes that have some. -/
def parseNodeRetryPolicies (f : FloatOps) (definition : Document) :
    Checked (List (String × NodeRetryPolicySpec)) :=
  failureKeyMembers definition "node_retry_policies" fun _ pointer policy => do
    let spec ← parseNodeRetryPolicy f policy pointer
    pure (if spec.isEmpty then none else some spec)

/-- The code of a failure exit; empty for the default one. -/
def readExitCode (pointer : String) : Option Document → Checked (Option String)
  | none => pure (some "")
  | some (.str text) =>
    if text = "NG.Aborted" then pure (some "")
    else if isAuthorFailureCode text then pure (some text)
    else do
      report "GC_FIELD_VALUE" (pointer ++ "/code")
        (pointer ++ "/code: '" ++ text ++ "' must be an author code "
          ++ "([a-z][a-z0-9_]*(.[a-z0-9_]+)+); the NG. prefix is reserved")
      pure none
  | some v => do
    failureKeyType (pointer ++ "/code") "string" v
    pure none

/-- The failure exits, which have no successors. -/
def parseFailureExits (context : FailureKeyContext) (definition : Document) :
    Checked (List (String × String)) :=
  failureKeyMembers definition "failure_exits" fun name pointer exit => do
    enforceConsumed exit ["code"] pointer pointer
    let code ← readExitCode pointer (exit.get? "code")
    match code with
    | none => pure none
    | some code =>
      if context.withSuccessors.contains name then do
        report "GC_FIELD_VALUE" pointer ("failure exit '" ++ name
          ++ "' has outgoing edges or routes; a failure exit ends the run")
        pure none
      else pure (some code)

/-- The name of a node in a failure edge. -/
def readFailureEnd (edge : Document) (pointer field : String) : Checked (Option String) :=
  match edge.get? field with
  | none => do
    report "GC_FIELD_REQUIRED" pointer
      (pointer ++ ": required field '" ++ field ++ "' is missing")
    pure none
  | some (.str s) =>
    if s.isEmpty then do
      report "GC_FIELD_VALUE" (pointer ++ "/" ++ field)
        (pointer ++ "/" ++ field ++ " must be a node name")
      pure none
    else pure (some s)
  | some _ => do
    report "GC_FIELD_VALUE" (pointer ++ "/" ++ field)
      (pointer ++ "/" ++ field ++ " must be a node name")
    pure none

/-- The channel a failure edge writes to, if any. -/
def readErrorChannel (edge : Document) (pointer : String) : Checked (Option (Option String)) :=
  match edge.get? "error_channel" with
  | none => pure (some none)
  | some (.str s) =>
    if s.isEmpty then do
      report "GC_FIELD_VALUE" (pointer ++ "/error_channel")
        (pointer ++ "/error_channel must be a channel name")
      pure none
    else pure (some (some s))
  | some _ => do
    report "GC_FIELD_VALUE" (pointer ++ "/error_channel")
      (pointer ++ "/error_channel must be a channel name")
    pure none

/-- Why a failure edge is rejected. -/
def failureEdgeProblem (context : FailureKeyContext) (exits : SortedMap String String)
    (sources : List String) (e : FailureEdge) : Option String :=
  if e.src = startNode ∨ e.src = endNode then some "only nodes fail"
  else if e.src ∈ sources then some "a node has at most one failure edge"
  else if e.dst = startNode ∨ e.dst = endNode then
    some "route failures to a node; end the run with a failure exit instead"
  else if e.dst = e.src then
    some "a node cannot handle its own failure; use max_retries to retry it"
  else if e.dst ∈ context.nodes ∧ e.dst ∈ context.joins then
    some "a failure arrival never fills a join slot, so the join could only stall"
  else if e.dst ∈ context.nodes ∧ e.dst ∉ context.withSuccessors ∧ exits.contains e.dst = false then
    some ("the target has no edges or routes; end it with an explicit exit "
      ++ "or make it a failure exit")
  else match e.errorChannel with
    | none => none
    | some channel =>
      match context.channelReducers.lookup channel with
      | none => none
      | some reducer =>
        if reducer = "append" then none
        else some ("error_channel '" ++ channel ++ "' must use the built-in append reducer")

/-- One failure edge, up to the checks against other keys. -/
def readFailureEdge (pointer : String) : Document → Checked (Option FailureEdge)
  | .obj members => do
    let edge : Document := .obj members
    enforceConsumed edge ["from", "to", "error_channel"] pointer pointer
    let src ← readFailureEnd edge pointer "from"
    let dst ← readFailureEnd edge pointer "to"
    let errorChannel ← readErrorChannel edge pointer
    pure (match src, dst, errorChannel with
      | some src, some dst, some errorChannel => some ⟨src, dst, errorChannel⟩
      | _, _, _ => none)
  | v => do
    failureKeyType pointer "object" v
    pure none

/-- The failure edges of a list. -/
def readFailureEdges (context : FailureKeyContext) (exits : SortedMap String String) :
    ℕ → List String → List Document → Checked (List FailureEdge)
  | _, _, [] => pure []
  | index, sources, v :: rest => do
    let pointer := "/failure_edges/" ++ toString index
    let edge ← readFailureEdge pointer v
    match edge with
    | none => readFailureEdges context exits (index + 1) sources rest
    | some e =>
      let sources' := if e.src = startNode ∨ e.src = endNode then sources else e.src :: sources
      match failureEdgeProblem context exits sources e with
      | some why => do
        report "GC_FAILURE_EDGE" pointer
          ("failure edge '" ++ e.src ++ "' -> '" ++ e.dst ++ "': " ++ why)
        readFailureEdges context exits (index + 1) sources' rest
      | none => do
        let edges ← readFailureEdges context exits (index + 1) sources' rest
        pure (e :: edges)

/-- The failure edges, in the order of their sources. -/
def parseFailureEdges (context : FailureKeyContext) (exits : SortedMap String String)
    (definition : Document) : Checked (List FailureEdge) :=
  match definition.get? "failure_edges" with
  | none => pure []
  | some (.arr items) => do
    let edges ← readFailureEdges context exits 0 [] items
    pure (edges.insertionSort fun a b => a.src ≤ b.src)
  | some v => do
    failureKeyType "/failure_edges" "array" v
    pure []

/-- What the failure routing keys declare. -/
structure FailureRoutingKeys where
  nodeRetryPolicies : SortedMap String NodeRetryPolicySpec := ∅
  failureEdges : List FailureEdge := []
  failureExits : SortedMap String String := ∅

/-- The failure routing keys of a document. Exits come first: a failure
exit is a valid target although it has no successors. -/
def parseFailureRoutingKeys (f : FloatOps) (definition : Document) :
    Checked FailureRoutingKeys := do
  let context := failureKeyContext definition
  let policies ← parseNodeRetryPolicies f definition
  let exits ← parseFailureExits context definition
  let edges ← parseFailureEdges context (SortedMap.ofList exits) definition
  pure ⟨SortedMap.ofList policies, edges, SortedMap.ofList exits⟩

/-! ## Printing -/

/-- The retry fields of a node, as they are written. -/
def printNodeRetryPolicy (spec : NodeRetryPolicySpec) : Document :=
  .obj (
    (spec.maxRetries.map fun n => ("max_retries", ofInt n)).toList
    ++ (spec.initialDelayMs.map fun n => ("initial_delay_ms", ofInt n)).toList
    ++ (spec.backoffMultiplier.map fun bits => ("backoff_multiplier", .real bits)).toList
    ++ (spec.maxDelayMs.map fun n => ("max_delay_ms", ofInt n)).toList
    ++ (if spec.nonRetryable = ∅ then [] else [("non_retryable", printNames spec.nonRetryable)])
    ++ (spec.maxVisits.map fun n => ("max_visits", ofInt n)).toList
    ++ (spec.errorText.map fun b => ("error_text", .bool b)).toList
    ++ (spec.attemptTimeoutMs.map fun n => ("attempt_timeout_ms", ofInt n)).toList)

/-- The retry fields of all nodes that have some. -/
def printNodeRetryPolicies (policies : SortedMap String NodeRetryPolicySpec) : Option Document :=
  match policies.entries.filter fun e => !e.2.isEmpty with
  | [] => none
  | entries => some (.obj (entries.map fun e => (e.1, printNodeRetryPolicy e.2)))

/-- A failure edge, as it is written. -/
def printFailureEdge (e : FailureEdge) : Document :=
  .obj ([("from", .str e.src), ("to", .str e.dst)]
    ++ (e.errorChannel.map fun channel => ("error_channel", .str channel)).toList)

/-- The failure edges, in the order of their sources. -/
def printFailureEdges (edges : List FailureEdge) : Option Document :=
  match edges with
  | [] => none
  | edges =>
    some (.arr ((edges.insertionSort fun a b => a.src ≤ b.src).map printFailureEdge))

/-- The failure exits. -/
def printFailureExits (exits : SortedMap String String) : Option Document :=
  match exits.entries with
  | [] => none
  | entries => some (.obj (entries.map fun e =>
      (e.1, .obj (if e.2.isEmpty then [] else [("code", .str e.2)]))))

end NeoGraph.Compiler
