import NeoGraph.Checkpoint.State
import NeoGraph.Lib.JsonObject
import NeoGraph.Scheduler

/-!
# Topologies

A topology document is a JSON object that declares the channels, nodes and
edges of a graph. `TopologySpec` is what the compiler reads from it: the
declarative graph, without live nodes.

Reading a document never stops at the first problem: every check adds its
diagnostics and reading goes on. `Checked` is a value together with the
diagnostics found on the way to it. A document is accepted when there are
none, and `Checked.bind_accepts` peels such a computation apart.
-/

namespace NeoGraph

open List

/-- A JSON document, with text as its strings. -/
abbrev Document := Json String

namespace Compiler

/-! ## Specifications -/

/-- A channel definition, as declared. -/
structure ChannelDef where
  name : String
  reducerName : String
  initialValue : Document
  /-- The document has an initial value, which may be null. -/
  hasInitial : Bool
  retention : ChannelRetentionPolicy
  retentionLimit : UInt64
  persistence : ChannelPersistencePolicy

/-- The retry policy of a graph. The multiplier is a single-precision
number, kept as the double it widens to. -/
structure RetryPolicy where
  maxRetries : ℤ
  initialDelayMs : ℤ
  backoffMultiplier : UInt64
  maxDelayMs : ℤ
deriving DecidableEq

/-- The retry fields of a node, as its author wrote them. -/
structure NodeRetryPolicySpec where
  maxRetries : Option ℤ := none
  initialDelayMs : Option ℤ := none
  /-- The bits of a double. -/
  backoffMultiplier : Option UInt64 := none
  maxDelayMs : Option ℤ := none
  nonRetryable : Finset String := ∅
  maxVisits : Option ℤ := none
  errorText : Option Bool := none
  attemptTimeoutMs : Option ℤ := none
deriving DecidableEq

/-- Nothing is declared. -/
def NodeRetryPolicySpec.isEmpty (spec : NodeRetryPolicySpec) : Bool := spec = {}

/-- Where the failure of a node goes. -/
structure FailureEdge where
  src : String
  dst : String
  errorChannel : Option String
deriving DecidableEq

/-- What the compiler reads from a document. -/
structure TopologySpec where
  name : String
  channelDefs : List ChannelDef
  edges : List Edge
  conditionalEdges : List ConditionalEdge
  barrierSpecs : BarrierSpecs
  joinSpecs : JoinSpecs
  interruptBefore : Finset String
  interruptAfter : Finset String
  retryPolicy : Option RetryPolicy
  schemaVersion : ℕ
  nodeDefs : SortedMap String Document
  metadata : Option Document
  nodeRetryPolicies : SortedMap String NodeRetryPolicySpec
  failureEdges : List FailureEdge
  /-- The failure-exit nodes; an empty code is the default one. -/
  failureExits : SortedMap String String

/-! ## Diagnostics -/

/-- A finding about a document: a code, where it is and what it says. -/
structure CompilerDiagnostic where
  code : String
  pointer : String
  message : String
deriving DecidableEq, Repr

/-- A value, with the diagnostics found while reading it. -/
structure Checked (α : Type) where
  diagnostics : List CompilerDiagnostic
  value : α

namespace Checked

variable {α β γ : Type}

instance : Monad Checked where
  pure a := ⟨[], a⟩
  bind x f := ⟨x.diagnostics ++ (f x.value).diagnostics, (f x.value).value⟩

/-- A finding. -/
def report (code pointer message : String) : Checked Unit := ⟨[⟨code, pointer, message⟩], ()⟩

/-- A finding, unless a condition holds. -/
def ensure (ok : Bool) (code pointer message : String) : Checked Unit :=
  if ok then pure () else report code pointer message

/-- A check that is made only under a condition. -/
def onlyIf (condition : Bool) (check : Checked Unit) : Checked Unit :=
  if condition then check else pure ()

/-- All members of a list are read; those without a value are left out. -/
def collect (l : List α) (f : α → Checked (Option β)) : Checked (List β) :=
  ⟨l.flatMap fun a => (f a).diagnostics, l.filterMap fun a => (f a).value⟩

/-- A value is read without a finding. -/
def Accepts (x : Checked α) (a : α) : Prop := x.diagnostics = [] ∧ x.value = a

@[simp] theorem pure_accepts {a b : α} : (pure a : Checked α).Accepts b ↔ a = b :=
  and_iff_right rfl

/-- **Peeling a computation without findings.** -/
theorem bind_accepts {x : Checked α} {f : α → Checked β} {b : β} :
    (x >>= f).Accepts b ↔ ∃ a, x.Accepts a ∧ (f a).Accepts b := by
  show (x.diagnostics ++ (f x.value).diagnostics = [] ∧ (f x.value).value = b) ↔ _
  rw [append_eq_nil_iff]
  constructor
  · rintro ⟨⟨hx, hf⟩, hb⟩
    exact ⟨x.value, ⟨hx, rfl⟩, hf, hb⟩
  · rintro ⟨a, ⟨hx, rfl⟩, hf, hb⟩
    exact ⟨⟨hx, hf⟩, hb⟩

theorem bind_unit_accepts {x : Checked Unit} {f : Unit → Checked β} {b : β} :
    (x >>= f).Accepts b ↔ x.diagnostics = [] ∧ (f ()).Accepts b := by
  rw [bind_accepts]
  constructor
  · rintro ⟨u, hx, hf⟩
    exact ⟨hx.1, hf⟩
  · rintro ⟨hx, hf⟩
    exact ⟨(), ⟨hx, rfl⟩, hf⟩

variable {code pointer message : String}

@[simp] theorem not_report_accepts :
    ¬(report code pointer message).diagnostics = [] := cons_ne_nil _ _

theorem not_report_bind {f : Unit → Checked β} {b : β} :
    ¬(report code pointer message >>= f).Accepts b := fun h =>
  not_report_accepts (bind_unit_accepts.mp h).1

/-- A list is read without a finding when all its members are. -/
theorem collect_accepts {l : List α} {f : α → Checked (Option β)} {bs : List β} :
    (collect l f).Accepts bs
      ↔ (∀ a ∈ l, (f a).diagnostics = []) ∧ (l.filterMap fun a => (f a).value) = bs :=
  and_congr_left fun _ => flatMap_eq_nil_iff

end Checked

/-! ## Names and paths -/

/-- Keys for humans and tools, which the compiler does not read. -/
def isAnnotationKey (key : String) : Bool :=
  match key.toList with
  | '_' :: _ => true
  | 'x' :: '-' :: _ => true
  | _ => false

/-- The name of a type in a message. -/
def jsonTypeName : Document → String
  | .null => "null"
  | .bool _ => "boolean"
  | .uint _ => "integer"
  | .sint _ => "integer"
  | .real _ => "number"
  | .str _ => "string"
  | .arr _ => "array"
  | .obj _ => "object"

/-- A name in a JSON pointer. -/
def pointerToken (name : String) : String :=
  String.ofList (name.toList.flatMap fun c =>
    if c = '~' then ['~', '0'] else if c = '/' then ['~', '1'] else [c])

/-- A value of the wrong type. -/
def fieldType (pointer display expected : String) (actual : Document) : Checked Unit :=
  .report "GC_FIELD_TYPE" pointer
    (display ++ " must be an " ++ expected ++ ", got " ++ jsonTypeName actual)

/-- Names in an object that are not read there. -/
def enforceConsumed (object : Document) (consumed : List String) (path pointer : String) :
    Checked Unit :=
  ⟨(object.members.filter fun m => !(isAnnotationKey m.1 || consumed.contains m.1)).map fun m =>
    ⟨"GC_UNKNOWN_FIELD", pointer ++ "/" ++ pointerToken m.1,
      path ++ ": unknown or unconsumed key '" ++ m.1 ++ "'"⟩, ()⟩

/-- Nothing is reported when every member is known or an annotation. -/
theorem enforceConsumed_accepts {object : Document} {consumed : List String}
    {path pointer : String} : (enforceConsumed object consumed path pointer).diagnostics = []
      ↔ ∀ m ∈ object.members, isAnnotationKey m.1 = true ∨ m.1 ∈ consumed := by
  show map _ _ = [] ↔ _
  rw [map_eq_nil_iff, filter_eq_nil_iff]
  refine forall₂_congr fun m _ => ?_
  rw [Bool.not_eq_true, Bool.not_eq_false', Bool.or_eq_true, contains_iff_mem]

/-- A required field that holds text; in a strict document it is not
empty. -/
def readString (strict : Bool) (object : Document) (field pointer display : String) :
    Checked (Option String) :=
  match object.get? field with
  | none => do
    Checked.report "GC_FIELD_REQUIRED" pointer
      (display ++ ": required field '" ++ field ++ "' is missing")
    pure none
  | some (.str s) =>
    if strict && s.isEmpty then do
      Checked.report "GC_FIELD_VALUE" pointer (display ++ " must not be empty")
      pure none
    else pure (some s)
  | some v => do
    fieldType pointer display "string" v
    pure none

end Compiler

end NeoGraph
