import NeoGraph.CanonicalJson.Documents
import NeoGraph.Tool.Execution

/-!
# The journal of tool effects

A broker lets a tool have its effect once per slot: a slot is the place of a
call in a run. Before the tool is started a marker is put into a database, in a
row under the slot; when the tool has succeeded its result is stored there as a
receipt. A call that finds a row is refused, or answered with the receipt. A
marker is withdrawn if the tool was never started.

Any number of brokers share the database, so a call is a sequence of steps that
interleave with those of other calls: the lookup, which is one transaction, the
start of the tool, the end of the call in the controller, and the transaction
that settles it. A transaction may fail, with or without effect, and a call may
crash between its steps.

Texts of JSON documents are written by `dump` and read by `parse`, of the
document library.
-/

namespace NeoGraph.Tool

open CanonicalJson

/-! ## Receipts -/

namespace Receipt

/-- An integer as it is read from a text: the sign decides how it is kept. -/
def ofInt (n : Int32) : Json String :=
  if n < 0 then .sint n.toInt64 else .uint n.toInt64.toUInt64

def ofOptional : Option Int32 → Json String
  | none => .null
  | some n => ofInt n

def encode (result : ToolExecutionResult) : Json String :=
  .obj [("status", .str result.status.toString), ("output", .str result.output),
    ("error", .str result.error), ("retryable", .bool result.retryable),
    ("effect_uncertain", .bool result.effectUncertain),
    ("exit_code", ofOptional result.exitCode), ("signal_number", ofOptional result.signalNumber),
    ("output_truncated", .bool result.outputTruncated)]

def getString : Json String → Option String
  | .str s => some s
  | _ => none

def getBool : Json String → Option Bool
  | .bool b => some b
  | _ => none

/-- A number as an integer of 32 bits; `truncate` is the conversion of a
floating-point number. -/
def getInt (truncate : UInt64 → Int32) : Json String → Option Int32
  | .sint n => some n.toInt32
  | .uint n => some n.toInt64.toInt32
  | .real bits => some (truncate bits)
  | _ => none

def getOptional (truncate : UInt64 → Int32) : Json String → Option (Option Int32)
  | .null => some none
  | v => (getInt truncate v).map some

/-- Only a confirmed completion is read. -/
def decode (truncate : UInt64 → Int32) (data : Json String) : Option ToolExecutionResult := do
  let status ← (data.get? "status").bind getString
  let status ← ToolTerminalStatus.fromString status
  let output ← (data.get? "output").bind getString
  let error ← (data.get? "error").bind getString
  let retryable ← (data.get? "retryable").bind getBool
  let effectUncertain ← (data.get? "effect_uncertain").bind getBool
  let exitCode ← (data.get? "exit_code").bind (getOptional truncate)
  let signalNumber ← (data.get? "signal_number").bind (getOptional truncate)
  let outputTruncated ← (data.get? "output_truncated").bind getBool
  let result : ToolExecutionResult :=
    { status := status
      output := output
      error := error
      retryable := retryable
      effectUncertain := effectUncertain
      exitCode := exitCode
      signalNumber := signalNumber
      outputTruncated := outputTruncated }
  if !result.succeeded || result.effectUncertain then none else some result

theorem getOptional_ofOptional (truncate : UInt64 → Int32) (n : Option Int32) :
    getOptional truncate (ofOptional n) = some n := by
  cases n with
  | none => rfl
  | some n =>
    rw [ofOptional, ofInt]
    split
    · show some (some n.toInt64.toInt32) = some (some n)
      rw [Int32.toInt32_toInt64]
    · show some (some n.toInt64.toUInt64.toInt64.toInt32) = some (some n)
      rw [Int64.toInt64_toUInt64, Int32.toInt32_toInt64]

/-- **A receipt is read as what was confirmed.** -/
theorem decode_encode (truncate : UInt64 → Int32) {result : ToolExecutionResult}
    (hs : result.succeeded = true) (hc : result.effectUncertain = false)
    (href : result.refused = false) : decode truncate (encode result) = some result := by
  obtain ⟨status, output, error, retryable, effectUncertain, exitCode, signalNumber,
    outputTruncated, refused⟩ := result
  dsimp only at hc href
  subst hc href
  have hst : status = .succeeded := of_decide_eq_true hs
  subst hst
  unfold decode encode
  simp [Json.get?, Json.members, List.lookup, getString, getBool, getOptional_ofOptional,
    ToolExecutionResult.succeeded]

end Receipt

/-! ## Slots and rows -/

/-- What an effect is told apart by. -/
structure ToolEffectIdentity where
  ownerScope : String
  runId : String
  programVersionId : String := ""
  operationId : String
  grantId : String
  attempt : ℕ := 0
  bindingFingerprint : String := ""
  threadId : String
  taskId : String
  callOrdinal : ℕ := 0
deriving DecidableEq

/-- The place of a call in a run: the primary key of the database. -/
structure Slot where
  owner : String
  run : String
  thread : String
  task : String
  ordinal : ℕ
deriving DecidableEq

def ToolEffectIdentity.slot (identity : ToolEffectIdentity) : Slot :=
  ⟨identity.ownerScope, identity.runId, identity.threadId, identity.taskId, identity.callOrdinal⟩

/-- What a slot is bound to when its marker is put. -/
structure EffectBinding where
  programVersion : String
  operation : String
  grantId : String
  bindingFingerprint : String
  executable : String
  toolName : String
  arguments : Bytes
deriving DecidableEq

/-- A row, with the number of the call that put it, which the database does not
have. -/
structure Row where
  binding : EffectBinding
  writer : ℕ
  receipt : Option String := none
deriving DecidableEq

/-- A tool object, with the name it has now. -/
structure ToolObject where
  address : ℕ
  name : String

/-- What the host bound a tool object to. -/
structure ExecutableBinding where
  executableId : String
  toolName : String

/-- A broker's table of tool objects. -/
def Broker : Type := ℕ → Option ExecutableBinding

/-! ## Calls -/

/-- How far a call has come. -/
inductive CallPhase where
  /-- Its request was checked, and the journal was not read yet. -/
  | entered
  /-- Its marker is in the journal, and the controller runs it. -/
  | marked
  /-- The controller answered. -/
  | returned (result : ToolExecutionResult)
  | ended (result : ToolExecutionResult)
  /-- It was left by an exception. -/
  | threw
  | crashed
deriving DecidableEq

/-- A call of `execute`. `started` says that the body of its tool was. -/
structure EffectCall where
  identity : ToolEffectIdentity
  binding : EffectBinding
  policy : ToolExecutionPolicy
  phase : CallPhase
  started : Bool := false
deriving DecidableEq

def EffectCall.slot (c : EffectCall) : Slot := c.identity.slot

/-- A result that the broker makes itself. -/
def refusal (status : ToolTerminalStatus) (error : String) : ToolExecutionResult :=
  { status := status, error := error, effectUncertain := status = .reconciliationRequired }

def missingIdentity : ToolExecutionResult :=
  refusal .rejected "Tool effect requires exact host grant and stable slot"

def inexactBinding : ToolExecutionResult :=
  refusal .rejected "Program Tool effect requires exact admitted binding and attempt"

def unboundExecutable : ToolExecutionResult :=
  refusal .rejected "Tool executable is not bound by the host"

def retriedTool : ToolExecutionResult :=
  refusal .rejected "Tool effect controller must not retry within one slot"

def changedCall : ToolExecutionResult :=
  refusal .rejected "Tool effect slot, authority, executable or arguments changed"

def unverifiedReceipt : ToolExecutionResult :=
  refusal .reconciliationRequired "Tool effect stored receipt cannot be verified"

def noReceipt : ToolExecutionResult :=
  refusal .reconciliationRequired
    "Tool effect dispatched without confirmed receipt; reconcile externally"

def markerNotConfirmed (what : String) : ToolExecutionResult :=
  refusal .failed ("Tool effect marker not confirmed: " ++ what)

def unconfirmedOutcome : ToolExecutionResult :=
  refusal .reconciliationRequired "Tool effect outcome after dispatch is unconfirmed"

def unconfirmedReceipt : ToolExecutionResult :=
  refusal .reconciliationRequired "Tool effect completed but receipt persistence is unconfirmed"

/-- The checks of a request that need no journal: it is refused, left by an
exception when its arguments have no canonical form, or it enters. -/
def enter (appendFloat : UInt64 → Except Exn Bytes) (broker : Broker)
    (identity : ToolEffectIdentity) (tool : ToolObject) (arguments : Json String)
    (policy : ToolExecutionPolicy) : EffectCall :=
  let call : EffectCall :=
    { identity := identity
      binding := ⟨identity.programVersionId, identity.operationId, identity.grantId,
        identity.bindingFingerprint, "", tool.name, []⟩
      policy := policy
      phase := .threw }
  if identity.ownerScope = "" || identity.runId = "" || identity.threadId = ""
      || identity.taskId = "" || identity.operationId = "" || identity.grantId = "" then
    { call with phase := .ended missingIdentity }
  else if identity.programVersionId ≠ ""
      && (identity.bindingFingerprint = "" || identity.attempt = 0) then
    { call with phase := .ended inexactBinding }
  else
    match broker tool.address with
    | none => { call with phase := .ended unboundExecutable }
    | some bound =>
      if tool.name ≠ bound.toolName then { call with phase := .ended unboundExecutable }
      else if policy.retryMaxAttempts ≠ 1 then { call with phase := .ended retriedTool }
      else
        match documentBytes appendFloat arguments with
        | .error _ => call
        | .ok bytes =>
          { call with
            binding := { call.binding with executable := bound.executableId, arguments := bytes }
            phase := .entered }

/-! ## The database -/

/-- The largest length of a text and the largest integer that a statement
takes. -/
def maximumTextBytes : ℕ := 2 ^ 31 - 1

def maximumInteger : ℕ := 2 ^ 63 - 1

def bindsText (text : String) : Bool := text.utf8ByteSize ≤ maximumTextBytes

/-- A statement that selects a slot can be made. -/
def bindsSlot (slot : Slot) : Bool :=
  bindsText slot.owner && bindsText slot.run && bindsText slot.thread && bindsText slot.task
    && slot.ordinal ≤ maximumInteger

/-- The statement that puts a marker can be made. -/
def bindsRow (c : EffectCall) : Bool :=
  bindsText c.binding.programVersion && bindsText c.binding.operation
    && bindsText c.binding.grantId && bindsText c.binding.bindingFingerprint
    && bindsText c.binding.executable && bindsText c.binding.toolName
    && c.binding.arguments.length ≤ maximumTextBytes && c.identity.attempt ≤ maximumInteger

/-- How a transaction goes: one that fails may have had its effect. -/
inductive Transaction where
  | committed
  | failed (what : String) (applied : Bool)
deriving DecidableEq

/-- The database and the calls of all brokers. -/
structure EffectWorld where
  rows : Slot → Option Row := fun _ => none
  calls : ℕ → Option EffectCall := fun _ => none
  /-- The starts of tools, by the calls that made them. -/
  starts : List ℕ := []

/-- What is put into the place of one call. -/
def EffectWorld.setCall (w : EffectWorld) (id : ℕ) (c : EffectCall) : EffectWorld :=
  { w with calls := Function.update w.calls id (some c) }

def EffectWorld.setPhase (w : EffectWorld) (id : ℕ) (c : EffectCall) (phase : CallPhase) :
    EffectWorld :=
  w.setCall id { c with phase := phase }

def EffectWorld.setRow (w : EffectWorld) (slot : Slot) (row : Option Row) : EffectWorld :=
  { w with rows := Function.update w.rows slot row }

/-! ## Steps -/

/-- A step of a call. -/
inductive EffectEvent where
  | enter (id : ℕ) (broker : Broker) (identity : ToolEffectIdentity) (tool : ToolObject)
    (arguments : Json String) (policy : ToolExecutionPolicy)
  | lookup (id : ℕ) (transaction : Transaction)
  | start (id : ℕ)
  | finish (id : ℕ) (deadlineHit : Bool) (ending : Except ToolException String)
  /-- The call shares the result of another one, of the same resource. -/
  | follow (id : ℕ) (leader : ToolExecutionPolicy) (started deadlineHit : Bool)
    (ending : Except ToolException String)
  | settle (id : ℕ) (transaction : Transaction)
  | crash (id : ℕ)

/-- The document library: how texts are written and read, and how numbers are
written and converted. -/
structure DocumentLibrary where
  dump : Json String → String
  parse : String → Option (Json String)
  appendFloat : UInt64 → Except Exn Bytes
  truncate : UInt64 → Int32

namespace EffectWorld

variable (lib : DocumentLibrary)

/-- The tool of a call is started. -/
def startTool (w : EffectWorld) (id : ℕ) (c : EffectCall) : EffectWorld :=
  { (w.setCall id { c with started := true }) with starts := w.starts ++ [id] }

/-- What a call is told that finds a row. -/
def replay (row : Row) (binding : EffectBinding) : ToolExecutionResult :=
  if row.binding ≠ binding then changedCall
  else
    match row.receipt with
    | none => noReceipt
    | some receipt =>
      match (lib.parse receipt).bind (Receipt.decode lib.truncate) with
      | some result => result
      | none => unverifiedReceipt

/-- The transaction that reads the row of a slot or puts a marker there. -/
def lookup (w : EffectWorld) (id : ℕ) (c : EffectCall) : Transaction → EffectWorld
  | .committed =>
    if !bindsSlot c.slot then w.setPhase id c (.ended (markerNotConfirmed "bind"))
    else
      match w.rows c.slot with
      | some row => w.setPhase id c (.ended (replay lib row c.binding))
      | none =>
        if !bindsRow c then w.setPhase id c (.ended (markerNotConfirmed "bind"))
        else (w.setRow c.slot (some { binding := c.binding, writer := id })).setPhase id c .marked
  | .failed what applied =>
    if applied && bindsSlot c.slot && (w.rows c.slot).isNone && bindsRow c then
      (w.setRow c.slot (some { binding := c.binding, writer := id })).setPhase id c
        (.ended (markerNotConfirmed what))
    else w.setPhase id c (.ended (markerNotConfirmed what))

/-- The row of a slot after its marker is withdrawn. -/
def withdrawn : Option Row → Option Row
  | some ⟨_, _, none⟩ => none
  | row => row

/-- The transaction after the answer of the controller: the marker is withdrawn,
or the receipt is stored. -/
def settle (w : EffectWorld) (id : ℕ) (c : EffectCall) (result : ToolExecutionResult) :
    Transaction → EffectWorld
  | transaction =>
    if frees result then
      match transaction with
      | .committed | .failed _ true =>
        (w.setRow c.slot (withdrawn (w.rows c.slot))).setPhase id c (.ended result)
      | .failed _ false => w.setPhase id c (.ended result)
    else if !result.succeeded || result.effectUncertain then
      w.setPhase id c (.ended unconfirmedOutcome)
    else
      match w.rows c.slot with
      | some ⟨binding, writer, none⟩ =>
        let receipt := lib.dump (Receipt.encode result)
        if !bindsText receipt then w.setPhase id c (.ended unconfirmedReceipt)
        else
          match transaction with
          | .committed =>
            (w.setRow c.slot (some ⟨binding, writer, some receipt⟩)).setPhase id c (.ended result)
          | .failed _ true =>
            (w.setRow c.slot (some ⟨binding, writer, some receipt⟩)).setPhase id c
              (.ended unconfirmedReceipt)
          | .failed _ false => w.setPhase id c (.ended unconfirmedReceipt)
      | _ => w.setPhase id c (.ended unconfirmedReceipt)

/-- A step. There is none for a call that is at another place. -/
def step (w : EffectWorld) : EffectEvent → Option EffectWorld
  | .enter id broker identity tool arguments policy =>
    match w.calls id with
    | some _ => none
    | none => some (w.setCall id (enter lib.appendFloat broker identity tool arguments policy))
  | .lookup id transaction =>
    match w.calls id with
    | none => none
    | some c => if c.phase = .entered then some (w.lookup lib id c transaction) else none
  | .start id =>
    match w.calls id with
    | none => none
    | some c =>
      if c.phase = .marked && !c.started then some (w.startTool id c) else none
  | .finish id deadlineHit ending =>
    match w.calls id with
    | none => none
    | some c =>
      -- an output comes from a tool that was started, and the check of the deadline before that
      if c.phase = .marked && (c.started || ending.toOption.isNone)
          && !(c.started && elapsedBeforeStart ending) then
        if throwsOn ending then some (w.setPhase id c .threw)
        else
          some (w.setPhase id c (.returned (executeResult c.policy c.started deadlineHit ending)))
      else none
  | .follow id leader started deadlineHit ending =>
    match w.calls id with
    | none => none
    | some c =>
      if c.phase = .marked && !c.started && c.policy.concurrency = .singleFlight
          && (started || ending.toOption.isNone) && !(started && elapsedBeforeStart ending) then
        some (w.setPhase id c (.returned (executeResult leader started deadlineHit ending)))
      else none
  | .settle id transaction =>
    match w.calls id with
    | none => none
    | some c =>
      match c.phase with
      | .returned result => some (w.settle lib id c result transaction)
      | _ => none
  | .crash id =>
    match w.calls id with
    | none => none
    | some c =>
      match c.phase with
      | .entered | .marked | .returned _ => some (w.setPhase id c .crashed)
      | _ => none

end EffectWorld

end NeoGraph.Tool
