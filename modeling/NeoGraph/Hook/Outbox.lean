import Mathlib
import NeoGraph.Lib.SortedMap
import NeoGraph.Program.Records

/-!
# The hook outbox

A hook invocation is journaled before it runs. Its entry goes from triggered to
pending when the event that triggered it is published; a worker claims it for
an attempt and gets a lease with a fencing token; the attempt is settled with
a receipt, or its lease expires; and an attempt whose outcome is unknown is
reconciled by hand.

Receipts and entries are checked when they are made, so both are structures
that carry their check. A journal operation says what it stores, one entry
after the other (`HookAnswer.stored`): a claim may first record that the last
attempt failed and then start a new one. Where the code raises an exception,
nothing more is stored.

The Program store has a state machine of its own for the heads of entries
(`validHookHeadUpdate`).
-/

namespace NeoGraph.Hook

open Program (isSha256Identity)

/-! ## Receipts -/

/-- Where in a run a hook is called. -/
inductive HookPhase where
  | messageAdmitted
  | beforeProviderRequest
  | afterProviderResponse
  | beforeToolExecution
  | afterToolExecution
  | checkpointPublished
  | beforeTerminalPublication
  | runFailed
  | runCancelled
deriving DecidableEq

/-- Whether the hook may be called twice for one event. -/
inductive HookIdempotency where
  | idempotent
  | nonIdempotent
deriving DecidableEq

/-- What is known of the execution of a hook. -/
inductive HookExecutionState where
  | triggered
  | pending
  | dispatched
  | succeeded
  | failed
  | timedOut
  | reconciliationRequired
  | cancelled
deriving DecidableEq

/-- What the hook says of its effect outside. -/
structure ExternalEffectReceipt where
  receiptId : String := ""
  outcomeKnown : Bool := false
  succeeded : Bool := false
  detail : String := ""
deriving DecidableEq

/-- What a receipt says. -/
structure HookExecutionReceiptData where
  invocationId : String
  attempt : ℕ
  state : HookExecutionState
  externalEffect : ExternalEffectReceipt := {}
  error : String := ""
deriving DecidableEq

/-- What a receipt has to satisfy. -/
def HookExecutionReceiptData.valid (d : HookExecutionReceiptData) : Bool :=
  isSha256Identity d.invocationId && d.attempt ≠ 0
    && d.state ≠ .triggered && d.state ≠ .pending && d.state ≠ .dispatched
    && !(d.state = .succeeded && (!d.externalEffect.outcomeKnown || !d.externalEffect.succeeded
      || d.externalEffect.receiptId = ""))
    && d.externalEffect.receiptId.utf8ByteSize ≤ 4096 && d.error.utf8ByteSize ≤ 4096

/-- How an attempt ended. -/
structure HookExecutionReceipt where
  data : HookExecutionReceiptData
  valid : data.valid = true

instance : DecidableEq HookExecutionReceipt := fun a b =>
  decidable_of_iff (a.data = b.data) (by cases a; cases b; simp)

/-- A receipt that passes its checks. -/
def HookExecutionReceipt.create (d : HookExecutionReceiptData) : Option HookExecutionReceipt :=
  if h : d.valid = true then some ⟨d, h⟩ else none

/-! ## Entries -/

/-- An invocation of a hook for an event. Its id is the digest of its content,
and `canonical` are its canonical bytes. -/
structure HookInvocation where
  id : String
  eventId : String
  phase : HookPhase
  idempotency : HookIdempotency
  canonical : String
  id_valid : isSha256Identity id = true

/-- The event a hook is called for. -/
structure RuntimeEvent where
  id : String
  phase : HookPhase
  canonical : String
deriving DecidableEq

/-- Times are nanoseconds since the epoch; there is no lease at the epoch. -/
structure HookOutboxEntryData where
  invocation : HookInvocation
  event : RuntimeEvent
  state : HookExecutionState
  attemptCount : ℕ := 0
  maxAttempts : ℕ
  deadline : ℤ
  fencingToken : ℕ := 0
  leaseExpiresAt : ℤ := 0
  receipt : Option HookExecutionReceipt := none

namespace HookOutboxEntryData

/-- A lease was given. -/
def lease (d : HookOutboxEntryData) : Bool := d.leaseExpiresAt ≠ 0

/-- An attempt was made. -/
def attempted (d : HookOutboxEntryData) : Bool := d.attemptCount ≠ 0 && d.fencingToken ≠ 0

def receiptState (d : HookOutboxEntryData) : Option HookExecutionState :=
  d.receipt.map fun r => r.data.state

/-- An entry belongs to its event, and its receipt to its last attempt. -/
def bound (d : HookOutboxEntryData) : Bool :=
  d.invocation.eventId = d.event.id && d.invocation.phase = d.event.phase
    && d.maxAttempts ≠ 0 && d.maxAttempts ≤ 1000 && d.attemptCount ≤ d.maxAttempts
    && d.deadline ≠ 0
    && d.receipt.all fun r =>
      r.data.invocationId = d.invocation.id && r.data.attempt = d.attemptCount

/-- What the state of an entry says about its attempt, its lease and its
receipt. -/
def stateValid (d : HookOutboxEntryData) : Bool :=
  match d.state with
  | .triggered | .pending =>
    d.attemptCount = 0 && d.fencingToken = 0 && !d.lease && d.receipt.isNone
  | .dispatched =>
    d.attemptCount ≠ 0 && d.fencingToken ≠ 0 && d.lease && d.leaseExpiresAt ≤ d.deadline
      && d.receipt.isNone
  | .timedOut =>
    !d.lease && (d.receiptState = none || d.receiptState = some .failed
      || d.receiptState = some .timedOut)
  | state => !d.lease && d.attempted && d.receiptState = some state

def valid (d : HookOutboxEntryData) : Bool := d.bound && d.stateValid

end HookOutboxEntryData

/-- The state of one invocation. -/
structure HookOutboxEntry where
  data : HookOutboxEntryData
  valid : data.valid = true

/-- An entry that passes its checks. -/
def HookOutboxEntry.create (d : HookOutboxEntryData) : Option HookOutboxEntry :=
  if h : d.valid = true then some ⟨d, h⟩ else none

/-- What the id of an entry is the digest of; times are cut to milliseconds. -/
structure HookEntryBody where
  invocation : String
  event : String
  state : HookExecutionState
  attemptCount : ℕ
  maxAttempts : ℕ
  deadlineMs : ℤ
  fencingToken : ℕ
  leaseExpiresAtMs : ℤ
  receipt : Option HookExecutionReceiptData
deriving DecidableEq

/-- The source counts milliseconds, the clock nanoseconds. -/
def milliseconds (t : ℤ) : ℤ := t.tdiv 1000000

/-- What the head of an entry is the digest of. -/
def HookOutboxEntry.body (e : HookOutboxEntry) : HookEntryBody where
  invocation := e.data.invocation.canonical
  event := e.data.event.canonical
  state := e.data.state
  attemptCount := e.data.attemptCount
  maxAttempts := e.data.maxAttempts
  deadlineMs := milliseconds e.data.deadline
  fencingToken := e.data.fencingToken
  leaseExpiresAtMs := milliseconds e.data.leaseExpiresAt
  receipt := e.data.receipt.map HookExecutionReceipt.data

/-! ## The journal -/

variable {I : Type} [DecidableEq I]

/-- What an operation stores, one entry after the other, and whether it
succeeds. -/
structure HookAnswer where
  stored : List HookOutboxEntry := []
  succeeded : Bool := false

/-- An operation that stores one entry. -/
def HookAnswer.store (d : HookOutboxEntryData) (succeeded : Bool) : HookAnswer :=
  match HookOutboxEntry.create d with
  | none => {}
  | some e => { stored := [e], succeeded := succeeded }

def HookExecutionState.isTerminal (state : HookExecutionState) : Bool :=
  state = .succeeded || state = .timedOut || state = .reconciliationRequired
    || state = .cancelled

/-- A failed attempt with none left is final: it stays failed. -/
def HookOutboxEntryData.settled (d : HookOutboxEntryData) : Bool :=
  d.state.isTerminal || (d.state = .failed && d.maxAttempts ≤ d.attemptCount)

namespace HookOutboxEntry

/-- The entry of a triggered hook becomes pending. -/
def publish (e : HookOutboxEntry) : HookAnswer :=
  if e.data.state = .triggered then .store { e.data with state := .pending } true else {}

/-- A pending entry, or a failed one with attempts left, starts an attempt. -/
def dispatch (e : HookOutboxEntry) (now duration : ℤ) : HookAnswer :=
  if e.data.state ≠ .pending
      && !(e.data.state = .failed && e.data.attemptCount < e.data.maxAttempts) then {}
  else if e.data.maxAttempts ≤ e.data.attemptCount
    then .store { e.data with state := .timedOut } false
  else
    .store
      { e.data with
        state := .dispatched
        attemptCount := e.data.attemptCount + 1
        fencingToken := e.data.fencingToken + 1
        receipt := none
        leaseExpiresAt := min e.data.deadline (now + duration) } true

/-- The end of an attempt whose lease has expired. -/
def expired (e : HookOutboxEntry) (state : HookExecutionState) (error : String) :
    Option HookOutboxEntry := do
  let receipt ← HookExecutionReceipt.create
    { invocationId := e.data.invocation.id, attempt := e.data.attemptCount, state := state
      error := error }
  create { e.data with state := state, leaseExpiresAt := 0, receipt := some receipt }

/-- What is stored first, and then what the rest of a claim stores. -/
def storedFirst (first : Option HookOutboxEntry) (rest : HookOutboxEntry → HookAnswer) :
    HookAnswer :=
  match first with
  | none => {}
  | some e => { rest e with stored := e :: (rest e).stored }

/-- A claim ends an entry past its deadline, ends an attempt whose lease has
expired, and then starts an attempt. -/
def claim (e : HookOutboxEntry) (worker : String) (now duration : ℤ) : HookAnswer :=
  if worker = "" || duration ≤ 0 then {}
  else if e.data.deadline ≤ now && !e.data.settled then
    .store { e.data with state := .timedOut, leaseExpiresAt := 0 } false
  else if e.data.state = .dispatched && e.data.leaseExpiresAt ≤ now then
    if e.data.invocation.idempotency = .nonIdempotent then
      storedFirst
        (e.expired .reconciliationRequired
          "non-idempotent dispatched lease expired; external outcome is unknown")
        fun _ => {}
    else
      storedFirst (e.expired .failed "idempotent dispatched lease expired")
        fun e => e.dispatch now duration
  else e.dispatch now duration

/-- **The attempt of a lease is settled** with its receipt. -/
def settle (e : HookOutboxEntry) (id : String) (fence : ℕ) (receipt : HookExecutionReceipt)
    (now : ℤ) : HookAnswer :=
  if e.data.state ≠ .dispatched || e.data.fencingToken ≠ fence || e.data.leaseExpiresAt < now
      || receipt.data.invocationId ≠ id || receipt.data.attempt ≠ e.data.attemptCount then {}
  else
    .store
      { e.data with state := receipt.data.state, receipt := some receipt, leaseExpiresAt := 0 } true

/-- An outcome that was unknown is made known. -/
def reconcile (digest : HookEntryBody → I) (e : HookOutboxEntry) (id : String)
    (expected : HookExecutionState) (head : I) (fence : ℕ) (known : HookExecutionReceipt) :
    HookAnswer :=
  if e.data.state ≠ expected || digest e.body ≠ head || e.data.fencingToken ≠ fence
      || expected ≠ .reconciliationRequired || !known.data.externalEffect.outcomeKnown
      || known.data.invocationId ≠ id || known.data.attempt ≠ e.data.attemptCount
      || (known.data.state ≠ .succeeded && known.data.state ≠ .failed) then {}
  else .store { e.data with state := known.data.state, receipt := some known } true

end HookOutboxEntry

/-- The entries by the ids of their invocations. -/
abbrev InMemoryHookJournal := SortedMap String HookOutboxEntry

/-- An operation on a journal. -/
inductive HookOp (I : Type) where
  | enqueue (invocation : HookInvocation) (event : RuntimeEvent) (maxAttempts : ℕ) (deadline : ℤ)
  | publish (id : String)
  | claim (id worker : String) (now duration : ℤ)
  | settle (id : String) (fence : ℕ) (receipt : HookExecutionReceipt) (now : ℤ)
  | reconcile (id : String) (expected : HookExecutionState) (head : I) (fence : ℕ)
      (known : HookExecutionReceipt)

namespace HookOp

/-- The invocation that an operation is about. -/
def id : HookOp I → String
  | enqueue invocation _ _ _ => invocation.id
  | publish id => id
  | claim id _ _ _ => id
  | settle id _ _ _ => id
  | reconcile id _ _ _ _ => id

/-- What an operation does to the entry of its invocation. An entry that is
enqueued again stays as it is, whether or not that is a conflict. -/
def answer (digest : HookEntryBody → I) (op : HookOp I) (entry : Option HookOutboxEntry) :
    HookAnswer :=
  match op, entry with
  | enqueue invocation event maxAttempts deadline, none =>
    .store
      { invocation := invocation, event := event, state := .triggered, maxAttempts := maxAttempts
        deadline := deadline } true
  | publish _, some e => e.publish
  | claim _ worker now duration, some e => e.claim worker now duration
  | settle id fence receipt now, some e => e.settle id fence receipt now
  | reconcile id expected head fence known, some e =>
    e.reconcile digest id expected head fence known
  | _, _ => {}

end HookOp

namespace InMemoryHookJournal

def answer (digest : HookEntryBody → I) (journal : InMemoryHookJournal) (op : HookOp I) :
    HookAnswer :=
  op.answer digest (journal.find? op.id)

/-- The journal keeps the last entry that an operation stores. -/
def step (digest : HookEntryBody → I) (journal : InMemoryHookJournal) (op : HookOp I) :
    InMemoryHookJournal :=
  match (journal.answer digest op).stored.getLast? with
  | none => journal
  | some e => journal.insert op.id e

/-- The journal after a sequence of operations. -/
def run (digest : HookEntryBody → I) (ops : List (HookOp I)) : InMemoryHookJournal :=
  ops.foldl (step digest) ∅

end InMemoryHookJournal

/-! ## Heads in the Program store -/

/-- A reconciliation is an obligation that is open, so it is not terminal here. -/
def HookExecutionState.hookIsTerminal (state : HookExecutionState) : Bool :=
  state = .succeeded || state = .timedOut || state = .cancelled

/-- The transitions of heads. -/
def HookExecutionState.transition (target : HookExecutionState) : HookExecutionState → Bool
  | .triggered => target = .pending || target = .timedOut || target = .cancelled
  | .pending => target = .dispatched || target = .timedOut || target = .cancelled
  | .dispatched =>
    target = .succeeded || target = .failed || target = .timedOut
      || target = .reconciliationRequired || target = .cancelled
  | .failed => target = .dispatched || target = .timedOut || target = .cancelled
  | .reconciliationRequired => target = .succeeded || target = .failed
  | _ => false

/-- A dispatch makes one fenced attempt, and everything else keeps it. -/
def HookOutboxEntryData.attemptFollows (old new : HookOutboxEntryData) : Bool :=
  if new.state = .dispatched then
    new.attemptCount = old.attemptCount + 1 && new.fencingToken = old.fencingToken + 1
  else new.attemptCount = old.attemptCount && new.fencingToken = old.fencingToken

/-- What the Program store accepts as the next head of an invocation. -/
def validHookHeadUpdate (digest : HookEntryBody → I) (previous next : HookOutboxEntry) : Bool :=
  let old := previous.data
  let new := next.data
  old.invocation.id = new.invocation.id && old.invocation.canonical = new.invocation.canonical
    && old.event.canonical = new.event.canonical && old.maxAttempts = new.maxAttempts
    && old.deadline = new.deadline && !old.state.hookIsTerminal
    && old.attemptCount ≤ new.attemptCount && old.fencingToken ≤ new.fencingToken
    && digest previous.body ≠ digest next.body
    && new.state.transition old.state
    && old.attemptFollows new
    && !(old.state = .reconciliationRequired
      && !(new.receipt.any fun r => r.data.externalEffect.outcomeKnown))

end NeoGraph.Hook
