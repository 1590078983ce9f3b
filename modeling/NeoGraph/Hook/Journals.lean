import Mathlib
import NeoGraph.Basic
import NeoGraph.Hook.Outbox

/-!
# Two journals of hooks

The outbox is kept by a process in its memory, or in a database. Both
journals take an entry through the same transitions, and both say what they
did: an entry, a lease, nothing, or an exception. They differ in what they
keep. The journal in memory keeps the entries themselves, and it keeps what
was assigned before an exception; the one in the database keeps documents, in
which times are whole milliseconds, reads them back for every call, and takes
back what a call that ends with an exception has written.
-/

namespace NeoGraph.Hook

/-! ## Entries and their exceptions -/

/-- Why an entry is refused. -/
def HookOutboxEntryData.refusal (d : HookOutboxEntryData) : String :=
  if !d.bound then "invalid hook outbox entry"
  else
    match d.state with
    | .triggered | .pending => "unattempted hook state has execution data"
    | .dispatched => "dispatched hook requires a bounded lease"
    | _ => "terminal hook state has invalid receipt or lease"

/-- `HookOutboxEntry.create`, with its exception. -/
def HookOutboxEntry.tryCreate (d : HookOutboxEntryData) : Except Exn HookOutboxEntry :=
  match HookOutboxEntry.create d with
  | some e => .ok e
  | none => .error (.invalidArgument d.refusal)

/-- `HookExecutionReceipt.create`, with its exception. -/
def HookExecutionReceipt.tryCreate (d : HookExecutionReceiptData) :
    Except Exn HookExecutionReceipt :=
  match HookExecutionReceipt.create d with
  | some r => .ok r
  | none => .error (.invalidArgument "invalid hook execution receipt")

/-! ## Transitions -/

/-- What a call answers. Lists are in no particular order. -/
inductive HookReply where
  | entry (e : HookOutboxEntry)
  | lease (e : HookOutboxEntry) (fencingToken : ℕ)
  | nothing
  | entries (l : Multiset HookOutboxEntry)

/-- What an operation does: the entries it writes, one after the other, and
then its answer or its exception. -/
structure HookEffect where
  stored : List HookOutboxEntry := []
  reply : Except Exn HookReply := .ok .nothing

namespace HookEffect

/-- One entry is written. -/
def store (d : HookOutboxEntryData) (reply : HookOutboxEntry → HookReply) : HookEffect :=
  match HookOutboxEntry.tryCreate d with
  | .ok e => { stored := [e], reply := .ok (reply e) }
  | .error x => { reply := .error x }

/-- An entry is written and the operation goes on with it. -/
def andThen (first : Except Exn HookOutboxEntry) (rest : HookOutboxEntry → HookEffect) :
    HookEffect :=
  match first with
  | .ok e => { rest e with stored := e :: (rest e).stored }
  | .error x => { reply := .error x }

end HookEffect

namespace HookOutboxEntry

/-- The effect of a call on the entry it is about, one for each call. -/
def publishing (e : HookOutboxEntry) : HookEffect :=
  if e.data.state = .triggered then .store { e.data with state := .pending } .entry
  else { reply := .ok (.entry e) }

/-- The last part of a claim, which starts an attempt. -/
def dispatching (e : HookOutboxEntry) (now duration : ℤ) : HookEffect :=
  if e.data.state ≠ .pending
      && !(e.data.state = .failed && e.data.attemptCount < e.data.maxAttempts) then {}
  else if e.data.maxAttempts ≤ e.data.attemptCount then
    .store { e.data with state := .timedOut } fun _ => .nothing
  else
    .store
      { e.data with
        state := .dispatched
        attemptCount := e.data.attemptCount + 1
        fencingToken := e.data.fencingToken + 1
        receipt := none
        leaseExpiresAt := min e.data.deadline (now + duration) }
      fun e => .lease e e.data.fencingToken

/-- The end of an attempt whose lease has expired. -/
def expiring (e : HookOutboxEntry) (state : HookExecutionState) (error : String) :
    Except Exn HookOutboxEntry := do
  let receipt ← HookExecutionReceipt.tryCreate
    { invocationId := e.data.invocation.id, attempt := e.data.attemptCount, state := state
      error := error }
  tryCreate { e.data with state := state, leaseExpiresAt := 0, receipt := some receipt }

/-- What a claim does to the entry of its hook. -/
def claiming (e : HookOutboxEntry) (now duration : ℤ) : HookEffect :=
  if e.data.deadline ≤ now && !e.data.settled then
    .store { e.data with state := .timedOut, leaseExpiresAt := 0 } fun _ => .nothing
  else if e.data.state = .dispatched && e.data.leaseExpiresAt ≤ now then
    if e.data.invocation.idempotency = .nonIdempotent then
      .andThen
        (e.expiring .reconciliationRequired
          "non-idempotent dispatched lease expired; external outcome is unknown")
        fun _ => {}
    else
      .andThen (e.expiring .failed "idempotent dispatched lease expired")
        fun e => e.dispatching now duration
  else e.dispatching now duration

/-- Only the current claim's receipt settles an entry. -/
def settling (e : HookOutboxEntry) (id : String) (fence : ℕ) (receipt : HookExecutionReceipt)
    (now : ℤ) : HookEffect :=
  if e.data.state ≠ .dispatched || e.data.fencingToken ≠ fence || e.data.leaseExpiresAt < now
      || receipt.data.invocationId ≠ id || receipt.data.attempt ≠ e.data.attemptCount then {}
  else
    .store
      { e.data with state := receipt.data.state, receipt := some receipt, leaseExpiresAt := 0 }
      .entry

variable {I : Type} [DecidableEq I]

/-- A known outcome replaces an unknown one. -/
def reconciling (digest : HookEntryBody → I) (e : HookOutboxEntry) (id : String)
    (expected : HookExecutionState) (head : I) (fence : ℕ) (known : HookExecutionReceipt) :
    HookEffect :=
  if e.data.state ≠ expected || digest e.body ≠ head || e.data.fencingToken ≠ fence
      || expected ≠ .reconciliationRequired || !known.data.externalEffect.outcomeKnown
      || known.data.invocationId ≠ id || known.data.attempt ≠ e.data.attemptCount
      || (known.data.state ≠ .succeeded && known.data.state ≠ .failed) then {}
  else .store { e.data with state := known.data.state, receipt := some known } .entry

end HookOutboxEntry

variable {I : Type} [DecidableEq I]

namespace HookOp

/-- The entry that an invocation starts with. -/
def candidate (invocation : HookInvocation) (event : RuntimeEvent) (maxAttempts : ℕ)
    (deadline : ℤ) : HookOutboxEntryData where
  invocation := invocation
  event := event
  state := .triggered
  maxAttempts := maxAttempts
  deadline := deadline

/-- What is checked of a call before the journal is read. -/
def checked : HookOp I → Except Exn Unit
  | enqueue invocation event maxAttempts deadline =>
    (HookOutboxEntry.tryCreate (candidate invocation event maxAttempts deadline)).map fun _ => ()
  | claim _ worker _ duration =>
    if worker = "" || duration ≤ 0 then .error (.invalidArgument "invalid hook claim") else .ok ()
  | _ => .ok ()

/-- What an operation does to the entry of its invocation. -/
def effect (digest : HookEntryBody → I) (op : HookOp I) (entry : Option HookOutboxEntry) :
    HookEffect :=
  match op, entry with
  | enqueue invocation event maxAttempts deadline, none =>
    .store (candidate invocation event maxAttempts deadline) .entry
  | enqueue invocation event maxAttempts deadline, some e =>
    if e.data.invocation.canonical ≠ invocation.canonical
        || e.data.event.canonical ≠ event.canonical
        || e.data.maxAttempts ≠ maxAttempts || e.data.deadline ≠ deadline then
      { reply := .error (.invalidArgument "logical hook invocation enqueue conflict") }
    else { reply := .ok (.entry e) }
  | publish _, some e => e.publishing
  -- `std::out_of_range` is a logic error.
  | publish _, none => { reply := .error (.logicError "hook invocation is not enqueued") }
  | claim _ _ now duration, some e => e.claiming now duration
  | settle id fence receipt now, some e => e.settling id fence receipt now
  | reconcile id expected head fence known, some e =>
    e.reconciling digest id expected head fence known
  | _, none => {}

end HookOp

/-- A call of a journal. A database is also closed and opened again. -/
inductive HookCall (I : Type) where
  | op (op : HookOp I)
  | get (id : String)
  | pending
  | reconciliationRequired
  | reopen

/-! ## The journal in memory -/

namespace InMemoryHookJournal

/-- The last entry that was assigned is kept, also where an exception follows. -/
def perform (digest : HookEntryBody → I) (journal : InMemoryHookJournal) (op : HookOp I) :
    Except Exn HookReply × InMemoryHookJournal :=
  match op.checked with
  | .error x => (.error x, journal)
  | .ok () =>
    let f := op.effect digest (journal.find? op.id)
    (f.reply,
      match f.stored.getLast? with
      | none => journal
      | some e => journal.insert op.id e)

/-- The entries by their ids. -/
def values (journal : InMemoryHookJournal) : List HookOutboxEntry :=
  journal.entries.map Prod.snd

/-- A call on the journal in memory. -/
def call (digest : HookEntryBody → I) (journal : InMemoryHookJournal) :
    HookCall I → Except Exn HookReply × InMemoryHookJournal
  | .op op => journal.perform digest op
  | .get id =>
    (.ok (match journal.find? id with
      | some e => .entry e
      | none => .nothing), journal)
  | .pending => (.ok (.entries (journal.values.filter fun e => !e.data.settled)), journal)
  | .reconciliationRequired =>
    (.ok (.entries (journal.values.filter fun e => e.data.state = .reconciliationRequired)),
      journal)
  | .reopen => (.ok .nothing, journal)

end InMemoryHookJournal

/-! ## The journal in a database -/

/-- The document of an entry, which also has its id. Its receipt is a document
of its own. -/
structure StoredHookEntry (I : Type) where
  id : I
  body : HookEntryBody

/-- A row of `ng_hook_outbox`. -/
structure HookRow (I : Type) where
  canonical : StoredHookEntry I
  state : HookExecutionState

/-- How the canonical bytes of invocations and events are read. -/
structure HookParsers where
  invocation : String → Except Exn HookInvocation
  event : String → Except Exn RuntimeEvent

/-- The time of a count of milliseconds. -/
def time (ms : ℤ) : ℤ := ms * 1000000

namespace HookOutboxEntry

/-- The document of an entry. -/
def serializeCanonical (digest : HookEntryBody → I) (e : HookOutboxEntry) : StoredHookEntry I where
  id := digest e.body
  body := e.body

/-- A stored receipt is checked like a new one. -/
def receiptFrom : Option HookExecutionReceiptData → Except Exn (Option HookExecutionReceipt)
  | none => .ok none
  | some d => (HookExecutionReceipt.tryCreate d).map some

/-- The entry of a document, whose parts must parse and whose digest must agree.
-/
def parse (digest : HookEntryBody → I) (parsers : HookParsers) (stored : StoredHookEntry I) :
    Except Exn HookOutboxEntry := do
  let receipt ← receiptFrom stored.body.receipt
  let invocation ← parsers.invocation stored.body.invocation
  let event ← parsers.event stored.body.event
  let e ← tryCreate
    { invocation := invocation
      event := event
      state := stored.body.state
      attemptCount := stored.body.attemptCount
      maxAttempts := stored.body.maxAttempts
      deadline := time stored.body.deadlineMs
      fencingToken := stored.body.fencingToken
      leaseExpiresAt := time stored.body.leaseExpiresAtMs
      receipt := receipt }
  if stored.id ≠ digest e.body then .error (.invalidArgument "hook outbox entry id mismatch")
  else .ok e

/-- The row that an entry is written to. -/
def row (digest : HookEntryBody → I) (e : HookOutboxEntry) : HookRow I where
  canonical := e.serializeCanonical digest
  state := e.data.state

end HookOutboxEntry

/-- The rows by the ids of their invocations. -/
abbrev SqliteHookJournal (I : Type) := SortedMap String (HookRow I)

namespace SqliteHookJournal

variable (digest : HookEntryBody → I) (parsers : HookParsers)

/-- The entry of a row, which must have the id and columns of the row. -/
def checkedHook (id : String) (row : HookRow I) : Except Exn HookOutboxEntry := do
  let e ← HookOutboxEntry.parse digest parsers row.canonical
  if e.data.invocation.id ≠ id || e.data.state ≠ row.state then
    .error (.runtimeError "SQLite hook entry key or state mismatches canonical data")
  else .ok e

/-- The entry of an id. -/
def hook (rows : SqliteHookJournal I) (id : String) : Except Exn (Option HookOutboxEntry) :=
  match rows.find? id with
  | none => .ok none
  | some row => (checkedHook digest parsers id row).map some

/-- A row that is there is written over. -/
def saveHook (rows : SqliteHookJournal I) (e : HookOutboxEntry) :
    Except Exn (SqliteHookJournal I) :=
  if (rows.find? e.data.invocation.id).isSome then
    .ok (rows.insert e.data.invocation.id (e.row digest))
  else .error (.runtimeError "SQLite hook entry disappeared during update")

/-- What an operation writes: `enqueue` makes a row, the others write over one. -/
def write (rows : SqliteHookJournal I) :
    HookOp I → HookOutboxEntry → Except Exn (SqliteHookJournal I)
  | .enqueue .., e => .ok (rows.insert e.data.invocation.id (e.row digest))
  | _, e => saveHook digest rows e

/-- The transaction of an operation. -/
def transaction (rows : SqliteHookJournal I) (op : HookOp I) :
    Except Exn (HookReply × SqliteHookJournal I) := do
  op.checked
  let entry ← hook digest parsers rows op.id
  let f := op.effect digest entry
  let written ← f.stored.foldlM (fun rows e => write digest rows op e) rows
  let reply ← f.reply
  .ok (reply, written)

/-- A transaction that ends with an exception is rolled back. -/
def perform (rows : SqliteHookJournal I) (op : HookOp I) :
    Except Exn HookReply × SqliteHookJournal I :=
  match transaction digest parsers rows op with
  | .error x => (.error x, rows)
  | .ok (reply, written) => (.ok reply, written)

def values (rows : SqliteHookJournal I) : Except Exn (List HookOutboxEntry) :=
  rows.entries.mapM fun r => checkedHook digest parsers r.1 r.2

def call (rows : SqliteHookJournal I) : HookCall I → Except Exn HookReply × SqliteHookJournal I
  | .op op => perform digest parsers rows op
  | .get id =>
    ((hook digest parsers rows id).map fun
      | some e => .entry e
      | none => .nothing, rows)
  | .pending =>
    ((values digest parsers rows).map fun l => .entries (l.filter fun e => !e.data.settled), rows)
  | .reconciliationRequired =>
    ((values digest parsers rows).map fun l =>
      .entries (l.filter fun e => e.data.state = .reconciliationRequired), rows)
  -- The rows are in the file, and `open` leaves those of a table that is there.
  | .reopen => (.ok .nothing, rows)

end SqliteHookJournal

end NeoGraph.Hook
