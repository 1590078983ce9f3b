import NeoGraph.Lib.Selection
import NeoGraph.Lib.SortedMap
import NeoGraph.Tool.Execution

/-!
# The resource arbiter of the tools

Tools that share a resource are admitted up to its capacity. A request that
fits is answered with a lease at once if nobody waits; otherwise it waits in the
queue of the resource. A lease that is released makes room for the waiter of
highest priority, and the priority of a waiter grows while it waits. A waiter
that was granted takes its lease later, when its caller looks.

All operations run under one mutex, so a sequence of operations is any
interleaving of any callers. Waiters are shared with their callers, so the
model keeps every waiter there ever was, by its sequence number, and a queue is
a list of these numbers. A lease is an object at an address; it is moved,
assigned and destroyed. To be able to say that a lease is released once, every
lease that is handed out has a number, which moves with it.

The owner scope of a request has no influence on admission and is left out.
-/

namespace NeoGraph.Tool

def maximumResourceKeyBytes : ℕ := 512

/-- A request for one resource. The timeout is in milliseconds. -/
structure ResourceRequest where
  resourceKey : String
  capacity : BitVec 32 := 1
  maxPending : BitVec 32 := 128
  queueTimeout : ℤ := 60000
  priority : BitVec 8 := 0
  fairnessWeight : BitVec 8 := 1

/-- What became of a waiter. -/
inductive WaiterState where
  | queued
  | granted
  | claimed
  | cancelled
deriving DecidableEq

/-- Times are nanoseconds of a steady clock. -/
structure Waiter where
  resourceKey : String
  state : WaiterState := .queued
  priority : BitVec 8 := 0
  fairnessWeight : ℕ := 1
  submittedAt : ℤ

/-- A resource that somebody uses or waits for. -/
structure Resource where
  capacity : ℕ
  active : ℕ := 0
  /-- The queue, by the sequence numbers of the waiters. -/
  waiters : List ℕ := []

/-- The state of an arbiter. -/
structure ResourceArbiter where
  resources : SortedMap String Resource := ∅
  /-- 64 bits in the source; no run makes 2^64 waiters. -/
  nextSequence : ℕ := 1
  stopping : Bool := false
  /-- Every waiter there ever was, by its sequence number. -/
  heap : SortedMap ℕ Waiter := ∅

/-- A request is answered with a lease of a resource, or it waits. -/
inductive Registration where
  | immediate (resourceKey : String)
  | waiter (sequence : ℕ)

/-- Why a call fails. -/
inductive ArbiterError where
  | invalidRequest
  | conflictingCapacities
  | operationAborted
  | noBufferSpace
deriving DecidableEq

/-- A waiter is granted a slot: which, when, and what the arbiter looked like
when it was chosen. -/
structure Grant where
  resourceKey : String
  sequence : ℕ
  now : ℤ
  before : ResourceArbiter

namespace ResourceArbiter

/-! ## Waiters -/

def stateOf (a : ResourceArbiter) (sequence : ℕ) : Option WaiterState :=
  (a.heap.find? sequence).map Waiter.state

def setState (a : ResourceArbiter) (sequence : ℕ) (state : WaiterState) : ResourceArbiter :=
  match a.heap.find? sequence with
  | none => a
  | some w => { a with heap := a.heap.insert sequence { w with state := state } }

/-- The time that a waiter has waited, in milliseconds. -/
def elapsed (w : Waiter) (now : ℤ) : ℕ :=
  if w.submittedAt < now then ((now - w.submittedAt) / 1000000).toNat else 0

/-- The priority of a waiter grows with every second that it waits. -/
def effectivePriority (w : Waiter) (now : ℤ) : ℕ :=
  min 255 (w.priority.toNat + elapsed w now / 1000 * max 1 w.fairnessWeight)

/-- Only a waiter that is queued has a priority. -/
def score (a : ResourceArbiter) (now : ℤ) (sequence : ℕ) : Option ℕ :=
  match a.heap.find? sequence with
  | none => none
  | some w => if w.state = .queued then some (effectivePriority w now) else none

/-- The waiter of highest priority, the first one among equals. -/
def best (a : ResourceArbiter) (now : ℤ) (waiters : List ℕ) : Option (ℕ × ℕ) :=
  waiters.foldl (keepBetter (a.score now)) none

/-! ## Release -/

/-- The waiter leaves the queue with a slot. -/
def grant (a : ResourceArbiter) (resourceKey : String) (resource : Resource) (sequence : ℕ) :
    ResourceArbiter :=
  setState { a with
    resources := a.resources.insert resourceKey
      { resource with
        active := resource.active + 1
        waiters := resource.waiters.erase sequence } } sequence .granted

/-- Waiters are granted as long as there is room. Every round shortens the
queue, so its length bounds the rounds; each reads the clock. -/
def grantLoop (resourceKey : String) (clock : ℕ → ℤ) :
    ℕ → ResourceArbiter → ResourceArbiter × List Grant
  | 0, a => (a, [])
  | n + 1, a =>
    match a.resources.find? resourceKey with
    | none => (a, [])
    | some resource =>
      if resource.active < resource.capacity then
        match a.best (clock n) resource.waiters with
        | none => (a, [])
        | some (sequence, _) =>
          let rest := grantLoop resourceKey clock n (a.grant resourceKey resource sequence)
          (rest.1, ⟨resourceKey, sequence, clock n, a⟩ :: rest.2)
      else (a, [])

/-- A slot is given back. -/
def releaseOneLocked (a : ResourceArbiter) (resourceKey : String) (clock : ℕ → ℤ) :
    ResourceArbiter × List Grant :=
  match a.resources.find? resourceKey with
  | none => (a, [])
  | some resource =>
    if resource.active = 0 then (a, [])
    else
      let freed := { a with
        resources := a.resources.insert resourceKey
          { resource with active := resource.active - 1 } }
      if a.stopping then (freed, []) else grantLoop resourceKey clock resource.waiters.length freed

/-! ## The operations -/

def validRequest (request : ResourceRequest) : Bool :=
  request.resourceKey ≠ "" && request.resourceKey.utf8ByteSize ≤ maximumResourceKeyBytes
    && 0 < request.capacity.toNat && 0 < request.maxPending.toNat
    && request.maxPending.toNat ≤ maximumPolicyQueueDepth && 0 < request.queueTimeout

/-- A new waiter goes to the end of the queue. -/
def push (a : ResourceArbiter) (request : ResourceRequest) (resource : Resource) (now : ℤ) :
    ResourceArbiter where
  resources := a.resources.insert request.resourceKey
    { resource with waiters := resource.waiters ++ [a.nextSequence] }
  nextSequence := a.nextSequence + 1
  stopping := a.stopping
  heap := a.heap.insert a.nextSequence
    { resourceKey := request.resourceKey
      priority := request.priority
      fairnessWeight := max 1 request.fairnessWeight.toNat
      submittedAt := now }

/-- A request for a resource that is not known makes it known, even if the
request then fails. -/
def enqueue (a : ResourceArbiter) (request : ResourceRequest) (now : ℤ) :
    ResourceArbiter × Except ArbiterError Registration :=
  if !validRequest request then (a, .error .invalidRequest)
  else if a.stopping then (a, .error .operationAborted)
  else
    let found := (a.resources.find? request.resourceKey).getD
      { capacity := request.capacity.toNat }
    let known := { a with resources := a.resources.insert request.resourceKey found }
    if found.capacity ≠ request.capacity.toNat then (known, .error .conflictingCapacities)
    else if found.active < found.capacity && found.waiters.isEmpty then
      ({ a with
          resources := a.resources.insert request.resourceKey
            { found with active := found.active + 1 } },
        .ok (.immediate request.resourceKey))
    else if request.maxPending.toNat ≤ found.waiters.length then (known, .error .noBufferSpace)
    else (a.push request found now, .ok (.waiter a.nextSequence))

/-- A waiter that was granted a slot takes the lease. -/
def claim (a : ResourceArbiter) (sequence : ℕ) : ResourceArbiter × Except ArbiterError String :=
  match a.heap.find? sequence with
  | none => (a, .error .operationAborted)
  | some w =>
    if w.state = .granted then (a.setState sequence .claimed, .ok w.resourceKey)
    else (a, .error .operationAborted)

/-- A waiter that gave up leaves the queue. -/
def leaveQueue (a : ResourceArbiter) (resourceKey : String) (sequence : ℕ) : ResourceArbiter :=
  match a.resources.find? resourceKey with
  | none => a
  | some resource =>
    { a with
      resources := a.resources.insert resourceKey
        { resource with waiters := resource.waiters.erase sequence } }

/-- A waiter that is given up leaves the queue, or gives its slot back. -/
def abandon (a : ResourceArbiter) (sequence : ℕ) (clock : ℕ → ℤ) : ResourceArbiter × List Grant :=
  match a.heap.find? sequence with
  | none => (a, [])
  | some w =>
    match w.state with
    | .queued => ((a.leaveQueue w.resourceKey sequence).setState sequence .cancelled, [])
    | .granted => (a.setState sequence .cancelled).releaseOneLocked w.resourceKey clock
    | _ => (a, [])

/-- A waiter is cancelled if it is queued. -/
def cancelQueued (a : ResourceArbiter) (sequence : ℕ) : ResourceArbiter :=
  match a.heap.find? sequence with
  | none => a
  | some w => if w.state = .queued then a.setState sequence .cancelled else a

/-- Every waiter is cancelled, once. -/
def shutdown (a : ResourceArbiter) : ResourceArbiter :=
  if a.stopping then a
  else
    let cancelled := (a.resources.entries.flatMap fun e => e.2.waiters).foldl cancelQueued a
    { cancelled with
      stopping := true
      resources := a.resources.filterMap fun _ resource => some { resource with waiters := [] } }

end ResourceArbiter

/-! ## Leases -/

/-- A lease object. It holds a slot as long as it has a pointer to the arbiter. -/
structure ResourceLease where
  /-- The number of the lease, if there is a pointer. -/
  impl : Option ℕ := none
  resourceKey : String := ""

/-- An arbiter and the lease objects of its callers. -/
structure World where
  arbiter : ResourceArbiter := {}
  leases : SortedMap ℕ ResourceLease := ∅
  nextLease : ℕ := 0
  /-- The numbers of the leases that were released. -/
  released : List ℕ := []

/-- An operation on the arbiter or on a lease object, with the addresses it uses
and the times it reads. -/
inductive Operation where
  | enqueue (request : ResourceRequest) (now : ℤ) (address : ℕ)
  | claim (sequence : ℕ) (address : ℕ)
  | abandon (sequence : ℕ) (clock : ℕ → ℤ)
  | moveConstruct (address source : ℕ)
  | moveAssign (address source : ℕ) (clock : ℕ → ℤ)
  | release (address : ℕ) (clock : ℕ → ℤ)
  | destroy (address : ℕ) (clock : ℕ → ℤ)
  | shutdown

namespace World

/-- A new lease at an address. -/
def construct (w : World) (address : ℕ) (resourceKey : String) : World :=
  { w with
    leases := w.leases.insert address ⟨some w.nextLease, resourceKey⟩
    nextLease := w.nextLease + 1 }

def setArbiter (w : World) (a : ResourceArbiter) : World := { w with arbiter := a }

def setLease (w : World) (address : ℕ) (lease : ResourceLease) : World :=
  { w with leases := w.leases.insert address lease }

/-- The lease object at an address gives its slot back and has no pointer any
more. -/
def releaseLease (w : World) (address : ℕ) (lease : ResourceLease) (clock : ℕ → ℤ) :
    World × List Grant :=
  match lease.impl with
  | none => (w, [])
  | some number =>
    let result := w.arbiter.releaseOneLocked lease.resourceKey clock
    ({ (w.setLease address {}) with
        arbiter := result.1
        released := w.released ++ [number] }, result.2)

/-- What a lease object leaves behind when it is moved away. -/
def moveFrom (w : World) (address source : ℕ) (lease : ResourceLease) : World :=
  (w.setLease source {}).setLease address lease

/-- The state after an operation and the grants that it makes. There is none for
an operation on an address that holds no object, or that should hold none. -/
def step (w : World) : Operation → Option (World × List Grant)
  | .enqueue request now address =>
    match w.leases.find? address with
    | some _ => none
    | none =>
      match w.arbiter.enqueue request now with
      | (a, .ok (.immediate resourceKey)) =>
        some ((w.setArbiter a).construct address resourceKey, [])
      | (a, _) => some (w.setArbiter a, [])
  | .claim sequence address =>
    match w.leases.find? address with
    | some _ => none
    | none =>
      match w.arbiter.claim sequence with
      | (a, .ok resourceKey) => some ((w.setArbiter a).construct address resourceKey, [])
      | (a, .error _) => some (w.setArbiter a, [])
  | .abandon sequence clock =>
    some (w.setArbiter (w.arbiter.abandon sequence clock).1,
      (w.arbiter.abandon sequence clock).2)
  | .moveConstruct address source =>
    match w.leases.find? address, w.leases.find? source with
    | none, some lease => some (w.moveFrom address source lease, [])
    | _, _ => none
  | .moveAssign address source clock =>
    match w.leases.find? address, w.leases.find? source with
    | some old, some lease =>
      if address = source then some (w, [])
      else
        some ((w.releaseLease address old clock).1.moveFrom address source lease,
          (w.releaseLease address old clock).2)
    | _, _ => none
  | .release address clock => (w.leases.find? address).map (w.releaseLease address · clock)
  | .destroy address clock =>
    (w.leases.find? address).map fun lease =>
      ({ (w.releaseLease address lease clock).1 with
          leases := (w.releaseLease address lease clock).1.leases.erase address },
        (w.releaseLease address lease clock).2)
  | .shutdown => some (w.setArbiter w.arbiter.shutdown, [])

/-- The states that a sequence of operations leads to. -/
inductive Reaches : World → Prop
  | start : Reaches {}
  | step {w w' : World} {op : Operation} {grants : List Grant} (h : Reaches w)
      (hstep : w.step op = some (w', grants)) : Reaches w'

end World

end NeoGraph.Tool
