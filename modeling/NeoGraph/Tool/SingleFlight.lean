import NeoGraph.Tool.Execution

/-!
# Calls of one controller, and the ones that share an execution

Calls under a single-flight policy whose resource keys agree share one
execution. The first of them leads: it puts a flight into the table of the
controller, runs the tool, and publishes what it ended with while it takes the
flight out again. The others follow it: they poll the flight until it is
completed, or leave when they are cancelled or have waited too long. A flight
counts the calls that joined it and refuses more than the policy of a call
admits.

A leader, and a call under any other policy, waits for its resource and for the
host, and then starts the tool; it looks at its own cancel token before every
wait and after it. Besides, the caller may give up the wait it is in for the
call, which ends the next wait of the call with an abort, whatever its token
says. What the arbiter, the host and the tool answer, and when a token or a wait
is cancelled or a deadline passes, is an event, so a sequence of events is any
interleaving of any calls.

Times are not counted: an event says that the deadline of a call has passed,
and a call knows whether its deadline comes before the timeout of its queues.
For the statements, a flight remembers its leader and how many followers left
it, and a call remembers whether its tool raised a cancellation by itself.
-/

namespace NeoGraph.Tool

/-! ## Calls -/

/-- How a call ended: all that its result is made of. `deadlineHit` says that
its deadline had passed or comes before the timeout of its queues. -/
structure Ending where
  policy : ToolExecutionPolicy
  started : Bool
  deadlineHit : Bool
  outcome : Except ToolException String

def Ending.result (e : Ending) : ToolExecutionResult :=
  executeResult e.policy e.started e.deadlineHit e.outcome

/-- What a call is made with. -/
structure CallSpec (K : Type) where
  policy : ToolExecutionPolicy
  /-- The resource key that the policy derives for the call. -/
  key : K
  maxPending : ℕ
  /-- The deadline of the run comes before the timeout of the queues. -/
  deadlineBoundsQueue : Bool

/-- Where a call is. -/
inductive CallStage where
  | entered
  /-- It polls a flight. -/
  | following (flight : ℕ)
  | requesting
  /-- In the queue of the arbiter. -/
  | queued
  | leased
  /-- Waiting for the host. -/
  | admitting
  | admitted
  | attempting (attempt : ℕ) (lastError : Option ToolException)
  | running (attempt : ℕ)
  /-- It has returned, with what a flight was completed with if it shared it. -/
  | ended (ending : Ending) (shared : Option ℕ)
  | destroyed

/-- The call runs its own execution. -/
def CallStage.executing : CallStage → Bool
  | .requesting | .queued | .leased | .admitting | .admitted => true
  | .attempting _ _ => true
  | .running _ => true
  | _ => false

/-- The call is at a wait of its execution, and not in its tool. -/
def CallStage.suspended : CallStage → Bool
  | .requesting | .queued | .leased | .admitting | .admitted => true
  | .attempting _ _ => true
  | _ => false

/-- The call is neither ended nor destroyed. -/
def CallStage.live : CallStage → Bool
  | .ended _ _ => false
  | .destroyed => false
  | _ => true

/-- A call, and how far it is. -/
structure Call (K : Type) where
  spec : CallSpec K
  stage : CallStage := .entered
  /-- The flight that the call leads or has led. -/
  leads : Option ℕ := none
  started : Bool := false
  /-- Its own cancel token was cancelled. -/
  cancelled : Bool := false
  /-- Its caller gave up waiting for it. -/
  waitCancelled : Bool := false
  /-- Its own deadline has passed. -/
  deadlinePassed : Bool := false
  /-- Its tool raised a cancellation although the call was not cancelled. -/
  toolCancels : Bool := false

/-- An ending of a call, with what its result depends on at that moment. -/
def Call.endingWith {K : Type} (call : Call K) (outcome : Except ToolException String) : Ending :=
  { policy := call.spec.policy
    started := call.started
    deadlineHit := call.deadlinePassed || call.spec.deadlineBoundsQueue
    outcome := outcome }

/-! ## One execution -/

/-- What the arbiter of resources answers a call in its queue. -/
inductive ArbiterAnswer where
  | granted
  | full
  | timedOut
  | failed (what : String)

/-- What host admission answers. -/
inductive HostAnswer where
  | granted
  | refused (failure : HostAdmissionFailure) (what : String)
  | timedOut

/-- What happens to an execution. -/
inductive ExecutionEvent where
  | request
  | arbiter (answer : ArbiterAnswer)
  | host (answer : HostAnswer)
  /-- The call looks at its token and goes on. -/
  | proceed
  | attempt
  | toolEnds (outcome : Except ToolException String)
  /-- The wait that the call is in ends because its caller gave up. -/
  | abort (what : String)

/-- An execution goes on, or it ends. -/
inductive Move (K : Type) where
  | go (call : Call K)
  | finish (call : Call K) (outcome : Except ToolException String)

/-- The call of a move. -/
def Move.call {K : Type} : Move K → Call K
  | .go call => call
  | .finish call _ => call

/-- The tool itself ended with a cancellation. -/
def raisesCancellation : Except ToolException String → Bool
  | .error (.cancelled _) => true
  | .error (.processBridge (.killed .cancellationRequested _ _ _ _)) => true
  | _ => false

/-- Errors that no attempt follows. -/
def neverRetried : ToolException → Bool
  | .cancelled _ => true
  | .system .operationAborted _ => true
  | .stopsRun _ => true
  | _ => false

namespace Call

variable {K : Type}

/-- A cancelled call ends here. -/
def throwIfCancelled (call : Call K) (what : String) (move : Move K) : Move K :=
  if call.cancelled then .finish call (.error (.cancelled what)) else move

/-- The stage after the lease of the resource. -/
def afterLease (hostAdmission : Bool) : CallStage := if hostAdmission then .admitting else .admitted

/-- The arbiter answers; the call looks at its token before it takes the answer. -/
def onArbiter (call : Call K) : ArbiterAnswer → Move K
  | .granted => call.throwIfCancelled "while waiting for a tool resource"
      (.go { call with stage := .leased })
  | .full => call.throwIfCancelled "while waiting for a tool resource"
      (.finish call (.error (.system .noBufferSpace "No buffer space available")))
  | .timedOut => call.throwIfCancelled "while waiting for a tool resource"
      (.finish call (.error (.system .timedOut "Connection timed out")))
  | .failed what => call.throwIfCancelled "while waiting for a tool resource"
      (.finish call (.error (.other what)))

/-- The host answers. A wait that ran out before the host was asked is not
followed by a look at the token. -/
def onHost (call : Call K) : HostAnswer → Move K
  | .granted => call.throwIfCancelled "while waiting for host resources"
      (.go { call with stage := .admitted })
  | .refused failure what => call.throwIfCancelled "while waiting for host resources"
      (.finish call (.error (.hostAdmission failure what)))
  | .timedOut => .finish call (.error (.system .timedOut "Connection timed out"))

/-- The tool has ended an attempt. The deadline error is the controller's own,
which no tool raises. -/
def onTool (call : Call K) (attempt : ℕ) (outcome : Except ToolException String) :
    Option (Move K) :=
  let call := { call with
    toolCancels := call.toolCancels || (raisesCancellation outcome && !call.cancelled) }
  match outcome with
  | .ok output => some (.finish call (.ok output))
  | .error .runDeadlineElapsed => none
  | .error e =>
    if !neverRetried e && attempt + 1 < max 1 call.spec.policy.retryMaxAttempts.toNat then
      some (.go { call with stage := .attempting (attempt + 1) (some e) })
    else some (.finish call (.error e))

/-- **An execution takes a step.** -/
def advance (call : Call K) (hostAdmission : Bool) : ExecutionEvent → Option (Move K)
  | .request =>
    match call.stage with
    | .requesting =>
      if call.deadlinePassed then some (.finish call (.error .runDeadlineElapsed))
      else some (call.throwIfCancelled "while waiting for a tool resource"
        (.go { call with stage := .queued }))
    | _ => none
  | .arbiter answer =>
    match call.stage with
    | .queued => some (call.onArbiter answer)
    | _ => none
  | .host answer =>
    match call.stage with
    | .admitting => some (call.onHost answer)
    | _ => none
  | .proceed =>
    match call.stage with
    | .leased => some (call.throwIfCancelled "after tool resource admission"
        (.go { call with stage := afterLease hostAdmission }))
    | .admitted => some (call.throwIfCancelled
        (if call.spec.policy.concurrency = .reentrant then "after tool resource admission"
          else "after host resource admission")
        (.go { call with stage := .attempting 0 none }))
    | _ => none
  | .attempt =>
    match call.stage with
    | .attempting attempt lastError =>
      if call.deadlinePassed then
        some (.finish call (.error (lastError.getD .runDeadlineElapsed)))
      else some (call.throwIfCancelled "before tool execution"
        (.go { call with stage := .running attempt, started := true }))
    | _ => none
  | .toolEnds outcome =>
    match call.stage with
    | .running attempt => call.onTool attempt outcome
    | _ => none
  | .abort what =>
    if call.waitCancelled && call.stage.suspended then
      some (.finish call (.error (.system .operationAborted what)))
    else none

end Call

/-! ## Flights and the controller -/

/-- A shared execution. -/
structure Flight (K : Type) where
  key : K
  /-- How many calls have joined it. -/
  waiters : ℕ := 0
  /-- What it was completed with. -/
  completed : Option Ending := none
  /-- The call that leads it. -/
  leader : ℕ
  /-- How many followers left before they saw it completed. -/
  departed : ℕ := 0

/-- A controller with all its calls and flights, by their numbers. -/
structure Controller (K : Type) where
  hostAdmission : Bool := false
  calls : List (Call K) := []
  flights : List (Flight K) := []
  table : K → Option ℕ := fun _ => none

/-- Why a follower stops polling. -/
inductive Leave where
  | cancelled
  | timedOut
  | failed (what : String)
  /-- Its caller gave up waiting for it. -/
  | aborted (what : String)

/-- What happens to the calls of a controller. -/
inductive CallEvent (K : Type) where
  | enter (spec : CallSpec K)
  /-- No key can be derived for the call. -/
  | fail (c : ℕ) (what : String)
  | join (c : ℕ)
  | execute (c : ℕ) (e : ExecutionEvent)
  | observe (c : ℕ)
  | leave (c : ℕ) (why : Leave)
  | destroy (c : ℕ)
  | cancel (c : ℕ)
  | cancelWait (c : ℕ)
  | passDeadline (c : ℕ)

namespace Controller

variable {K : Type} [DecidableEq K]

def setCall (s : Controller K) (c : ℕ) (call : Call K) : Controller K :=
  { s with calls := s.calls.set c call }

def setFlight (s : Controller K) (f : ℕ) (flight : Flight K) : Controller K :=
  { s with flights := s.flights.set f flight }

/-- The leader of a flight publishes, and takes it out of the table. -/
def publishSingleflight (s : Controller K) (f : ℕ) (ending : Ending) : Controller K :=
  match s.flights[f]? with
  | none => s
  | some flight =>
    if s.table flight.key = some f then
      { s.setFlight f { flight with completed := some ending } with
        table := Function.update s.table flight.key none }
    else s

/-- A call leaves its execution; if it leads a flight it publishes an
ending. -/
def close (s : Controller K) (c : ℕ) (call : Call K) (ending : Ending) : Controller K :=
  match call.leads with
  | none => s.setCall c call
  | some f => (s.setCall c call).publishSingleflight f ending

def apply (s : Controller K) (c : ℕ) : Move K → Controller K
  | .go call => s.setCall c call
  | .finish call outcome =>
    s.close c { call with stage := .ended (call.endingWith outcome) none }
      (call.endingWith outcome)

/-- A call that is not under a single-flight policy, or leads, begins its
execution. -/
def firstStage (s : Controller K) (policy : ToolExecutionPolicy) : CallStage :=
  if policy.concurrency = .reentrant then Call.afterLease s.hostAdmission else .requesting

/-- A call joins the flight that it finds, if this is not full. -/
def follow (s : Controller K) (c : ℕ) (call : Call K) (f : ℕ) (flight : Flight K) : Controller K :=
  if call.spec.maxPending ≤ flight.waiters then
    s.setCall c { call with
      stage := .ended (call.endingWith
        (.error (.system .noBufferSpace "No buffer space available"))) none }
  else
    (s.setCall c { call with stage := .following f }).setFlight f
      { flight with waiters := flight.waiters + 1 }

def lead (s : Controller K) (c : ℕ) (call : Call K) : Controller K :=
  { s.setCall c { call with
      stage := s.firstStage call.spec.policy, leads := some s.flights.length } with
    flights := s.flights ++ [{ key := call.spec.key, leader := c }]
    table := Function.update s.table call.spec.key (some s.flights.length) }

/-- **A call looks for a flight** of its key, under a single-flight policy. An
invalid policy is refused before. -/
def join (s : Controller K) (c : ℕ) (call : Call K) : Option (Controller K) :=
  match call.spec.policy.validate call.spec.maxPending with
  | .error what => some (s.setCall c { call with
      stage := .ended (call.endingWith (.error (.other what))) none })
  | .ok () =>
    if call.spec.policy.concurrency ≠ .singleFlight then
      some (s.setCall c { call with stage := s.firstStage call.spec.policy })
    else
      match s.table call.spec.key with
      | some f => s.flights[f]?.map (s.follow c call f)
      | none => some (s.lead c call)

/-- What a follower that leaves ends with. Its wait ends at the deadline of its
run when that comes first. -/
def leaveOutcome (call : Call K) : Leave → Option (Except ToolException String)
  | .cancelled =>
    if call.cancelled then
      some (.error (.cancelled "while waiting for single-flight result"))
    else none
  | .timedOut =>
    if call.spec.deadlineBoundsQueue && !call.deadlinePassed then none
    else some (.error (.system .timedOut "Connection timed out"))
  | .failed what => some (.error (.system .other what))
  | .aborted what =>
    if call.waitCancelled then some (.error (.system .operationAborted what)) else none

/-- A follower is gone. -/
def depart (s : Controller K) (c : ℕ) (call : Call K) (f : ℕ) : Controller K :=
  match s.flights[f]? with
  | none => s.setCall c call
  | some flight => (s.setCall c call).setFlight f { flight with departed := flight.departed + 1 }

def leave (s : Controller K) (c : ℕ) (call : Call K) (why : Leave) : Option (Controller K) :=
  match call.stage with
  | .following f => (leaveOutcome call why).map fun outcome =>
      s.depart c { call with stage := .ended (call.endingWith outcome) none } f
  | _ => none

/-- A follower sees its flight completed and returns what it holds. -/
def observe (s : Controller K) (c : ℕ) (call : Call K) : Option (Controller K) :=
  match call.stage with
  | .following f =>
    (s.flights[f]?.bind Flight.completed).map fun ending =>
      s.setCall c { call with stage := .ended ending (some f) }
  | _ => none

/-- What the guard of a destroyed leader publishes. -/
def abandoned (call : Call K) : Ending :=
  call.endingWith (.error (.other "single-flight leader was abandoned"))

/-- The coroutine of a call is destroyed. -/
def destroy (s : Controller K) (c : ℕ) (call : Call K) : Option (Controller K) :=
  match call.stage with
  | .following f => some (s.depart c { call with stage := .destroyed } f)
  | stage =>
    if stage.live then some (s.close c { call with stage := .destroyed } (abandoned call))
    else none

/-- **The calls of a controller take a step.** -/
def step (s : Controller K) : CallEvent K → Option (Controller K)
  | .enter spec => some { s with calls := s.calls ++ [{ spec }] }
  | .fail c what => do
    let call ← s.calls[c]?
    match call.stage with
    | .entered => some (s.setCall c { call with
        stage := .ended (call.endingWith (.error (.other what))) none })
    | _ => none
  | .join c => do
    let call ← s.calls[c]?
    match call.stage with
    | .entered => s.join c call
    | _ => none
  | .execute c e => do
    let call ← s.calls[c]?
    let move ← call.advance s.hostAdmission e
    some (s.apply c move)
  | .observe c => do
    let call ← s.calls[c]?
    s.observe c call
  | .leave c why => do
    let call ← s.calls[c]?
    s.leave c call why
  | .destroy c => do
    let call ← s.calls[c]?
    s.destroy c call
  | .cancel c => do
    let call ← s.calls[c]?
    if call.stage.live then some (s.setCall c { call with cancelled := true }) else none
  | .cancelWait c => do
    let call ← s.calls[c]?
    if call.stage.live then some (s.setCall c { call with waitCancelled := true }) else none
  | .passDeadline c => do
    let call ← s.calls[c]?
    if call.stage.live then some (s.setCall c { call with deadlinePassed := true }) else none

/-- A run of a controller. -/
def run : Controller K → List (CallEvent K) → Option (Controller K)
  | s, [] => some s
  | s, e :: events => (s.step e).bind fun s' => s'.run events

end Controller

end NeoGraph.Tool
