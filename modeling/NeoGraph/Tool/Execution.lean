import Mathlib

/-!
# How a tool call ends

The execution controller turns every end of a tool call into a result with a
terminal status, and knows whether the tool was started. A status that says that
the call never started is what frees the slot of a call in a journal of effects,
so it should only be given to calls that were not started
(`frees_executeResult`).

A call has one attempt here: a journal refuses tools that are retried. Text of
outputs and errors is valid, as it is when it leaves the controller.
-/

namespace NeoGraph.Tool

/-! ## Statuses and results -/

/-- How a call ended. -/
inductive ToolTerminalStatus where
  | succeeded
  | failed
  | cancelledBeforeStart
  | cancellationRequested
  | expired
  | timedOut
  | killed
  | inputRequired
  | reconciliationRequired
  | rejected
deriving DecidableEq

namespace ToolTerminalStatus

def toString : ToolTerminalStatus → String
  | .succeeded => "succeeded"
  | .failed => "failed"
  | .cancelledBeforeStart => "cancelled_before_start"
  | .cancellationRequested => "cancellation_requested"
  | .expired => "expired"
  | .timedOut => "timed_out"
  | .killed => "killed"
  | .inputRequired => "input_required"
  | .reconciliationRequired => "reconciliation_required"
  | .rejected => "rejected"

def fromString (value : String) : Option ToolTerminalStatus :=
  if value = "succeeded" then some .succeeded
  else if value = "failed" then some .failed
  else if value = "cancelled_before_start" then some .cancelledBeforeStart
  else if value = "cancellation_requested" then some .cancellationRequested
  else if value = "expired" then some .expired
  else if value = "timed_out" then some .timedOut
  else if value = "killed" then some .killed
  else if value = "input_required" then some .inputRequired
  else if value = "reconciliation_required" then some .reconciliationRequired
  else if value = "rejected" then some .rejected
  else none

@[simp] theorem fromString_toString (status : ToolTerminalStatus) :
    fromString status.toString = some status := by
  cases status <;> decide

end ToolTerminalStatus

/-- The statuses of a call that never started. -/
def toolCallNotStarted (status : ToolTerminalStatus) : Bool :=
  status = .cancelledBeforeStart || status = .expired || status = .rejected

/-- What the caller is told. -/
structure ToolExecutionResult where
  status : ToolTerminalStatus := .failed
  output : String := ""
  error : String := ""
  retryable : Bool := false
  effectUncertain : Bool := false
  exitCode : Option Int32 := none
  signalNumber : Option Int32 := none
  outputTruncated : Bool := false
  /-- The service of the tool refused the call before it ran. -/
  refused : Bool := false
deriving DecidableEq

def ToolExecutionResult.succeeded (result : ToolExecutionResult) : Bool :=
  result.status = .succeeded

/-! ## Policies -/

/-- Where the tool runs. -/
inductive ToolExecutionImplementation where
  | nativeAsync
  | blockingThread
  | blockingProcess
deriving DecidableEq

/-- Which calls of a tool may run at once. -/
inductive ToolConcurrency where
  | reentrant
  | keyedExclusive
  | exclusive
  | capacity
  | singleFlight
  | externalLimited
deriving DecidableEq

/-- What a tool does to the world. -/
inductive ToolEffectClass where
  | unknown
  | readOnly
  | externalRead
  | workspaceWrite
  | externalWrite
deriving DecidableEq

/-- Whether a tool may be called twice. -/
inductive ToolIdempotency where
  | unknown
  | idempotent
  | conditional
  | nonIdempotent
deriving DecidableEq

/-- What the end of a call depends on. -/
structure ToolExecutionPolicy where
  implementation : ToolExecutionImplementation := .nativeAsync
  concurrency : ToolConcurrency := .keyedExclusive
  effect : ToolEffectClass := .unknown
  idempotency : ToolIdempotency := .unknown
  retryMaxAttempts : BitVec 32 := 1
  outputLimitBytes : ℕ := 16 * 1024 * 1024
  errorLimitBytes : ℕ := 2048
deriving DecidableEq

/-- The most calls that a policy may let wait. -/
def maximumPolicyQueueDepth : ℕ := 65536

/-- The largest limit of an output, 64 MiB. -/
def maximumOutputBytes : ℕ := 64 * 1024 * 1024

/-- The largest limit of an error text, 1 MiB. -/
def maximumErrorBytes : ℕ := 1024 * 1024

/-- **A policy is refused** with a text when it is malformed or unsafe: a call
may be shared only if it is idempotent and reads, and repeated only if it is
either. The fields of a policy that are not kept here pass their checks. -/
def ToolExecutionPolicy.validate (policy : ToolExecutionPolicy) (maxPending : ℕ) :
    Except String Unit := do
  if maxPending = 0 ∨ maximumPolicyQueueDepth < maxPending then
    .error "tool execution max_pending must be 1..65536"
  if policy.retryMaxAttempts = 0 then
    .error "tool execution retry_max_attempts must be positive"
  if policy.outputLimitBytes = 0 ∨ maximumOutputBytes < policy.outputLimitBytes then
    .error "tool execution output_limit_bytes must be 1..64MiB"
  if policy.errorLimitBytes = 0 ∨ maximumErrorBytes < policy.errorLimitBytes then
    .error "tool execution error_limit_bytes must be 1..1MiB"
  if policy.concurrency = .singleFlight ∧ (policy.idempotency ≠ .idempotent
      ∨ (policy.effect ≠ .readOnly ∧ policy.effect ≠ .externalRead)) then
    .error "single-flight requires an idempotent read-only tool effect"
  if 1 < policy.retryMaxAttempts
      ∧ (policy.idempotency = .unknown ∨ policy.idempotency = .nonIdempotent)
      ∧ policy.effect ≠ .readOnly ∧ policy.effect ≠ .externalRead then
    .error "automatic retries require idempotent or read-only tool effects"

/-! ## What ends a call -/

/-- Why a host does not admit a call. -/
inductive HostAdmissionFailure where
  | invalidRequest
  | capacityExceeded
  | queueFull
  | queueTimeout
  | shutdown
deriving DecidableEq

/-- The codes of a system error that are told apart. -/
inductive SystemErrorCode where
  | timedOut
  | operationAborted
  | noBufferSpace
  | other
deriving DecidableEq

/-- Why a process was killed. -/
inductive KillReason where
  | cancellationRequested
  | executionDeadline
  | bridgeFailure
  | outputLimit
deriving DecidableEq

def KillReason.status : KillReason → ToolTerminalStatus
  | .cancellationRequested => .cancellationRequested
  | .executionDeadline => .timedOut
  | .bridgeFailure => .killed
  | .outputLimit => .killed

/-- The errors of the process bridge. -/
inductive ProcessBridgeError where
  | setup (what : String)
  | interactive
  | killed (reason : KillReason) (what output : String) (exitCode signalNumber : Option Int32)
  | exited (what output : String) (exitCode signalNumber : Option Int32)

/-- An exception in the controller, before the tool is started or from it.
`stopsRun` is a control signal of the run anywhere in the chain of causes. -/
inductive ToolException where
  | runDeadlineElapsed
  | cancelled (what : String)
  | hostAdmission (failure : HostAdmissionFailure) (what : String)
  | system (code : SystemErrorCode) (what : String)
  | processBridge (error : ProcessBridgeError)
  | lengthError (what : String)
  | requestRefusal (what : String) (retryable : Bool)
  | stopsRun (what : String)
  | other (what : String)
  | unknown

/-! ## Results -/

def errorTruncationMarker : String := "... [truncated]"

/-- The longest prefix of whole characters within a number of bytes. -/
def truncateChars : List Char → ℕ → List Char
  | [], _ => []
  | c :: text, limit =>
    if c.utf8Size ≤ limit then c :: truncateChars text (limit - c.utf8Size) else []

def truncateUtf8 (text : String) (limit : ℕ) : String :=
  String.ofList (truncateChars text.toList limit)

def boundErrorText (text : String) (limit : ℕ) : String :=
  if text.utf8ByteSize ≤ limit then text
  else if limit ≤ errorTruncationMarker.utf8ByteSize then truncateUtf8 text limit
  else truncateUtf8 text (limit - errorTruncationMarker.utf8ByteSize) ++ errorTruncationMarker

/-- The error text of a result is bounded. -/
def publish (policy : ToolExecutionPolicy) (result : ToolExecutionResult) : ToolExecutionResult :=
  { result with error := boundErrorText result.error policy.errorLimitBytes }

/-- A failed tool may have had its effect. -/
def ordinaryToolFailure (policy : ToolExecutionPolicy) (started : Bool) (error : String) :
    ToolExecutionResult :=
  let uncertain := started && policy.effect ≠ .readOnly && policy.effect ≠ .externalRead
    && policy.idempotency ≠ .idempotent
  { status := if uncertain then .reconciliationRequired else .failed
    error := error
    effectUncertain := uncertain }

def runDeadlineElapsed : String := "run deadline elapsed before the tool started"

/-- The catch clause for a failed process. -/
def ProcessBridgeError.result : ProcessBridgeError → ToolExecutionResult
  | .setup what => { status := .failed, error := what }
  | .interactive =>
    { status := .inputRequired, error := "process tool requires an interactive input turn" }
  | .killed reason what output exitCode signalNumber =>
    { status := reason.status
      output := output
      error := what
      effectUncertain := true
      exitCode := exitCode
      signalNumber := signalNumber
      outputTruncated := reason = .outputLimit }
  | .exited what output exitCode signalNumber =>
    { status := .failed
      output := output
      error := what
      exitCode := exitCode
      signalNumber := signalNumber }

/-- The result of a call that ends with an exception. `deadlineHit` says that the
deadline of the run has passed or bounds the wait in the queue. -/
def exceptionResult (policy : ToolExecutionPolicy) (started deadlineHit : Bool) :
    ToolException → ToolExecutionResult
  | .runDeadlineElapsed => { status := .expired, error := runDeadlineElapsed }
  | .cancelled what =>
    { status := if started then .cancellationRequested else .cancelledBeforeStart
      error := what
      effectUncertain := started && policy.effect ≠ .readOnly }
  | .hostAdmission failure what =>
    -- refused before the tool starts, or raised by the tool itself
    if failure = .queueTimeout then
      { status := .expired
        error := if deadlineHit then runDeadlineElapsed else what
        retryable := policy.idempotency = .idempotent }
    else
      { status := if failure = .invalidRequest then .failed else .rejected
        error := what
        retryable := failure = .queueFull && policy.idempotency = .idempotent }
  | .system code what =>
    if started && code ≠ .timedOut && code ≠ .operationAborted then
      ordinaryToolFailure policy started what
    else if !started && code = .timedOut && deadlineHit then
      { status := .expired, error := runDeadlineElapsed }
    else
      { status :=
          if code = .timedOut then if started then .timedOut else .expired
          else if code = .operationAborted then if started then .killed else .cancelledBeforeStart
          else .rejected
        error := what
        retryable := (code = .timedOut || code = .noBufferSpace)
          && policy.idempotency = .idempotent
        effectUncertain := started && policy.effect ≠ .readOnly && policy.effect ≠ .externalRead
          && policy.idempotency ≠ .idempotent }
  | .processBridge error => error.result
  | .lengthError what => ordinaryToolFailure policy started what
  | .requestRefusal what retryable =>
    { status := .failed, error := what, retryable := retryable, refused := true }
  | .stopsRun what => ordinaryToolFailure policy started what
  | .other what => ordinaryToolFailure policy started what
  | .unknown =>
    { status := if started then .reconciliationRequired else .failed
      error := "tool execution failed with an unknown exception"
      effectUncertain := started }

/-- The result of a call whose tool answers with an output. -/
def outputResult (policy : ToolExecutionPolicy) (started : Bool) (output : String) :
    ToolExecutionResult :=
  if policy.outputLimitBytes < output.utf8ByteSize then
    ordinaryToolFailure policy started "tool result exceeds policy output_limit_bytes"
  else
    { status := .succeeded
      output := output
      exitCode := if policy.implementation = .blockingProcess then some 0 else none }

/-- The result of a call, as the callers that share it see it. -/
def executeResult (policy : ToolExecutionPolicy) (started deadlineHit : Bool) :
    Except ToolException String → ToolExecutionResult
  | .ok output => publish policy (outputResult policy started output)
  | .error e => publish policy (exceptionResult policy started deadlineHit e)

/-- A control signal of the run is thrown on, and not answered with a result. -/
def throwsOn : Except ToolException String → Bool
  | .error (.stopsRun _) => true
  | _ => false

/-! ## Results of calls that were started -/

/-- A result that frees the slot of a call. -/
def frees (result : ToolExecutionResult) : Bool :=
  toolCallNotStarted result.status && !result.effectUncertain

/-- Host admission refuses, other than for a malformed request. -/
def refusesAdmission : Except ToolException String → Bool
  | .error (.hostAdmission failure _) => failure ≠ .invalidRequest
  | _ => false

/-- The deadline of the run passes before the tool is started. -/
def elapsedBeforeStart : Except ToolException String → Bool
  | .error .runDeadlineElapsed => true
  | _ => false

variable (policy : ToolExecutionPolicy)

theorem frees_publish (result : ToolExecutionResult) :
    frees (publish policy result) = frees result := rfl

theorem frees_ordinaryToolFailure (started : Bool) (error : String) :
    frees (ordinaryToolFailure policy started error) = false := by
  unfold frees ordinaryToolFailure
  dsimp only
  split <;> rfl

theorem frees_bridgeResult (error : ProcessBridgeError) : frees error.result = false := by
  cases error with
  | setup what | interactive | exited what output exitCode signalNumber => rfl
  | killed reason what output exitCode signalNumber => cases reason <;> rfl

variable {ending : Except ToolException String}

/-- **A call that was started frees its slot** exactly when host admission
refuses in it. -/
theorem frees_executeResult (deadlineHit : Bool) (h : elapsedBeforeStart ending = false) :
    frees (executeResult policy true deadlineHit ending) = refusesAdmission ending := by
  cases ending with
  | ok output =>
    unfold executeResult outputResult
    rw [frees_publish]
    split
    · exact frees_ordinaryToolFailure _ _ _
    · rfl
  | error e =>
    unfold executeResult
    rw [frees_publish]
    cases e with
    | runDeadlineElapsed => cases h
    | cancelled what | requestRefusal what retryable | unknown => rfl
    | hostAdmission failure what => cases failure <;> rfl
    | system code what =>
      cases code with
      | timedOut | operationAborted => rfl
      | noBufferSpace | other => exact frees_ordinaryToolFailure _ _ _
    | processBridge error => exact frees_bridgeResult error
    | lengthError what | stopsRun what | other what => exact frees_ordinaryToolFailure _ _ _

/-- A call that succeeded was not refused. -/
theorem refused_executeResult (started deadlineHit : Bool)
    (h : (executeResult policy started deadlineHit ending).succeeded = true) :
    (executeResult policy started deadlineHit ending).refused = false := by
  cases ending with
  | ok output =>
    show (outputResult policy started output).refused = false
    unfold outputResult
    split <;> rfl
  | error e =>
    cases e with
    | requestRefusal what retryable => cases h
    | hostAdmission failure what => cases failure <;> rfl
    | system code what => cases code <;> cases started <;> cases deadlineHit <;> rfl
    | processBridge error => cases error <;> rfl
    | _ => rfl

end NeoGraph.Tool
