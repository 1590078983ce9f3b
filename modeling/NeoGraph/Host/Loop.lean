import NeoGraph.Lib.SortedMap

/-!
# A loop on a host's thread

A host runs the turns of a loop on its own thread. A turn polls the work that
is queued on the loop until it runs dry or its batch is full. Any thread queues
work and then calls `wake`, which asks the host for a turn unless one is
scheduled. Threads of a pool work for coroutines of the loop: a handoff holds
the continuation of one, and either its thread posts it back to the loop, or
the host's thread takes it over and destroys it.

An event is one atomic operation on the flags, one critical section, or one
step of the host's thread, so a sequence of events is an interleaving of
threads; an event that cannot happen changes nothing. Calls of `wake` have
numbers. Nested turns begin where a turn runs foreign code. A wake of the
host's thread outside the running turn's own code stands for itself, as if a
thread of its own made it.

Work that is queued is known by a number, deadlines and timers are work of the
turn that finds them due, and out of memory is a choice of the event.
-/

namespace NeoGraph.Host

/-- How many times one wake asks a host that refuses. -/
def maxAsks : ℕ := 3

/-! ## State -/

/-- Where a call of `wake` stands. -/
inductive WakePoint where
  /-- Before it looks whether the loop is closed. -/
  | entered
  /-- At the head of its loop. -/
  | asking
  /-- Before it claims the flag. -/
  | claiming
  /-- It found a turn scheduled, and leaves a note. -/
  | noting
  /-- It left the note, and looks at the flag again. -/
  | rechecking
  /-- It claimed the flag, and looks whether the loop is closed. -/
  | claimed
  /-- The loop is closed, and it hands the flag back. -/
  | withdrawing
  /-- In the `post` of the host. -/
  | posting
  /-- The host refused, and it still holds the flag. -/
  | refused
  /-- It handed the flag back, and looks for a note. -/
  | handedBack
  | returned
deriving DecidableEq

/-- A call of `wake`. -/
structure Wake where
  point : WakePoint := .entered
  /-- How many of its posts were refused. -/
  asked : ℕ := 0
  /-- Whether a handoff called it. -/
  handoff : Bool := false
deriving DecidableEq

def Wake.goto (wake : Wake) (point : WakePoint) : Wake := { wake with point := point }

/-- How far a handoff is. -/
inductive HandoffState where
  | opened
  | posted
  | taken
deriving DecidableEq

/-- What a turn takes from the queue. -/
inductive Work where
  | task (id : ℕ)
  /-- The continuation of a handoff. -/
  | resume (handoff : ℕ)
deriving DecidableEq

/-- Work that is queued, and what happened since it was queued. -/
structure Item where
  work : Work
  /-- A host post ended and was refused. -/
  refused : Bool := false
  /-- A wake whose last post was refused handed the flag back. -/
  lastAsk : Bool := false
deriving DecidableEq

/-- A turn that has just begun: before it clears the flag, or before it looks
whether it may run. -/
inductive Prologue where
  | begun
  | cleared
deriving DecidableEq

/-- What a turn that runs is doing. -/
inductive TurnPhase where
  /-- It destroys the continuations that were set aside. -/
  | draining
  /-- It completes what is due, before its context is restarted. -/
  | preparing
  /-- Before a poll; whether the context has stopped. -/
  | polling (stopped : Bool)
  /-- In a handler. -/
  | handling
  /-- A poll found nothing; whether something else was done since. -/
  | dry (worked : Bool)
deriving DecidableEq

/-- How far the loop is closed. -/
inductive CloseStage where
  | opened
  | draining
  | resetting
  | waiting
  | releasing
  | closed
deriving DecidableEq

/-- The state that the threads share. -/
structure HostLoopCore where
  scheduled : Bool := false
  relied : Bool := false
  /-- The calls of `wake` that have not ended. -/
  wakes : SortedMap ℕ Wake := ∅
  /-- The turns in the host's queue. -/
  turns : ℕ := 0
  prologue : Option Prologue := none
  /-- The turn that runs. -/
  phase : Option TurnPhase := none
  queue : List Item := []
  handoffs : SortedMap ℕ HandoffState := ∅
  /-- Handoffs whose continuation was posted to the loop, in their order. -/
  posts : List ℕ := []
  /-- Handoffs whose continuation was set aside for the host's thread. -/
  handed : List ℕ := []
  abandoned : List ℕ := []
  /-- What the host's thread is destroying. -/
  batch : List ℕ := []
  destroyed : List ℕ := []
  waking : ℕ := 0
  stage : CloseStage := .opened
deriving DecidableEq

namespace HostLoopCore

/-- The flag `closed_`. -/
def isClosed (s : HostLoopCore) : Bool := s.stage ≠ .opened

/-- The turn that runs is in its own code, and polls again after it. -/
def inOwnTurn (s : HostLoopCore) : Bool :=
  s.prologue = none &&
    (s.phase = some .preparing || s.phase = some .handling || s.phase = some (.dry true))

/-- Foreign code runs on the host's thread, or nothing does. -/
def mayNest (s : HostLoopCore) : Bool :=
  s.prologue = none &&
    (s.phase = none || s.phase = some .draining || s.phase = some .preparing ||
      s.phase = some .handling || s.phase = some (.dry true))

/-! ## Wakes -/

/-- A call of `wake` begins. Inside the loop's own turn it returns at once. -/
def callWake (s : HostLoopCore) (w : ℕ) (handoff inside : Bool) : HostLoopCore :=
  { s with
    wakes := s.wakes.insert w
      { point := if inside then .returned else .entered, handoff := handoff } }

/-- The work that is queued saw a refusal, or the end of a last ask. -/
def markItems (s : HostLoopCore) (f : Item → Item) : HostLoopCore :=
  { s with queue := s.queue.map f }

def clearScheduled (s : HostLoopCore) : HostLoopCore := { s with scheduled := false }

def setWake (s : HostLoopCore) (w : ℕ) (wake : Wake) : HostLoopCore :=
  { s with wakes := s.wakes.insert w wake }

/-- The next operation of a call of `wake`. The host accepts the post, or
refuses it. -/
def wakeStep (s : HostLoopCore) (w : ℕ) (wake : Wake) (accepted : Bool) : HostLoopCore :=
  match wake.point with
  | .entered => s.setWake w (wake.goto (if s.isClosed then .returned else .asking))
  | .asking => s.setWake w (wake.goto (if s.isClosed then .returned else .claiming))
  | .claiming =>
    if s.scheduled then s.setWake w (wake.goto .noting)
    else { s.setWake w (wake.goto .claimed) with scheduled := true }
  | .noting => { s.setWake w (wake.goto .rechecking) with relied := true }
  | .rechecking => s.setWake w (wake.goto (if s.scheduled then .returned else .asking))
  | .claimed => s.setWake w (wake.goto (if s.isClosed then .withdrawing else .posting))
  | .withdrawing => s.clearScheduled.setWake w (wake.goto .returned)
  | .posting =>
    if accepted then { s.setWake w (wake.goto .returned) with turns := s.turns + 1 }
    else (s.setWake w (wake.goto .refused)).markItems fun item => { item with refused := true }
  | .refused =>
    let wake := { wake with asked := wake.asked + 1 }
    -- the last ask does not take the note
    if wake.asked = maxAsks then
      (s.clearScheduled.setWake w (wake.goto .returned)).markItems
        fun item => { item with lastAsk := true }
    else s.clearScheduled.setWake w (wake.goto .handedBack)
  | .handedBack =>
    if s.relied then { s.setWake w (wake.goto .asking) with relied := false }
    else s.setWake w (wake.goto .returned)
  | .returned => s

/-- A call of `wake` has ended; one of a handoff is counted out. -/
def wakeReturn (s : HostLoopCore) (w : ℕ) (wake : Wake) : HostLoopCore :=
  if wake.point = .returned then
    { s with
      wakes := s.wakes.erase w
      waking := if wake.handoff then s.waking - 1 else s.waking }
  else s

/-! ## Handoffs -/

/-- The end of the critical section of a handoff: a turn is asked for unless
the loop is closed. -/
def wakeForHandoff (s : HostLoopCore) (w : ℕ) (inside : Bool) : HostLoopCore :=
  if s.isClosed then s else { s.callWake w true inside with waking := s.waking + 1 }

/-- A continuation is set aside for the host's thread. -/
def setAside (s : HostLoopCore) (h : ℕ) : HostLoopCore :=
  { s with
    handoffs := s.handoffs.insert h .taken
    handed := s.handed ++ [h]
    abandoned := s.abandoned ++ [h] }

/-- The continuation is posted, or kept if the post fails. The wake that the
post makes is deferred, and `wakeForHandoff` makes it. -/
def postHandoff (s : HostLoopCore) (h w : ℕ) (posted inside : Bool) : HostLoopCore :=
  if s.handoffs.find? h ≠ some .opened then s
  else if posted then
    { s with
      handoffs := s.handoffs.insert h .posted
      posts := s.posts ++ [h]
      queue := s.queue ++ [{ work := .resume h }] : HostLoopCore }.wakeForHandoff w inside
  else (s.setAside h).wakeForHandoff w inside

/-- Whoever comes first runs the continuation. -/
def releaseHandoff (s : HostLoopCore) (h w : ℕ) (inside : Bool) : HostLoopCore :=
  if s.handoffs.find? h ≠ some .opened then s else (s.setAside h).wakeForHandoff w inside

/-- The handoffs whose continuation nobody took. -/
def openHandoffs (s : HostLoopCore) : List ℕ :=
  (s.handoffs.entries.filter fun e => e.2 = .opened).map Prod.fst

/-- All continuations that wait are set aside. -/
def takeOpen (s : HostLoopCore) : HostLoopCore :=
  { s with
    handoffs := s.handoffs.filterMap fun _ state =>
      some (if state = .opened then .taken else state)
    handed := s.handed ++ s.openHandoffs
    abandoned := s.abandoned ++ s.openHandoffs }

/-- What was set aside is to be destroyed. -/
def swapBatch (s : HostLoopCore) : HostLoopCore :=
  { s with batch := s.abandoned, abandoned := [] }

/-- One critical section of `drain_handoffs`, in a turn or in `close`: a batch
is taken, or nothing is set aside and the drain ends. -/
def drainHandoffs (s : HostLoopCore) : HostLoopCore :=
  match s.stage, s.phase with
  | .draining, _ =>
    if s.takeOpen.abandoned = [] then { s.takeOpen with stage := .resetting }
    else s.takeOpen.swapBatch
  | .releasing, _ =>
    if s.takeOpen.abandoned = [] then { s.takeOpen with stage := .closed }
    else s.takeOpen.swapBatch
  | .opened, some .draining =>
    if s.abandoned = [] then { s with phase := some .preparing } else s.swapBatch
  | .opened, some (.dry worked) =>
    if s.abandoned = [] then { s with phase := if worked then some (.polling false) else none }
    else { s.swapBatch with phase := some (.dry true) }
  | _, _ => s

/-! ## Events -/

/-- A step of some thread. -/
inductive Event where
  /-- Work is queued, and then the loop is woken. -/
  | queueWork (task w : ℕ) (inside : Bool)
  | callWake (w : ℕ) (inside : Bool)
  | wakeStep (w : ℕ) (accepted : Bool)
  | wakeReturn (w : ℕ)
  | track (h : ℕ)
  | postHandoff (h w : ℕ) (posted inside : Bool)
  | releaseHandoff (h w : ℕ) (inside : Bool)
  /-- The host takes a turn from its queue. -/
  | beginTurn
  /-- The turn clears the flag. -/
  | clearTurn
  /-- The turn runs, unless the loop is closed or a turn is running. -/
  | enterTurn
  | drainHandoffs
  | destroyBatch
  /-- The context is restarted for a turn. -/
  | startPolling
  /-- The context stops for want of work. -/
  | runOut
  | poll
  | endHandler
  /-- A poll finds nothing. -/
  | findDry
  /-- What became due meanwhile is completed. -/
  | completeDue
  /-- A turn ends at its batch or by a failure, and wakes the loop. -/
  | stopTurn (w : ℕ)
  | beginClose
  /-- The context is destroyed, with the work that is queued. -/
  | resetContext
  /-- No wake of a handoff is in progress any more. -/
  | awaitWakes
deriving DecidableEq

/-- A number that no call of `wake` in progress has. -/
def isFresh (s : HostLoopCore) (w : ℕ) : Bool := (s.wakes.find? w).isNone

/-- Where a call of `wake` may be made: anywhere, or inside the turn. -/
def mayCall (s : HostLoopCore) (w : ℕ) (inside : Bool) : Bool :=
  s.isFresh w && (!inside || s.inOwnTurn)

/-- The state after an event. -/
def step (s : HostLoopCore) : Event → HostLoopCore
  | .queueWork task w inside =>
    if s.mayCall w inside then
      { s.callWake w false inside with queue := s.queue ++ [{ work := .task task }] }
    else s
  | .callWake w inside => if s.mayCall w inside then s.callWake w false inside else s
  | .wakeStep w accepted =>
    match s.wakes.find? w with
    | some wake => s.wakeStep w wake accepted
    | none => s
  | .wakeReturn w =>
    match s.wakes.find? w with
    | some wake => s.wakeReturn w wake
    | none => s
  | .track h =>
    if s.isClosed ∨ (s.handoffs.find? h).isSome then s
    else { s with handoffs := s.handoffs.insert h .opened }
  | .postHandoff h w posted inside =>
    if s.mayCall w inside then s.postHandoff h w posted inside else s
  | .releaseHandoff h w inside => if s.mayCall w inside then s.releaseHandoff h w inside else s
  | .beginTurn =>
    if s.turns ≠ 0 ∧ s.mayNest then
      { s with turns := s.turns - 1, prologue := some .begun } else s
  | .clearTurn =>
    if s.prologue = some .begun then { s.clearScheduled with prologue := some .cleared } else s
  | .enterTurn =>
    if s.prologue = some .cleared then
      { s with
        prologue := none
        phase := if s.isClosed ∨ s.phase ≠ none then s.phase else some .draining }
    else s
  | .drainHandoffs => if s.prologue = none ∧ s.batch = [] then s.drainHandoffs else s
  | .destroyBatch => { s with batch := [], destroyed := s.destroyed ++ s.batch }
  | .startPolling =>
    if s.prologue = none ∧ s.phase = some .preparing then
      { s with phase := some (.polling false) } else s
  | .runOut =>
    if s.prologue = none ∧ s.phase = some (.polling false) ∧ s.queue = [] then
      { s with phase := some (.polling true) } else s
  | .poll =>
    match s.prologue, s.phase, s.queue with
    | none, some (.polling false), _ :: queue => { s with phase := some .handling, queue := queue }
    | _, _, _ => s
  | .endHandler =>
    if s.prologue = none ∧ s.phase = some .handling then
      { s with phase := some (.polling false) } else s
  | .findDry =>
    if s.prologue = none ∧ (s.phase = some (.polling true)
        ∨ s.phase = some (.polling false) ∧ s.queue = []) then
      { s with phase := some (.dry false) } else s
  | .completeDue =>
    match s.prologue, s.phase with
    | none, some (.dry _) => { s with phase := some (.dry true) }
    | _, _ => s
  | .stopTurn w =>
    if s.isFresh w ∧ s.prologue = none ∧ s.batch = [] ∧ (s.phase = some .preparing
        ∨ s.phase = some .handling ∨ s.phase = some (.dry true)) then
      { s.callWake w false false with phase := none } else s
  | .beginClose =>
    if s.isClosed ∨ s.prologue ≠ none ∨ s.phase ≠ none then s
    else { s with stage := .draining }
  | .resetContext =>
    if s.stage = .resetting then { s with stage := .waiting, queue := [] } else s
  | .awaitWakes =>
    if s.stage = .waiting ∧ s.waking = 0 then { s with stage := .releasing } else s

def run (s : HostLoopCore) (events : List Event) : HostLoopCore := events.foldl step s

end HostLoopCore

end NeoGraph.Host
