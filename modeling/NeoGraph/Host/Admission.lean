import NeoGraph.Lib.SortedMap

/-!
# Host admission

The resources of a host are fourteen 64-bit quantities. A profile has a capacity
and a reserve that is never admitted; under pressure the rest is scaled down.

A controller admits requests for host resources. A request that fits is
reserved at once if nobody waits; otherwise it waits in a queue, and whenever
capacity may have become free the controller grants waiters as long as one
fits, the one of highest priority first. The priority of a waiter grows while
it waits.

All operations run under one mutex, so a sequence of operations is any
interleaving of any clients. Waiters are shared with their clients, so the
model keeps every waiter there ever was, by its sequence number, and the queue
is a list of these numbers. An operation that raises an exception changes
nothing. Beside the new state an operation reports the grants that it made and
the reservations that it released.

The profile's name and evidence, the pressure level that is shown to observers
and the priority that a reservation inherits have no influence on admission and
are left out.
-/

namespace NeoGraph.Host

/-! ## Vectors of resources -/

/-- The resources a host rations. -/
inductive HostResource where
  | cpuMillis
  | memoryBytes
  | gpuSlots
  | gpuMemoryBytes
  | processes
  | threads
  | fileDescriptors
  | diskBytes
  | networkConnections
  | toolSlots
  | providerRequests
  | modelTokens
  | monetaryMicrounits
  | wallTimeMs
deriving DecidableEq

/-- The resources in the order of their components. -/
def HostResource.all : List HostResource :=
  [.cpuMillis, .memoryBytes, .gpuSlots, .gpuMemoryBytes, .processes, .threads, .fileDescriptors,
    .diskBytes, .networkConnections, .toolSlots, .providerRequests, .modelTokens,
    .monetaryMicrounits, .wallTimeMs]

theorem HostResource.mem_all (r : HostResource) : r ∈ HostResource.all := by
  cases r <;> decide

/-- A quantity of each resource. -/
abbrev HostResourceVector := HostResource → BitVec 64

/-- The largest quantity. -/
def maxComponent : BitVec 64 := BitVec.allOnes 64

/-- Addition stops at the largest number. -/
def saturatingComponentAdd (lhs rhs : BitVec 64) : BitVec 64 :=
  if maxComponent - lhs < rhs then maxComponent else lhs + rhs

/-- Subtraction stops at zero. -/
def clampedComponentSubtract (lhs rhs : BitVec 64) : BitVec 64 :=
  if rhs < lhs then lhs - rhs else 0

/-- A percentage of a component. -/
def scaleComponent (value : BitVec 64) (percent : ℕ) : BitVec 64 :=
  if 100 ≤ percent then value
  else BitVec.ofNat 64 (value.toNat / 100 * percent + value.toNat % 100 * percent / 100)

namespace HostResourceVector

def empty (v : HostResourceVector) : Bool := HostResource.all.all fun r => v r = 0

/-- A vector is within a limit in every resource. -/
def fitsWithin (v limit : HostResourceVector) : Bool :=
  HostResource.all.all fun r => v r ≤ limit r

def saturatingAdd (lhs rhs : HostResourceVector) : HostResourceVector :=
  fun r => saturatingComponentAdd (lhs r) (rhs r)

def subtractClamped (lhs rhs : HostResourceVector) : HostResourceVector :=
  fun r => clampedComponentSubtract (lhs r) (rhs r)

end HostResourceVector

theorem toNat_maxComponent : maxComponent.toNat = 2 ^ 64 - 1 := BitVec.toNat_allOnes

theorem toNat_saturatingComponentAdd (lhs rhs : BitVec 64) :
    (saturatingComponentAdd lhs rhs).toNat = min (2 ^ 64 - 1) (lhs.toNat + rhs.toNat) := by
  have hl := lhs.isLt
  have hr := rhs.isLt
  have hs : (maxComponent - lhs).toNat = 2 ^ 64 - 1 - lhs.toNat := by
    rw [BitVec.toNat_sub, toNat_maxComponent]
    omega
  unfold saturatingComponentAdd
  split_ifs with h
  · rw [BitVec.lt_def, hs] at h
    rw [toNat_maxComponent]
    omega
  · rw [BitVec.lt_def, hs] at h
    rw [BitVec.toNat_add]
    omega

theorem toNat_clampedComponentSubtract (lhs rhs : BitVec 64) :
    (clampedComponentSubtract lhs rhs).toNat = lhs.toNat - rhs.toNat := by
  have hl := lhs.isLt
  unfold clampedComponentSubtract
  split_ifs with h
  · rw [BitVec.lt_def] at h
    rw [BitVec.toNat_sub]
    omega
  · rw [BitVec.lt_def] at h
    show 0 = _
    omega

/-- Scaling does not grow a component. -/
theorem toNat_scaleComponent_le {value : BitVec 64} {percent : ℕ} (h : percent ≤ 100) :
    (scaleComponent value percent).toNat ≤ value.toNat := by
  unfold scaleComponent
  split
  · exact le_rfl
  have hw : value.toNat / 100 * percent ≤ value.toNat / 100 * 100 :=
    Nat.mul_le_mul_left _ h
  have hr : value.toNat % 100 * percent ≤ value.toNat % 100 * 100 :=
    Nat.mul_le_mul_left _ h
  have hlt := value.isLt
  rw [BitVec.toNat_ofNat, Nat.mod_eq_of_lt] <;> omega

/-- Within a limit, resource by resource. -/
theorem fitsWithin_iff {v limit : HostResourceVector} :
    v.fitsWithin limit = true ↔ ∀ r, (v r).toNat ≤ (limit r).toNat := by
  unfold HostResourceVector.fitsWithin
  rw [List.all_eq_true]
  constructor
  · intro h r
    exact BitVec.le_def.mp (of_decide_eq_true (h r r.mem_all))
  · intro h r _
    exact decide_eq_true (BitVec.le_def.mpr (h r))

/-! ## Profiles -/

/-- The capacity of a host and the part of it that is never admitted. -/
structure HostResourceProfile where
  capacity : HostResourceVector
  safetyReserve : HostResourceVector
  reserve_fits : safetyReserve.fitsWithin capacity = true

namespace HostResourceProfile

/-- What may be given away: the capacity less the reserve. -/
def availableCapacity (p : HostResourceProfile) : HostResourceVector :=
  p.capacity.subtractClamped p.safetyReserve

/-- Only the capacity that is available is scaled. -/
def scaledAvailable (p : HostResourceProfile) (percent : ℕ) : HostResourceProfile where
  capacity := HostResourceVector.saturatingAdd
    (fun r => scaleComponent (p.availableCapacity r) percent) p.safetyReserve
  safetyReserve := p.safetyReserve
  reserve_fits := by
    rw [fitsWithin_iff]
    intro r
    have hlt := (p.safetyReserve r).isLt
    show _ ≤ (saturatingComponentAdd _ _).toNat
    rw [toNat_saturatingComponentAdd]
    omega

/-- A smaller profile gives away less. -/
theorem availableCapacity_scaledAvailable_le (p : HostResourceProfile) {percent : ℕ}
    (h : percent ≤ 100) (r : HostResource) :
    ((p.scaledAvailable percent).availableCapacity r).toNat ≤ (p.availableCapacity r).toNat := by
  have hscale := @toNat_scaleComponent_le (p.availableCapacity r) percent h
  show (clampedComponentSubtract (saturatingComponentAdd _ _) _).toNat ≤ _
  rw [toNat_clampedComponentSubtract, toNat_saturatingComponentAdd]
  show min (2 ^ 64 - 1) ((scaleComponent (p.availableCapacity r) percent).toNat
    + (p.safetyReserve r).toNat) - (p.safetyReserve r).toNat ≤ _
  omega

end HostResourceProfile

/-- A request for resources. Durations are milliseconds. -/
structure HostAdmissionRequest where
  ownerScope : String := ""
  operationId : String := ""
  resources : HostResourceVector
  priority : BitVec 8 := 0
  /-- Zero stands for the limit of the controller. -/
  maxPending : ℕ := 0
  queueTimeout : ℤ := 0
  fairnessWeight : BitVec 8 := 1

/-- The settings of a controller, with the checks of its constructor. -/
structure HostAdmissionControllerConfig where
  profile : HostResourceProfile
  maxPending : ℕ := 1024
  agingQuantum : ℕ := 100
  elevatedCapacityPercent : ℕ := 75
  criticalCapacityPercent : ℕ := 50
  recoveryStepPercent : ℕ := 10
  recoveryQuietPeriod : ℤ := 5000
  pending_valid : 0 < maxPending ∧ maxPending ≤ 65536 := by decide
  aging_valid : 0 < agingQuantum := by decide
  elevated_valid : 0 < elevatedCapacityPercent ∧ elevatedCapacityPercent ≤ 100 := by decide
  critical_valid : 0 < criticalCapacityPercent
    ∧ criticalCapacityPercent ≤ elevatedCapacityPercent := by decide
  recovery_valid : 0 < recoveryStepPercent ∧ recoveryStepPercent ≤ 100
    ∧ 0 < recoveryQuietPeriod := by decide

/-- What became of a waiter. -/
inductive WaiterState where
  | queued
  | granted
  | claimed
  | cancelled
deriving DecidableEq

/-- Times are nanoseconds of a steady clock. -/
structure Waiter where
  request : HostAdmissionRequest
  submittedAt : ℤ
  /-- The reservation that was granted; there is none with number zero. -/
  reservationId : ℕ := 0
  state : WaiterState := .queued

/-- How hard pressed the host is. -/
inductive HostPressureLevel where
  | normal
  | elevated
  | critical
deriving DecidableEq

/-- A reading of the pressure, and who took it. -/
structure HostPressureSample where
  level : HostPressureLevel
  observedAtMs : ℤ
  source : String := ""

/-- The state of a controller. -/
structure HostAdmissionController where
  nextReservationId : ℕ := 1
  /-- 64 bits in the source; no run makes 2^64 waiters. -/
  nextSequence : ℕ := 1
  /-- The live reservations. -/
  reservations : SortedMap ℕ HostResourceVector := ∅
  /-- The queue, by the sequence numbers of the waiters. -/
  waiters : List ℕ := []
  /-- Every waiter there ever was, by its sequence number. -/
  heap : SortedMap ℕ Waiter := ∅
  stopping : Bool := false
  pressureScalePercent : ℕ := 100
  pressureChangedAtMs : ℤ := 0
  baseProfile : HostResourceProfile
  /-- The profile under the present pressure. -/
  profile : HostResourceProfile
  reserved : HostResourceVector := fun _ => 0

/-- A reservation that an operation makes, for a waiter or for a request that
does not wait. -/
structure Grant where
  waiter : Option ℕ
  now : ℤ
  before : HostAdmissionController
  after : HostAdmissionController

/-- What an operation reports. -/
structure AdmissionOutput where
  grants : List Grant := []
  released : List ℕ := []

namespace HostAdmissionController

variable (cfg : HostAdmissionControllerConfig)

/-- A controller as it is constructed. -/
def ofConfig : HostAdmissionController where
  baseProfile := cfg.profile
  profile := cfg.profile

/-- A request fits into what is left. -/
def fits (s : HostAdmissionController) (requested : HostResourceVector) : Bool :=
  (s.reserved.saturatingAdd requested).fitsWithin s.profile.availableCapacity

/-- An admitted request gets an id of its own. -/
def reserve (s : HostAdmissionController) (requested : HostResourceVector) :
    HostAdmissionController :=
  { s with
    nextReservationId := s.nextReservationId + 1
    reserved := s.reserved.saturatingAdd requested
    reservations := s.reservations.insert s.nextReservationId requested }

def setState (s : HostAdmissionController) (sequence : ℕ) (state : WaiterState) :
    HostAdmissionController :=
  match s.heap.find? sequence with
  | none => s
  | some w => { s with heap := s.heap.insert sequence { w with state := state } }

/-! ## Scheduling -/

/-- The time that a waiter has waited, in milliseconds. -/
def elapsed (w : Waiter) (now : ℤ) : ℕ :=
  if w.submittedAt < now then ((now - w.submittedAt) / 1000000).toNat else 0

/-- The priority of a waiter grows with the time it waits. -/
def effectivePriority (w : Waiter) (now : ℤ) : ℕ :=
  let gains := elapsed w now / cfg.agingQuantum
  let weight := max 1 w.request.fairnessWeight.toNat
  let weightedGains := if (2 ^ 64 - 1) / weight < gains then 2 ^ 64 - 1 else gains * weight
  min 255 ((w.request.priority.toNat + weightedGains) % 2 ^ 64)

/-- A waiter replaces the one that is selected so far if it fits and has a higher
priority, or the same and an earlier sequence number. -/
def consider (s : HostAdmissionController) (now : ℤ) (selected : Option (ℕ × ℕ)) (sequence : ℕ) :
    Option (ℕ × ℕ) :=
  match s.heap.find? sequence with
  | none => selected
  | some w =>
    if w.state ≠ .queued || !s.fits w.request.resources then selected
    else
      match selected with
      | none => some (sequence, effectivePriority cfg w now)
      | some (chosen, priority) =>
        if priority < effectivePriority cfg w now
            || (effectivePriority cfg w now = priority && sequence < chosen) then
          some (sequence, effectivePriority cfg w now)
        else selected

/-- The waiter that comes next. -/
def select (s : HostAdmissionController) (now : ℤ) : Option ℕ :=
  (s.waiters.foldl (s.consider cfg now) none).map Prod.fst

/-- The waiter leaves the queue with a reservation. -/
def grantWaiter (s : HostAdmissionController) (sequence : ℕ) : HostAdmissionController :=
  match s.heap.find? sequence with
  | none => s
  | some w =>
    { s.reserve w.request.resources with
      waiters := s.waiters.erase sequence
      heap := s.heap.insert sequence
        { w with reservationId := s.nextReservationId, state := .granted } }

/-- Waiters are granted as long as one fits. Every round shortens the queue, so
its length bounds the rounds. -/
def scheduleLoop (now : ℤ) : ℕ → HostAdmissionController → HostAdmissionController × List Grant
  | 0, s => (s, [])
  | n + 1, s =>
    match s.select cfg now with
    | none => (s, [])
    | some sequence =>
      let rest := scheduleLoop now n (s.grantWaiter sequence)
      (rest.1, { waiter := some sequence, now := now, before := s, after := s.grantWaiter sequence }
        :: rest.2)

/-- Waiters are granted what they asked for, as long as they fit. -/
def schedule (s : HostAdmissionController) (now : ℤ) : HostAdmissionController × List Grant :=
  if s.stopping then (s, []) else scheduleLoop cfg now s.waiters.length s

/-! ## The operations -/

/-- The defaults and checks of a request. -/
def normalizeRequest (request : HostAdmissionRequest) (blocking : Bool) :
    Option HostAdmissionRequest :=
  let normal : HostAdmissionRequest :=
    { request with
      ownerScope := if request.ownerScope = "" then "anonymous" else request.ownerScope
      operationId := if request.operationId = "" then "unspecified" else request.operationId
      fairnessWeight := if request.fairnessWeight = 0 then 1 else request.fairnessWeight
      maxPending := if request.maxPending = 0 then cfg.maxPending else request.maxPending }
  if request.resources.empty || 512 < normal.ownerScope.utf8ByteSize
      || 512 < normal.operationId.utf8ByteSize || cfg.maxPending < normal.maxPending
      || (blocking && (request.queueTimeout ≤ 0 || 24 * 60 * 60 * 1000 < request.queueTimeout)) then
    none
  else some normal

/-- A request that does not wait is reserved. -/
def reserveNow (s : HostAdmissionController) (request : HostAdmissionRequest) (now : ℤ) :
    HostAdmissionController × AdmissionOutput :=
  (s.reserve request.resources,
    { grants :=
        [{ waiter := none, now := now, before := s, after := s.reserve request.resources }] })

/-- A new waiter goes to the end of the queue. -/
def push (s : HostAdmissionController) (request : HostAdmissionRequest) (now : ℤ) :
    HostAdmissionController :=
  { s with
    nextSequence := s.nextSequence + 1
    waiters := s.waiters ++ [s.nextSequence]
    heap := s.heap.insert s.nextSequence { request := request, submittedAt := now } }

/-- A state with what the scheduling of it grants. -/
def scheduled (s : HostAdmissionController) (now : ℤ) (released : List ℕ) :
    HostAdmissionController × AdmissionOutput :=
  ((s.schedule cfg now).1, { grants := (s.schedule cfg now).2, released := released })

/-- A request waits for its turn, which may come at once. -/
def enqueue (s : HostAdmissionController) (request : HostAdmissionRequest) (now : ℤ) :
    HostAdmissionController × AdmissionOutput :=
  match normalizeRequest cfg request true with
  | none => (s, {})
  | some request =>
    if s.stopping || !request.resources.fitsWithin s.profile.availableCapacity then (s, {})
    else if s.waiters.isEmpty && s.fits request.resources then s.reserveNow request now
    else if request.maxPending ≤ s.waiters.length then (s, {})
    else (s.push request now).scheduled cfg now []

/-- A request is granted at once or refused. -/
def tryReserve (s : HostAdmissionController) (request : HostAdmissionRequest) (now : ℤ) :
    HostAdmissionController × AdmissionOutput :=
  match normalizeRequest cfg request false with
  | none => (s, {})
  | some request =>
    if s.stopping || !request.resources.fitsWithin s.profile.availableCapacity then (s, {})
    else if !s.waiters.isEmpty || !s.fits request.resources then (s, {})
    else s.reserveNow request now

/-- The caller of a waiter takes its grant. -/
def claim (s : HostAdmissionController) (sequence : ℕ) : HostAdmissionController :=
  match s.heap.find? sequence with
  | none => s
  | some w => if w.state = .granted then s.setState sequence .claimed else s

/-- A reservation that is not live is released without effect. -/
def release (s : HostAdmissionController) (reservationId : ℕ) (now : ℤ) :
    HostAdmissionController × AdmissionOutput :=
  match s.reservations.find? reservationId with
  | none => (s, {})
  | some resources =>
    scheduled cfg
      { s with
        reservations := s.reservations.erase reservationId
        reserved := s.reserved.subtractClamped resources } now [reservationId]

/-- A waiter that is given up leaves the queue, or gives its reservation back. -/
def abandon (s : HostAdmissionController) (sequence : ℕ) (now : ℤ) :
    HostAdmissionController × AdmissionOutput :=
  match s.heap.find? sequence with
  | none => (s, {})
  | some w =>
    match w.state with
    | .queued =>
      scheduled cfg
        (setState { s with waiters := s.waiters.erase sequence } sequence .cancelled) now []
    | .granted =>
      ((s.release cfg w.reservationId now).1.setState sequence .cancelled,
        (s.release cfg w.reservationId now).2)
    | _ => (s, {})

/-- The base profile, scaled by the pressure. -/
def effectiveProfile (s : HostAdmissionController) (percent : ℕ) : HostResourceProfile :=
  if 100 ≤ percent then s.baseProfile else s.baseProfile.scaledAvailable percent

/-- A new profile, which may let waiters in. -/
def updateProfile (s : HostAdmissionController) (profile : HostResourceProfile) (now : ℤ) :
    HostAdmissionController × AdmissionOutput :=
  let s := { s with baseProfile := profile }
  scheduled cfg { s with profile := s.effectiveProfile s.pressureScalePercent } now []

def validToken (value : String) : Bool :=
  value ≠ "" && value.utf8ByteSize ≤ 128 && value.toList.all fun c =>
    ('a' ≤ c && c ≤ 'z') || ('A' ≤ c && c ≤ 'Z') || ('0' ≤ c && c ≤ '9')
      || c = '-' || c = '_' || c = '.' || c = ':'

/-- The scale changes at a sample. -/
def setScale (s : HostAdmissionController) (percent : ℕ) (observedAtMs : ℤ) :
    HostAdmissionController :=
  { s with
    pressureScalePercent := percent
    pressureChangedAtMs := observedAtMs
    profile := s.effectiveProfile percent }

/-- Pressure scales the capacity down at once; without pressure it grows again
step by step, after a quiet period each. -/
def applyPressure (s : HostAdmissionController) (level : HostPressureLevel) (observedAtMs : ℤ) :
    HostAdmissionController :=
  match level with
  | .critical => s.setScale cfg.criticalCapacityPercent observedAtMs
  | .elevated => s.setScale cfg.elevatedCapacityPercent observedAtMs
  | .normal =>
    if s.pressureScalePercent < 100 && s.pressureChangedAtMs ≤ observedAtMs
        && cfg.recoveryQuietPeriod ≤ observedAtMs - s.pressureChangedAtMs then
      s.setScale (min 100 (s.pressureScalePercent + cfg.recoveryStepPercent)) observedAtMs
    else s

/-- `nowMs` is the system clock, which stands in for a sample without a time. -/
def observePressure (s : HostAdmissionController) (sample : HostPressureSample) (nowMs now : ℤ) :
    HostAdmissionController × AdmissionOutput :=
  let observedAtMs := if sample.observedAtMs ≤ 0 then nowMs else sample.observedAtMs
  if (sample.source ≠ "" && !validToken sample.source) || s.stopping then (s, {})
  else if 0 < s.pressureChangedAtMs && observedAtMs < s.pressureChangedAtMs then (s, {})
  else (s.applyPressure cfg sample.level observedAtMs).scheduled cfg now []

/-- Nobody is admitted any more. -/
def shutdown (s : HostAdmissionController) : HostAdmissionController :=
  if s.stopping then s
  else
    { s.waiters.foldl (fun s sequence => s.setState sequence .cancelled) s with
      stopping := true
      waiters := [] }

end HostAdmissionController

/-- An operation of a client, with the clocks that it reads. -/
inductive AdmissionOp where
  | enqueue (request : HostAdmissionRequest) (now : ℤ)
  | tryReserve (request : HostAdmissionRequest) (now : ℤ)
  | claim (sequence : ℕ)
  | abandon (sequence : ℕ) (now : ℤ)
  | release (reservationId : ℕ) (now : ℤ)
  | updateProfile (profile : HostResourceProfile) (now : ℤ)
  | observePressure (sample : HostPressureSample) (nowMs now : ℤ)
  | shutdown

namespace HostAdmissionController

variable (cfg : HostAdmissionControllerConfig)

/-- An operation of the interface. -/
def step (s : HostAdmissionController) : AdmissionOp → HostAdmissionController × AdmissionOutput
  | .enqueue request now => s.enqueue cfg request now
  | .tryReserve request now => s.tryReserve cfg request now
  | .claim sequence => (s.claim sequence, {})
  | .abandon sequence now => s.abandon cfg sequence now
  | .release reservationId now => s.release cfg reservationId now
  | .updateProfile profile now => s.updateProfile cfg profile now
  | .observePressure sample nowMs now => s.observePressure cfg sample nowMs now
  | .shutdown => (s.shutdown, {})

/-- The state after a sequence of operations. -/
def run (ops : List AdmissionOp) : HostAdmissionController :=
  ops.foldl (fun s op => (s.step cfg op).1) (ofConfig cfg)

/-- The reservations released along a sequence of operations. -/
def released : HostAdmissionController → List AdmissionOp → List ℕ
  | _, [] => []
  | s, op :: ops => (s.step cfg op).2.released ++ released (s.step cfg op).1 ops

end HostAdmissionController

end NeoGraph.Host
