import NeoGraph.Program.PendingSchema

/-!
# Pending inputs and effects

A program that waits for the result of a call records the call as a value:
a `ProgramPendingInput` for input of a user or the result of a capability,
a `ProgramPendingEffect` for an effect whose outcome may become unknown.
The values are immutable. Every operation answers with a disposition and
the value that holds from then on, and a new value is normalised, and so
checked, when it is constructed: `valid` keeps that.

A record is stored in canonical JSON (`serializeCanonical`) and read back
by `parse`; two records are equal when their canonical bytes are.
-/

namespace NeoGraph.Program.Pending

open CanonicalJson

/-! ## Data -/

/-- What a run waits for. -/
inductive ProgramPendingInputKind where
  | input
  | capabilityResult
deriving DecidableEq

/-- How far a pending input or effect is. -/
inductive ProgramPendingState where
  | awaiting
  | consumed
  | expired
  | cancelled
  | ambiguous
deriving DecidableEq

/-- Who carries out an effect. -/
inductive EffectMode where
  | brokered
  | trustedNative
deriving DecidableEq

/-- Whether an effect may be carried out twice. -/
inductive ProgramEffectIdempotency where
  | idempotent
  | nonIdempotent
deriving DecidableEq

/-- What was found out about an effect whose outcome was unknown. -/
inductive ProgramEffectReconciliation where
  | none
  | completed
  | failed
  | unknown
deriving DecidableEq

/-- What a call did. -/
inductive ProgramPendingDisposition where
  | applied
  | duplicate
  | conflict
  | wrongPendingId
  | schemaMismatch
  | expired
  | cancelled
  | notAwaiting
deriving DecidableEq

/-- What both kinds of pending calls record. -/
structure ProgramPendingCall where
  operationId : Bytes
  callId : Bytes
  resultSchema : Json Bytes
  payload : Json Bytes
  expiresAtUnixMs : Option UInt64
  coreNode : Bytes
  coreInterruptValue : Json Bytes
  coreInterruptId : Bytes
  state : ProgramPendingState
  /-- The authoritative result: `consumed_result` of an input,
  `reconciled_result` of an effect. -/
  result : Option (Json Bytes)

/-- The content of a pending input. -/
structure ProgramPendingInputData extends ProgramPendingCall where
  kind : ProgramPendingInputKind

/-- The content of a pending effect. -/
structure ProgramPendingEffectData extends ProgramPendingCall where
  effectId : Bytes
  effectMode : EffectMode
  idempotency : ProgramEffectIdempotency
  reconciliation : ProgramEffectReconciliation

/-! ## Normalisation -/

/-- The copy of a result, if there is one. -/
def copyResult : Option (Json Bytes) → Except Exn (Option (Json Bytes))
  | none => .ok none
  | some result => do
    let result ← ownedJsonCopy result
    .ok (some result)

/-- The expiry of a call, when there is one, is positive. -/
def expiryPositive (expiry : Option UInt64) : Bool := expiry ≠ some 0

/-- The result is there and passes the schema. -/
def resultMatches (what : String) (result : Option (Json Bytes))
    (schema : Json Bytes) : Except Exn Unit :=
  match result with
  | none => .ok ()
  | some result =>
    match valueMatchesSchema result schema with
    | .ok () => .ok ()
    | .error (.invalidArgument failure) => .error (.invalidArgument (what ++ failure))
    | .error failure => .error failure

/-- The copies and checks both kinds of calls go through, with the names
they are reported under. -/
def normalizeCall (name : String) (call : ProgramPendingCall) : Except Exn ProgramPendingCall := do
  let resultSchema ← ownedJsonCopy call.resultSchema
  let payload ← ownedJsonCopy call.payload
  let coreInterruptValue ← ownedJsonCopy call.coreInterruptValue
  validateSchema (maxSchemaDepth + 1) "$schema" resultSchema
  require (expiryPositive call.expiresAtUnixMs)
    ("Program pending " ++ name ++ "expiry must be positive when present")
  let result ← copyResult call.result
  .ok { call with resultSchema, payload, coreInterruptValue, result }

/-- **An input is refused** by the first check that fails. -/
def normalizeInput (data : ProgramPendingInputData) : Except Exn ProgramPendingInputData := do
  validateToken data.operationId "Program pending operation_id"
  validateToken data.callId "Program pending call_id"
  validateToken data.coreNode "Program pending Core node"
  let call ← normalizeCall "" data.toProgramPendingCall
  require (!(call.state = .consumed && call.result.isNone))
    "Consumed Program pending input requires its authoritative result"
  resultMatches "Consumed Program pending input violates result_schema: "
    call.result call.resultSchema
  require (!(call.state ≠ .consumed && call.result.isSome))
    "Only consumed Program pending input may carry a result"
  require (!(call.state = .ambiguous)) "Program pending input cannot be ambiguous"
  .ok { data with toProgramPendingCall := call }

/-- What an effect in some state may carry. -/
def checkReconciliation (call : ProgramPendingCall) (idempotency : ProgramEffectIdempotency)
    (reconciliation : ProgramEffectReconciliation) : Except Exn Unit :=
  match call.state with
  | .consumed => do
    require (reconciliation = .completed || reconciliation = .failed)
      "Consumed Program pending effect requires completed or failed reconciliation"
    require (!(reconciliation = .completed && call.result.isNone))
      "Completed Program effect reconciliation requires a result"
    if reconciliation = .completed then
      resultMatches "Completed Program effect result violates result_schema: "
        call.result call.resultSchema
    else require call.result.isNone "Failed Program effect reconciliation cannot carry a result"
  | .ambiguous => do
    require (idempotency = .nonIdempotent)
      "Only non-idempotent Program effects may be ambiguous"
    require (!(reconciliation = .completed || reconciliation = .failed || call.result.isSome))
      "Ambiguous Program effect cannot carry a terminal reconciliation"
  | _ => require (!(reconciliation ≠ .none || call.result.isSome))
      "Non-terminal Program pending effect cannot carry reconciliation state"

/-- **An effect is refused** by the first check that fails. -/
def normalizeEffect (data : ProgramPendingEffectData) : Except Exn ProgramPendingEffectData := do
  validateToken data.operationId "Program pending effect operation_id"
  validateToken data.callId "Program pending effect call_id"
  validateToken data.effectId "Program pending effect effect_id"
  validateToken data.coreNode "Program pending effect Core node"
  let call ← normalizeCall "effect " data.toProgramPendingCall
  checkReconciliation call data.idempotency data.reconciliation
  .ok { data with toProgramPendingCall := call }

/-- Normalising keeps a call as it is: the copies are equal values. -/
theorem normalizeCall_eq_ok {name : String} {call call' : ProgramPendingCall} :
    normalizeCall name call = .ok call'
      ↔ ((∃ v, ownedJsonCopy call.resultSchema = .ok v) ∧ (∃ v, ownedJsonCopy call.payload = .ok v)
        ∧ (∃ v, ownedJsonCopy call.coreInterruptValue = .ok v)
        ∧ validateSchema (maxSchemaDepth + 1) "$schema" call.resultSchema = .ok ()
        ∧ expiryPositive call.expiresAtUnixMs = true
        ∧ ∀ r, call.result = some r → ∃ v, ownedJsonCopy r = .ok v) ∧ call' = call := by
  have hc : ∀ v w, ownedJsonCopy v = .ok w → w = v :=
    fun v w h => (ownedJsonCopy_eq_ok.mp h).2.2
  unfold normalizeCall
  constructor
  · intro h
    simp only [↓bind_unit_eq_ok, bind_eq_ok] at h
    obtain ⟨schema, hsch, payload, hpay, interrupt, hint, hvd, he, result,
      hres, h⟩ := h
    cases h
    obtain rfl := hc _ _ hsch
    obtain rfl := hc _ _ hpay
    obtain rfl := hc _ _ hint
    have hsm : result = call.result ∧ ∀ r, call.result = some r → ∃ v, ownedJsonCopy r = .ok v := by
      cases hr : call.result with
      | none =>
        rw [hr] at hres
        cases hres
        exact ⟨rfl, by simp⟩
      | some r =>
        rw [hr] at hres
        obtain ⟨v, hv, hres⟩ := bind_eq_ok.mp hres
        cases hres
        refine ⟨by rw [hc _ _ hv], fun r' hr' => ?_⟩
        cases hr'
        exact ⟨v, hv⟩
    obtain ⟨rfl, hs⟩ := hsm
    exact ⟨⟨⟨_, hsch⟩, ⟨_, hpay⟩, ⟨_, hint⟩, hvd, require_eq_ok.mp he, hs⟩,
      rfl⟩
  · rintro ⟨⟨⟨schema, hsch⟩, ⟨payload, hpay⟩, ⟨interrupt, hint⟩, hvd, he,
      hs⟩, rfl⟩
    obtain rfl := hc _ _ hsch
    obtain rfl := hc _ _ hpay
    obtain rfl := hc _ _ hint
    have hres : copyResult call'.result = .ok call'.result := by
      cases hr : call'.result with
      | none => rfl
      | some r =>
        obtain ⟨v, hv⟩ := hs r hr
        obtain rfl := hc _ _ hv
        unfold copyResult
        dsimp only
        rw [hv]
        rfl
    rw [hsch, hpay, hint]
    simp only [bind, Except.bind]
    rw [hvd]
    simp only [require, he, if_true]
    rw [hres]

/-- What the checks of an input's state ask for. -/
def InputStateOk (call : ProgramPendingCall) : Prop :=
  (call.state = .consumed ↔ call.result.isSome = true) ∧ call.state ≠ .ambiguous
    ∧ ∀ r, call.result = some r → valueMatchesSchema r call.resultSchema = .ok ()

/-- A result that is there satisfies its schema. -/
theorem resultMatches_eq_ok {what : String} {result : Option (Json Bytes)} {schema : Json Bytes} :
    resultMatches what result schema = .ok ()
      ↔ ∀ r, result = some r → valueMatchesSchema r schema = .ok () := by
  cases result with
  | none => simp [resultMatches]
  | some r =>
    unfold resultMatches
    dsimp only
    cases hm : valueMatchesSchema r schema with
    | ok u => simp [hm]
    | error failure =>
      cases failure <;> simp [hm]

/-- The checks of an input. -/
theorem normalizeInput_eq_ok {data data' : ProgramPendingInputData} :
    normalizeInput data = .ok data'
      ↔ (validateToken data.operationId "Program pending operation_id" = .ok ()
        ∧ validateToken data.callId "Program pending call_id" = .ok ()
        ∧ validateToken data.coreNode "Program pending Core node" = .ok ()
        ∧ normalizeCall "" data.toProgramPendingCall = .ok data.toProgramPendingCall
        ∧ InputStateOk data.toProgramPendingCall) ∧ data' = data := by
  have hst : ∀ call : ProgramPendingCall,
      ((!(call.state = .consumed && call.result.isNone : Bool)) = true
        ∧ (!(call.state ≠ .consumed && call.result.isSome : Bool)) = true)
      ↔ (call.state = .consumed ↔ call.result.isSome = true) := by
    intro call
    cases hr : call.result <;> simp
  unfold normalizeInput InputStateOk
  constructor
  · intro h
    simp only [bind_unit_eq_ok] at h
    obtain ⟨hop, hc, hnd, h⟩ := h
    obtain ⟨call, hnrm, h⟩ := bind_eq_ok.mp h
    simp only [bind_unit_eq_ok] at h
    obtain ⟨hmissing, hm, he, hamb, h⟩ := h
    cases h
    obtain ⟨-, rfl⟩ := normalizeCall_eq_ok.mp hnrm
    have hamb := require_eq_ok.mp hamb
    exact ⟨⟨hop, hc, hnd, hnrm,
      (hst _).mp ⟨require_eq_ok.mp hmissing, require_eq_ok.mp he⟩,
      by simpa using hamb, resultMatches_eq_ok.mp hm⟩, rfl⟩
  · rintro ⟨⟨hop, hc, hnd, hnrm, hco, hamb, hm⟩, rfl⟩
    obtain ⟨hmissing, he⟩ := (hst _).mpr hco
    refine bind_unit_eq_ok.mpr ⟨hop, bind_unit_eq_ok.mpr ⟨hc, ?_⟩⟩
    refine bind_unit_eq_ok.mpr ⟨hnd, bind_eq_ok.mpr ⟨_, hnrm, ?_⟩⟩
    refine bind_unit_eq_ok.mpr ⟨require_eq_ok.mpr hmissing, ?_⟩
    refine bind_unit_eq_ok.mpr ⟨resultMatches_eq_ok.mpr hm, ?_⟩
    refine bind_unit_eq_ok.mpr ⟨require_eq_ok.mpr he, ?_⟩
    exact bind_unit_eq_ok.mpr ⟨require_eq_ok.mpr (by simpa using hamb), rfl⟩

/-- The checks of an effect. -/
theorem normalizeEffect_eq_ok {data data' : ProgramPendingEffectData} :
    normalizeEffect data = .ok data'
      ↔ (validateToken data.operationId "Program pending effect operation_id" = .ok ()
        ∧ validateToken data.callId "Program pending effect call_id" = .ok ()
        ∧ validateToken data.effectId "Program pending effect effect_id" = .ok ()
        ∧ validateToken data.coreNode "Program pending effect Core node" = .ok ()
        ∧ normalizeCall "effect " data.toProgramPendingCall = .ok data.toProgramPendingCall
        ∧ checkReconciliation data.toProgramPendingCall data.idempotency data.reconciliation
          = .ok ()) ∧ data' = data := by
  unfold normalizeEffect
  constructor
  · intro h
    simp only [bind_unit_eq_ok] at h
    obtain ⟨hop, hc, heff, hnd, h⟩ := h
    simp only [↓bind_unit_eq_ok, bind_eq_ok] at h
    obtain ⟨call, hnrm, hr, h⟩ := h
    cases h
    obtain ⟨-, rfl⟩ := normalizeCall_eq_ok.mp hnrm
    exact ⟨⟨hop, hc, heff, hnd, hnrm, hr⟩, rfl⟩
  · rintro ⟨⟨hop, hc, heff, hnd, hnrm, hr⟩, rfl⟩
    refine bind_unit_eq_ok.mpr ⟨hop, bind_unit_eq_ok.mpr ⟨hc, ?_⟩⟩
    refine bind_unit_eq_ok.mpr ⟨heff, bind_unit_eq_ok.mpr ⟨hnd, ?_⟩⟩
    exact bind_eq_ok.mpr ⟨_, hnrm, bind_unit_eq_ok.mpr ⟨hr, rfl⟩⟩

/-! ## Values -/

/-- **A pending input.** -/
structure ProgramPendingInput where
  data : ProgramPendingInputData
  valid : normalizeInput data = .ok data

/-- **A pending effect.** -/
structure ProgramPendingEffect where
  data : ProgramPendingEffectData
  valid : normalizeEffect data = .ok data

/-- The constructor: it normalises its data. -/
def ProgramPendingInput.make (data : ProgramPendingInputData) : Except Exn ProgramPendingInput :=
  match h : normalizeInput data with
  | .ok data' => .ok ⟨data', (normalizeInput_eq_ok.mp h).2 ▸ (normalizeInput_eq_ok.mp h).2 ▸ h⟩
  | .error failure => .error failure

/-- An effect that passes its checks. -/
def ProgramPendingEffect.make (data : ProgramPendingEffectData) : Except Exn ProgramPendingEffect :=
  match h : normalizeEffect data with
  | .ok data' => .ok ⟨data', (normalizeEffect_eq_ok.mp h).2 ▸ (normalizeEffect_eq_ok.mp h).2 ▸ h⟩
  | .error failure => .error failure

/-- A constructed value holds the data it was constructed from. -/
theorem ProgramPendingInput.make_eq_ok {data : ProgramPendingInputData} {v : ProgramPendingInput} :
    make data = .ok v ↔ normalizeInput data = .ok data ∧ v.data = data := by
  unfold make
  split
  · rename_i data' h
    obtain ⟨-, rfl⟩ := normalizeInput_eq_ok.mp h
    constructor
    · intro hv
      cases hv
      exact ⟨h, rfl⟩
    · rintro ⟨-, hv⟩
      obtain ⟨data, valid⟩ := v
      cases hv
      rfl
  · rename_i failure h
    constructor
    · rintro ⟨⟩
    · rintro ⟨hok, -⟩
      rw [h] at hok
      cases hok

theorem ProgramPendingEffect.make_eq_ok {data : ProgramPendingEffectData}
    {v : ProgramPendingEffect} :
    make data = .ok v ↔ normalizeEffect data = .ok data ∧ v.data = data := by
  unfold make
  split
  · rename_i data' h
    obtain ⟨-, rfl⟩ := normalizeEffect_eq_ok.mp h
    constructor
    · intro hv
      cases hv
      exact ⟨h, rfl⟩
    · rintro ⟨-, hv⟩
      obtain ⟨data, valid⟩ := v
      cases hv
      rfl
  · rename_i failure h
    constructor
    · rintro ⟨⟩
    · rintro ⟨hok, -⟩
      rw [h] at hok
      cases hok

/-- The answer of a call on an input. -/
structure ProgramPendingInputUpdate where
  disposition : ProgramPendingDisposition
  value : ProgramPendingInput
  diagnosticCode : String
  message : String

/-- The answer of a call on an effect. -/
structure ProgramPendingEffectUpdate where
  disposition : ProgramPendingDisposition
  value : ProgramPendingEffect
  diagnosticCode : String
  message : String

/-- It has run out, if it ever does. -/
def isExpired (expiry : Option UInt64) (now : UInt64) : Bool :=
  match expiry with
  | some expiry => expiry ≤ now
  | none => false

/-- The text a failed check of a result is reported with. -/
def schemaError : Exn → String
  | .invalidArgument what => what
  | .logicError what => what
  | .runtimeError what => what
  | .lengthError what => what

section Operations

variable (appendFloat : UInt64 → Except Exn Bytes)

/-- Two values with the same canonical text. -/
def sameCanonicalJson (lhs rhs : Json Bytes) : Except Exn Bool := do
  let lhs ← canonicalJsonBytes appendFloat lhs
  let rhs ← canonicalJsonBytes appendFloat rhs
  .ok (lhs = rhs)

def sameCanonicalOptionalJson (lhs rhs : Option (Json Bytes)) : Except Exn Bool :=
  match lhs, rhs with
  | some lhs, some rhs => sameCanonicalJson appendFloat lhs rhs
  | none, none => .ok true
  | _, _ => .ok false

/-! ## Operations of an input -/

namespace ProgramPendingInput

/-- An answer that leaves the value as it is. -/
def keep (v : ProgramPendingInput) (disposition : ProgramPendingDisposition)
    (code message : String) : Except Exn ProgramPendingInputUpdate :=
  .ok ⟨disposition, v, code, message⟩

/-- An answer with a value constructed from new data. -/
def publish (data : ProgramPendingInputData) (disposition : ProgramPendingDisposition)
    (code message : String) : Except Exn ProgramPendingInputUpdate := do
  let value ← make data
  .ok ⟨disposition, value, code, message⟩

/-- A result that comes while an input is awaited. -/
def submitAwaiting (v : ProgramPendingInput) (result : Json Bytes) (now : UInt64) :
    Except Exn ProgramPendingInputUpdate :=
  if isExpired v.data.expiresAtUnixMs now then
    publish { v.data with state := .expired } .expired "P_PENDING_EXPIRED"
      "Late result rejected and pending input published as expired"
  else match valueMatchesSchema result v.data.resultSchema with
    | .error failure => v.keep .schemaMismatch "P_PENDING_SCHEMA_MISMATCH" (schemaError failure)
    | .ok () => do
      let result ← ownedJsonCopy result
      publish { v.data with state := .consumed, result := some result } .applied
        "P_PENDING_ACCEPTED" "Pending result accepted"

/-- **A result is submitted.** Only the first one that fits is taken. -/
def submit (v : ProgramPendingInput) (submittedCallId : Bytes) (result : Json Bytes)
    (now : UInt64) : Except Exn ProgramPendingInputUpdate :=
  if submittedCallId ≠ v.data.callId then
    v.keep .wrongPendingId "P_PENDING_ID_MISMATCH"
      "Submitted call_id does not match the exact pending call"
  else match v.data.state with
    | .consumed => do
      let same ← sameCanonicalJson appendFloat (v.data.result.getD .null) result
      if same then
        v.keep .duplicate "P_PENDING_DUPLICATE"
          "Exact duplicate pending result is already authoritative"
      else
        v.keep .conflict "P_PENDING_CONFLICT"
          "Conflicting duplicate cannot replace the authoritative result"
    | .expired => v.keep .expired "P_PENDING_EXPIRED"
        "Late result rejected because the pending input expired"
    | .cancelled => v.keep .cancelled "P_PENDING_CANCELLED"
        "Result rejected because the pending input was cancelled"
    | .ambiguous => v.keep .notAwaiting "P_PENDING_NOT_AWAITING"
        "Program is not awaiting this input"
    | .awaiting => v.submitAwaiting result now

/-- What waits too long runs out. -/
def expire (v : ProgramPendingInput) (now : UInt64) : Except Exn ProgramPendingInputUpdate :=
  if v.data.state = .expired then
    v.keep .duplicate "P_PENDING_EXPIRED" "Pending input is already expired"
  else if v.data.state ≠ .awaiting || !isExpired v.data.expiresAtUnixMs now then
    v.keep .notAwaiting "P_PENDING_NOT_EXPIRED" "Pending input has no elapsed expiry"
  else publish { v.data with state := .expired } .expired "P_PENDING_EXPIRED"
    "Pending input published as expired"

/-- What waits can be given up. -/
def cancel (v : ProgramPendingInput) : Except Exn ProgramPendingInputUpdate :=
  if v.data.state = .cancelled then
    v.keep .duplicate "P_PENDING_CANCELLED" "Pending cancellation was already applied"
  else if v.data.state ≠ .awaiting then
    v.keep .notAwaiting "P_PENDING_NOT_AWAITING" "Only awaiting input can be cancelled"
  else publish { v.data with state := .cancelled } .applied "P_PENDING_CANCELLED"
    "Pending cancellation applied"

end ProgramPendingInput

/-! ## Operations of an effect -/

namespace ProgramPendingEffect

def keep (v : ProgramPendingEffect) (disposition : ProgramPendingDisposition)
    (code message : String) : Except Exn ProgramPendingEffectUpdate :=
  .ok ⟨disposition, v, code, message⟩

def publish (data : ProgramPendingEffectData) (disposition : ProgramPendingDisposition)
    (code message : String) : Except Exn ProgramPendingEffectUpdate := do
  let value ← make data
  .ok ⟨disposition, value, code, message⟩

/-- A result for an effect that still waits. -/
def submitAwaiting (v : ProgramPendingEffect) (result : Json Bytes) (now : UInt64) :
    Except Exn ProgramPendingEffectUpdate :=
  if isExpired v.data.expiresAtUnixMs now then
    publish { v.data with state := .expired } .expired "P_PENDING_EXPIRED"
      "Late effect result rejected and effect published as expired"
  else match valueMatchesSchema result v.data.resultSchema with
    | .error failure => v.keep .schemaMismatch "P_PENDING_SCHEMA_MISMATCH" (schemaError failure)
    | .ok () => do
      let result ← ownedJsonCopy result
      publish { v.data with state := .consumed, reconciliation := .completed,
                            result := some result } .applied
        "P_PENDING_ACCEPTED" "Pending effect result accepted"

/-- **A result of an effect is submitted.** -/
def submit (v : ProgramPendingEffect) (submittedCallId submittedEffectId : Bytes)
    (result : Json Bytes) (now : UInt64) : Except Exn ProgramPendingEffectUpdate :=
  if submittedCallId ≠ v.data.callId || submittedEffectId ≠ v.data.effectId then
    v.keep .wrongPendingId "P_PENDING_ID_MISMATCH"
      "Submitted call/effect identity does not match the exact pending effect"
  else match v.data.state with
    | .consumed =>
      if v.data.reconciliation = .completed then do
        let same ← sameCanonicalJson appendFloat (v.data.result.getD .null) result
        if same then
          v.keep .duplicate "P_PENDING_DUPLICATE"
            "Exact duplicate effect result is already authoritative"
        else
          v.keep .conflict "P_PENDING_CONFLICT"
            "Conflicting duplicate cannot replace the authoritative effect result"
      else v.keep .conflict "P_PENDING_CONFLICT"
        "Conflicting duplicate cannot replace the authoritative effect result"
    | .expired => v.keep .expired "P_PENDING_EXPIRED" "Late effect result rejected after expiry"
    | .cancelled => v.keep .cancelled "P_PENDING_CANCELLED"
        "Effect result rejected after cancellation"
    | .ambiguous => v.keep .notAwaiting "P_EFFECT_RECONCILIATION_REQUIRED"
        "Ambiguous effect requires explicit reconciliation"
    | .awaiting => v.submitAwaiting result now

/-- The outcome of the dispatch of an effect is not known. -/
def markOutcomeUnknown (v : ProgramPendingEffect) (now : UInt64) :
    Except Exn ProgramPendingEffectUpdate :=
  match v.data.state with
  | .ambiguous => v.keep .duplicate "P_EFFECT_AMBIGUOUS" "Effect outcome is already ambiguous"
  | .expired => v.keep .expired "P_PENDING_EXPIRED" "Expired effect cannot be dispatched again"
  | .cancelled => v.keep .cancelled "P_PENDING_CANCELLED"
      "Cancelled effect cannot be dispatched again"
  | .consumed => v.keep .notAwaiting "P_PENDING_NOT_AWAITING" "Effect is not awaiting an outcome"
  | .awaiting =>
    if v.data.idempotency = .nonIdempotent then
      publish { v.data with state := .ambiguous, reconciliation := .none } .applied
        "P_EFFECT_AMBIGUOUS" "Non-idempotent unknown outcome published as ambiguous"
    else if isExpired v.data.expiresAtUnixMs now then
      publish { v.data with state := .expired } .expired "P_PENDING_EXPIRED"
        "Pending idempotent effect published as expired"
    else v.keep .notAwaiting "P_EFFECT_RETRY_PERMITTED"
      "Idempotent unknown outcome does not require ambiguity publication"

/-- An ambiguous effect is reconciled. -/
def reconcileAmbiguous (v : ProgramPendingEffect) (resolution : ProgramEffectReconciliation)
    (result : Option (Json Bytes)) : Except Exn ProgramPendingEffectUpdate :=
  match resolution, result with
  | .none, _ => v.keep .schemaMismatch "P_EFFECT_RECONCILIATION_INVALID"
      "Effect reconciliation must be completed, failed, or unknown"
  | .unknown, some _ => v.keep .schemaMismatch "P_EFFECT_RECONCILIATION_INVALID"
      "Unknown effect reconciliation cannot carry a result"
  | .unknown, none =>
    if v.data.reconciliation = .unknown then
      v.keep .duplicate "P_EFFECT_RECONCILIATION_DUPLICATE"
        "Unknown reconciliation is already recorded"
    else publish { v.data with reconciliation := .unknown } .applied
      "P_EFFECT_RECONCILIATION_UNKNOWN" "Unknown reconciliation recorded; effect remains ambiguous"
  | .failed, some _ => v.keep .schemaMismatch "P_EFFECT_RECONCILIATION_INVALID"
      "Failed effect reconciliation cannot carry a result"
  | .failed, none => publish { v.data with state := .consumed, reconciliation := .failed } .applied
      "P_EFFECT_RECONCILED_FAILED" "Effect reconciled as failed"
  | .completed, none => v.keep .schemaMismatch "P_EFFECT_RECONCILIATION_INVALID"
      "Completed effect reconciliation requires a result"
  | .completed, some result =>
    match valueMatchesSchema result v.data.resultSchema with
    | .error failure => v.keep .schemaMismatch "P_PENDING_SCHEMA_MISMATCH" (schemaError failure)
    | .ok () => do
      let result ← ownedJsonCopy result
      publish { v.data with state := .consumed, reconciliation := .completed,
                            result := some result } .applied
        "P_EFFECT_RECONCILED_COMPLETED" "Effect reconciled as completed"

/-- The same reconciliation was made before. -/
def sameReconciliation (v : ProgramPendingEffect) (resolution : ProgramEffectReconciliation)
    (result : Option (Json Bytes)) : Except Exn Bool :=
  if resolution = v.data.reconciliation then
    sameCanonicalOptionalJson appendFloat result v.data.result
  else .ok false

/-- A reconciliation; ambiguity has no expiry, so the clock is not read. -/
def reconcile (v : ProgramPendingEffect) (submittedCallId submittedEffectId : Bytes)
    (resolution : ProgramEffectReconciliation) (result : Option (Json Bytes)) :
    Except Exn ProgramPendingEffectUpdate :=
  if submittedCallId ≠ v.data.callId || submittedEffectId ≠ v.data.effectId then
    v.keep .wrongPendingId "P_PENDING_ID_MISMATCH"
      "Submitted call/effect identity does not match the exact pending effect"
  else match v.data.state with
    | .consumed => do
      let same ← v.sameReconciliation appendFloat resolution result
      if same then
        v.keep .duplicate "P_EFFECT_RECONCILIATION_DUPLICATE"
          "Exact duplicate reconciliation is already authoritative"
      else
        v.keep .conflict "P_EFFECT_RECONCILIATION_CONFLICT"
          "Conflicting reconciliation cannot replace the authoritative result"
    | .expired => v.keep .expired "P_PENDING_EXPIRED"
        "Late effect reconciliation rejected after expiry"
    | .cancelled => v.keep .cancelled "P_PENDING_CANCELLED"
        "Effect reconciliation rejected after cancellation"
    | .awaiting => v.keep .notAwaiting "P_EFFECT_NOT_AMBIGUOUS"
        "Only an ambiguous effect accepts explicit reconciliation"
    | .ambiguous => v.reconcileAmbiguous resolution result

/-- An effect whose outcome is unknown does not run out. -/
def expire (v : ProgramPendingEffect) (now : UInt64) : Except Exn ProgramPendingEffectUpdate :=
  if v.data.state = .expired then
    v.keep .duplicate "P_PENDING_EXPIRED" "Pending effect is already expired"
  else if v.data.state ≠ .awaiting || !isExpired v.data.expiresAtUnixMs now then
    if v.data.state = .ambiguous then
      v.keep .notAwaiting "P_EFFECT_RECONCILIATION_REQUIRED"
        "Ambiguous effect persists until explicit reconciliation"
    else v.keep .notAwaiting "P_PENDING_NOT_EXPIRED" "Pending effect has no elapsed expiry"
  else publish { v.data with state := .expired, reconciliation := .none } .expired
    "P_PENDING_EXPIRED" "Pending effect published as expired"

/-- Nor can it be given up. -/
def cancel (v : ProgramPendingEffect) : Except Exn ProgramPendingEffectUpdate :=
  if v.data.state = .cancelled then
    v.keep .duplicate "P_PENDING_CANCELLED" "Pending effect cancellation was already applied"
  else if v.data.state ≠ .awaiting then
    if v.data.state = .ambiguous then
      v.keep .notAwaiting "P_EFFECT_RECONCILIATION_REQUIRED"
        "Ambiguous effect cannot be erased by cancellation"
    else v.keep .notAwaiting "P_PENDING_NOT_AWAITING" "Only an awaiting effect can be cancelled"
  else publish { v.data with state := .cancelled, reconciliation := .none } .applied
    "P_PENDING_CANCELLED" "Pending effect cancellation applied"

end ProgramPendingEffect

end Operations

end NeoGraph.Program.Pending
