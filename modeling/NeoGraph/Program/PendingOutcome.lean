import NeoGraph.Lib.Machine
import NeoGraph.Program.PendingStorage

/-!
# A pending call has at most one outcome

Calls on a pending input or effect, in any order and with any arguments,
each on the value the previous one returned. No call throws; a value that
was consumed, expired or cancelled stays as it is; a result becomes
authoritative only for the exact call, in time and when it passes the
schema, and from then on it is the only one; only a non-idempotent effect
becomes ambiguous, and only a reconciliation resolves it.

A value is stored and read back as an equal one if the result that became
authoritative passes the schema in canonical form too (`Storable`), and then
answers every later call alike as far as the schema decides alike on the
results it judges (`Decides`, `Stable`). A floating-point number of integral
value is written as an integer, and a schema can tell the two apart.
-/

namespace NeoGraph.Program.Pending

open CanonicalJson Option ProgramPendingInputUpdate Json

/-! ## Values with the same text -/

section SameText

variable (appendFloat : UInt64 → Except Exn Bytes)

/-- Two values are written in the same way and charged alike. -/
def SameText (v w : Json Bytes) : Prop :=
  appendValue appendFloat v = appendValue appendFloat w ∧ valueSize v = valueSize w
    ∧ ∀ depth, WithinDepth v depth ↔ WithinDepth w depth

variable {appendFloat}

theorem SameText.refl (v : Json Bytes) : SameText appendFloat v v :=
  ⟨rfl, rfl, fun _ => Iff.rfl⟩

/-- Values with the same text have the same canonical bytes. -/
theorem SameText.canonicalJsonBytes {v w : Json Bytes} (h : SameText appendFloat v w)
    {bytes : Bytes} : CanonicalJson.canonicalJsonBytes appendFloat v = .ok bytes
      ↔ CanonicalJson.canonicalJsonBytes appendFloat w = .ok bytes := by
  obtain ⟨ht, hsz, hdp⟩ := h
  rw [canonicalJsonBytes_eq_ok, canonicalJsonBytes_eq_ok, ht]
  unfold WithinLimits
  rw [hsz, hdp 1]

/-- Objects whose members have the same texts have one text. -/
theorem sameText_obj {members members' : List (Bytes × Json Bytes)}
    (h : List.Forall₂ (fun m n => m.1 = n.1 ∧ SameText appendFloat m.2 n.2) members members') :
    SameText appendFloat (.obj members) (.obj members') := by
  have ha : memberTexts appendFloat members = memberTexts appendFloat members'
      ∧ (∀ first, membersSize members first = membersSize members' first)
      ∧ ∀ depth, WithinDepthMembers members depth ↔ WithinDepthMembers members' depth := by
    induction h with
    | nil => exact ⟨rfl, fun _ => rfl, fun _ => Iff.rfl⟩
    | cons hm _ ih =>
      obtain ⟨hnm, ht, hsz, hdp⟩ := hm
      obtain ⟨htx, hsizes, hd⟩ := ih
      refine ⟨?_, fun first => ?_, fun depth => ?_⟩
      · rw [memberTexts, memberTexts, hnm, ht, htx]
      · rw [membersSize, membersSize, hnm, hsz, hsizes]
      · rw [WithinDepthMembers, WithinDepthMembers, hdp, hd]
  obtain ⟨htx, hsizes, hd⟩ := ha
  refine ⟨?_, ?_, fun depth => ?_⟩
  · rw [appendValue, appendValue, htx]
  · rw [valueSize, valueSize, hsizes]
  · rw [WithinDepth, WithinDepth, hd]

theorem sameText_encodeOptionalResult {r r' : Option (Json Bytes)}
    (h : Rel (SameText appendFloat) r r') :
    SameText appendFloat (encodeOptionalResult r) (encodeOptionalResult r') := by
  cases h with
  | none => exact SameText.refl _
  | some h =>
    exact sameText_obj (.cons ⟨rfl, SameText.refl _⟩ (.cons ⟨rfl, h⟩ .nil))

theorem sameText_encodeCoreProjection {value value' : Json Bytes}
    (h : SameText appendFloat value value') (node id : Bytes) :
    SameText appendFloat (encodeCoreProjection node value id)
      (encodeCoreProjection node value' id) := by
  refine sameText_obj (.cons ⟨rfl, SameText.refl _⟩ (.cons ⟨rfl, h⟩ ?_))
  split
  · exact .nil
  · exact .cons ⟨rfl, SameText.refl _⟩ .nil

/-- Two calls that differ in the form of their JSON values at most. -/
structure SameCall (appendFloat : UInt64 → Except Exn Bytes)
    (call call' : ProgramPendingCall) : Prop where
  operationId : call'.operationId = call.operationId
  callId : call'.callId = call.callId
  resultSchema : SameText appendFloat call.resultSchema call'.resultSchema
  payload : SameText appendFloat call.payload call'.payload
  expiry : call'.expiresAtUnixMs = call.expiresAtUnixMs
  coreNode : call'.coreNode = call.coreNode
  coreInterruptValue : SameText appendFloat call.coreInterruptValue call'.coreInterruptValue
  coreInterruptId : call'.coreInterruptId = call.coreInterruptId
  state : call'.state = call.state
  result : Rel (SameText appendFloat) call.result call'.result

theorem SameCall.refl (call : ProgramPendingCall) : SameCall appendFloat call call where
  operationId := rfl
  callId := rfl
  resultSchema := SameText.refl _
  payload := SameText.refl _
  expiry := rfl
  coreNode := rfl
  coreInterruptValue := SameText.refl _
  coreInterruptId := rfl
  state := rfl
  result := by
    cases call.result with
    | none => exact .none
    | some r => exact .some (SameText.refl r)

variable {call call' : ProgramPendingCall}

/-- The same change of two calls. -/
theorem SameCall.change (h : SameCall appendFloat call call') (state : ProgramPendingState)
    {result result' : Option (Json Bytes)} (hr : Rel (SameText appendFloat) result result') :
    SameCall appendFloat { call with state := state, result := result }
      { call' with state := state, result := result' } :=
  { h with state := rfl, result := hr }

theorem sameText_inputEnvelope {data data' : ProgramPendingInputData}
    (h : SameCall appendFloat data.toProgramPendingCall data'.toProgramPendingCall)
    (hkd : data'.kind = data.kind) :
    SameText appendFloat (inputEnvelope data) (inputEnvelope data') := by
  unfold inputEnvelope
  rw [h.operationId, h.callId, h.expiry, h.coreNode, h.coreInterruptId, h.state, hkd]
  apply sameText_obj
  simp [SameText.refl, h.resultSchema, h.payload, sameText_encodeOptionalResult h.result,
    sameText_encodeCoreProjection h.coreInterruptValue]

theorem sameText_effectEnvelope {data data' : ProgramPendingEffectData}
    (h : SameCall appendFloat data.toProgramPendingCall data'.toProgramPendingCall)
    (heff : data'.effectId = data.effectId) (hmode : data'.effectMode = data.effectMode)
    (hi : data'.idempotency = data.idempotency)
    (hr : data'.reconciliation = data.reconciliation) :
    SameText appendFloat (effectEnvelope data) (effectEnvelope data') := by
  unfold effectEnvelope
  rw [h.operationId, h.callId, h.expiry, h.coreNode, h.coreInterruptId, h.state, heff, hmode,
    hi, hr]
  apply sameText_obj
  simp [SameText.refl, h.resultSchema, h.payload, sameText_encodeOptionalResult h.result,
    sameText_encodeCoreProjection h.coreInterruptValue]

variable {readFloat : UInt64 → Json Bytes}
  {parseText : Bytes → Option (Json Bytes)}

theorem sameText_canonical (hformat : Format appendFloat readFloat parseText)
    (v : Json Bytes) : SameText appendFloat v (canonical readFloat v) := by
  obtain ⟨hsz, hdp⟩ := size_depth_mapReal hformat.number v
  refine ⟨(appendValue_canonical hformat v).symm, ?_, fun depth => ?_⟩
  · unfold canonical
    rw [(size_depth_normalize _).1, hsz]
  · unfold canonical
    rw [withinDepth_normalize_iff, hdp]

theorem SameCall.exists_result (h : SameCall appendFloat call call') {r : Json Bytes}
    (hr : call.result = some r) : ∃ r', call'.result = some r' ∧ SameText appendFloat r r' := by
  have hres := h.result
  rw [hr] at hres
  cases hres' : call'.result with
  | none =>
    rw [hres'] at hres
    cases hres
  | some r' =>
    rw [hres'] at hres
    cases hres with
    | some hsm => exact ⟨r', rfl, hsm⟩

theorem SameCall.result_eq_none
    (h : SameCall appendFloat call call') (hr : call.result = none) : call'.result = none := by
  have hres := h.result
  rw [hr] at hres
  cases hres' : call'.result with
  | none => rfl
  | some r' =>
    rw [hres'] at hres
    cases hres

theorem sameCall_canonicalCall (hformat : Format appendFloat readFloat parseText)
    (call : ProgramPendingCall) : SameCall appendFloat call (canonicalCall readFloat call) where
  operationId := rfl
  callId := rfl
  resultSchema := sameText_canonical hformat _
  payload := sameText_canonical hformat _
  expiry := rfl
  coreNode := rfl
  coreInterruptValue := sameText_canonical hformat _
  coreInterruptId := rfl
  state := rfl
  result := by
    show Rel _ call.result (call.result.map (canonical readFloat))
    cases call.result with
    | none => exact .none
    | some r => exact .some (sameText_canonical hformat r)

end SameText

/-! ## What a schema decides -/

/-- **The schema decides alike** on a result as it is submitted and with the
floating-point numbers of the schema and of the result as they are printed. -/
def Decides (readFloat : UInt64 → Json Bytes) (schema result : Json Bytes) : Prop :=
  (valueMatchesSchema result schema = .ok ()
      ↔ valueMatchesSchema result (schema.mapReal readFloat) = .ok ())
    ∧ (valueMatchesSchema result schema = .ok ()
      ↔ valueMatchesSchema (result.mapReal readFloat) (schema.mapReal readFloat) = .ok ())

/-- What a stored schema is known to be. -/
theorem schema_of_normalizeCall {name : String} {call : ProgramPendingCall}
    (h : normalizeCall name call = .ok call) : call.resultSchema.NoDuplicates
      ∧ validateSchema (maxSchemaDepth + 1) "$schema" call.resultSchema = .ok () := by
  obtain ⟨⟨⟨w, hw⟩, -, -, hv, -⟩, -⟩ := normalizeCall_eq_ok.mp h
  exact ⟨(ownedJsonCopy_eq_ok.mp hw).2.1, hv⟩

/-- A result with canonical bytes is copied. -/
theorem ownedJsonCopy_of_bytes {appendFloat : UInt64 → Except Exn Bytes} {v : Json Bytes}
    {bytes : Bytes} (h : canonicalJsonBytes appendFloat v = .ok bytes) :
    v.NoDuplicates ∧ ownedJsonCopy v = .ok v := by
  obtain ⟨hl, happ⟩ := canonicalJsonBytes_eq_ok.mp h
  have hnd := noDuplicates_of_appendValue happ
  exact ⟨hnd, ownedJsonCopy_eq_ok.mpr ⟨hl, hnd, rfl⟩⟩

section Decided

variable {appendFloat : UInt64 → Except Exn Bytes}
  {readFloat : UInt64 → Json Bytes} {name : String} {call : ProgramPendingCall}
  {result : Json Bytes} {bytes : Bytes}
  (hf : ∀ bits, (readFloat bits).isNumber = true) (hcall : normalizeCall name call = .ok call)
  (hbytes : canonicalJsonBytes appendFloat result = .ok bytes)
include hf hcall hbytes

omit hbytes in
/-- A result that was accepted is accepted in the form it is read in. -/
theorem matches_canonical_of_mapReal {v w : Json Bytes} (hv : v.NoDuplicates)
    (hw : w.NoDuplicates) (heq : v.normalize = w.normalize)
    (hwhen : valueMatchesSchema result call.resultSchema = .ok ()
      ↔ valueMatchesSchema w (call.resultSchema.mapReal readFloat) = .ok ()) :
    valueMatchesSchema v (canonical readFloat call.resultSchema) = .ok ()
      ↔ valueMatchesSchema result call.resultSchema = .ok () := by
  obtain ⟨hs, hvd⟩ := schema_of_normalizeCall hcall
  have hm := shapeMap_mapReal hf
  rw [hwhen]
  exact valueMatchesSchema_congr hv hw ((canonical_shapeMap hf).nodup _ hs)
    (hm.nodup _ hs)
    ⟨_, (validateSchema_shapeMap (canonical_shapeMap hf) _ "$schema" "$schema" hs).mp hvd⟩
    ⟨_, (validateSchema_shapeMap hm _ "$schema" "$schema" hs).mp hvd⟩ heq
    (normalize_normalize _)

theorem Decides.matches_canonical_schema (h : Decides readFloat call.resultSchema result) :
    valueMatchesSchema result (canonical readFloat call.resultSchema) = .ok ()
      ↔ valueMatchesSchema result call.resultSchema = .ok () := by
  have hr := (ownedJsonCopy_of_bytes hbytes).1
  exact matches_canonical_of_mapReal hf hcall hr hr rfl h.1

theorem Decides.matches_canonical (h : Decides readFloat call.resultSchema result) :
    valueMatchesSchema (canonical readFloat result) (canonical readFloat call.resultSchema) = .ok ()
      ↔ valueMatchesSchema result call.resultSchema = .ok () := by
  have hr := (ownedJsonCopy_of_bytes hbytes).1
  exact matches_canonical_of_mapReal hf hcall ((canonical_shapeMap hf).nodup _ hr)
    ((shapeMap_mapReal hf).nodup _ hr) (normalize_normalize _) h.2

end Decided

/-- Schemas that decide alike on a value both reject or both accept it. -/
theorem matches_cases {r schema schema' : Json Bytes}
    (h : valueMatchesSchema r schema' = .ok () ↔ valueMatchesSchema r schema = .ok ()) :
    (∃ e e', valueMatchesSchema r schema = .error e ∧ valueMatchesSchema r schema' = .error e')
      ∨ valueMatchesSchema r schema = .ok () ∧ valueMatchesSchema r schema' = .ok () := by
  cases hm : valueMatchesSchema r schema with
  | ok _ => exact .inr ⟨rfl, h.mpr hm⟩
  | error e =>
    cases hm' : valueMatchesSchema r schema' with
    | error e' => exact .inl ⟨e, e', rfl, rfl⟩
    | ok _ => cases hm.symm.trans (h.mp hm')

/-! ## Calls on an input -/

/-- A call on a pending input. -/
inductive InputCall where
  | submit (callId : Bytes) (result : Json Bytes) (now : UInt64)
  | expire (now : UInt64)
  | cancel

/-- The result a call carries. -/
def InputCall.result : InputCall → Option (Json Bytes)
  | .submit _ result _ => some result
  | _ => none

namespace ProgramPendingInput

section Calls

variable (appendFloat : UInt64 → Except Exn Bytes)

def call (v : ProgramPendingInput) : InputCall → Except Exn ProgramPendingInputUpdate
  | .submit callId result now => v.submit appendFloat callId result now
  | .expire now => v.expire now
  | .cancel => v.cancel

/-- The values a call carries have canonical bytes. -/
def Accepted (c : InputCall) : Prop :=
  ∀ r, c.result = some r → ∃ bytes, canonicalJsonBytes appendFloat r = .ok bytes

/-- The result of a value has canonical bytes. -/
def Sound (v : ProgramPendingInput) : Prop :=
  ∀ r, v.data.result = some r → ∃ bytes, canonicalJsonBytes appendFloat r = .ok bytes

end Calls

/-- **What a call can change.** -/
inductive Move (v : ProgramPendingInput) : InputCall → ProgramPendingInputData → Prop where
  | accept (result : Json Bytes) (now : UInt64) : v.data.state = .awaiting →
      isExpired v.data.expiresAtUnixMs now = false →
      valueMatchesSchema result v.data.resultSchema = .ok () →
      Move v (.submit v.data.callId result now)
        { v.data with state := .consumed, result := some result }
  | late (result : Json Bytes) (now : UInt64) : v.data.state = .awaiting →
      isExpired v.data.expiresAtUnixMs now = true →
      Move v (.submit v.data.callId result now) { v.data with state := .expired }
  | expire (now : UInt64) : v.data.state = .awaiting →
      isExpired v.data.expiresAtUnixMs now = true →
      Move v (.expire now) { v.data with state := .expired }
  | cancel : v.data.state = .awaiting → Move v .cancel { v.data with state := .cancelled }

/-- **The schema decides on a result** that is submitted for the exact call
while it is awaited and in time. -/
inductive Judges (v : ProgramPendingInput) : InputCall → Json Bytes → Prop where
  | submit (result : Json Bytes) (now : UInt64) : v.data.state = .awaiting →
      isExpired v.data.expiresAtUnixMs now = false →
      Judges v (.submit v.data.callId result now) result

variable {appendFloat : UInt64 → Except Exn Bytes} {v : ProgramPendingInput}

theorem Judges.result {c : InputCall} {r : Json Bytes} (h : v.Judges c r) : c.result = some r := by
  cases h
  rfl

/-- An awaiting input has no result. -/
theorem result_of_awaiting (h : v.data.state = .awaiting) : v.data.result = none := by
  obtain ⟨⟨-, -, -, -, hco, -⟩, -⟩ := normalizeInput_eq_ok.mp v.valid
  cases hr : v.data.result with
  | none => rfl
  | some r =>
    have hst := hco.mpr (by rw [hr]; rfl)
    rw [h] at hst
    cases hst

variable {c : InputCall} {data : ProgramPendingInputData}

/-- The data of a move is accepted by the constructor. -/
theorem Move.normalizeInput (h : Move v c data)
    (hc : ∀ r, c.result = some r → ownedJsonCopy r = .ok r) :
    Pending.normalizeInput data = .ok data := by
  obtain ⟨⟨hop, hid, hnd, hcall, -⟩, -⟩ := normalizeInput_eq_ok.mp v.valid
  obtain ⟨⟨hs, hpay, hint, hv, he, -⟩, -⟩ := normalizeCall_eq_ok.mp hcall
  -- a state without a result
  have hpl : ∀ state, state ≠ .consumed → state ≠ .ambiguous → v.data.state = .awaiting →
      Pending.normalizeInput { v.data with state := state }
        = .ok { v.data with state := state } := by
    intro state hco hamb haw
    have hn := result_of_awaiting haw
    refine normalizeInput_eq_ok.mpr ⟨⟨hop, hid, hnd, ?_, ?_, hamb, ?_⟩, rfl⟩
    · refine normalizeCall_eq_ok.mpr ⟨⟨hs, hpay, hint, hv, he, ?_⟩, rfl⟩
      intro r hr
      cases hn.symm.trans hr
    · rw [hn]
      simp [hco]
    · intro r hr
      cases hn.symm.trans hr
  cases h with
  | accept result now haw ht hm =>
    refine normalizeInput_eq_ok.mpr ⟨⟨hop, hid, hnd, ?_, ?_, by simp, ?_⟩, rfl⟩
    · refine normalizeCall_eq_ok.mpr ⟨⟨hs, hpay, hint, hv, he, ?_⟩, rfl⟩
      rintro _ ⟨⟩
      exact ⟨_, hc result rfl⟩
    · simp
    · rintro _ ⟨⟩
      exact hm
  | late result now haw _ | expire now haw _ =>
    exact hpl .expired (by simp) (by simp) haw
  | cancel haw => exact hpl .cancelled (by simp) (by simp) haw

theorem publish_eq_ok (h : Pending.normalizeInput data = .ok data)
    (disposition : ProgramPendingDisposition) (code message : String) :
    publish data disposition code message = .ok ⟨disposition, ⟨data, h⟩, code, message⟩ := by
  unfold publish
  rw [show make data = .ok ⟨data, h⟩ from make_eq_ok.mpr ⟨h, rfl⟩]
  rfl

variable {bytes bytes' : Bytes}

theorem sameCanonicalJson_eq_ok {v w : Json Bytes}
    (hv : canonicalJsonBytes appendFloat v = .ok bytes)
    (hw : canonicalJsonBytes appendFloat w = .ok bytes') :
    sameCanonicalJson appendFloat v w = .ok (decide (bytes = bytes')) := by
  unfold sameCanonicalJson
  rw [hv, hw]
  rfl

/-- Two values answer a call alike: both stay as they are, or both change in
the same way, by a move. -/
def AnsweredAlike (appendFloat : UInt64 → Except Exn Bytes) (v w : ProgramPendingInput)
    (c : InputCall) (u u' : ProgramPendingInputUpdate) : Prop :=
  u'.disposition = u.disposition
    ∧ (u.value = v ∧ u'.value = w
      ∨ Move v c u.value.data ∧ ∃ state result result',
        Rel (SameText appendFloat) result result'
          ∧ u.value.data = { v.data with state := state, result := result }
          ∧ u'.value.data = { w.data with state := state, result := result' })

variable {w : ProgramPendingInput}

/-- **A call answers**, and changes the value by a move at most. Values that
differ in the form of their JSON values at most answer alike, if their schemas
decide alike where they decide on a result. -/
theorem call_alike (hv : Sound appendFloat v) (hc : Accepted appendFloat c)
    (h : SameCall appendFloat v.data.toProgramPendingCall w.data.toProgramPendingCall)
    (hmt : ∀ r, v.Judges c r → (valueMatchesSchema r w.data.resultSchema = .ok ()
      ↔ valueMatchesSchema r v.data.resultSchema = .ok ())) :
    ∃ u u', v.call appendFloat c = .ok u ∧ w.call appendFloat c = .ok u'
      ∧ AnsweredAlike appendFloat v w c u u' := by
  have hcp : ∀ r, c.result = some r → ownedJsonCopy r = .ok r := by
    intro r hr
    obtain ⟨bytes, hbytes⟩ := hc r hr
    exact (ownedJsonCopy_of_bytes hbytes).2
  have hkp : ∀ {disposition code message code' message'}, ∃ u u',
      v.keep disposition code message = .ok u ∧ w.keep disposition code' message' = .ok u'
        ∧ AnsweredAlike appendFloat v w c u u' :=
    ⟨_, _, rfl, rfl, rfl, .inl ⟨rfl, rfl⟩⟩
  have hpub : ∀ {state result disposition code message},
      Move v c { v.data with state := state, result := result } →
      ∀ result', Rel (SameText appendFloat) result result' →
        Move w c { w.data with state := state, result := result' } →
        ∃ u u', publish { v.data with state := state, result := result } disposition code message
            = .ok u
          ∧ publish { w.data with state := state, result := result' } disposition code message
            = .ok u'
          ∧ AnsweredAlike appendFloat v w c u u' := by
    intro state result disposition code message hmv result' hres hmv'
    exact ⟨_, _, publish_eq_ok (hmv.normalizeInput hcp) _ _ _,
      publish_eq_ok (hmv'.normalizeInput hcp) _ _ _, rfl,
      .inr ⟨hmv, _, _, _, hres, rfl, rfl⟩⟩
  have hex := h.expiry
  have hs := h.state
  have hcallId := h.callId
  cases c with
  | submit callId result now =>
    show ∃ u u', v.submit appendFloat callId result now = .ok u
      ∧ w.submit appendFloat callId result now = .ok u' ∧ _
    unfold submit
    rw [hcallId]
    by_cases hid : callId = v.data.callId
    · subst hid
      rw [if_neg (by simp), if_neg (by simp), hs]
      cases hst : v.data.state with
      | awaiting =>
        have hst' := hs.trans hst
        dsimp only
        unfold submitAwaiting
        rw [hex]
        split_ifs with he
        · refine hpub (.late result now hst he) _ h.result ?_
          rw [← hcallId]
          exact .late result now hst' (by rw [hex]; exact he)
        · have ht := Bool.eq_false_iff.mpr he
          obtain ⟨_, _, hfl, hfl'⟩ | ⟨hm, hm'⟩ :=
            matches_cases (hmt result (.submit result now hst ht))
          · rw [hfl, hfl']
            exact hkp
          rw [hm, hm']
          rw [hcp result rfl]
          refine hpub (.accept result now hst ht hm) _ (.some (SameText.refl _)) ?_
          rw [← hcallId]
          exact .accept result now hst' (by rw [hex]; exact ht) hm'
      | consumed =>
        obtain ⟨⟨-, -, -, -, hco, -⟩, -⟩ := normalizeInput_eq_ok.mp v.valid
        obtain ⟨r, hr⟩ := isSome_iff_exists.mp (hco.mp hst)
        obtain ⟨r', hr', hsm⟩ := h.exists_result hr
        obtain ⟨bytes, hbytes⟩ := hv r hr
        obtain ⟨bytes', hbytes'⟩ := hc result rfl
        rw [hr, hr', getD_some, getD_some, sameCanonicalJson_eq_ok hbytes hbytes',
          sameCanonicalJson_eq_ok (hsm.canonicalJsonBytes.mp hbytes) hbytes']
        show ∃ u u', (if decide (bytes = bytes') = true then _ else _) = Except.ok u
          ∧ (if decide (bytes = bytes') = true then _ else _) = Except.ok u' ∧ _
        split <;> exact hkp
      | expired | cancelled | ambiguous => exact hkp
    · rw [if_pos hid, if_pos hid]
      exact hkp
  | expire now =>
    show ∃ u u', v.expire now = .ok u ∧ w.expire now = .ok u' ∧ _
    unfold expire
    rw [hs, hex]
    split
    · exact hkp
    split_ifs with hcn
    · exact hkp
    simp only [Bool.or_eq_true, decide_eq_true_iff, not_or, not_not, Bool.not_eq_true',
      Bool.not_eq_false] at hcn
    refine hpub (.expire now hcn.1 hcn.2) _ h.result ?_
    exact .expire now (hs.trans hcn.1) (by rw [hex]; exact hcn.2)
  | cancel =>
    show ∃ u u', v.cancel = .ok u ∧ w.cancel = .ok u' ∧ _
    unfold cancel
    rw [hs]
    split
    · exact hkp
    split_ifs with hst
    · exact hkp
    · have hst := not_not.mp hst
      exact hpub (.cancel hst) _ h.result (.cancel (hs.trans hst))

/-! ## One outcome of an input -/

/-- The state is final. -/
def Settled (v : ProgramPendingInput) : Prop :=
  v.data.state = .consumed ∨ v.data.state = .expired ∨ v.data.state = .cancelled

/-- What holds of a call and its answer. -/
structure Outcome (appendFloat : UInt64 → Except Exn Bytes) (v : ProgramPendingInput)
    (c : InputCall) (u : ProgramPendingInputUpdate) : Prop where
  /-- A value in a final state does not change. -/
  settled : v.Settled → u.value = v
  /-- A result becomes authoritative for the exact call, in time and under the
  schema. -/
  authoritative : ∀ r, v.data.result = none → u.value.data.result = some r →
    v.data.state = .awaiting ∧ valueMatchesSchema r v.data.resultSchema = .ok ()
      ∧ ∃ now, c = .submit v.data.callId r now ∧ isExpired v.data.expiresAtUnixMs now = false
  /-- Once there is a result, every other one conflicts. -/
  repeated : ∀ r r' now, v.data.result = some r → c = .submit v.data.callId r' now →
    (canonicalJsonBytes appendFloat r' = canonicalJsonBytes appendFloat r →
        u.disposition = .duplicate)
      ∧ (canonicalJsonBytes appendFloat r' ≠ canonicalJsonBytes appendFloat r →
        u.disposition = .conflict)

theorem Move.outcome (h : Move v c data) : v.data.state = .awaiting
      ∧ ∀ r, data.result = some r → valueMatchesSchema r v.data.resultSchema = .ok ()
          ∧ ∃ now, c = .submit v.data.callId r now
            ∧ isExpired v.data.expiresAtUnixMs now = false := by
  cases h with
  | accept result now hst ht hm =>
    refine ⟨hst, ?_⟩
    rintro _ ⟨⟩
    exact ⟨hm, now, rfl, ht⟩
  | late result now hst _ | expire now hst _ | cancel hst =>
    exact ⟨hst, fun r hr => by cases (result_of_awaiting hst).symm.trans hr⟩

/-- A result submitted after one was accepted. -/
theorem submit_consumed {r r' : Json Bytes} {u : ProgramPendingInputUpdate} {now : UInt64}
    (hr : v.data.result = some r) (hbytes : canonicalJsonBytes appendFloat r = .ok bytes)
    (hbytes' : canonicalJsonBytes appendFloat r' = .ok bytes')
    (hu : v.submit appendFloat v.data.callId r' now = .ok u) :
    (canonicalJsonBytes appendFloat r' = canonicalJsonBytes appendFloat r →
        u.disposition = .duplicate)
      ∧ (canonicalJsonBytes appendFloat r' ≠ canonicalJsonBytes appendFloat r →
        u.disposition = .conflict) := by
  obtain ⟨⟨-, -, -, -, hco, -⟩, -⟩ := normalizeInput_eq_ok.mp v.valid
  unfold submit at hu
  rw [if_neg (by simp), hco.mpr (by rw [hr]; rfl)] at hu
  rw [hr, getD_some, sameCanonicalJson_eq_ok hbytes hbytes'] at hu
  have hu : (if decide (bytes = bytes') = true then _ else _) = Except.ok u := hu
  rw [hbytes, hbytes']
  by_cases hsm : bytes = bytes'
  · rw [if_pos (by simpa using hsm)] at hu
    cases hu
    exact ⟨fun _ => rfl, fun h => absurd (by rw [hsm]) h⟩
  · rw [if_neg (by simpa using hsm)] at hu
    cases hu
    exact ⟨fun h => absurd (Except.ok.inj h).symm hsm, fun _ => rfl⟩

/-- **One call.** -/
theorem call_outcome (hv : Sound appendFloat v) (hc : Accepted appendFloat c) :
    ∃ u, v.call appendFloat c = .ok u ∧ Outcome appendFloat v c u ∧ Sound appendFloat u.value
      ∧ (u.value = v ∨ Move v c u.value.data) := by
  obtain ⟨u, _, hu, _, _, hcs⟩ := call_alike hv hc (SameCall.refl _) fun _ _ => Iff.rfl
  have hrp : ∀ r r' now, v.data.result = some r → c = .submit v.data.callId r' now →
      (canonicalJsonBytes appendFloat r' = canonicalJsonBytes appendFloat r →
          u.disposition = .duplicate)
        ∧ (canonicalJsonBytes appendFloat r' ≠ canonicalJsonBytes appendFloat r →
          u.disposition = .conflict) := by
    rintro r r' now hr rfl
    obtain ⟨bytes, hbytes⟩ := hv r hr
    obtain ⟨bytes', hbytes'⟩ := hc r' rfl
    exact submit_consumed hr hbytes hbytes' hu
  obtain ⟨hsm, -⟩ | ⟨hmv, -⟩ := hcs
  · refine ⟨u, hu, ⟨fun _ => hsm, fun r hn hr => ?_, hrp⟩, ?_, .inl hsm⟩
    · rw [hsm, hn] at hr
      cases hr
    · rw [hsm]
      exact hv
  · obtain ⟨haw, hres⟩ := hmv.outcome
    refine ⟨u, hu, ⟨fun hs => ?_, fun r _ hr => ?_, hrp⟩, fun r hr => ?_, .inr hmv⟩
    · unfold Settled at hs
      rw [haw] at hs
      obtain h | h | h := hs <;> cases h
    · exact ⟨haw, hres r hr⟩
    · obtain ⟨-, now, rfl, -⟩ := hres r hr
      exact hc r rfl

/-! ## Storing an input between calls -/

section Stored

variable (appendFloat)

/-- The record has canonical bytes, whatever its state. -/
def Stored (data : ProgramPendingInputData) : Prop :=
  ∀ state, ∃ bytes,
    canonicalJsonBytes appendFloat (inputEnvelope { data with state := state }) = .ok bytes

/-- **The result that the call makes authoritative**, if it makes one, passes
the schema in canonical form too and fits into the record. -/
def Storable (readFloat : UInt64 → Json Bytes) (v : ProgramPendingInput) (c : InputCall) : Prop :=
  ∀ r, v.Judges c r → valueMatchesSchema r v.data.resultSchema = .ok () →
    Decides readFloat v.data.resultSchema r ∧ Stored appendFloat { v.data with result := some r }

/-- A call that is storable and on whose result, accepted or refused, the
schema decides alike in canonical form. -/
def Stable (readFloat : UInt64 → Json Bytes) (v : ProgramPendingInput) (c : InputCall) : Prop :=
  Storable appendFloat readFloat v c
    ∧ ∀ r, v.Judges c r → Decides readFloat v.data.resultSchema r

/-- The value is read back as an equal one that answers later calls
alike. -/
def ReadsBack (readFloat : UInt64 → Json Bytes) (parseText : Bytes → Option (Json Bytes))
    (v : ProgramPendingInput) : Prop :=
  ∃ bytes w, v.serializeCanonical appendFloat = .ok bytes
    ∧ parse appendFloat parseText bytes = .ok w ∧ w.equal appendFloat v = .ok true
    ∧ ∀ cs : List InputCall, (∀ c ∈ cs, Accepted appendFloat c) →
      Throughout (callStep (call appendFloat) value) (Stable appendFloat readFloat) v cs →
      ∃ us us', answers (call appendFloat) value v cs = .ok us
        ∧ answers (call appendFloat) value w cs = .ok us'
        ∧ List.Forall₂ (fun u u' => u'.disposition = u.disposition
          ∧ u'.value.equal appendFloat u.value = .ok true) us us'

end Stored

/-- The value is stored, and its result with it. -/
structure Kept (appendFloat : UInt64 → Except Exn Bytes)
    (readFloat : UInt64 → Json Bytes) (v : ProgramPendingInput) : Prop where
  stored : Stored appendFloat v.data
  decided : ∀ r, v.data.result = some r → valueMatchesSchema (canonical readFloat r)
    (canonical readFloat v.data.resultSchema) = .ok ()

section ReadBack

variable {readFloat : UInt64 → Json Bytes}
  {parseText : Bytes → Option (Json Bytes)}
  (hformat : Format appendFloat readFloat parseText) {data : ProgramPendingInputData}
include hformat

variable {v : ProgramPendingInput}

/-- A call keeps the value stored. -/
theorem Kept.after (hv : Kept appendFloat readFloat v) {c : InputCall}
    (ha : Accepted appendFloat c) (hs : Storable appendFloat readFloat v c)
    {u : ProgramPendingInputUpdate} (hu : u.value = v ∨ Move v c u.value.data) :
    Kept appendFloat readFloat u.value := by
  obtain hsm | hmv := hu
  · rw [hsm]
    exact hv
  obtain ⟨⟨-, -, -, hcall, -⟩, -⟩ := normalizeInput_eq_ok.mp v.valid
  have hpl : ∀ state, v.data.state = .awaiting → u.value.data = { v.data with state := state } →
      Kept appendFloat readFloat u.value := by
    intro state haw hd
    refine ⟨by rw [hd]; exact hv.stored, fun r hr => ?_⟩
    rw [hd] at hr
    cases (result_of_awaiting haw).symm.trans hr
  generalize hd : u.value.data = data' at hmv
  cases hmv with
  | accept result now hst ht hm =>
    obtain ⟨hdec, hstr⟩ := hs result (.submit result now hst ht) hm
    obtain ⟨bytes, hbytes⟩ := ha result rfl
    refine ⟨by rw [hd]; exact hstr, fun r hr => ?_⟩
    rw [hd] at hr ⊢
    cases hr
    exact (hdec.matches_canonical hformat.number hcall hbytes).mpr hm
  | late result now hst _ | expire now hst _ => exact hpl .expired hst hd
  | cancel hst => exact hpl .cancelled hst hd

omit hformat in
/-- A value and the one read back for it, after the same calls. -/
structure Related (appendFloat : UInt64 → Except Exn Bytes)
    (readFloat : UInt64 → Json Bytes) (v w : ProgramPendingInput) : Prop where
  call : SameCall appendFloat v.data.toProgramPendingCall w.data.toProgramPendingCall
  kind : w.data.kind = v.data.kind
  schema : w.data.resultSchema = canonical readFloat v.data.resultSchema

omit hformat in
/-- Related values are equal records. -/
theorem Related.equal (h : Related appendFloat readFloat v w) (hv : Stored appendFloat v.data) :
    w.equal appendFloat v = .ok true := by
  obtain ⟨bytes, hbytes⟩ := hv v.data.state
  have hbytes' := (sameText_inputEnvelope h.call h.kind).canonicalJsonBytes.mp hbytes
  unfold ProgramPendingInput.equal serializeCanonical
  rw [hbytes']
  rw [show canonicalJsonBytes appendFloat (inputEnvelope v.data) = .ok bytes from hbytes]
  show Except.ok (decide (bytes = bytes)) = _
  rw [decide_eq_true rfl]

/-- **Related values answer a call alike.** -/
theorem Related.answer (h : Related appendFloat readFloat v w) (hsd : Sound appendFloat v)
    {c : InputCall} (ha : Accepted appendFloat c)
    (hs : Stable appendFloat readFloat v c) :
    ∃ u u', v.call appendFloat c = .ok u ∧ w.call appendFloat c = .ok u'
      ∧ u'.disposition = u.disposition ∧ Related appendFloat readFloat u.value u'.value := by
  obtain ⟨⟨-, -, -, hcall, -⟩, -⟩ := normalizeInput_eq_ok.mp v.valid
  obtain ⟨u, u', hu, hu', hdispo, hcs⟩ := call_alike hsd ha h.call fun r hr => by
    obtain ⟨bytes, hbytes⟩ := ha r hr.result
    rw [h.schema]
    exact (hs.2 r hr).matches_canonical_schema hformat.number hcall hbytes
  refine ⟨u, u', hu, hu', hdispo, ?_⟩
  obtain ⟨hsm, hsm'⟩ | ⟨-, state, result, result', hres, hd, hd'⟩ := hcs
  · rw [hsm, hsm']
    exact h
  · refine ⟨?_, by rw [hd, hd']; exact h.kind, by rw [hd, hd']; exact h.schema⟩
    rw [hd, hd']
    exact h.call.change state hres

/-- A stored value is read back as a related one. -/
theorem Kept.read (hk : Kept appendFloat readFloat v) :
    ∃ bytes w, v.serializeCanonical appendFloat = .ok bytes
      ∧ parse appendFloat parseText bytes = .ok w ∧ Related appendFloat readFloat v w := by
  obtain ⟨bytes, hbytes⟩ := hk.stored v.data.state
  obtain ⟨w, hp, hd⟩ := parse_serializeCanonical hformat hbytes hk.decided
  refine ⟨bytes, w, hbytes, hp, ?_, by rw [hd]; rfl, by rw [hd]; rfl⟩
  rw [hd]
  exact sameCall_canonicalCall hformat v.data.toProgramPendingCall

/-- **A pending input has at most one outcome.** -/
theorem once (hv : make data = .ok v) (haw : data.state = .awaiting) {cs : List InputCall}
    (hcs : ∀ c ∈ cs, Accepted appendFloat c) :
    ∃ w, runCalls (call appendFloat) value v cs = .ok w
      ∧ (∀ c, Accepted appendFloat c → ∃ u, w.call appendFloat c = .ok u
        ∧ Outcome appendFloat w c u)
      ∧ (Stored appendFloat data →
        Throughout (callStep (call appendFloat) value) (Storable appendFloat readFloat) v cs →
        ReadsBack appendFloat readFloat parseText w) := by
  obtain ⟨-, hd⟩ := make_eq_ok.mp hv
  have hn : v.data.result = none := result_of_awaiting (by rw [hd]; exact haw)
  have hsd : Sound appendFloat v := fun r hr => by cases hn.symm.trans hr
  have hk : Stored appendFloat data → Kept appendFloat readFloat v := fun hst =>
    ⟨by rw [hd]; exact hst, fun r hr => by cases hn.symm.trans hr⟩
  obtain ⟨w, hrun, hcalls, hrd⟩ := runCalls_stored
    (fun v c (hv : Sound appendFloat v) (hc : Accepted appendFloat c) => call_outcome hv hc)
    (fun v c (h : Stable appendFloat readFloat v c) => h.1)
    (fun v c u (hk : Kept appendFloat readFloat v) hc hs hmv =>
      hk.after hformat hc hs hmv)
    (fun v hk => Kept.read hformat hk) (fun v w h hk => h.equal hk.stored)
    (fun v w c h hsd hc hstable => h.answer hformat hsd hc hstable) hsd hcs
  exact ⟨w, hrun, hcalls, fun hst hs => hrd (hk hst) hs⟩

end ReadBack

end ProgramPendingInput

end NeoGraph.Program.Pending
