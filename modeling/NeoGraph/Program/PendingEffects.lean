import NeoGraph.Program.PendingOutcome

/-!
# A pending effect has at most one outcome

The calls on a pending effect: like an input it takes a result, expires and
is cancelled, and besides its outcome may be reported unknown. A
non-idempotent effect then is ambiguous, and stays so until it is
reconciled.

A value may be stored and read back between any two calls. What it is read
back as need not be equal to it, only have the same text, so runs are compared
up to the texts of their values.

`pending_once` puts inputs and effects together.
-/

namespace NeoGraph.Program.Pending

open List CanonicalJson Option ProgramPendingInput ProgramPendingEffectUpdate
open ProgramPendingInputUpdate Except ProgramPendingEffect JsonReader

/-- A call on a pending effect. -/
inductive EffectCall where
  | submit (callId effectId : Bytes) (result : Json Bytes) (now : UInt64)
  | reconcile (callId effectId : Bytes) (resolution : ProgramEffectReconciliation)
      (result : Option (Json Bytes)) (now : UInt64)
  | markOutcomeUnknown (now : UInt64)
  | expire (now : UInt64)
  | cancel

/-- The result a call carries. -/
def EffectCall.result : EffectCall → Option (Json Bytes)
  | .submit _ _ result _ => some result
  | .reconcile _ _ _ result _ => result
  | _ => none

namespace ProgramPendingEffect

section Calls

variable (appendFloat : UInt64 → Except Exn Bytes)

/-- One call on a pending effect. -/
def call (v : ProgramPendingEffect) : EffectCall → Except Exn ProgramPendingEffectUpdate
  | .submit callId effectId result now => v.submit appendFloat callId effectId result now
  | .reconcile callId effectId resolution result _ =>
    v.reconcile appendFloat callId effectId resolution result
  | .markOutcomeUnknown now => v.markOutcomeUnknown now
  | .expire now => v.expire now
  | .cancel => v.cancel

/-- The values a call carries have canonical bytes. -/
def Accepted (c : EffectCall) : Prop :=
  ∀ r, c.result = some r → ∃ bytes, canonicalJsonBytes appendFloat r = .ok bytes

/-- The result of a value has canonical bytes. -/
def Sound (v : ProgramPendingEffect) : Prop :=
  ∀ r, v.data.result = some r → ∃ bytes, canonicalJsonBytes appendFloat r = .ok bytes

end Calls

/-! ## What calls change -/

/-- **What a call can change.** -/
inductive Move (v : ProgramPendingEffect) : EffectCall → ProgramPendingEffectData → Prop where
  | accept (result : Json Bytes) (now : UInt64) : v.data.state = .awaiting →
      isExpired v.data.expiresAtUnixMs now = false →
      valueMatchesSchema result v.data.resultSchema = .ok () →
      Move v (.submit v.data.callId v.data.effectId result now)
        { v.data with state := .consumed, reconciliation := .completed, result := some result }
  | late (result : Json Bytes) (now : UInt64) : v.data.state = .awaiting →
      isExpired v.data.expiresAtUnixMs now = true →
      Move v (.submit v.data.callId v.data.effectId result now) { v.data with state := .expired }
  | unknown (now : UInt64) : v.data.state = .awaiting →
      v.data.idempotency = .nonIdempotent →
      Move v (.markOutcomeUnknown now)
        { v.data with state := .ambiguous, reconciliation := .none }
  | unknownLate (now : UInt64) : v.data.state = .awaiting →
      isExpired v.data.expiresAtUnixMs now = true →
      Move v (.markOutcomeUnknown now) { v.data with state := .expired }
  | expire (now : UInt64) : v.data.state = .awaiting →
      isExpired v.data.expiresAtUnixMs now = true →
      Move v (.expire now) { v.data with state := .expired, reconciliation := .none }
  | cancel : v.data.state = .awaiting →
      Move v .cancel { v.data with state := .cancelled, reconciliation := .none }
  | reconcileUnknown (now : UInt64) : v.data.state = .ambiguous →
      Move v (.reconcile v.data.callId v.data.effectId .unknown none now)
        { v.data with reconciliation := .unknown }
  | reconcileFailed (now : UInt64) : v.data.state = .ambiguous →
      Move v (.reconcile v.data.callId v.data.effectId .failed none now)
        { v.data with state := .consumed, reconciliation := .failed }
  | reconcileCompleted (result : Json Bytes) (now : UInt64) :
      v.data.state = .ambiguous → valueMatchesSchema result v.data.resultSchema = .ok () →
      Move v (.reconcile v.data.callId v.data.effectId .completed (some result) now)
        { v.data with state := .consumed, reconciliation := .completed, result := some result }

/-- **The schema decides on a result** that is submitted for the exact effect
while it is awaited and in time, or that reconciles it while it is
ambiguous. -/
inductive Judges (v : ProgramPendingEffect) : EffectCall → Json Bytes → Prop where
  | submit (result : Json Bytes) (now : UInt64) : v.data.state = .awaiting →
      isExpired v.data.expiresAtUnixMs now = false →
      Judges v (.submit v.data.callId v.data.effectId result now) result
  | reconcile (result : Json Bytes) (now : UInt64) : v.data.state = .ambiguous →
      Judges v (.reconcile v.data.callId v.data.effectId .completed (some result) now) result

variable {appendFloat : UInt64 → Except Exn Bytes}

theorem checked_state (v : ProgramPendingEffect) :
    checkReconciliation v.data.toProgramPendingCall v.data.idempotency v.data.reconciliation
      = .ok () :=
  (normalizeEffect_eq_ok.mp v.valid).1.2.2.2.2.2

variable {v : ProgramPendingEffect}

theorem Judges.result {c : EffectCall} {r : Json Bytes} (h : v.Judges c r) :
    c.result = some r := by
  cases h <;> rfl

/-- An awaiting effect has no result. -/
theorem result_of_awaiting (h : v.data.state = .awaiting) :
    v.data.result = none ∧ v.data.reconciliation = .none := by
  have hc := checked_state v
  unfold checkReconciliation at hc
  rw [h] at hc
  have hc := require_eq_ok.mp hc
  simp only [Bool.not_eq_true', Bool.or_eq_false_iff, decide_eq_false_iff_not, not_not,
    Option.isSome_eq_false_iff, Option.isNone_iff_eq_none] at hc
  exact ⟨hc.2, hc.1⟩

/-- An ambiguous effect has no result and is not idempotent. -/
theorem result_of_ambiguous (h : v.data.state = .ambiguous) :
    v.data.result = none ∧ v.data.idempotency = .nonIdempotent := by
  have hc := checked_state v
  unfold checkReconciliation at hc
  rw [h] at hc
  obtain ⟨hi, hc⟩ := bind_unit_eq_ok.mp hc
  have hi := require_eq_ok.mp hi
  have hc := require_eq_ok.mp hc
  simp only [Bool.not_eq_true', Bool.or_eq_false_iff, isSome_eq_false_iff,
    isNone_iff_eq_none] at hc
  exact ⟨hc.2, by simpa using hi⟩

/-- A consumed effect was completed with a result or failed without one. -/
theorem result_of_consumed (h : v.data.state = .consumed) :
    (v.data.reconciliation = .completed ∧ ∃ r, v.data.result = some r)
      ∨ (v.data.reconciliation = .failed ∧ v.data.result = none) := by
  have hchk := checked_state v
  unfold checkReconciliation at hchk
  rw [h] at hchk
  simp only [bind_unit_eq_ok] at hchk
  obtain ⟨ht, hc, hchk⟩ := hchk
  have ht := require_eq_ok.mp ht
  have hc := require_eq_ok.mp hc
  cases hr : v.data.reconciliation with
  | none | unknown => simp [hr] at ht
  | completed =>
    left
    rw [hr] at hc
    refine ⟨rfl, isSome_iff_exists.mp ?_⟩
    simpa using hc
  | failed =>
    right
    rw [hr] at hchk
    rw [if_neg (by decide)] at hchk
    exact ⟨rfl, isNone_iff_eq_none.mp (require_eq_ok.mp hchk)⟩

/-- A value with a result is consumed. -/
theorem consumed_of_result {r : Json Bytes} (h : v.data.result = some r) :
    v.data.state = .consumed ∧ v.data.reconciliation = .completed := by
  cases hst : v.data.state with
  | awaiting => cases (result_of_awaiting hst).1.symm.trans h
  | ambiguous => cases (result_of_ambiguous hst).1.symm.trans h
  | consumed =>
    obtain ⟨hc, -⟩ | ⟨-, hn⟩ := result_of_consumed hst
    · exact ⟨rfl, hc⟩
    · cases hn.symm.trans h
  | expired | cancelled =>
    have hchk := checked_state v
    unfold checkReconciliation at hchk
    rw [hst] at hchk
    have hchk := require_eq_ok.mp hchk
    simp [h] at hchk

variable {result : Option (Json Bytes)}

/-- New data of a value is accepted when its state is. -/
theorem normalizeEffect_update {state : ProgramPendingState}
    {reconciliation : ProgramEffectReconciliation}
    (hres : ∀ r, result = some r → ownedJsonCopy r = .ok r)
    (hst : checkReconciliation
      { v.data.toProgramPendingCall with state := state, result := result }
      v.data.idempotency reconciliation = .ok ()) :
    normalizeEffect
        { v.data with state := state, reconciliation := reconciliation, result := result }
      = .ok { v.data with state := state, reconciliation := reconciliation, result := result } := by
  obtain ⟨⟨hop, hid, heid, hnd, hc, -⟩, -⟩ := normalizeEffect_eq_ok.mp v.valid
  obtain ⟨⟨hs, hpay, hint, hv, he, -⟩, -⟩ := normalizeCall_eq_ok.mp hc
  refine normalizeEffect_eq_ok.mpr ⟨⟨hop, hid, heid, hnd, ?_, hst⟩, rfl⟩
  exact normalizeCall_eq_ok.mpr ⟨⟨hs, hpay, hint, hv, he,
    fun r hr => ⟨r, hres r hr⟩⟩, rfl⟩

variable {c : EffectCall} {data : ProgramPendingEffectData}

/-- The data of a move is accepted by the constructor. -/
theorem Move.normalizeEffect (h : Move v c data)
    (hc : ∀ r, c.result = some r → ownedJsonCopy r = .ok r) :
    Pending.normalizeEffect data = .ok data := by
  have hn : v.data.result = none → ∀ r, v.data.result = some r → ownedJsonCopy r = .ok r :=
    fun hn r hr => by cases hn.symm.trans hr
  cases h with
  | accept result now _ _ hm | reconcileCompleted result now _ hm =>
    refine normalizeEffect_update (fun r hr => ?_) ?_
    · cases hr
      exact hc result rfl
    · refine bind_unit_eq_ok.mpr ⟨rfl, bind_unit_eq_ok.mpr ⟨rfl, ?_⟩⟩
      rw [if_pos rfl]
      exact resultMatches_eq_ok.mpr fun r hr => by cases hr; exact hm
  | late result now hst _ | unknownLate now hst _ =>
    obtain ⟨hres, hrec⟩ := result_of_awaiting hst
    refine normalizeEffect_update (hn hres) ?_
    rw [hres, hrec]
    rfl
  | unknown now hst hi =>
    obtain ⟨hres, -⟩ := result_of_awaiting hst
    refine normalizeEffect_update (hn hres) ?_
    rw [hres, hi]
    rfl
  | expire now hst _ | cancel hst =>
    obtain ⟨hres, -⟩ := result_of_awaiting hst
    refine normalizeEffect_update (hn hres) ?_
    rw [hres]
    rfl
  | reconcileUnknown now hst =>
    obtain ⟨hres, hi⟩ := result_of_ambiguous hst
    refine normalizeEffect_update (hn hres) ?_
    rw [hres, hst, hi]
    rfl
  | reconcileFailed now hst =>
    obtain ⟨hres, -⟩ := result_of_ambiguous hst
    refine normalizeEffect_update (hn hres) ?_
    rw [hres]
    rfl

theorem publish_eq_ok (h : Pending.normalizeEffect data = .ok data)
    (disposition : ProgramPendingDisposition) (code message : String) :
    publish data disposition code message = .ok ⟨disposition, ⟨data, h⟩, code, message⟩ := by
  unfold publish
  rw [show make data = .ok ⟨data, h⟩ from make_eq_ok.mpr ⟨h, rfl⟩]
  rfl

/-- Two values answer a call alike: both stay as they are, or both change in
the same way, by a move. -/
def AnsweredAlike (appendFloat : UInt64 → Except Exn Bytes) (v w : ProgramPendingEffect)
    (c : EffectCall) (u u' : ProgramPendingEffectUpdate) : Prop :=
  u'.disposition = u.disposition
    ∧ (u.value = v ∧ u'.value = w
      ∨ Move v c u.value.data ∧ ∃ state reconciliation result result',
        Rel (SameText appendFloat) result result'
          ∧ u.value.data = { v.data with state := state, reconciliation := reconciliation,
                                         result := result }
          ∧ u'.value.data = { w.data with state := state, reconciliation := reconciliation,
                                          result := result' })

/-- Two effects that differ in the form of their JSON values at most. -/
structure SameEffect (appendFloat : UInt64 → Except Exn Bytes)
    (data data' : ProgramPendingEffectData) : Prop where
  call : SameCall appendFloat data.toProgramPendingCall data'.toProgramPendingCall
  effectId : data'.effectId = data.effectId
  effectMode : data'.effectMode = data.effectMode
  idempotency : data'.idempotency = data.idempotency
  reconciliation : data'.reconciliation = data.reconciliation

variable {w : ProgramPendingEffect}

/-- Reconciliations are compared alike with the recorded ones. -/
theorem sameReconciliation_alike (hv : Sound appendFloat v)
    (h : SameEffect appendFloat v.data w.data) (resolution : ProgramEffectReconciliation)
    (hr : ∀ r, result = some r → ∃ bytes, canonicalJsonBytes appendFloat r = .ok bytes) :
    ∃ same, v.sameReconciliation appendFloat resolution result = .ok same
      ∧ w.sameReconciliation appendFloat resolution result = .ok same := by
  unfold sameReconciliation
  rw [h.reconciliation]
  split
  · cases hrv : v.data.result with
    | none =>
      rw [h.call.result_eq_none hrv]
      cases result <;> exact ⟨_, rfl, rfl⟩
    | some r' =>
      obtain ⟨s, hs, hsm⟩ := h.call.exists_result hrv
      rw [hs]
      cases result with
      | none => exact ⟨_, rfl, rfl⟩
      | some r =>
        obtain ⟨bytes, hbs⟩ := hr r rfl
        obtain ⟨bytes', hbs'⟩ := hv r' hrv
        exact ⟨_, sameCanonicalJson_eq_ok hbs hbs', sameCanonicalJson_eq_ok hbs
            (hsm.canonicalJsonBytes.mp hbs')⟩
  · exact ⟨_, rfl, rfl⟩

/-- Both computations answer, and alike. -/
def Alike (appendFloat : UInt64 → Except Exn Bytes) (v w : ProgramPendingEffect) (c : EffectCall)
    (r r' : Except Exn ProgramPendingEffectUpdate) : Prop :=
  ∃ u u', r = .ok u ∧ r' = .ok u' ∧ AnsweredAlike appendFloat v w c u u'

theorem keep_alike {disposition code message code' message'} :
    Alike appendFloat v w c (v.keep disposition code message)
      (w.keep disposition code' message') :=
  ⟨_, _, rfl, rfl, rfl, .inl ⟨rfl, rfl⟩⟩

theorem Accepted.ownedJsonCopy (hc : Accepted appendFloat c) (r : Json Bytes)
    (hr : c.result = some r) : CanonicalJson.ownedJsonCopy r = .ok r := by
  obtain ⟨bytes, hbs⟩ := hc r hr
  exact (ownedJsonCopy_of_bytes hbs).2

/-- The same move of both values is published. -/
theorem publish_alike {state reconciliation reconciliation' result result' disposition code message}
    (hc : Accepted appendFloat c)
    (hmv : Move v c { v.data with state := state, reconciliation := reconciliation,
                                  result := result })
    (hr : reconciliation' = reconciliation) (hres : Rel (SameText appendFloat) result result')
    (hmv' : Move w c { w.data with state := state, reconciliation := reconciliation',
                                   result := result' }) :
    Alike appendFloat v w c
      (publish { v.data with state := state, reconciliation := reconciliation, result := result }
        disposition code message)
      (publish { w.data with state := state, reconciliation := reconciliation', result := result' }
        disposition code message) := by
  subst hr
  exact ⟨_, _, publish_eq_ok (hmv.normalizeEffect hc.ownedJsonCopy) _ _ _,
    publish_eq_ok (hmv'.normalizeEffect hc.ownedJsonCopy) _ _ _, rfl,
    .inr ⟨hmv, _, _, _, _, hres, rfl, rfl⟩⟩

/-- The schemas of two values decide alike where they decide on a result. -/
def JudgeAlike (v w : ProgramPendingEffect) (c : EffectCall) : Prop :=
  ∀ r, v.Judges c r → (valueMatchesSchema r w.data.resultSchema = .ok ()
    ↔ valueMatchesSchema r v.data.resultSchema = .ok ())

variable {callId effectId : Bytes} {resolution : ProgramEffectReconciliation} {now : UInt64}

section Alike

variable (h : SameEffect appendFloat v.data w.data)
include h

theorem submit_alike {result : Json Bytes} (hv : Sound appendFloat v)
    (hc : Accepted appendFloat (.submit callId effectId result now))
    (hmt : JudgeAlike v w (.submit callId effectId result now)) :
    Alike appendFloat v w (.submit callId effectId result now)
      (v.submit appendFloat callId effectId result now)
      (w.submit appendFloat callId effectId result now) := by
  have hex := h.call.expiry
  have hs := h.call.state
  have hcallId := h.call.callId
  have heid := h.effectId
  unfold submit
  rw [hcallId, heid]
  split
  · exact keep_alike
  rename_i hid
  obtain ⟨rfl, rfl⟩ : callId = v.data.callId ∧ effectId = v.data.effectId := by
    simpa using hid
  rw [hs]
  cases hst : v.data.state with
  | awaiting =>
    have hst' := hs.trans hst
    dsimp only
    unfold submitAwaiting
    rw [hex]
    split
    · rename_i he
      refine publish_alike hc (.late result now hst he) h.reconciliation h.call.result ?_
      rw [← hcallId, ← heid]
      exact .late result now hst' (by rw [hex]; exact he)
    · rename_i he
      have ht := Bool.eq_false_iff.mpr he
      obtain ⟨_, _, hfl, hfl'⟩ | ⟨hm, hm'⟩ := matches_cases (hmt result (.submit result now hst ht))
      · rw [hfl, hfl']
        exact keep_alike
      rw [hm, hm']
      dsimp only
      rw [hc.ownedJsonCopy result rfl]
      refine publish_alike hc (.accept result now hst ht hm) rfl (.some (SameText.refl _)) ?_
      rw [← hcallId, ← heid]
      exact .accept result now hst' (by rw [hex]; exact ht) hm'
  | consumed =>
    dsimp only
    rw [h.reconciliation]
    obtain ⟨hcm, r, hr⟩ | ⟨hf, -⟩ := result_of_consumed hst
    · -- the recorded results have the same text, so the comparisons agree
      obtain ⟨r', hr', hsm⟩ := h.call.exists_result hr
      obtain ⟨bytes, hbs⟩ := hv r hr
      obtain ⟨bytes', hbs'⟩ := hc result rfl
      rw [if_pos hcm, if_pos hcm, hr, hr', getD_some, getD_some,
        sameCanonicalJson_eq_ok hbs hbs',
        sameCanonicalJson_eq_ok (hsm.canonicalJsonBytes.mp hbs) hbs']
      show Alike _ _ _ _ (if decide (bytes = bytes') = true then _ else _)
        (if decide (bytes = bytes') = true then _ else _)
      split <;> exact keep_alike
    · rw [if_neg (by rw [hf]; decide), if_neg (by rw [hf]; decide)]
      exact keep_alike
  | expired | cancelled | ambiguous => exact keep_alike

/-- The outcome of an effect whose outcome is unknown is reported. -/
theorem reconcileAmbiguous_alike (hst : v.data.state = .ambiguous)
    (hc : Accepted appendFloat (.reconcile v.data.callId v.data.effectId resolution result now))
    (hmt : JudgeAlike v w (.reconcile v.data.callId v.data.effectId resolution result now)) :
    Alike appendFloat v w (.reconcile v.data.callId v.data.effectId resolution result now)
      (v.reconcileAmbiguous resolution result) (w.reconcileAmbiguous resolution result) := by
  have hs := h.call.state
  have hst' := hs.trans hst
  unfold reconcileAmbiguous
  cases resolution with
  | none => exact keep_alike
  | unknown =>
    cases result with
    | some r => exact keep_alike
    | none =>
      dsimp only
      rw [h.reconciliation]
      split
      · exact keep_alike
      have hmv := Move.reconcileUnknown now hst
      have hmv' := Move.reconcileUnknown now hst'
      rw [h.call.callId, h.effectId] at hmv'
      refine ⟨_, _, publish_eq_ok (hmv.normalizeEffect hc.ownedJsonCopy) _ _ _,
        publish_eq_ok (hmv'.normalizeEffect hc.ownedJsonCopy) _ _ _, rfl,
        .inr ⟨hmv, v.data.state, .unknown, _, _, h.call.result, rfl, ?_⟩⟩
      rw [← hs]
  | failed =>
    cases result with
    | some r => exact keep_alike
    | none =>
      refine publish_alike hc (.reconcileFailed now hst) rfl h.call.result ?_
      rw [← h.call.callId, ← h.effectId]
      exact .reconcileFailed now hst'
  | completed =>
    cases result with
    | none => exact keep_alike
    | some r =>
      dsimp only
      obtain ⟨_, _, hfl, hfl'⟩ | ⟨hm, hm'⟩ := matches_cases (hmt r (.reconcile r now hst))
      · rw [hfl, hfl']
        exact keep_alike
      rw [hm, hm']
      dsimp only
      rw [hc.ownedJsonCopy r rfl]
      refine publish_alike hc (.reconcileCompleted r now hst hm) rfl
        (.some (SameText.refl _)) ?_
      rw [← h.call.callId, ← h.effectId]
      exact .reconcileCompleted r now hst' hm'

theorem reconcile_alike (hv : Sound appendFloat v)
    (hc : Accepted appendFloat (.reconcile callId effectId resolution result now))
    (hmt : JudgeAlike v w (.reconcile callId effectId resolution result now)) :
    Alike appendFloat v w (.reconcile callId effectId resolution result now)
      (v.reconcile appendFloat callId effectId resolution result)
      (w.reconcile appendFloat callId effectId resolution result) := by
  unfold reconcile
  rw [h.call.callId, h.effectId]
  split
  · exact keep_alike
  rename_i hid
  obtain ⟨rfl, rfl⟩ : callId = v.data.callId ∧ effectId = v.data.effectId := by
    simpa using hid
  rw [h.call.state]
  cases hst : v.data.state with
  | awaiting | expired | cancelled => exact keep_alike
  | consumed =>
    obtain ⟨same, hsm, hsm'⟩ := sameReconciliation_alike hv h resolution
      (show ∀ r, result = some r → _ from hc)
    dsimp only
    rw [hsm, hsm']
    show Alike _ _ _ _ (if same = true then _ else _) (if same = true then _ else _)
    split <;> exact keep_alike
  | ambiguous => exact reconcileAmbiguous_alike h hst hc hmt

theorem markOutcomeUnknown_alike (hc : Accepted appendFloat (.markOutcomeUnknown now)) :
    Alike appendFloat v w (.markOutcomeUnknown now) (v.markOutcomeUnknown now)
      (w.markOutcomeUnknown now) := by
  unfold markOutcomeUnknown
  rw [h.call.state, h.call.expiry, h.idempotency]
  cases hst : v.data.state with
  | awaiting =>
    have hst' := h.call.state.trans hst
    dsimp only
    split
    · rename_i hi
      exact publish_alike hc (.unknown now hst hi) rfl h.call.result
        (.unknown now hst' (h.idempotency.trans hi))
    · split
      · rename_i he
        exact publish_alike hc (.unknownLate now hst he) h.reconciliation h.call.result
          (.unknownLate now hst' (by rw [h.call.expiry]; exact he))
      · exact keep_alike
  | consumed | expired | cancelled | ambiguous => exact keep_alike

theorem expire_alike (hc : Accepted appendFloat (.expire now)) :
    Alike appendFloat v w (.expire now) (v.expire now) (w.expire now) := by
  unfold expire
  rw [h.call.state, h.call.expiry]
  split
  · exact keep_alike
  split
  · split <;> exact keep_alike
  rename_i hcn
  simp only [Bool.or_eq_true, decide_eq_true_iff, not_or, not_not, Bool.not_eq_true',
    Bool.not_eq_false] at hcn
  exact publish_alike hc (.expire now hcn.1 hcn.2) rfl h.call.result
    (.expire now (h.call.state.trans hcn.1) (by rw [h.call.expiry]; exact hcn.2))

theorem cancel_alike (hc : Accepted appendFloat .cancel) :
    Alike appendFloat v w .cancel v.cancel w.cancel := by
  unfold cancel
  rw [h.call.state]
  split
  · exact keep_alike
  split
  · split <;> exact keep_alike
  · rename_i hst
    have hst := not_not.mp hst
    exact publish_alike hc (.cancel hst) rfl h.call.result
      (.cancel (h.call.state.trans hst))

/-- **A call answers**, and changes the value by a move at most. Values that
differ in the form of their JSON values at most answer alike, if their schemas
decide alike where they decide on a result. -/
theorem call_alike (hv : Sound appendFloat v) (hc : Accepted appendFloat c)
    (hmt : JudgeAlike v w c) :
    Alike appendFloat v w c (v.call appendFloat c) (w.call appendFloat c) := by
  cases c with
  | submit => exact submit_alike h hv hc hmt
  | reconcile => exact reconcile_alike h hv hc hmt
  | markOutcomeUnknown => exact markOutcomeUnknown_alike h hc
  | expire => exact expire_alike h hc
  | cancel => exact cancel_alike h hc

end Alike

/-! ## One outcome of an effect -/

/-- The state is final. -/
def Settled (v : ProgramPendingEffect) : Prop :=
  v.data.state = .consumed ∨ v.data.state = .expired ∨ v.data.state = .cancelled

/-- A call that consumes an effect, and what it makes authoritative. -/
inductive Consumes (v : ProgramPendingEffect) :
    EffectCall → ProgramEffectReconciliation → Option (Json Bytes) → Prop where
  | submit (result : Json Bytes) (now : UInt64) : v.data.state = .awaiting →
      isExpired v.data.expiresAtUnixMs now = false →
      valueMatchesSchema result v.data.resultSchema = .ok () →
      Consumes v (.submit v.data.callId v.data.effectId result now) .completed (some result)
  | completed (result : Json Bytes) (now : UInt64) : v.data.state = .ambiguous →
      valueMatchesSchema result v.data.resultSchema = .ok () →
      Consumes v (.reconcile v.data.callId v.data.effectId .completed (some result) now)
        .completed (some result)
  | failed (now : UInt64) : v.data.state = .ambiguous →
      Consumes v (.reconcile v.data.callId v.data.effectId .failed none now) .failed none

/-- What holds of a call and its answer. -/
structure Outcome (appendFloat : UInt64 → Except Exn Bytes) (v : ProgramPendingEffect)
    (c : EffectCall) (u : ProgramPendingEffectUpdate) : Prop where
  /-- A value in a final state does not change. -/
  settled : v.Settled → u.value = v
  /-- An outcome becomes authoritative for the exact effect only, and a result
  only under the schema, in time while it is awaited. -/
  authoritative : v.data.state ≠ .consumed → u.value.data.state = .consumed →
    Consumes v c u.value.data.reconciliation u.value.data.result
  /-- Once there is a result, every other one conflicts. -/
  repeated : ∀ r r' now, v.data.result = some r →
    c = .submit v.data.callId v.data.effectId r' now →
    (canonicalJsonBytes appendFloat r' = canonicalJsonBytes appendFloat r →
        u.disposition = .duplicate)
      ∧ (canonicalJsonBytes appendFloat r' ≠ canonicalJsonBytes appendFloat r →
        u.disposition = .conflict)
  /-- Only a non-idempotent effect becomes ambiguous. -/
  ambiguous : u.value.data.state = .ambiguous → v.data.idempotency = .nonIdempotent
    ∧ (v.data.state = .ambiguous ∨ v.data.state = .awaiting ∧ ∃ now, c = .markOutcomeUnknown now)
  /-- Only a reconciliation as completed or failed resolves ambiguity. -/
  unresolved : v.data.state = .ambiguous → u.value.data.state = .ambiguous
    ∨ u.value.data.state = .consumed ∧ ∃ resolution result now,
      c = .reconcile v.data.callId v.data.effectId resolution result now
        ∧ (resolution = .completed ∨ resolution = .failed)
  /-- Ambiguity ignores expiry and cancellation. -/
  persists : v.data.state = .ambiguous → (c = .cancel ∨ ∃ now, c = .expire now) → u.value = v

/-- A result submitted after one was accepted. -/
theorem submit_consumed {r r' : Json Bytes} {bytes bytes' : Bytes} {now : UInt64}
    {u : ProgramPendingEffectUpdate} (hr : v.data.result = some r)
    (hbs : canonicalJsonBytes appendFloat r = .ok bytes)
    (hbs' : canonicalJsonBytes appendFloat r' = .ok bytes')
    (hu : v.submit appendFloat v.data.callId v.data.effectId r' now = .ok u) :
    (canonicalJsonBytes appendFloat r' = canonicalJsonBytes appendFloat r →
        u.disposition = .duplicate)
      ∧ (canonicalJsonBytes appendFloat r' ≠ canonicalJsonBytes appendFloat r →
        u.disposition = .conflict) := by
  obtain ⟨hst, hc⟩ := consumed_of_result hr
  unfold submit at hu
  rw [if_neg (by simp), hst] at hu
  dsimp only at hu
  rw [if_pos hc, hr, getD_some, sameCanonicalJson_eq_ok hbs hbs'] at hu
  have hu : (if decide (bytes = bytes') = true then _ else _) = ok u := hu
  rw [hbs, hbs']
  by_cases hsm : bytes = bytes'
  · rw [if_pos (by simpa using hsm)] at hu
    cases hu
    exact ⟨fun _ => rfl, fun h => absurd (by rw [hsm]) h⟩
  · rw [if_neg (by simpa using hsm)] at hu
    cases hu
    exact ⟨fun h => absurd (ok.inj h).symm hsm, fun _ => rfl⟩

/-- What holds of a move. -/
theorem Move.outcome (h : Move v c data) :
    ¬v.Settled ∧ (data.state = .consumed → Consumes v c data.reconciliation data.result)
      ∧ (data.state = .ambiguous → v.data.idempotency = .nonIdempotent
        ∧ (v.data.state = .ambiguous ∨ v.data.state = .awaiting
          ∧ ∃ now, c = .markOutcomeUnknown now))
      ∧ (v.data.state = .ambiguous → data.state = .ambiguous
        ∨ data.state = .consumed ∧ ∃ resolution result now,
          c = .reconcile v.data.callId v.data.effectId resolution result now
            ∧ (resolution = .completed ∨ resolution = .failed))
      ∧ (v.data.state = .ambiguous → ¬(c = .cancel ∨ ∃ now, c = .expire now))
      ∧ ∀ r, data.result = some r → c.result = some r := by
  have haw : v.data.state = .awaiting → ¬v.Settled ∧ v.data.state ≠ .ambiguous
      ∧ ∀ r, v.data.result = some r → False := by
    intro h
    refine ⟨?_, by rw [h]; decide, fun r hr => by cases (result_of_awaiting h).1.symm.trans hr⟩
    unfold Settled
    rw [h]
    decide
  have hamb : v.data.state = .ambiguous → ¬v.Settled
      ∧ ∀ r, v.data.result = some r → False := by
    intro h
    refine ⟨?_, fun r hr => by cases (result_of_ambiguous h).1.symm.trans hr⟩
    unfold Settled
    rw [h]
    decide
  cases h with
  | accept result now hst ht hm =>
    obtain ⟨hs, hnot, hn⟩ := haw hst
    exact ⟨hs, fun _ => .submit result now hst ht hm, by rintro ⟨⟩,
      fun h => absurd h hnot, fun h => absurd h hnot, by rintro _ ⟨⟩; rfl⟩
  | late result now hst _ | unknownLate now hst _ | expire now hst _ | cancel hst =>
    obtain ⟨hs, hnot, hn⟩ := haw hst
    exact ⟨hs, by rintro ⟨⟩, by rintro ⟨⟩, fun h => absurd h hnot, fun h => absurd h hnot,
      fun r hr => (hn r hr).elim⟩
  | unknown now hst hi =>
    obtain ⟨hs, hnot, hn⟩ := haw hst
    exact ⟨hs, by rintro ⟨⟩, fun _ => ⟨hi, .inr ⟨hst, now, rfl⟩⟩,
      fun h => absurd h hnot, fun h => absurd h hnot, fun r hr => (hn r hr).elim⟩
  | reconcileUnknown now hst =>
    obtain ⟨hs, hn⟩ := hamb hst
    refine ⟨hs, fun h => ?_, fun _ => ⟨(result_of_ambiguous hst).2, .inl hst⟩,
      fun _ => .inl hst, fun _ => ?_, fun r hr => (hn r hr).elim⟩
    · cases hst.symm.trans h
    · rintro (h | ⟨now, h⟩) <;> cases h
  | reconcileFailed now hst =>
    obtain ⟨hs, hn⟩ := hamb hst
    refine ⟨hs, fun _ => ?_, by rintro ⟨⟩,
      fun _ => .inr ⟨rfl, _, _, now, rfl, .inr rfl⟩, fun _ => ?_,
      fun r hr => (hn r hr).elim⟩
    · rw [show _ = _ from (result_of_ambiguous hst).1]
      exact .failed now hst
    · rintro (h | ⟨now, h⟩) <;> cases h
  | reconcileCompleted result now hst hm =>
    obtain ⟨hs, hn⟩ := hamb hst
    refine ⟨hs, fun _ => .completed result now hst hm, by rintro ⟨⟩,
      fun _ => .inr ⟨rfl, _, _, now, rfl, .inl rfl⟩, fun _ => ?_, fun r hr => hr⟩
    rintro (h | ⟨now, h⟩) <;> cases h

/-- **One call.** -/
theorem call_outcome (hv : Sound appendFloat v) (hc : Accepted appendFloat c) :
    ∃ u, v.call appendFloat c = .ok u ∧ Outcome appendFloat v c u ∧ Sound appendFloat u.value
      ∧ (u.value = v ∨ Move v c u.value.data) := by
  obtain ⟨u, _, hu, _, _, hcs⟩ := call_alike ⟨SameCall.refl _, rfl, rfl, rfl, rfl⟩ hv hc
    fun _ _ => Iff.rfl
  have hrp : ∀ r r' now, v.data.result = some r →
      c = .submit v.data.callId v.data.effectId r' now →
      (canonicalJsonBytes appendFloat r' = canonicalJsonBytes appendFloat r →
          u.disposition = .duplicate)
        ∧ (canonicalJsonBytes appendFloat r' ≠ canonicalJsonBytes appendFloat r →
          u.disposition = .conflict) := by
    rintro r r' now hr rfl
    obtain ⟨bytes, hbs⟩ := hv r hr
    obtain ⟨bytes', hbs'⟩ := hc r' rfl
    exact submit_consumed hr hbs hbs' hu
  obtain ⟨hsm, -⟩ | ⟨hmv, -⟩ := hcs
  · refine ⟨u, hu, ⟨fun _ => hsm, fun hn h => ?_, hrp, fun h => ?_, fun h => ?_,
      fun _ _ => hsm⟩, ?_, .inl hsm⟩
    · rw [hsm] at h
      exact absurd h hn
    · rw [hsm] at h
      exact ⟨(result_of_ambiguous h).2, .inl h⟩
    · rw [hsm]
      exact .inl h
    · rw [hsm]
      exact hv
  · obtain ⟨hs, hconsumes, hamb, hunresolved, hpersists, hres⟩ := hmv.outcome
    exact ⟨u, hu, ⟨fun h => absurd h hs, fun _ h => hconsumes h, hrp, hamb,
      hunresolved, fun h h' => absurd h' (hpersists h)⟩, fun r hr => hc r (hres r hr),
      .inr hmv⟩

/-! ## Storing an effect between calls -/

section Stored

variable (appendFloat)

/-- The record has canonical bytes, whatever its state. -/
def Stored (data : ProgramPendingEffectData) : Prop :=
  ∀ state reconciliation, ∃ bytes, canonicalJsonBytes appendFloat
    (effectEnvelope { data with state := state, reconciliation := reconciliation }) = .ok bytes

/-- **The result that the call makes authoritative**, if it makes one, passes
the schema in canonical form too and fits into the record. -/
def Storable (readFloat : UInt64 → Json Bytes) (v : ProgramPendingEffect) (c : EffectCall) :
    Prop :=
  ∀ r, v.Judges c r → valueMatchesSchema r v.data.resultSchema = .ok () →
    Decides readFloat v.data.resultSchema r ∧ Stored appendFloat { v.data with result := some r }

/-- A call that is storable and on whose result, accepted or refused, the
schema decides alike in canonical form. -/
def Stable (readFloat : UInt64 → Json Bytes) (v : ProgramPendingEffect) (c : EffectCall) : Prop :=
  Storable appendFloat readFloat v c
    ∧ ∀ r, v.Judges c r → Decides readFloat v.data.resultSchema r

/-- The value is read back as an equal one that answers later calls
alike. -/
def ReadsBack (readFloat : UInt64 → Json Bytes) (parseText : Bytes → Option (Json Bytes))
    (v : ProgramPendingEffect) : Prop :=
  ∃ bytes w, v.serializeCanonical appendFloat = .ok bytes
    ∧ parse appendFloat parseText bytes = .ok w ∧ w.equal appendFloat v = .ok true
    ∧ ∀ cs : List EffectCall, (∀ c ∈ cs, Accepted appendFloat c) →
      Throughout (callStep (call appendFloat) value) (Stable appendFloat readFloat) v cs →
      ∃ us us', answers (call appendFloat) value v cs = .ok us
        ∧ answers (call appendFloat) value w cs = .ok us'
        ∧ List.Forall₂ (fun u u' => u'.disposition = u.disposition
          ∧ u'.value.equal appendFloat u.value = .ok true) us us'

end Stored

/-- The value is stored, and its result with it. -/
structure Kept (appendFloat : UInt64 → Except Exn Bytes)
    (readFloat : UInt64 → Json Bytes) (v : ProgramPendingEffect) : Prop where
  stored : Stored appendFloat v.data
  decided : ∀ r, v.data.result = some r → valueMatchesSchema (canonical readFloat r)
    (canonical readFloat v.data.resultSchema) = .ok ()

section ReadBack

variable {readFloat : UInt64 → Json Bytes}
  {parseText : Bytes → Option (Json Bytes)}
  (hformat : Format appendFloat readFloat parseText) {data : ProgramPendingEffectData}
include hformat

variable {v : ProgramPendingEffect}

/-- A call keeps the value stored. -/
theorem Kept.after (hv : Kept appendFloat readFloat v) {c : EffectCall}
    (ha : Accepted appendFloat c) (hs : Storable appendFloat readFloat v c)
    {u : ProgramPendingEffectUpdate} (hu : u.value = v ∨ Move v c u.value.data) :
    Kept appendFloat readFloat u.value := by
  obtain hsm | hmv := hu
  · rw [hsm]
    exact hv
  obtain ⟨⟨-, -, -, -, hc, -⟩, -⟩ := normalizeEffect_eq_ok.mp v.valid
  have hpl : ∀ state reconciliation, v.data.result = none →
      u.value.data = { v.data with state := state, reconciliation := reconciliation } →
      Kept appendFloat readFloat u.value := by
    intro state reconciliation hn hd
    refine ⟨by rw [hd]; exact hv.stored, fun r hr => ?_⟩
    rw [hd] at hr
    cases hn.symm.trans hr
  have hres : ∀ result, v.Judges c result →
      valueMatchesSchema result v.data.resultSchema = .ok () →
      u.value.data = { v.data with state := .consumed, reconciliation := .completed,
                                   result := some result } →
      Kept appendFloat readFloat u.value := by
    intro result hj hm hd
    obtain ⟨hdec, hstr⟩ := hs result hj hm
    obtain ⟨bytes, hbs⟩ := ha result hj.result
    refine ⟨by rw [hd]; exact hstr, fun r hr => ?_⟩
    rw [hd] at hr ⊢
    cases hr
    exact (hdec.matches_canonical hformat.number hc hbs).mpr hm
  generalize hd : u.value.data = data' at hmv
  cases hmv with
  | accept result now hst ht hm =>
    exact hres result (.submit result now hst ht) hm hd
  | reconcileCompleted result now hst hm =>
    exact hres result (.reconcile result now hst) hm hd
  | late result now hst _ | unknown now hst _ | unknownLate now hst _
  | expire now hst _ | cancel hst => exact hpl _ _ (result_of_awaiting hst).1 hd
  | reconcileUnknown now hst | reconcileFailed now hst =>
    exact hpl _ _ (result_of_ambiguous hst).1 hd

omit hformat in
/-- A value and the one read back for it, after the same calls. -/
structure Related (appendFloat : UInt64 → Except Exn Bytes)
    (readFloat : UInt64 → Json Bytes) (v w : ProgramPendingEffect) : Prop where
  same : SameEffect appendFloat v.data w.data
  schema : w.data.resultSchema = canonical readFloat v.data.resultSchema

omit hformat in
/-- Related values are equal records. -/
theorem Related.equal (h : Related appendFloat readFloat v w) (hv : Stored appendFloat v.data) :
    w.equal appendFloat v = .ok true := by
  obtain ⟨bytes, hbs⟩ := hv v.data.state v.data.reconciliation
  have hbs' := (sameText_effectEnvelope h.same.call h.same.effectId h.same.effectMode
    h.same.idempotency h.same.reconciliation).canonicalJsonBytes.mp hbs
  unfold ProgramPendingEffect.equal serializeCanonical
  rw [hbs']
  show (canonicalJsonBytes appendFloat (effectEnvelope v.data) >>= _) = _
  rw [show canonicalJsonBytes appendFloat (effectEnvelope v.data) = .ok bytes from hbs]
  show ok (decide (bytes = bytes)) = _
  rw [decide_eq_true rfl]

/-- **Related values answer a call alike.** -/
theorem Related.answer (h : Related appendFloat readFloat v w) (hsd : Sound appendFloat v)
    {c : EffectCall} (ha : Accepted appendFloat c)
    (hs : Stable appendFloat readFloat v c) :
    ∃ u u', v.call appendFloat c = .ok u ∧ w.call appendFloat c = .ok u'
      ∧ u'.disposition = u.disposition ∧ Related appendFloat readFloat u.value u'.value := by
  obtain ⟨⟨-, -, -, -, hc, -⟩, -⟩ := normalizeEffect_eq_ok.mp v.valid
  obtain ⟨u, u', hu, hu', hdispo, hcs⟩ := call_alike h.same hsd ha fun r hr => by
    obtain ⟨bytes, hbs⟩ := ha r hr.result
    rw [h.schema]
    exact (hs.2 r hr).matches_canonical_schema hformat.number hc hbs
  refine ⟨u, u', hu, hu', hdispo, ?_⟩
  obtain ⟨hsm, hsm'⟩ | ⟨-, state, _, result, result', hres, hd, hd'⟩ := hcs
  · rw [hsm, hsm']
    exact h
  refine ⟨?_, by rw [hd, hd']; exact h.schema⟩
  rw [hd, hd']
  exact ⟨h.same.call.change state hres, h.same.effectId, h.same.effectMode,
    h.same.idempotency, rfl⟩

/-- A stored value is read back as a related one. -/
theorem Kept.read (hk : Kept appendFloat readFloat v) :
    ∃ bytes w, v.serializeCanonical appendFloat = .ok bytes
      ∧ parse appendFloat parseText bytes = .ok w ∧ Related appendFloat readFloat v w := by
  obtain ⟨bytes, hbs⟩ := hk.stored v.data.state v.data.reconciliation
  obtain ⟨w, hp, hd⟩ := parse_serializeCanonical hformat hbs hk.decided
  refine ⟨bytes, w, hbs, hp, ?_, by rw [hd]; rfl⟩
  rw [hd]
  exact ⟨sameCall_canonicalCall hformat v.data.toProgramPendingCall, rfl, rfl, rfl, rfl⟩

/-- **A pending effect has at most one outcome.** -/
theorem once (hv : make data = .ok v) (haw : data.state = .awaiting) {cs : List EffectCall}
    (hcs : ∀ c ∈ cs, Accepted appendFloat c) :
    ∃ w, runCalls (call appendFloat) value v cs = .ok w
      ∧ (∀ c, Accepted appendFloat c → ∃ u, w.call appendFloat c = .ok u
        ∧ Outcome appendFloat w c u)
      ∧ (Stored appendFloat data →
        Throughout (callStep (call appendFloat) value) (Storable appendFloat readFloat) v cs →
        ReadsBack appendFloat readFloat parseText w) := by
  obtain ⟨-, hd⟩ := make_eq_ok.mp hv
  have hn : v.data.result = none := (result_of_awaiting (by rw [hd]; exact haw)).1
  have hsd : Sound appendFloat v := fun r hr => by cases hn.symm.trans hr
  have hk : Stored appendFloat data → Kept appendFloat readFloat v := fun hst =>
    ⟨by rw [hd]; exact hst, fun r hr => by cases hn.symm.trans hr⟩
  obtain ⟨w, hrun, hcalls, hrd⟩ := runCalls_stored
    (fun v c (hv : Sound appendFloat v) (hc : Accepted appendFloat c) => call_outcome hv hc)
    (fun v c (h : Stable appendFloat readFloat v c) => h.1)
    (fun v c u (hk : Kept appendFloat readFloat v) hc hs hmv =>
      hk.after hformat hc hs hmv)
    (fun v hk => Kept.read hformat hk) (fun v w h hk => h.equal hk.stored)
    (fun v w c h hsd hc hstable => h.answer hformat hsd hc hstable) hsd hcs
  exact ⟨w, hrun, hcalls, fun hst hs => hrd (hk hst) hs⟩

end ReadBack

end ProgramPendingEffect

/-! ## Both kinds of calls -/

end NeoGraph.Program.Pending
