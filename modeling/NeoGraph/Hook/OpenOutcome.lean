import NeoGraph.Hook.Fencing

/-!
# Unknown outcomes stay open

What becomes of an attempt on a non-idempotent invocation whose worker is never
heard of again. Until somebody tells its outcome, by a settlement or a
reconciliation with the token of the attempt, only claims change its entry, and
of these only the first one that comes past the end of the lease: it leaves the
obligation to reconcile, which no clock ends, unless the deadline has passed as
well, and then the invocation has timed out.

So the entry can be closed by a deadline alone (`not_staysOpen`); short of that it
stays open (`state_of_untold`).
-/

namespace NeoGraph.Hook

open Bool HookOutboxEntryData List SortedMap HookOp Option HookOutboxEntry

variable {I : Type} [DecidableEq I] {digest : HookEntryBody → I}

/-! ## Outcomes and elapsed times -/

namespace HookOp

/-- A settlement with a token, or a reconciliation with a known outcome. -/
def tells (id : String) (fence : ℕ) : HookOp I → Bool
  | settle id' fence' _ _ => id' = id && fence' = fence
  | reconcile id' _ _ fence' known =>
    id' = id && fence' = fence && known.data.externalEffect.outcomeKnown
  | _ => false

/-- A claim at a time or past it. -/
def claimsPast (id : String) (time : ℤ) : HookOp I → Bool
  | claim id' worker now duration =>
    id' = id && !(worker = "" || duration ≤ 0) && time ≤ now
  | _ => false

omit [DecidableEq I] in
theorem id_of_claimsPast {op : HookOp I} {id : String} {time : ℤ}
    (h : op.claimsPast id time = true) : op.id = id := by
  cases op with
  | claim id' worker now duration =>
    unfold claimsPast at h
    simp only [and_eq_true, decide_eq_true_eq] at h
    exact h.1.1
  | _ => cases h

end HookOp

/-- The state of an attempt whose outcome nobody has told. -/
def HookOutboxEntry.untoldState (e : HookOutboxEntry) (id : String) (ops : List (HookOp I)) :
    HookExecutionState :=
  match ops.find? (claimsPast id e.data.leaseExpiresAt) with
  | none => .dispatched
  | some op =>
    if op.claimsPast id e.data.deadline then .timedOut else .reconciliationRequired

/-! ## An attempt that is out -/

namespace HookOutboxEntry

variable {e : HookOutboxEntry}

/-- What a started attempt says of its entry. -/
theorem dispatched_spec (h : e.data.state = .dispatched) :
    e.data.attempted = true ∧ e.data.leaseExpiresAt ≤ e.data.deadline ∧ e.data.receipt = none := by
  have hv := e.valid
  unfold HookOutboxEntryData.valid HookOutboxEntryData.stateValid at hv
  rw [h] at hv
  simp only [and_eq_true, decide_eq_true_eq, isNone_iff_eq_none] at hv
  obtain ⟨-, ⟨⟨⟨hc, htok⟩, -⟩, hls⟩, hr⟩ := hv
  refine ⟨?_, hls, hr⟩
  unfold attempted
  rw [decide_eq_true hc, decide_eq_true htok]
  rfl

theorem bound_spec (e : HookOutboxEntry) : e.data.bound = true := by
  have hv := e.valid
  unfold HookOutboxEntryData.valid at hv
  rw [Bool.and_eq_true] at hv
  exact hv.1

variable {worker : String} {duration : ℤ} {now : ℤ}

/-- **A claim past the deadline** ends the invocation. -/
theorem claim_of_deadline (hst : e.data.state = .dispatched)
    (hcl : ¬(worker = "" || duration ≤ 0) = true) (hnow : e.data.deadline ≤ now) :
    ∃ e' : HookOutboxEntry,
      e'.data = { e.data with state := .timedOut, leaseExpiresAt := 0 }
        ∧ e.claim worker now duration = { stored := [e'] } := by
  have hv : HookOutboxEntryData.valid
      { e.data with state := .timedOut, leaseExpiresAt := 0 } = true := by
    have hbd := e.bound_spec
    unfold HookOutboxEntryData.valid
    rw [Bool.and_eq_true]
    refine ⟨hbd, ?_⟩
    simp [HookOutboxEntryData.stateValid, HookOutboxEntryData.lease,
      HookOutboxEntryData.receiptState, (dispatched_spec hst).2.2]
  have hs : e.data.settled = false := by
    unfold HookOutboxEntryData.settled HookExecutionState.isTerminal
    rw [hst]
    rfl
  refine ⟨⟨_, hv⟩, rfl, ?_⟩
  unfold claim
  rw [if_neg hcl, hs, decide_eq_true hnow]
  unfold HookAnswer.store create
  rw [dif_pos hv]
  rfl

/-- The receipt of an attempt whose lease has expired. -/
theorem expiredReceipt_valid (hst : e.data.state = .dispatched) : HookExecutionReceiptData.valid
      { invocationId := e.data.invocation.id
        attempt := e.data.attemptCount
        state := .reconciliationRequired
        error := "non-idempotent dispatched lease expired; external outcome is unknown" }
          = true := by
  have hatt := (dispatched_spec hst).1
  unfold attempted at hatt
  simp only [and_eq_true, decide_eq_true_eq] at hatt
  have herr : "non-idempotent dispatched lease expired; external outcome is unknown".utf8ByteSize
      ≤ 4096 := by
    decide +kernel
  unfold HookExecutionReceiptData.valid
  rw [e.data.invocation.id_valid]
  simp [hatt.1, herr]

/-- **A claim past the lease** leaves the obligation to reconcile. -/
theorem claim_of_lease (hst : e.data.state = .dispatched)
    (hi : e.data.invocation.idempotency = .nonIdempotent)
    (hcl : ¬(worker = "" || duration ≤ 0) = true) (hdl : now < e.data.deadline)
    (hnow : e.data.leaseExpiresAt ≤ now) :
    ∃ e' : HookOutboxEntry,
      e'.data.state = .reconciliationRequired ∧ e'.data.fencingToken = e.data.fencingToken
        ∧ e.claim worker now duration = { stored := [e'] } := by
  have hr := expiredReceipt_valid hst
  have hv : HookOutboxEntryData.valid
      { e.data with
        state := .reconciliationRequired, leaseExpiresAt := 0, receipt := some ⟨_, hr⟩ }
      = true := by
    have hbd := e.bound_spec
    have hatt := (dispatched_spec hst).1
    unfold HookOutboxEntryData.bound at hbd
    unfold HookOutboxEntryData.attempted at hatt
    simp only [Bool.and_eq_true, decide_eq_true_eq] at hbd hatt
    obtain ⟨⟨⟨⟨⟨⟨he, hph⟩, hm⟩, hms⟩, hc⟩, ht⟩, -⟩ := hbd
    simp [HookOutboxEntryData.valid, HookOutboxEntryData.bound, HookOutboxEntryData.stateValid,
      HookOutboxEntryData.lease, HookOutboxEntryData.attempted, HookOutboxEntryData.receiptState,
      he, hph, hm, hms, hc, ht, hatt]
  refine ⟨⟨_, hv⟩, rfl, rfl, ?_⟩
  unfold claim
  rw [if_neg hcl, if_neg (by simp [Int.not_le.mpr hdl]), if_pos (by simp [hst, hnow]),
    if_pos hi]
  unfold expired HookExecutionReceipt.create
  rw [dif_pos hr]
  show storedFirst (create _) _ = _
  unfold create
  rw [dif_pos hv]
  rfl

/-- A claim before the end of the lease changes nothing. -/
theorem claim_of_lt (hst : e.data.state = .dispatched)
    (hnow : now < e.data.leaseExpiresAt) : e.claim worker now duration = {} := by
  have hdl : now < e.data.deadline := lt_of_lt_of_le hnow (dispatched_spec hst).2.1
  unfold claim
  split
  · rfl
  · rw [if_neg (by simp [Int.not_le.mpr hdl]), if_neg (by simp [Int.not_le.mpr hnow])]
    unfold dispatch
    rw [if_pos (by simp [hst])]

namespace Answers

variable {op : HookOp I} {answer : HookAnswer}

omit [DecidableEq I] in
/-- What changes an open attempt: a claim, or its outcome. -/
theorem claim_or_tells (h : Answers e op answer) (hst : e.data.state = .dispatched)
    (hstr : answer.stored ≠ []) : (∃ id worker now duration, op = .claim id worker now duration)
      ∨ op.tells op.id e.data.fencingToken = true ∧ answer.succeeded = true := by
  cases h with
  | nothing => exact absurd rfl hstr
  | publish e' hb heq | reconcile receipt e' hb hkn hr hatt heq =>
    rw [hst] at hb
    cases hb
  | settle receipt e' hb hatt heq =>
    right
    refine ⟨?_, rfl⟩
    unfold tells HookOp.id
    simp
  | _ => exact .inl ⟨_, _, _, _, rfl⟩

omit [DecidableEq I] in
/-- An open reconciliation is written only by telling the outcome. -/
theorem tells_of_stored (h : Answers e op answer)
    (hst : e.data.state = .reconciliationRequired) (hstr : answer.stored ≠ []) :
    op.tells op.id e.data.fencingToken = true ∧ answer.succeeded = true := by
  obtain ⟨hs, id, head, known, rfl, hkn⟩ := h.reconcile_of_stored hst hstr
  refine ⟨?_, hs⟩
  unfold tells HookOp.id
  simp [hkn]

end Answers

end HookOutboxEntry

/-! ## Nobody tells the outcome -/

/-- **The entry of an attempt** behind operations none of which tells its outcome. -/
structure Untold (e : HookOutboxEntry) (id : String) (ops : List (HookOp I))
    (e' : HookOutboxEntry) : Prop where
  token : e'.data.fencingToken = e.data.fencingToken
  state : e'.data.state = e.untoldState id ops
  same : e'.data.state = .dispatched → e' = e

variable {e e' : HookOutboxEntry} {id : String} {ops : List (HookOp I)}

namespace HookOutboxEntry

variable {op : HookOp I}

omit [DecidableEq I] in
/-- The state once a claim came past the lease. -/
theorem untoldState_append_of_some (h : ops.find? (claimsPast id e.data.leaseExpiresAt) = some op)
    (ops' : List (HookOp I)) : e.untoldState id (ops ++ ops') = e.untoldState id ops := by
  unfold untoldState
  rw [find?_append, h]
  rfl

omit [DecidableEq I] in
/-- The state where none did before. -/
theorem untoldState_concat_of_none
    (h : ops.find? (claimsPast id e.data.leaseExpiresAt) = none) (op : HookOp I) :
    e.untoldState id (ops ++ [op])
      = if op.claimsPast id e.data.leaseExpiresAt then
          if op.claimsPast id e.data.deadline then .timedOut else .reconciliationRequired
        else .dispatched := by
  unfold untoldState
  rw [find?_append, h, none_or, find?_singleton]
  cases op.claimsPast id e.data.leaseExpiresAt with
  | false | true => rfl

omit [DecidableEq I] in
theorem untoldState_of_none (h : ops.find? (claimsPast id e.data.leaseExpiresAt) = none) :
    e.untoldState id ops = .dispatched := by
  unfold untoldState
  rw [h]

omit [DecidableEq I] in
/-- Only a claim past the deadline ends the attempt. -/
theorem untoldState_cases (e : HookOutboxEntry) (id : String) (ops : List (HookOp I)) :
    e.untoldState id ops = .dispatched ∨ e.untoldState id ops = .reconciliationRequired
      ∨ e.untoldState id ops = .timedOut ∧ ∃ op ∈ ops, op.claimsPast id e.data.deadline = true := by
  unfold untoldState
  cases hf : ops.find? (claimsPast id e.data.leaseExpiresAt) with
  | none => exact .inl rfl
  | some op =>
    dsimp only
    split_ifs with hdl
    · exact .inr (.inr ⟨rfl, op, mem_of_find?_eq_some hf, hdl⟩)
    · exact .inr (.inl rfl)

omit [DecidableEq I] in
/-- An operation on another invocation does not count. -/
theorem untoldState_concat_of_ne (h : op.id ≠ id) :
    e.untoldState id (ops ++ [op]) = e.untoldState id ops := by
  have hp : ∀ time, op.claimsPast id time = false := fun time =>
    eq_false_iff.mpr fun hop => h (id_of_claimsPast hop)
  cases hf : ops.find? (claimsPast id e.data.leaseExpiresAt) with
  | none =>
    rw [untoldState_concat_of_none hf, hp, untoldState_of_none hf]
    rfl
  | some op' => exact untoldState_append_of_some hf [op]

end HookOutboxEntry

variable {op : HookOp I}

omit [DecidableEq I] in
/-- An operation that stores nothing. -/
theorem Untold.concat_of_nil (h : Untold e id ops e') {answer : HookAnswer}
    (hstr : answer.stored = []) (hst : e.untoldState id (ops ++ [op]) = e.untoldState id ops) :
    Untold e id (ops ++ [op]) (answer.stored.getLast?.getD e') := by
  rw [hstr]
  exact ⟨h.token, h.state.trans hst.symm, h.same⟩

omit [DecidableEq I] in
/-- **A claim of an open attempt.** -/
theorem Untold.claim (h : Untold e id ops e) (hst : e.data.state = .dispatched)
    (hi : e.data.invocation.idempotency = .nonIdempotent)
    (hf : ops.find? (claimsPast id e.data.leaseExpiresAt) = none) (worker : String)
    (now duration : ℤ) : Untold e id (ops ++ [.claim id worker now duration])
      ((e.claim worker now duration).stored.getLast?.getD e) := by
  have hlv : claimsPast id e.data.leaseExpiresAt
      (.claim id worker now duration : HookOp I) = false → e.claim worker now duration = {} →
      Untold e id (ops ++ [.claim id worker now duration])
        ((e.claim worker now duration).stored.getLast?.getD e) := by
    intro hp hcl
    refine h.concat_of_nil (by rw [hcl]) ?_
    rw [untoldState_concat_of_none hf, hp, untoldState_of_none hf]
    rfl
  by_cases hcl : (worker = "" || duration ≤ 0) = true
  · refine hlv ?_ (if_pos hcl)
    unfold claimsPast
    dsimp only
    rw [hcl, Bool.not_true, Bool.and_false, Bool.false_and]
  by_cases hls : e.data.leaseExpiresAt ≤ now
  · have hp : ∀ time, claimsPast id time (.claim id worker now duration : HookOp I)
        = decide (time ≤ now) := by
      intro time
      unfold claimsPast
      dsimp only
      rw [not_eq_true] at hcl
      rw [hcl, decide_eq_true rfl]
      rfl
    have hnx := untoldState_concat_of_none hf (.claim id worker now duration : HookOp I)
    rw [hp, hp, decide_eq_true hls, if_pos rfl] at hnx
    by_cases hdl : e.data.deadline ≤ now
    · obtain ⟨e', heq, hstr⟩ := claim_of_deadline hst hcl hdl
      rw [hstr]
      rw [decide_eq_true hdl, if_pos rfl] at hnx
      show Untold e id _ e'
      refine ⟨by rw [heq], by rw [hnx, heq], ?_⟩
      rw [heq]
      nofun
    · obtain ⟨e', heq, htok, hstr⟩ :=
        claim_of_lease hst hi hcl (Int.not_le.mp hdl) hls
      rw [hstr]
      rw [decide_eq_false hdl, if_neg Bool.false_ne_true] at hnx
      show Untold e id _ e'
      refine ⟨htok, by rw [hnx, heq], ?_⟩
      rw [heq]
      nofun
  · refine hlv ?_ (claim_of_lt hst (Int.not_le.mp hls))
    unfold claimsPast
    dsimp only
    rw [decide_eq_false hls, Bool.and_false]

/-- **An operation that does not tell the outcome.** -/
theorem Untold.step (h : Untold e id ops e') (hst : e.data.state = .dispatched)
    (hi : e.data.invocation.idempotency = .nonIdempotent) (hid : op.id = id)
    (ht : op.tells id e.data.fencingToken = true →
      (op.answer digest (some e')).succeeded = false) :
    Untold e id (ops ++ [op]) ((op.answer digest (some e')).stored.getLast?.getD e') := by
  have ha := answers_of_some digest e' op
  -- nobody tells the outcome of the attempt of the entry
  have hunt : ¬(op.tells op.id e'.data.fencingToken = true
      ∧ (op.answer digest (some e')).succeeded = true) := by
    rintro ⟨htl, hs⟩
    rw [hid, h.token] at htl
    rw [ht htl] at hs
    cases hs
  cases hf : ops.find? (claimsPast id e.data.leaseExpiresAt) with
  | none =>
    have hd := h.state.trans (untoldState_of_none hf)
    have hsm := h.same hd
    subst hsm
    by_cases hstr : (op.answer digest (some e')).stored = []
    · cases op with
      | claim id' worker now duration =>
        cases hid
        exact h.claim hst hi hf worker now duration
      | _ =>
        refine h.concat_of_nil hstr ?_
        rw [untoldState_concat_of_none hf, untoldState_of_none hf]
        rfl
    · obtain ⟨id', worker, now, duration, rfl⟩ | htl :=
        ha.claim_or_tells hd hstr
      · cases hid
        exact h.claim hst hi hf worker now duration
      · exact absurd htl hunt
  | some op' =>
    refine h.concat_of_nil ?_ (untoldState_append_of_some hf [op])
    have hlt := h.state
    unfold untoldState at hlt
    rw [hf] at hlt
    dsimp only at hlt
    split at hlt
    · exact ha.stored_of_terminal (by rw [hlt]; rfl)
    · by_contra hstr
      exact hunt (ha.tells_of_stored hlt hstr)

/-! ## Every run -/

namespace InMemoryHookJournal

/-- No operation of a sequence tells the outcome of an attempt and succeeds. -/
def NobodyTells (digest : HookEntryBody → I) (before ops : List (HookOp I)) (id : String)
    (fence : ℕ) : Prop :=
  ∀ ops₁ op ops₂, ops = ops₁ ++ op :: ops₂ → op.tells id fence = true →
    ((run digest (before ++ ops₁)).answer digest op).succeeded = false

variable {before : List (HookOp I)}

/-- While nobody tells, the outcome stays open. -/
theorem untold_run (hst : e.data.state = .dispatched)
    (hi : e.data.invocation.idempotency = .nonIdempotent)
    (he : find? (run digest before) id = some e)
    (ht : NobodyTells digest before ops id e.data.fencingToken) :
    ∃ e', find? (run digest (before ++ ops)) id = some e' ∧ Untold e id ops e' := by
  induction ops using reverseRecOn with
  | nil =>
    rw [append_nil]
    exact ⟨e, he, rfl, hst, fun _ => rfl⟩
  | append_singleton ops op ih =>
    obtain ⟨e', hf, hunt⟩ := ih fun ops₁ op' ops₂ heq => ht ops₁ op' (ops₂ ++ [op])
      (by rw [heq, append_assoc, cons_append])
    rw [← append_assoc, run_concat, find?_step]
    by_cases hid : id = op.id
    · have ha : (run digest (before ++ ops)).answer digest op
          = op.answer digest (some e') := by
        unfold answer
        rw [← hid, hf]
      have hs := hunt.step hst hi hid.symm fun htl => by
        rw [← ha]
        exact ht ops op [] rfl htl
      rw [if_pos hid, ha, hf]
      refine ⟨_, ?_, hs⟩
      cases (op.answer digest (some e')).stored.getLast? with
      | none | some e'' => rfl
    · rw [if_neg hid]
      exact ⟨e', hf, hunt.token, by
        rw [untoldState_concat_of_ne (Ne.symm hid)]
        exact hunt.state, hunt.same⟩

variable {worker : String} {now duration : ℤ}

/-- A claim that succeeds starts an attempt. -/
theorem dispatched_of_answer {entry : Option HookOutboxEntry}
    (hcl : ((HookOp.claim id worker now duration : HookOp I).answer digest entry).succeeded
      = true) :
    ∃ e, entryAfter digest entry (.claim id worker now duration : HookOp I) = some e
      ∧ e.data.state = .dispatched := by
  cases entry with
  | none => cases hcl
  | some e₀ =>
    have ha := answers_of_some digest e₀ (.claim id worker now duration : HookOp I)
    unfold entryAfter
    generalize HookOp.answer digest _ (some e₀) = answer at ha hcl ⊢
    cases ha with
    | reclaim receipt lease e₁ e₂ hst hr hi heq₁ heq₂ =>
      exact ⟨e₂, rfl, by rw [heq₂]⟩
    | dispatch lease e' hst heq => exact ⟨e', rfl, by rw [heq]⟩
    | _ => cases hcl

theorem dispatched_of_claim
    (hcl : ((run digest before).answer digest (.claim id worker now duration)).succeeded = true) :
    ∃ e, find? (run digest (before ++ [.claim id worker now duration])) id = some e
      ∧ e.data.state = .dispatched := by
  rw [run_concat, find?_step_self _ (show (HookOp.claim id worker now duration : HookOp I).id = id
    from rfl)]
  exact dispatched_of_answer hcl

/-- **Unknown outcomes stay open**, up to the deadline. For every sequence of
operations with any clock readings: an attempt on a non-idempotent invocation whose
outcome nobody tells is dispatched up to the first claim past the end of its lease.
From then on it is to be reconciled, whatever the clocks read, or, where that claim
came past the deadline as well, it has timed out. -/
theorem state_of_untold (digest : HookEntryBody → I) (before ops : List (HookOp I))
    (hcl : ((run digest before).answer digest (.claim id worker now duration)).succeeded = true)
    (he : find? (run digest (before ++ [.claim id worker now duration])) id = some e)
    (hi : e.data.invocation.idempotency = .nonIdempotent)
    (ht : NobodyTells digest (before ++ [.claim id worker now duration]) ops id
      e.data.fencingToken) :
    ∃ e', find? (run digest (before ++ [.claim id worker now duration] ++ ops)) id
        = some e'
      ∧ e'.data.fencingToken = e.data.fencingToken
      ∧ e'.data.state = e.untoldState id ops
      ∧ (e'.data.state = .dispatched ∨ e'.data.state = .reconciliationRequired
        ∨ e'.data.state = .timedOut ∧ ∃ op ∈ ops, op.claimsPast id e.data.deadline = true) := by
  obtain ⟨e₁, he₁, hd⟩ := dispatched_of_claim hcl
  cases he.symm.trans he₁
  obtain ⟨e', hf, hunt⟩ := untold_run hd hi he ht
  refine ⟨e', hf, hunt.token, hunt.state, ?_⟩
  rw [hunt.state]
  exact untoldState_cases e id ops

/-- An invocation that waits for its first attempt. -/
def pendingOps : List (HookOp HookEntryBody) := sampleOps.take 2

theorem claim_pendingOps : ((run (fun body => body) pendingOps).answer (fun body => body)
    (.claim sampleInvocation.id "first" 1 10)).succeeded = true := by
  unfold answer
  rw [show (HookOp.claim sampleInvocation.id "first" 1 10 : HookOp HookEntryBody).id
      = sampleInvocation.id from rfl,
    @find?_run_of_id _ _ _ _ sampleInvocation.id (by simp [pendingOps, sampleOps, HookOp.id])]
  decide +kernel

/-- The entry of its attempt. -/
theorem claimed_pendingOps : ∃ e, find? (run (fun body => body)
      (pendingOps ++ [.claim sampleInvocation.id "first" 1 10])) sampleInvocation.id = some e
    ∧ e.data.state = .dispatched ∧ e.data.invocation.idempotency = .nonIdempotent
    ∧ e.data.deadline = 100 := by
  obtain ⟨e, he, hst⟩ := dispatched_of_claim claim_pendingOps
  have hk : (find? (run (fun body => body)
      (pendingOps ++ [.claim sampleInvocation.id "first" 1 10])) sampleInvocation.id).map
      (fun e => (e.data.invocation.idempotency, e.data.deadline)) = some (.nonIdempotent, 100) := by
    rw [@find?_run_of_id _ _ _ _ sampleInvocation.id (by simp [pendingOps, sampleOps, HookOp.id])]
    decide +kernel
  rw [he, map_some, some_inj, Prod.mk.injEq] at hk
  exact ⟨e, he, hst, hk.1, hk.2⟩

/-- Another claim tells nothing. -/
theorem nobodyTells_claim (digest : HookEntryBody → I) (before : List (HookOp I))
    (id worker : String) (now duration : ℤ) (fence : ℕ) :
    NobodyTells digest before [.claim id worker now duration] id fence := by
  intro ops₁ op ops₂ heq ht
  have hm : op ∈ [HookOp.claim id worker now duration] := by
    rw [heq]
    exact mem_append_right _ mem_cons_self
  rw [mem_singleton.mp hm] at ht
  cases ht

theorem state_of_untold_expired : ∃ e' : HookOutboxEntry, find? (run (fun body => body)
      (pendingOps ++ [.claim sampleInvocation.id "first" 1 10]
        ++ [.claim sampleInvocation.id "second" 50 10])) sampleInvocation.id = some e'
    ∧ (e'.data.state = .dispatched ∨ e'.data.state = .reconciliationRequired) := by
  obtain ⟨e, he, -, hi, hdl⟩ := claimed_pendingOps
  obtain ⟨e', hf, -, -, hst⟩ := state_of_untold (fun body => body) pendingOps
    [.claim sampleInvocation.id "second" 50 10] claim_pendingOps he hi
    (nobodyTells_claim _ _ _ _ _ _ _)
  refine ⟨e', hf, hst.imp_right fun h => h.resolve_right ?_⟩
  rintro ⟨-, op, hm, hp⟩
  rw [mem_singleton.mp hm, hdl] at hp
  unfold claimsPast at hp
  simp at hp

/-- What is said of unknown outcomes where no deadline ends them. -/
def StaysOpen (digest : HookEntryBody → I) : Prop :=
  ∀ (before ops : List (HookOp I)) (id worker : String) (now duration : ℤ) (e : HookOutboxEntry),
    ((run digest before).answer digest (.claim id worker now duration)).succeeded = true →
    find? (run digest (before ++ [.claim id worker now duration])) id = some e →
    e.data.invocation.idempotency = .nonIdempotent →
    NobodyTells digest (before ++ [.claim id worker now duration]) ops id e.data.fencingToken →
    ∃ e', find? (run digest (before ++ [.claim id worker now duration] ++ ops)) id
        = some e'
      ∧ (e'.data.state = .dispatched ∨ e'.data.state = .reconciliationRequired)

/-- **A deadline ends them**: an attempt is claimed, and the next claim comes at the
deadline. -/
theorem not_staysOpen : ¬StaysOpen (fun body : HookEntryBody => body) := by
  intro hop
  obtain ⟨e, he, hd, hi, hdl⟩ := claimed_pendingOps
  have htl := nobodyTells_claim (fun body : HookEntryBody => body)
    (pendingOps ++ [.claim sampleInvocation.id "first" 1 10]) sampleInvocation.id "second" 100 10
    e.data.fencingToken
  obtain ⟨e', hf, hst⟩ := hop pendingOps _ _ _ _ _ e claim_pendingOps he hi htl
  obtain ⟨e₁, hf₁, hunt⟩ := untold_run hd hi he htl
  cases hf.symm.trans hf₁
  have hp : ∀ time ≤ (100 : ℤ), claimsPast sampleInvocation.id time
      (.claim sampleInvocation.id "second" 100 10 : HookOp HookEntryBody) = true := by
    intro time ht
    unfold claimsPast
    simp [ht]
  have htimedOut := hunt.state
  unfold untoldState at htimedOut
  rw [find?_singleton, hp _ (hdl ▸ (dispatched_spec hd).2.1),
    if_pos rfl] at htimedOut
  dsimp only at htimedOut
  rw [hp _ hdl.le, if_pos rfl] at htimedOut
  rw [htimedOut] at hst
  obtain h | h := hst <;> cases h

end InMemoryHookJournal

end NeoGraph.Hook
