import NeoGraph.Hook.Outbox

/-!
# Hook attempts are fenced

`HookOutboxEntry.Update` lists the changes of an entry, and
`HookOutboxEntry.Answers` says once what each operation can store. Every
update is one that the Program store accepts (`validHookHeadUpdate_of_update`),
and the rest is an invariant over the operations that succeeded: the fencing
token of an invocation counts its claims, the tokens of its settlements are all
different, and a non-idempotent invocation that is failed was said to be so by
a settlement or a reconciliation.
-/

namespace NeoGraph.Hook

open HookOutboxEntryData HookAnswer List SortedMap Nat HookOp HookOutboxEntry

variable {I : Type} [DecidableEq I] {digest : HookEntryBody → I}

/-! ## What is checked of receipts and entries -/

namespace HookExecutionReceipt

theorem create_eq_some {d : HookExecutionReceiptData} {r : HookExecutionReceipt}
    (h : create d = some r) : r.data = d := by
  unfold create at h
  split at h
  · cases h
    rfl
  · cases h

/-- A receipt says how an attempt ended. -/
theorem state_cases (r : HookExecutionReceipt) :
    r.data.state = .succeeded ∨ r.data.state = .failed ∨ r.data.state = .timedOut
      ∨ r.data.state = .reconciliationRequired ∨ r.data.state = .cancelled := by
  have hv := r.valid
  unfold HookExecutionReceiptData.valid at hv
  simp only [Bool.and_eq_true, decide_eq_true_eq] at hv
  obtain ⟨⟨⟨⟨⟨-, htriggered⟩, hp⟩, hd⟩, -⟩, -⟩ := hv.1
  cases hst : r.data.state with
  | triggered => exact absurd hst htriggered
  | pending => exact absurd hst hp
  | dispatched => exact absurd hst hd
  | succeeded => exact .inl rfl
  | failed => exact .inr (.inl rfl)
  | timedOut => exact .inr (.inr (.inl rfl))
  | reconciliationRequired => exact .inr (.inr (.inr (.inl rfl)))
  | cancelled => exact .inr (.inr (.inr (.inr rfl)))

end HookExecutionReceipt

namespace HookOutboxEntry

theorem create_eq_some {d : HookOutboxEntryData} {e : HookOutboxEntry} (h : create d = some e) :
    e.data = d := by
  unfold create at h
  split at h
  · cases h
    rfl
  · cases h

theorem attemptCount_le (e : HookOutboxEntry) : e.data.attemptCount ≤ e.data.maxAttempts := by
  have hv := e.valid
  unfold HookOutboxEntryData.valid HookOutboxEntryData.bound at hv
  simp only [Bool.and_eq_true, decide_eq_true_eq] at hv
  exact hv.1.1.1.2

theorem maxAttempts_ne_zero (e : HookOutboxEntry) : e.data.maxAttempts ≠ 0 := by
  have hv := e.valid
  unfold HookOutboxEntryData.valid HookOutboxEntryData.bound at hv
  simp only [Bool.and_eq_true, decide_eq_true_eq] at hv
  exact hv.1.1.1.1.1.2

theorem attemptCount_of_pending {e : HookOutboxEntry} (h : e.data.state = .pending) :
    e.data.attemptCount = 0 := by
  have hv := e.valid
  unfold HookOutboxEntryData.valid HookOutboxEntryData.stateValid at hv
  rw [h] at hv
  simp only [Bool.and_eq_true, decide_eq_true_eq] at hv
  exact hv.2.1.1.1

end HookOutboxEntry

theorem HookAnswer.store_cases (d : HookOutboxEntryData) (succeeded : Bool) : store d succeeded = {}
      ∨ ∃ e, e.data = d ∧ store d succeeded = { stored := [e], succeeded := succeeded } := by
  unfold store
  cases h : HookOutboxEntry.create d with
  | none => exact .inl rfl
  | some e => exact .inr ⟨e, HookOutboxEntry.create_eq_some h, rfl⟩

/-! ## The changes of an entry -/

namespace HookOutboxEntry

/-- **The changes of an entry.** -/
inductive Update (e e' : HookOutboxEntry) : Prop where
  | publish (hstate : e.data.state = .triggered)
      (heq : e'.data = { e.data with state := .pending })
  | timeOut (hstate : e.data.settled = false)
      (heq : e'.data = { e.data with state := .timedOut, leaseExpiresAt := 0 })
  /-- An attempt starts. -/
  | dispatch (lease : ℤ) (hstate : e.data.state = .pending ∨ e.data.state = .failed)
      (heq : e'.data =
        { e.data with
          state := .dispatched
          attemptCount := e.data.attemptCount + 1
          fencingToken := e.data.fencingToken + 1
          receipt := none
          leaseExpiresAt := lease })
  /-- An attempt ends with a receipt. -/
  | finish (receipt : HookExecutionReceipt) (hstate : e.data.state = .dispatched)
      (heq : e'.data =
        { e.data with
          state := receipt.data.state, receipt := some receipt, leaseExpiresAt := 0 })
  | reconcile (receipt : HookExecutionReceipt) (hstate : e.data.state = .reconciliationRequired)
      (hknown : receipt.data.externalEffect.outcomeKnown = true)
      (hreceipt : receipt.data.state = .succeeded ∨ receipt.data.state = .failed)
      (heq : e'.data = { e.data with state := receipt.data.state, receipt := some receipt })

variable {e e' : HookOutboxEntry}

theorem body_ne_of_state (h : e.data.state ≠ e'.data.state) :
    e.body ≠ e'.body := fun heq => h (congrArg HookEntryBody.state heq)

theorem state_of_not_settled {d : HookOutboxEntryData} (h : d.settled = false) :
    d.state = .triggered ∨ d.state = .pending ∨ d.state = .dispatched ∨ d.state = .failed := by
  unfold settled HookExecutionState.isTerminal at h
  cases hst : d.state with
  | triggered => exact .inl rfl
  | pending => exact .inr (.inl rfl)
  | dispatched => exact .inr (.inr (.inl rfl))
  | failed => exact .inr (.inr (.inr rfl))
  | _ =>
    rw [hst] at h
    cases h

/-- What an update keeps, and where it may lead. -/
structure Kept (e e' : HookOutboxEntry) : Prop where
  invocation : e'.data.invocation = e.data.invocation
  event : e'.data.event = e.data.event
  maxAttempts : e'.data.maxAttempts = e.data.maxAttempts
  deadline : e'.data.deadline = e.data.deadline
  transition : e'.data.state.transition e.data.state = true
  attempt : e.data.attemptFollows e'.data = true
  known : e.data.state = .reconciliationRequired →
    (e'.data.receipt.any fun r => r.data.externalEffect.outcomeKnown) = true

/-- An update keeps what an entry is bound to. -/
theorem Update.kept (h : Update e e') : Kept e e' := by
  cases h with
  | publish hst heq =>
    refine ⟨by rw [heq], by rw [heq], by rw [heq], by rw [heq], ?_, ?_, ?_⟩
    · rw [heq, hst]
      rfl
    · rw [heq]
      simp [attemptFollows]
    · rw [hst]
      nofun
  | timeOut hst heq =>
    refine ⟨by rw [heq], by rw [heq], by rw [heq], by rw [heq], ?_, ?_, ?_⟩
    · rw [heq]
      obtain h | h | h | h := state_of_not_settled hst
      all_goals
        rw [h]
        rfl
    · rw [heq]
      simp [attemptFollows]
    · intro hr
      obtain h | h | h | h := state_of_not_settled hst
      all_goals
        rw [hr] at h
        cases h
  | dispatch lease hst heq =>
    refine ⟨by rw [heq], by rw [heq], by rw [heq], by rw [heq], ?_, ?_, ?_⟩
    · rw [heq]
      obtain h | h := hst
      · rw [h]
        rfl
      · rw [h]
        rfl
    · rw [heq]
      simp [attemptFollows]
    · intro hr
      obtain h | h := hst
      all_goals
        rw [hr] at h
        cases h
  | finish receipt hst heq =>
    refine ⟨by rw [heq], by rw [heq], by rw [heq], by rw [heq], ?_, ?_, ?_⟩
    · rw [heq, hst]
      obtain h | h | h | h | h := receipt.state_cases
      all_goals
        rw [h]
        rfl
    · rw [heq]
      obtain h | h | h | h | h := receipt.state_cases
      all_goals simp [attemptFollows, h]
    · rw [hst]
      nofun
  | reconcile receipt hst hkn hrc heq =>
    refine ⟨by rw [heq], by rw [heq], by rw [heq], by rw [heq], ?_, ?_, ?_⟩
    · rw [heq, hst]
      dsimp only
      obtain h | h := hrc
      all_goals
        rw [h]
        rfl
    · rw [heq]
      obtain h | h := hrc
      all_goals simp [attemptFollows, h]
    · intro _
      rw [heq]
      exact hkn

/-- A transition leaves a state that is not terminal, and changes it. -/
theorem transition_spec {state target : HookExecutionState} (h : target.transition state = true) :
    state.hookIsTerminal = false ∧ state ≠ target := by
  cases state with
  | succeeded | timedOut | cancelled => cases h
  | _ =>
    refine ⟨rfl, ?_⟩
    rintro rfl
    cases h

/-- **Every update is accepted by the Program store.** -/
theorem validHookHeadUpdate_of_update (hdg : Function.Injective digest) (h : Update e e') :
    validHookHeadUpdate digest e e' = true := by
  have hk := h.kept
  obtain ⟨ht, hst⟩ := transition_spec hk.transition
  have hatt := hk.attempt
  have hle : e.data.attemptCount ≤ e'.data.attemptCount
      ∧ e.data.fencingToken ≤ e'.data.fencingToken := by
    unfold attemptFollows at hatt
    split at hatt
    all_goals
      simp only [Bool.and_eq_true, decide_eq_true_eq] at hatt
      omega
  have hid : digest e.body ≠ digest e'.body := fun heq => body_ne_of_state hst (hdg heq)
  have hkn : (!(e.data.state = .reconciliationRequired
      && !(e'.data.receipt.any fun r => r.data.externalEffect.outcomeKnown))) = true := by
    by_cases hr : e.data.state = .reconciliationRequired
    · rw [hk.known hr, Bool.not_true, Bool.and_false]
      rfl
    · rw [decide_eq_false hr]
      rfl
  unfold validHookHeadUpdate
  dsimp only
  rw [hk.invocation, hk.event, hk.maxAttempts, hk.deadline, ht,
    hk.transition, hatt, hkn, decide_eq_true hle.1, decide_eq_true hle.2,
    decide_eq_true hid]
  simp

/-! ## What an operation stores -/

/-- **Everything an operation can do to an entry.** -/
inductive Answers (e : HookOutboxEntry) : HookOp I → HookAnswer → Prop where
  | nothing (op : HookOp I) : Answers e op {}
  | publish {id : String} (e' : HookOutboxEntry) (hstate : e.data.state = .triggered)
      (heq : e'.data = { e.data with state := .pending }) :
      Answers e (.publish id) { stored := [e'], succeeded := true }
  /-- A claim past the deadline. -/
  | timeOut {id worker : String} {now duration : ℤ} (e' : HookOutboxEntry)
      (hstate : e.data.settled = false)
      (heq : e'.data = { e.data with state := .timedOut, leaseExpiresAt := 0 }) :
      Answers e (.claim id worker now duration) { stored := [e'] }
  /-- A claim past the lease, without a new attempt. -/
  | expire {id worker : String} {now duration : ℤ} (receipt : HookExecutionReceipt)
      (e' : HookOutboxEntry) (hstate : e.data.state = .dispatched)
      (hreceipt : receipt.data.state = .reconciliationRequired
        ∨ receipt.data.state = .failed ∧ e.data.invocation.idempotency = .idempotent)
      (heq : e'.data =
        { e.data with
          state := receipt.data.state, receipt := some receipt, leaseExpiresAt := 0 }) :
      Answers e (.claim id worker now duration) { stored := [e'] }
  /-- A claim past the lease of an idempotent invocation, with a new attempt. -/
  | reclaim {id worker : String} {now duration : ℤ} (receipt : HookExecutionReceipt) (lease : ℤ)
      (e₁ e₂ : HookOutboxEntry) (hstate : e.data.state = .dispatched)
      (hreceipt : receipt.data.state = .failed)
      (hidempotent : e.data.invocation.idempotency = .idempotent)
      (heq₁ : e₁.data =
        { e.data with
          state := receipt.data.state, receipt := some receipt, leaseExpiresAt := 0 })
      (heq₂ : e₂.data =
        { e₁.data with
          state := .dispatched
          attemptCount := e₁.data.attemptCount + 1
          fencingToken := e₁.data.fencingToken + 1
          receipt := none
          leaseExpiresAt := lease }) :
      Answers e (.claim id worker now duration) { stored := [e₁, e₂], succeeded := true }
  /-- A claim of a pending or failed entry. -/
  | dispatch {id worker : String} {now duration : ℤ} (lease : ℤ) (e' : HookOutboxEntry)
      (hstate : e.data.state = .pending ∨ e.data.state = .failed)
      (heq : e'.data =
        { e.data with
          state := .dispatched
          attemptCount := e.data.attemptCount + 1
          fencingToken := e.data.fencingToken + 1
          receipt := none
          leaseExpiresAt := lease }) :
      Answers e (.claim id worker now duration) { stored := [e'], succeeded := true }
  | settle {id : String} {now : ℤ} (receipt : HookExecutionReceipt) (e' : HookOutboxEntry)
      (hstate : e.data.state = .dispatched) (hattempt : receipt.data.attempt = e.data.attemptCount)
      (heq : e'.data =
        { e.data with
          state := receipt.data.state, receipt := some receipt, leaseExpiresAt := 0 }) :
      Answers e (.settle id e.data.fencingToken receipt now) { stored := [e'], succeeded := true }
  | reconcile {id : String} {head : I} (receipt : HookExecutionReceipt) (e' : HookOutboxEntry)
      (hstate : e.data.state = .reconciliationRequired)
      (hknown : receipt.data.externalEffect.outcomeKnown = true)
      (hreceipt : receipt.data.state = .succeeded ∨ receipt.data.state = .failed)
      (hattempt : receipt.data.attempt = e.data.attemptCount)
      (heq : e'.data = { e.data with state := receipt.data.state, receipt := some receipt }) :
      Answers e (.reconcile id .reconciliationRequired head e.data.fencingToken receipt)
        { stored := [e'], succeeded := true }

variable {e : HookOutboxEntry}

/-- The last step of a claim: it stores nothing, or it starts an attempt. -/
theorem dispatch_cases (e : HookOutboxEntry) (now duration : ℤ) :
    e.dispatch now duration = {} ∨ ∃ (lease : ℤ) (e' : HookOutboxEntry),
      (e.data.state = .pending ∨ e.data.state = .failed)
      ∧ e'.data = { e.data with
          state := .dispatched
          attemptCount := e.data.attemptCount + 1
          fencingToken := e.data.fencingToken + 1
          receipt := none
          leaseExpiresAt := lease }
      ∧ e.dispatch now duration = { stored := [e'], succeeded := true } := by
  unfold dispatch
  split
  · exact .inl rfl
  rename_i hg
  rw [Bool.and_eq_true, not_and_or, decide_eq_true_eq, not_not, Bool.not_eq_true',
    Bool.not_eq_false, Bool.and_eq_true, decide_eq_true_eq, decide_eq_true_eq] at hg
  split
  · -- no attempt is left: neither a pending entry nor one that may be tried again
    rename_i hle
    obtain hp | ⟨-, hlt⟩ := hg
    · rw [attemptCount_of_pending hp] at hle
      exact absurd (Nat.le_zero.mp hle) e.maxAttempts_ne_zero
    · exact absurd hlt (Nat.not_lt.mpr hle)
  · obtain hn | ⟨e', heq, hst⟩ := HookAnswer.store_cases
      { e.data with
        state := .dispatched
        attemptCount := e.data.attemptCount + 1
        fencingToken := e.data.fencingToken + 1
        receipt := none
        leaseExpiresAt := min e.data.deadline (now + duration) } true
    · exact .inl hn
    · exact .inr ⟨_, e', hg.imp id And.left, heq, hst⟩

theorem expired_eq_some {state : HookExecutionState} {error : String}
    (h : e.expired state error = some e') :
    ∃ receipt : HookExecutionReceipt, receipt.data.state = state
      ∧ e'.data = { e.data with
          state := receipt.data.state, receipt := some receipt, leaseExpiresAt := 0 } := by
  unfold expired at h
  simp only [Option.bind_eq_bind, Option.bind_eq_some_iff] at h
  obtain ⟨receipt, hr, hcrt⟩ := h
  have hst : receipt.data.state = state := by
    rw [HookExecutionReceipt.create_eq_some hr]
  refine ⟨receipt, hst, ?_⟩
  rw [create_eq_some hcrt, hst]

omit [DecidableEq I] in
theorem answers_claim (e : HookOutboxEntry) (id worker : String) (now duration : ℤ) :
    Answers e (.claim id worker now duration : HookOp I) (e.claim worker now duration) := by
  unfold claim
  split
  · exact Answers.nothing _
  split
  · rename_i hdl
    rw [Bool.and_eq_true, Bool.not_eq_true'] at hdl
    obtain hn | ⟨e', heq, hs⟩ := store_cases
      { e.data with state := .timedOut, leaseExpiresAt := 0 } false
    · rw [hn]
      exact Answers.nothing _
    · rw [hs]
      exact Answers.timeOut e' hdl.2 heq
  · split
    · rename_i he
      rw [Bool.and_eq_true, decide_eq_true_eq] at he
      split
      · unfold storedFirst
        split
        · exact Answers.nothing _
        · rename_i e' he'
          obtain ⟨receipt, hr, heq⟩ := expired_eq_some he'
          exact Answers.expire receipt e' he.1 (.inl hr) heq
      · rename_i hi
        have hid : e.data.invocation.idempotency = .idempotent := by
          cases h : e.data.invocation.idempotency with
          | idempotent => rfl
          | nonIdempotent => exact absurd h hi
        unfold storedFirst
        split
        · exact Answers.nothing _
        rename_i e₁ he₁
        obtain ⟨receipt, hr, heq₁⟩ := expired_eq_some he₁
        dsimp only
        obtain hn | ⟨lease, e₂, -, heq₂, hs⟩ := dispatch_cases e₁ now duration
        · rw [hn]
          exact Answers.expire receipt e₁ he.1 (.inr ⟨hr, hid⟩) heq₁
        · rw [hs]
          exact Answers.reclaim receipt lease e₁ e₂ he.1 hr hid heq₁ heq₂
    · obtain hn | ⟨lease, e', hst, heq, hs⟩ := dispatch_cases e now duration
      · rw [hn]
        exact Answers.nothing _
      · rw [hs]
        exact Answers.dispatch lease e' hst heq

omit [DecidableEq I] in
theorem answers_settle (e : HookOutboxEntry) (id : String) (fence : ℕ)
    (receipt : HookExecutionReceipt) (now : ℤ) :
    Answers e (.settle id fence receipt now : HookOp I) (e.settle id fence receipt now) := by
  unfold settle
  split_ifs with hg
  · exact Answers.nothing _
  simp only [Bool.or_eq_true, decide_eq_true_eq, not_or, not_not] at hg
  obtain ⟨⟨⟨⟨hst, rfl⟩, -⟩, -⟩, hatt⟩ := hg
  obtain hn | ⟨e', heq, hs⟩ := HookAnswer.store_cases
    { e.data with state := receipt.data.state, receipt := some receipt, leaseExpiresAt := 0 } true
  · rw [hn]
    exact Answers.nothing _
  · rw [hs]
    exact Answers.settle receipt e' hst hatt heq

theorem answers_reconcile (digest : HookEntryBody → I) (e : HookOutboxEntry) (id : String)
    (expected : HookExecutionState) (head : I) (fence : ℕ) (known : HookExecutionReceipt) :
    Answers e (.reconcile id expected head fence known)
      (e.reconcile digest id expected head fence known) := by
  unfold reconcile
  split_ifs with hg
  · exact Answers.nothing _
  simp only [Bool.or_eq_true, Bool.and_eq_true, Bool.not_eq_true', decide_eq_true_eq, not_or,
    not_not, Bool.not_eq_false, not_and_or] at hg
  obtain ⟨⟨⟨⟨⟨⟨⟨hst, -⟩, rfl⟩, rfl⟩, hkn⟩, -⟩, hatt⟩, hr⟩ := hg
  obtain hn | ⟨e', heq, hs⟩ := HookAnswer.store_cases
    { e.data with state := known.data.state, receipt := some known } true
  · rw [hn]
    exact Answers.nothing _
  · rw [hs]
    exact Answers.reconcile known e' hst hkn hr hatt heq

/-- What an operation can answer about an entry. -/
theorem answers_of_some (digest : HookEntryBody → I) (e : HookOutboxEntry) (op : HookOp I) :
    Answers e op (op.answer digest (some e)) := by
  cases op with
  | enqueue invocation event maxAttempts deadline => exact Answers.nothing _
  | publish id =>
    show Answers e _ e.publish
    unfold publish
    split_ifs with hst
    · obtain hn | ⟨e', heq, hs⟩ :=
        store_cases { e.data with state := .pending } true
      · rw [hn]
        exact Answers.nothing _
      · rw [hs]
        exact Answers.publish e' hst heq
    · exact Answers.nothing _
  | claim id worker now duration => exact answers_claim e id worker now duration
  | settle id fence receipt now => exact answers_settle e id fence receipt now
  | reconcile id expected head fence known =>
    exact answers_reconcile digest e id expected head fence known

omit [DecidableEq I] in
/-- What an operation stores is a chain of at most two updates. -/
theorem Answers.chain {op : HookOp I} {answer : HookAnswer} (h : Answers e op answer) :
    (e :: answer.stored).IsChain Update ∧ answer.stored.length ≤ 2 := by
  cases h with
  | nothing => exact ⟨isChain_singleton e, zero_le 2⟩
  | publish e' hst heq =>
    exact ⟨isChain_pair.mpr (Update.publish hst heq), le_succ 1⟩
  | timeOut e' hst heq =>
    exact ⟨isChain_pair.mpr (Update.timeOut hst heq), le_succ 1⟩
  | expire receipt e' hst hr heq | settle receipt e' hst hatt heq =>
    exact ⟨isChain_pair.mpr (Update.finish receipt hst heq), le_succ 1⟩
  | reclaim receipt lease e₁ e₂ hst hr hi heq₁ heq₂ =>
    have hf : e₁.data.state = .failed := by
      rw [heq₁]
      exact hr
    exact ⟨isChain_cons_cons.mpr ⟨Update.finish receipt hst heq₁,
      isChain_pair.mpr (Update.dispatch lease (.inr hf) heq₂)⟩, le_rfl⟩
  | dispatch lease e' hst heq =>
    exact ⟨isChain_pair.mpr (Update.dispatch lease hst heq), le_succ 1⟩
  | reconcile receipt e' hst hkn hr hatt heq =>
    exact ⟨isChain_pair.mpr (Update.reconcile receipt hst hkn hr heq), le_succ 1⟩

end HookOutboxEntry

/-! ## The operations that succeeded -/

namespace InMemoryHookJournal

/-- The operations of a sequence that succeed, from a journal on. -/
def succeeded (digest : HookEntryBody → I) : InMemoryHookJournal → List (HookOp I) → List (HookOp I)
  | _, [] => []
  | journal, op :: ops =>
    (if (journal.answer digest op).succeeded then [op] else [])
      ++ succeeded digest (journal.step digest op) ops

theorem run_concat (digest : HookEntryBody → I) (ops : List (HookOp I)) (op : HookOp I) :
    run digest (ops ++ [op]) = (run digest ops).step digest op := by
  unfold run
  rw [foldl_append]
  rfl

theorem succeeded_concat (digest : HookEntryBody → I) (ops : List (HookOp I)) (op : HookOp I) :
    succeeded digest ∅ (ops ++ [op])
      = succeeded digest ∅ ops
        ++ if ((run digest ops).answer digest op).succeeded then [op] else [] := by
  have hf : ∀ (ops : List (HookOp I)) (journal : InMemoryHookJournal),
      succeeded digest journal (ops ++ [op])
        = succeeded digest journal ops
          ++ if ((ops.foldl (step digest) journal).answer digest op).succeeded then
            [op] else [] := by
    intro ops
    induction ops with
    | nil => exact fun _ => append_nil _
    | cons op' ops ih =>
      intro journal
      show _ ++ succeeded digest _ (ops ++ [op]) = (_ ++ succeeded digest _ ops) ++ _
      rw [ih, append_assoc]
      rfl
  exact hf ops ∅

theorem find?_step (journal : InMemoryHookJournal) (op : HookOp I) (id : String) :
    (journal.step digest op).find? id
      = if id = op.id then (journal.answer digest op).stored.getLast?.or (journal.find? id)
        else journal.find? id := by
  unfold step
  cases h : (journal.answer digest op).stored.getLast? with
  | none =>
    rw [Option.none_or, ite_self]
  | some e =>
    dsimp only
    rw [find?_insert]
    rfl

/-! ## A sequence about one invocation -/

/-- What an operation leaves of the entry of its invocation. -/
def entryAfter (digest : HookEntryBody → I) (entry : Option HookOutboxEntry) (op : HookOp I) :
    Option HookOutboxEntry :=
  (op.answer digest entry).stored.getLast?.or entry

/-- The operations about one invocation that succeed, from its entry on. -/
def succeededFrom (digest : HookEntryBody → I) :
    Option HookOutboxEntry → List (HookOp I) → List (HookOp I)
  | _, [] => []
  | entry, op :: ops =>
    (if (op.answer digest entry).succeeded then [op] else [])
      ++ succeededFrom digest (entryAfter digest entry op) ops

theorem find?_step_self (journal : InMemoryHookJournal) {op : HookOp I} {id : String}
    (h : op.id = id) :
    (journal.step digest op).find? id = entryAfter digest (journal.find? id) op := by
  rw [find?_step, if_pos h.symm]
  unfold answer entryAfter
  rw [h]

/-- **The entry of an invocation** after operations about it alone. -/
theorem find?_run_of_id {ops : List (HookOp I)} {id : String} (h : ∀ op ∈ ops, op.id = id) :
    (run digest ops).find? id = ops.foldl (entryAfter digest) none := by
  have hf : ∀ (ops : List (HookOp I)) (journal : InMemoryHookJournal), (∀ op ∈ ops, op.id = id) →
      (ops.foldl (step digest) journal).find? id
        = ops.foldl (entryAfter digest) (journal.find? id) := by
    intro ops
    induction ops with
    | nil => exact fun _ _ => rfl
    | cons op ops ih =>
      intro journal h
      rw [foldl_cons, foldl_cons, ih _ fun op hop => h op (mem_cons_of_mem _ hop),
        find?_step_self journal (h op mem_cons_self)]
  exact hf ops ∅ h

theorem succeeded_of_id {ops : List (HookOp I)} {id : String} (h : ∀ op ∈ ops, op.id = id)
    (journal : InMemoryHookJournal) :
    succeeded digest journal ops = succeededFrom digest (journal.find? id) ops := by
  induction ops generalizing journal with
  | nil => rfl
  | cons op ops ih =>
    have hid := h op mem_cons_self
    unfold succeeded succeededFrom
    rw [ih (fun op hop => h op (mem_cons_of_mem _ hop)), find?_step_self journal hid]
    unfold answer
    rw [hid]

end InMemoryHookJournal

namespace HookOp

/-- A claim of an invocation. -/
def isClaim (id : String) : HookOp I → Bool
  | claim id' _ _ _ => id' = id
  | _ => false

/-- The token of a settlement of an invocation. -/
def settledToken (id : String) : HookOp I → Option ℕ
  | settle id' fence _ _ => if id' = id then some fence else none
  | _ => none

/-- A settlement or a reconciliation that says that an attempt of an invocation
failed. -/
def failsAttempt (id : String) (attempt : ℕ) : HookOp I → Bool
  | settle id' _ receipt _ =>
    id' = id && receipt.data.state = .failed && receipt.data.attempt = attempt
  | reconcile id' _ _ _ known =>
    id' = id && known.data.state = .failed && known.data.attempt = attempt
  | _ => false

variable {id : String} {op : HookOp I}

omit [DecidableEq I] in
theorem isClaim_of_ne (h : op.id ≠ id) : op.isClaim id = false := by
  cases op with
  | claim id' worker now duration => exact decide_eq_false h
  | _ => rfl

variable {id' : String}

omit [DecidableEq I] in
theorem countP_isClaim {worker : String} {now duration : ℤ}
    (h : (claim id' worker now duration : HookOp I).id = id) :
    [(claim id' worker now duration : HookOp I)].countP (isClaim id) = 1 := by
  rw [countP_singleton]
  exact if_pos (decide_eq_true h)

variable {fence attempt : ℕ}

omit [DecidableEq I] in
theorem failsAttempt_settle {receipt : HookExecutionReceipt} {now : ℤ} (h : id' = id)
    (hst : receipt.data.state = .failed) (hatt : receipt.data.attempt = attempt) :
    failsAttempt id attempt (settle id' fence receipt now : HookOp I) = true := by
  unfold failsAttempt
  dsimp only
  rw [decide_eq_true h, decide_eq_true hst, decide_eq_true hatt]
  rfl

omit [DecidableEq I] in
theorem failsAttempt_reconcile {expected : HookExecutionState} {head : I}
    {known : HookExecutionReceipt} (h : id' = id) (hst : known.data.state = .failed)
    (hatt : known.data.attempt = attempt) :
    failsAttempt id attempt (reconcile id' expected head fence known) = true := by
  unfold failsAttempt
  dsimp only
  rw [decide_eq_true h, decide_eq_true hst, decide_eq_true hatt]
  rfl

omit [DecidableEq I] in
theorem settledToken_of_ne (h : op.id ≠ id) : op.settledToken id = none := by
  cases op with
  | settle id' fence receipt now => exact if_neg h
  | _ => rfl

end HookOp

/-- **What the operations that succeeded say about an entry.** -/
structure Fenced (id : String) (done : List (HookOp I)) (e : HookOutboxEntry) : Prop where
  token : e.data.fencingToken = done.countP (isClaim id)
  attempt : e.data.attemptCount = done.countP (isClaim id)
  settled_nodup : (done.filterMap (settledToken id)).Nodup
  settled_le : ∀ token ∈ done.filterMap (settledToken id), token ≤ e.data.fencingToken
    ∧ (e.data.state = .dispatched → token < e.data.fencingToken)
  failed : e.data.invocation.idempotency = .nonIdempotent → e.data.state = .failed →
    ∃ op ∈ done, failsAttempt id e.data.attemptCount op = true

variable {id : String} {done l : List (HookOp I)} {e e' : HookOutboxEntry}

omit [DecidableEq I] in
/-- An operation that does not settle the attempt. -/
theorem Fenced.append (h : Fenced id done e)
    (htok : e'.data.fencingToken = e.data.fencingToken + l.countP (isClaim id))
    (hatt : e'.data.attemptCount = e.data.attemptCount + l.countP (isClaim id))
    (hs : l.filterMap (settledToken id) = []) (hd : e'.data.state = .dispatched →
      e.data.state = .dispatched ∨ e.data.fencingToken < e'.data.fencingToken)
    (hf : e'.data.invocation.idempotency = .nonIdempotent → e'.data.state = .failed →
      ∃ op ∈ done ++ l, failsAttempt id e'.data.attemptCount op = true) :
    Fenced id (done ++ l) e' := by
  refine ⟨?_, ?_, ?_, ?_, hf⟩
  · rw [countP_append, htok, h.token]
  · rw [countP_append, hatt, h.attempt]
  · rw [filterMap_append, hs, append_nil]
    exact h.settled_nodup
  intro token hm
  rw [filterMap_append, hs, append_nil] at hm
  obtain ⟨hle, hlt⟩ := h.settled_le token hm
  refine ⟨by omega, fun hst => ?_⟩
  obtain hb | hn := hd hst
  · have := hlt hb
    omega
  · omega

variable {op : HookOp I}

omit [DecidableEq I] in
/-- The settlement of the attempt. -/
theorem Fenced.append_settled (h : Fenced id done e)
    (hcl : op.isClaim id = false) (hop : op.settledToken id = some e.data.fencingToken)
    (hst : e.data.state = .dispatched) (htok : e'.data.fencingToken = e.data.fencingToken)
    (hatt : e'.data.attemptCount = e.data.attemptCount) (hst' : e'.data.state ≠ .dispatched)
    (hf : e'.data.state = .failed → failsAttempt id e'.data.attemptCount op = true) :
    Fenced id (done ++ [op]) e' := by
  have hc : [op].countP (isClaim id) = 0 := by
    rw [countP_singleton, hcl]
    rfl
  have htoks : [op].filterMap (settledToken id) = [e.data.fencingToken] := by
    rw [filterMap_cons, hop]
    rfl
  refine ⟨?_, ?_, ?_, ?_, ?_⟩
  · rw [countP_append, hc, htok, h.token, add_zero]
  · rw [countP_append, hc, hatt, h.attempt, add_zero]
  · rw [filterMap_append, htoks, nodup_append]
    refine ⟨h.settled_nodup, nodup_singleton _, ?_⟩
    intro token hm token' hm' heq
    have hlt := (h.settled_le token hm).2 hst
    rw [heq, mem_singleton.mp hm'] at hlt
    exact lt_irrefl _ hlt
  · intro token hm
    rw [filterMap_append, htoks, mem_append, mem_singleton] at hm
    refine ⟨?_, fun hd => absurd hd hst'⟩
    rw [htok]
    obtain hold | rfl := hm
    · exact (h.settled_le token hold).1
    · exact le_rfl
  · intro _ hst''
    exact ⟨op, mem_append_right _ (mem_singleton_self op), hf hst''⟩

theorem receipt_state_ne_dispatched (receipt : HookExecutionReceipt) :
    receipt.data.state ≠ .dispatched := by
  intro h
  obtain h' | h' | h' | h' | h' := receipt.state_cases
  all_goals
    rw [h] at h'
    cases h'

omit [DecidableEq I] in
/-- **Every operation keeps what its predecessors said.** -/
theorem Fenced.answers (h : Fenced id done e) {answer : HookAnswer}
    (hop : op.id = id) (ha : Answers e op answer) :
    Fenced id (done ++ if answer.succeeded then [op] else []) (answer.stored.getLast?.getD e) := by
  cases ha with
  | nothing =>
    show Fenced id (done ++ []) e
    rw [append_nil]
    exact h
  | publish e' hst heq =>
    show Fenced id (done ++ [_]) e'
    refine h.append ?_ ?_ rfl ?_ ?_
    · rw [heq]
      rfl
    · rw [heq]
      rfl
    · rw [heq]
      nofun
    · rw [heq]
      nofun
  | timeOut e' hst heq =>
    show Fenced id (done ++ []) e'
    refine h.append ?_ ?_ rfl ?_ ?_
    · rw [heq]
      rfl
    · rw [heq]
      rfl
    · rw [heq]
      nofun
    · rw [heq]
      nofun
  | expire receipt e' hst hrc heq =>
    show Fenced id (done ++ []) e'
    refine h.append ?_ ?_ rfl ?_ ?_
    · rw [heq]
      rfl
    · rw [heq]
      rfl
    · exact fun _ => .inl hst
    intro hi hf
    rw [heq] at hi hf
    obtain hr | ⟨-, hid⟩ := hrc
    · rw [hr] at hf
      cases hf
    · rw [hid] at hi
      cases hi
  | reclaim receipt lease e₁ e₂ hst hrc hid heq₁ heq₂ =>
    show Fenced id (done ++ [_]) e₂
    rw [heq₁] at heq₂
    refine h.append ?_ ?_ rfl ?_ ?_
    · rw [heq₂, countP_isClaim hop]
    · rw [heq₂, countP_isClaim hop]
    · intro _
      right
      rw [heq₂]
      exact lt_succ_self _
    · rw [heq₂]
      nofun
  | dispatch lease e' hst heq =>
    show Fenced id (done ++ [_]) e'
    refine h.append ?_ ?_ rfl ?_ ?_
    · rw [heq, countP_isClaim hop]
    · rw [heq, countP_isClaim hop]
    · intro _
      right
      rw [heq]
      exact lt_succ_self _
    · rw [heq]
      nofun
  | settle receipt e' hst hatt heq =>
    show Fenced id (done ++ [_]) e'
    refine h.append_settled rfl (if_pos hop) hst (by rw [heq]) (by rw [heq]) ?_ ?_
    · rw [heq]
      exact receipt_state_ne_dispatched receipt
    · intro hf
      rw [heq] at hf ⊢
      exact failsAttempt_settle hop hf hatt
  | reconcile receipt e' hst hkn hrc hatt heq =>
    show Fenced id (done ++ [_]) e'
    refine h.append ?_ ?_ rfl ?_ ?_
    · rw [heq]
      rfl
    · rw [heq]
      rfl
    · intro hd
      rw [heq] at hd
      exact absurd hd (receipt_state_ne_dispatched receipt)
    · intro _ hf
      rw [heq] at hf ⊢
      exact ⟨_, mem_append_right _ (mem_singleton_self _),
        failsAttempt_reconcile hop hf hatt⟩

/-! ## Every sequence of operations -/

namespace InMemoryHookJournal

/-- What holds of an invocation after the operations that succeeded. -/
def Inv (id : String) (journal : InMemoryHookJournal) (done : List (HookOp I)) : Prop :=
  match find? journal id with
  | none => done.countP (isClaim id) = 0 ∧ done.filterMap (settledToken id) = []
  | some e => Fenced id done e

omit [DecidableEq I] in
theorem inv_empty (id : String) : Inv id ∅ ([] : List (HookOp I)) := ⟨rfl, rfl⟩

variable {journal : InMemoryHookJournal} {op : HookOp I}

/-- An operation on another invocation. -/
theorem Inv.other (h : Inv id journal done) (hop : op.id ≠ id) : Inv id (journal.step digest op)
      (done ++ if (journal.answer digest op).succeeded then [op] else []) := by
  have hcl : (if (journal.answer digest op).succeeded then [op] else []).countP
      (isClaim id) = 0 := by
    split
    · rw [countP_singleton, isClaim_of_ne hop]
      rfl
    · rfl
  have hs : (if (journal.answer digest op).succeeded then [op] else []).filterMap
      (settledToken id) = [] := by
    split
    · rw [filterMap_cons, settledToken_of_ne hop]
      rfl
    · rfl
  unfold Inv at h ⊢
  rw [find?_step, if_neg (Ne.symm hop)]
  split at h
  · rw [countP_append, filterMap_append, hcl, hs, append_nil]
    exact h
  refine h.append ?_ ?_ hs .inl ?_
  · rw [hcl]
    rfl
  · rw [hcl]
    rfl
  · intro hi hf
    obtain ⟨op', hm, hfl⟩ := h.failed hi hf
    exact ⟨op', mem_append_left _ hm, hfl⟩

/-- What an operation does on an invocation that has no entry. -/
theorem answer_of_none (digest : HookEntryBody → I) (hn : find? journal op.id = none) :
    journal.answer digest op = {}
      ∨ ∃ e invocation event maxAttempts deadline,
        op = .enqueue invocation event maxAttempts deadline
        ∧ e.data =
          { invocation := invocation, event := event, state := .triggered
            maxAttempts := maxAttempts, deadline := deadline }
        ∧ journal.answer digest op = { stored := [e], succeeded := true } := by
  unfold answer
  rw [hn]
  cases op with
  | enqueue invocation event maxAttempts deadline =>
    obtain hst | ⟨e, heq, hst⟩ := store_cases
      { invocation := invocation, event := event, state := .triggered, maxAttempts := maxAttempts
        deadline := deadline } true
    · exact .inl hst
    · exact .inr ⟨e, invocation, event, maxAttempts, deadline, rfl, heq, hst⟩
  | _ => exact .inl rfl

/-- Every operation keeps the invariant. -/
theorem Inv.step (h : Inv id journal done) (op : HookOp I) : Inv id (journal.step digest op)
      (done ++ if (journal.answer digest op).succeeded then [op] else []) := by
  by_cases hop : op.id = id
  · subst hop
    unfold Inv at h ⊢
    rw [find?_step, if_pos rfl]
    split at h
    · rename_i hn
      obtain ha | ⟨e, invocation, event, maxAttempts, deadline, rfl, heq, ha⟩ :=
        answer_of_none digest hn
      · rw [ha, hn]
        show _ ∧ _
        rw [show (if ({} : HookAnswer).succeeded then [op] else []) = [] from rfl, append_nil]
        exact h
      · rw [ha]
        show Fenced _ (done ++ [_]) e
        obtain ⟨hcl, hs⟩ := h
        refine ⟨?_, ?_, ?_, ?_, ?_⟩
        · rw [heq, countP_append, hcl]
          rfl
        · rw [heq, countP_append, hcl]
          rfl
        · rw [filterMap_append, hs]
          exact nodup_nil
        · rw [filterMap_append, hs]
          exact fun token hm => absurd hm not_mem_nil
        · rw [heq]
          nofun
    · rename_i e he
      have hanswers := answers_of_some digest e op
      have hf := h.answers rfl hanswers
      have ha : journal.answer digest op = op.answer digest (some e) := by
        unfold answer
        rw [he]
      rw [ha, he]
      cases hl : (op.answer digest (some e)).stored.getLast? with
      | none | some e' =>
        rw [hl] at hf
        exact hf
  · exact h.other hop

theorem inv_run (digest : HookEntryBody → I) (id : String) (ops : List (HookOp I)) :
    Inv id (run digest ops) (succeeded digest ∅ ops) := by
  induction ops using reverseRecOn with
  | nil => exact inv_empty id
  | append_singleton ops op ih =>
    rw [run_concat, succeeded_concat]
    exact ih.step op

/-- The number of the claims of an invocation that succeed. -/
def claims (digest : HookEntryBody → I) (id : String) (ops : List (HookOp I)) : ℕ :=
  (succeeded digest ∅ ops).countP (isClaim id)

/-- The tokens of the settlements of an invocation that succeed. -/
def settledTokens (digest : HookEntryBody → I) (id : String) (ops : List (HookOp I)) : List ℕ :=
  (succeeded digest ∅ ops).filterMap (settledToken id)

theorem fenced_run {ops : List (HookOp I)} (he : find? (run digest ops) id = some e) :
    Fenced id (succeeded digest ∅ ops) e := by
  have hi := inv_run digest id ops
  unfold Inv at hi
  rw [he] at hi
  exact hi

theorem settledTokens_nodup (digest : HookEntryBody → I) (id : String) (ops : List (HookOp I)) :
    (settledTokens digest id ops).Nodup := by
  have hi := inv_run digest id ops
  unfold Inv at hi
  unfold settledTokens
  split at hi
  · rw [hi.2]
    exact nodup_nil
  · exact hi.settled_nodup

end InMemoryHookJournal

namespace HookOutboxEntry.Answers

variable {op : HookOp I} {answer : HookAnswer}

omit [DecidableEq I] in
/-- A terminal entry is not written again. -/
theorem stored_of_terminal (h : Answers e op answer) (ht : e.data.state.hookIsTerminal = true) :
    answer.stored = [] := by
  cases hst : answer.stored with
  | nil => rfl
  | cons e' stored =>
    have hch := h.chain.1
    rw [hst] at hch
    have hu := (isChain_cons_cons.mp hch).1
    rw [(transition_spec hu.kept.transition).1] at ht
    cases ht

omit [DecidableEq I] in
/-- An open reconciliation is written only by a reconciliation with the token of
the entry and a known outcome. -/
theorem reconcile_of_stored (h : Answers e op answer)
    (hst : e.data.state = .reconciliationRequired) (hstr : answer.stored ≠ []) :
    answer.succeeded = true ∧ ∃ id head known,
      op = .reconcile id .reconciliationRequired head e.data.fencingToken known
        ∧ known.data.externalEffect.outcomeKnown = true := by
  cases h with
  | nothing => exact absurd rfl hstr
  | timeOut e' hb heq =>
    obtain h | h | h | h := state_of_not_settled hb
    all_goals cases hst.symm.trans h
  | dispatch lease e' hb heq =>
    obtain h | h := hb
    all_goals cases hst.symm.trans h
  | reconcile receipt e' hb hkn hr hatt heq =>
    exact ⟨rfl, _, _, receipt, rfl, hkn⟩
  | publish e' hb | expire receipt e' hb | reclaim receipt lease e₁ e₂ hb
  | settle receipt e' hb => cases hst.symm.trans hb

omit [DecidableEq I] in
/-- A settlement that succeeds has the token of the entry. -/
theorem settledToken_of_succeeded (h : Answers e op answer) (hs : answer.succeeded = true)
    {token : ℕ} (htok : op.settledToken id = some token) : token = e.data.fencingToken := by
  cases h with
  | nothing => cases hs
  | settle receipt e' hst hatt heq =>
    unfold settledToken at htok
    dsimp only at htok
    split at htok
    · exact (Option.some.inj htok).symm
    · cases htok
  | _ => cases htok

omit [DecidableEq I] in
/-- A non-idempotent invocation is claimed from pending or failed. -/
theorem state_of_claim (h : Answers e op answer) (hs : answer.succeeded = true)
    (hcl : op.isClaim id = true) (hi : e.data.invocation.idempotency = .nonIdempotent) :
    e.data.state = .pending ∨ e.data.state = .failed := by
  cases h with
  | nothing | timeOut e' hst heq | expire receipt e' hst hr heq => cases hs
  | reclaim receipt lease e₁ e₂ hst hr hid heq₁ heq₂ =>
    rw [hi] at hid
    cases hid
  | dispatch lease e' hst heq => exact hst
  | _ => cases hcl

end HookOutboxEntry.Answers

namespace InMemoryHookJournal

/-- A terminal entry stays as it is. -/
theorem find?_of_terminal {before ops : List (HookOp I)} (h : before <+: ops)
    (he : find? (run digest before) id = some e) (ht : e.data.state.hookIsTerminal = true) :
    find? (run digest ops) id = some e := by
  obtain ⟨after, rfl⟩ := h
  induction after using reverseRecOn with
  | nil =>
    rw [append_nil]
    exact he
  | append_singleton after op ih =>
    rw [← append_assoc, run_concat, find?_step]
    split_ifs with hop
    · have ha : (run digest (before ++ after)).answer digest op = op.answer digest (some e) := by
        unfold answer
        rw [← hop, ih]
      rw [ha, (answers_of_some digest e op).stored_of_terminal ht]
      exact ih
    · exact ih

/-- **Hook attempts are fenced.** For every sequence of operations, on any
invocations and by any workers and clocks: the fencing token and the attempts
of an invocation count its claims; no token is settled twice, and only that of
the last claim is settled; terminal entries never change, and an open
reconciliation is left only with a known outcome; a non-idempotent invocation
is claimed again only after its last attempt was settled or reconciled as
failed; and what an operation stores is a chain of at most two updates that the
Program store accepts. -/
theorem hookAttempts_fenced (hdg : Function.Injective digest) (ops : List (HookOp I))
    (id : String) :
    (∀ e, find? (run digest ops) id = some e →
      e.data.fencingToken = claims digest id ops ∧ e.data.attemptCount = claims digest id ops
        ∧ claims digest id ops ≤ e.data.maxAttempts)
    ∧ (settledTokens digest id ops).Nodup
    ∧ (∀ before e, before <+: ops → find? (run digest before) id = some e →
        e.data.state.hookIsTerminal = true → find? (run digest ops) id = some e)
    ∧ ∀ before op e, before ++ [op] <+: ops → op.id = id →
        find? (run digest before) id = some e →
        let answer := (run digest before).answer digest op
        (e :: answer.stored).IsChain (fun e e' => validHookHeadUpdate digest e e' = true)
        ∧ answer.stored.length ≤ 2
        ∧ (answer.succeeded = true → ∀ token, op.settledToken id = some token →
            token = claims digest id before)
        ∧ (e.data.state = .reconciliationRequired → answer.stored ≠ [] →
            ∃ id head fence known, op = .reconcile id .reconciliationRequired head fence known
              ∧ known.data.externalEffect.outcomeKnown = true)
        ∧ (answer.succeeded = true → op.isClaim id = true →
            e.data.invocation.idempotency = .nonIdempotent → e.data.attemptCount ≠ 0 →
            ∃ op' ∈ succeeded digest ∅ before,
              failsAttempt id e.data.attemptCount op' = true) := by
  refine ⟨?_, settledTokens_nodup digest id ops, ?_, ?_⟩
  · intro e he
    have hfn := fenced_run he
    exact ⟨hfn.token, hfn.attempt, hfn.attempt.symm.le.trans e.attemptCount_le⟩
  · intro before e hb he ht
    exact find?_of_terminal hb he ht
  · rintro before op e - rfl he answer
    have hfn := fenced_run he
    have ha : Answers e op answer := by
      have h := answers_of_some digest e op
      rw [← he] at h
      exact h
    obtain ⟨hch, hl⟩ := ha.chain
    refine ⟨hch.imp fun _ _ => validHookHeadUpdate_of_update hdg, hl,
      ?_, fun hst hstr => ?_, ?_⟩
    · intro hs token htok
      rw [ha.settledToken_of_succeeded hs htok]
      exact hfn.token
    · obtain ⟨-, id, head, known, hop, hkn⟩ := ha.reconcile_of_stored hst hstr
      exact ⟨id, head, _, known, hop, hkn⟩
    · intro hs hcl hi hatt
      obtain hp | hf := ha.state_of_claim hs hcl hi
      · exact absurd (attemptCount_of_pending hp) hatt
      · exact hfn.failed hi hf

/-- A non-idempotent invocation of a hook. -/
def sampleInvocation : HookInvocation where
  id := "sha256:0000000000000000000000000000000000000000000000000000000000000000"
  eventId := "event"
  phase := .runFailed
  idempotency := .nonIdempotent
  canonical := "invocation"
  id_valid := by
    unfold Program.isSha256Identity
    rw [String.toList_ofList]
    decide +kernel

/-- The receipt of an attempt that failed. -/
def sampleReceipt : HookExecutionReceipt where
  data := { invocationId := sampleInvocation.id, attempt := 1, state := .failed, error := "failed" }
  valid := by
    unfold HookExecutionReceiptData.valid
    rw [sampleInvocation.id_valid]
    decide +kernel

/-- An invocation is claimed, fails and is claimed again. -/
def sampleOps : List (HookOp HookEntryBody) :=
  [.enqueue sampleInvocation { id := "event", phase := .runFailed, canonical := "event" } 2 100,
    .publish sampleInvocation.id,
    .claim sampleInvocation.id "first" 1 10,
    .settle sampleInvocation.id 1 sampleReceipt 5,
    .claim sampleInvocation.id "second" 6 10]

theorem hookAttempts_fenced_claimedTwice :
    claims (fun body => body) sampleInvocation.id sampleOps = 2
      ∧ ∀ e, find? (run (fun body => body) sampleOps) sampleInvocation.id = some e →
        e.data.fencingToken = 2 := by
  have hcl : claims (fun body => body) sampleInvocation.id sampleOps = 2 := by
    unfold claims
    rw [@succeeded_of_id _ _ _ _ sampleInvocation.id (by simp [sampleOps, HookOp.id])]
    decide +kernel
  refine ⟨hcl, fun e he => ?_⟩
  rw [← hcl]
  exact ((hookAttempts_fenced (fun _ _ h => h) sampleOps sampleInvocation.id).1 e he).1

end InMemoryHookJournal

end NeoGraph.Hook
