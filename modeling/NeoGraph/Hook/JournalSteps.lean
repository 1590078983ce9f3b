import NeoGraph.Hook.Fencing
import NeoGraph.Hook.Journals

/-!
# The steps of the two journals

`HookOutboxEntry.Effects` says once what an operation does to an entry: it
leaves the entry, moves it on, starts an attempt, or loses one to an
exception.

A document gives an entry back if its times are whole milliseconds
(`HookOutboxEntry.checkedHook_row_iff`). The journal in memory keeps entries
and the one on disk keeps rows; both take the same steps as long as every row
can be read.
-/

namespace NeoGraph.Hook

open HookEffect HookOutboxEntryData HookOutboxEntry SqliteHookJournal

variable {I : Type} [DecidableEq I] {digest : HookEntryBody → I} {parsers : HookParsers}

/-! ## Exceptions of the constructors -/

variable {d : HookOutboxEntryData}

theorem HookOutboxEntry.tryCreate_eq_ok {e : HookOutboxEntry} :
    tryCreate d = .ok e ↔ e.data = d := by
  unfold tryCreate
  constructor
  · intro h
    split at h
    · rename_i e' he'
      cases h
      exact create_eq_some he'
    · cases h
  · rintro rfl
    have hcrt : create e.data = some e := dif_pos e.valid
    rw [hcrt]

theorem HookOutboxEntry.tryCreate_of_valid (h : d.valid = true) :
    tryCreate d = .ok ⟨d, h⟩ := tryCreate_eq_ok.mpr rfl

theorem HookExecutionReceipt.tryCreate_data (r : HookExecutionReceipt) :
    tryCreate r.data = .ok r := by
  have hcrt : create r.data = some r := dif_pos r.valid
  unfold tryCreate
  rw [hcrt]

theorem HookEffect.store_cases (d : HookOutboxEntryData) (reply : HookOutboxEntry → HookReply) :
    (∃ x, tryCreate d = .error x ∧ store d reply = { reply := .error x })
      ∨ ∃ e, e.data = d ∧ store d reply = { stored := [e], reply := .ok (reply e) } := by
  unfold store
  cases h : tryCreate d with
  | error x => exact .inl ⟨x, rfl, rfl⟩
  | ok e => exact .inr ⟨e, tryCreate_eq_ok.mp h, rfl⟩

/-! ## What an operation does -/

namespace HookOutboxEntry

/-- A claim at this time starts an attempt. -/
def startsAttempt (e : HookOutboxEntry) (now : ℤ) : Bool :=
  !(e.data.deadline ≤ now && !e.data.settled) &&
    if e.data.state = .dispatched && e.data.leaseExpiresAt ≤ now then
      e.data.invocation.idempotency ≠ .nonIdempotent && e.data.attemptCount < e.data.maxAttempts
    else
      e.data.state = .pending
        || (e.data.state = .failed && e.data.attemptCount < e.data.maxAttempts)

/-- The end of the lease of an attempt that starts. -/
def leaseEnd (e : HookOutboxEntry) (now duration : ℤ) : ℤ := min e.data.deadline (now + duration)

/-- What every operation keeps. -/
structure Follows (e e' : HookOutboxEntry) : Prop where
  invocation : e'.data.invocation = e.data.invocation
  event : e'.data.event = e.data.event
  deadline : e'.data.deadline = e.data.deadline

/-- **What an operation does to an entry.** -/
inductive Effects (e : HookOutboxEntry) : HookOp I → HookEffect → Prop where
  | leaves (op : HookOp I) (reply : Except Exn HookReply) : Effects e op { reply := reply }
  | moves (op : HookOp I) (e' : HookOutboxEntry) (reply : HookReply) (hfollows : e.Follows e')
      (hlease : e'.data.leaseExpiresAt = 0 ∨ e'.data.leaseExpiresAt = e.data.leaseExpiresAt) :
      Effects e op { stored := [e'], reply := .ok reply }
  /-- An attempt starts; before it, one whose lease has expired may end. -/
  | starts {id worker : String} {now duration : ℤ} (before : List HookOutboxEntry)
      (e' : HookOutboxEntry) (reply : HookReply) (hstarts : e.startsAttempt now = true)
      (hfollows : e.Follows e') (hbefore : ∀ e₁ ∈ before, e.Follows e₁)
      (hlease : e'.data.leaseExpiresAt = e.leaseEnd now duration) :
      Effects e (.claim id worker now duration)
        { stored := before ++ [e'], reply := .ok reply }
  /-- An attempt ends, and none starts because its lease would be none. -/
  | loses {id worker : String} {now duration : ℤ} (e₁ : HookOutboxEntry) (x : Exn)
      (hstarts : e.startsAttempt now = true) (hstate : e.data.state = .dispatched)
      (hfollows : e.Follows e₁) (hfailed : e₁.data.state = .failed)
      (hzero : e.leaseEnd now duration = 0) :
      Effects e (.claim id worker now duration) { stored := [e₁], reply := .error x }

variable {e : HookOutboxEntry}

/-- An entry whose attempt may start is one of a started attempt, unless its
lease would end at the epoch. -/
theorem valid_dispatched {lease : ℤ} (ha : e.data.attemptCount < e.data.maxAttempts)
    (hls : lease ≤ e.data.deadline) (hz : lease ≠ 0) : HookOutboxEntryData.valid { e.data with
        state := .dispatched
        attemptCount := e.data.attemptCount + 1
        fencingToken := e.data.fencingToken + 1
        receipt := none
        leaseExpiresAt := lease } = true := by
  have hv := e.valid
  unfold HookOutboxEntryData.valid HookOutboxEntryData.bound at hv
  simp only [Bool.and_eq_true, decide_eq_true_eq] at hv
  obtain ⟨⟨⟨⟨⟨⟨⟨he, hph⟩, hm⟩, hms⟩, -⟩, hdl⟩, -⟩, -⟩ := hv
  simp [HookOutboxEntryData.valid, HookOutboxEntryData.bound, HookOutboxEntryData.stateValid,
    HookOutboxEntryData.lease, he, hph, hm, hms, hdl, hls, hz,
    Nat.succ_le_of_lt ha]

/-- The last part of a claim, where attempts are left: one starts, unless its
lease would be none. -/
theorem dispatching_of_attempts (now duration : ℤ)
    (hst : e.data.state = .pending ∨ e.data.state = .failed
      ∧ e.data.attemptCount < e.data.maxAttempts) :
    (e.leaseEnd now duration ≠ 0 →
        ∃ e' : HookOutboxEntry, e.Follows e' ∧ e'.data.leaseExpiresAt = e.leaseEnd now duration
          ∧ e.dispatching now duration
            = { stored := [e'], reply := .ok (.lease e' e'.data.fencingToken) })
      ∧ (e.leaseEnd now duration = 0 →
        ∃ x, e.dispatching now duration = { reply := .error x }) := by
  have ha : e.data.attemptCount < e.data.maxAttempts := by
    obtain hp | ⟨-, hlt⟩ := hst
    · rw [attemptCount_of_pending hp]
      exact Nat.pos_of_ne_zero e.maxAttempts_ne_zero
    · exact hlt
  have hg : ¬(e.data.state ≠ .pending
      && !(e.data.state = .failed && e.data.attemptCount < e.data.maxAttempts)) = true := by
    rw [Bool.and_eq_true, not_and_or, decide_eq_true_eq, not_not, Bool.not_eq_true',
      Bool.not_eq_false, Bool.and_eq_true, decide_eq_true_eq, decide_eq_true_eq]
    exact hst
  have hls : min e.data.deadline (now + duration) ≤ e.data.deadline := min_le_left _ _
  unfold dispatching
  rw [if_neg hg, if_neg (Nat.not_le.mpr ha)]
  constructor
  · intro hz
    have hv := valid_dispatched ha hls hz
    refine ⟨⟨_, hv⟩, ⟨rfl, rfl, rfl⟩, rfl, ?_⟩
    unfold HookEffect.store
    rw [tryCreate_of_valid hv]
  · intro hz
    obtain ⟨x, -, hs⟩ | ⟨e', heq, -⟩ := HookEffect.store_cases
      { e.data with
        state := .dispatched
        attemptCount := e.data.attemptCount + 1
        fencingToken := e.data.fencingToken + 1
        receipt := none
        leaseExpiresAt := min e.data.deadline (now + duration) }
      fun e => .lease e e.data.fencingToken
    · exact ⟨x, hs⟩
    · have hv := e'.valid
      rw [heq, show min e.data.deadline (now + duration) = 0 from hz] at hv
      simp [HookOutboxEntryData.valid, HookOutboxEntryData.stateValid,
        HookOutboxEntryData.lease] at hv

/-- The last part of a claim: nothing, an attempt, or no lease. -/
theorem dispatching_cases (e : HookOutboxEntry) (now duration : ℤ) : e.dispatching now duration = {}
      ∨ (e.data.state = .pending
          ∨ e.data.state = .failed ∧ e.data.attemptCount < e.data.maxAttempts)
        ∧ ((∃ e' : HookOutboxEntry, e.Follows e' ∧ e'.data.leaseExpiresAt = e.leaseEnd now duration
              ∧ e.dispatching now duration
                = { stored := [e'], reply := .ok (.lease e' e'.data.fencingToken) })
          ∨ (∃ x, e.leaseEnd now duration = 0
              ∧ e.dispatching now duration = { reply := .error x })) := by
  by_cases hst : e.data.state = .pending
      ∨ e.data.state = .failed ∧ e.data.attemptCount < e.data.maxAttempts
  · refine .inr ⟨hst, ?_⟩
    obtain ⟨hsts, hl⟩ := dispatching_of_attempts now duration hst
    by_cases hz : e.leaseEnd now duration = 0
    · obtain ⟨x, hx⟩ := hl hz
      exact .inr ⟨x, hz, hx⟩
    · exact .inl (hsts hz)
  · left
    unfold dispatching
    rw [if_pos]
    rw [not_or, not_and_or] at hst
    rw [Bool.and_eq_true, decide_eq_true_eq, Bool.not_eq_true', Bool.and_eq_false_iff,
      decide_eq_false_iff_not, decide_eq_false_iff_not]
    exact hst

theorem expiring_eq_ok {e' : HookOutboxEntry} {state : HookExecutionState} {error : String}
    (h : e.expiring state error = .ok e') :
    e.Follows e' ∧ e'.data.state = state ∧ e'.data.leaseExpiresAt = 0
      ∧ e'.data.attemptCount = e.data.attemptCount ∧ e'.data.maxAttempts = e.data.maxAttempts := by
  unfold expiring at h
  rw [bind_eq_ok] at h
  obtain ⟨receipt, -, hcrt⟩ := h
  rw [tryCreate_eq_ok] at hcrt
  rw [hcrt]
  exact ⟨⟨by rw [hcrt], by rw [hcrt], by rw [hcrt]⟩, rfl, rfl, rfl, rfl⟩

variable {now : ℤ}

theorem startsAttempt_of_expired (hdl : ¬(e.data.deadline ≤ now && !e.data.settled) = true)
    (he : (e.data.state = .dispatched && e.data.leaseExpiresAt ≤ now) = true)
    (hi : e.data.invocation.idempotency ≠ .nonIdempotent)
    (ha : e.data.attemptCount < e.data.maxAttempts) : e.startsAttempt now = true := by
  unfold startsAttempt
  rw [Bool.not_eq_true] at hdl
  rw [if_pos he, hdl, decide_eq_true hi, decide_eq_true ha]
  rfl

theorem startsAttempt_of_not_expired
    (hdl : ¬(e.data.deadline ≤ now && !e.data.settled) = true)
    (he : ¬(e.data.state = .dispatched && e.data.leaseExpiresAt ≤ now) = true)
    (hst : e.data.state = .pending ∨ e.data.state = .failed
      ∧ e.data.attemptCount < e.data.maxAttempts) :
    e.startsAttempt now = true := by
  unfold startsAttempt
  rw [Bool.not_eq_true] at hdl
  rw [if_neg he, hdl]
  obtain hp | ⟨hf, ha⟩ := hst
  · rw [decide_eq_true hp]
    rfl
  · rw [decide_eq_true hf, decide_eq_true ha, Bool.and_true, Bool.or_true]
    rfl

omit [DecidableEq I] in
theorem effects_claiming (e : HookOutboxEntry) (id worker : String) (now duration : ℤ) :
    Effects e (.claim id worker now duration : HookOp I) (e.claiming now duration) := by
  unfold claiming
  split
  · obtain ⟨x, -, hs⟩ | ⟨e', heq, hs⟩ := store_cases
      { e.data with state := .timedOut, leaseExpiresAt := 0 } fun _ => .nothing
    · rw [hs]
      exact Effects.leaves _ _
    · rw [hs]
      exact Effects.moves _ e' _ ⟨by rw [heq], by rw [heq], by rw [heq]⟩ (.inl (by rw [heq]))
  · rename_i hdl
    split
    · rename_i hexp
      split
      · unfold andThen
        split
        · rename_i e' he'
          obtain ⟨hf, -, hls, -⟩ := expiring_eq_ok he'
          exact Effects.moves _ e' _ hf (.inl hls)
        · exact Effects.leaves _ _
      · rename_i hi
        unfold andThen
        split
        · rename_i e₁ he₁
          dsimp only
          obtain ⟨hf, hfl, hls, hc, hm⟩ := expiring_eq_ok he₁
          obtain hn | ⟨hst, hr⟩ := e₁.dispatching_cases now duration
          · rw [hn]
            exact Effects.moves _ e₁ _ hf (.inl hls)
          have ha : e.data.attemptCount < e.data.maxAttempts := by
            rw [← hc, ← hm]
            exact (hst.resolve_left (by rw [hfl]; nofun)).2
          have hsts : e.startsAttempt now = true :=
            startsAttempt_of_expired hdl hexp hi ha
          have he : e₁.leaseEnd now duration = e.leaseEnd now duration := by
            unfold leaseEnd
            rw [hf.deadline]
          obtain ⟨e', hf', hls', hd⟩ | ⟨x, hz, hd⟩ := hr
          · rw [hd]
            refine Effects.starts [e₁] e' _ hsts ⟨?_, ?_, ?_⟩ ?_ (hls'.trans he)
            · rw [hf'.invocation, hf.invocation]
            · rw [hf'.event, hf.event]
            · rw [hf'.deadline, hf.deadline]
            · intro e₂ he₂
              rw [List.mem_singleton.mp he₂]
              exact hf
          · rw [hd]
            rw [Bool.and_eq_true, decide_eq_true_eq] at hexp
            exact Effects.loses e₁ x hsts hexp.1 hf hfl (he.symm.trans hz)
        · exact Effects.leaves _ _
    · rename_i hexp
      obtain hn | ⟨hst, hr⟩ := e.dispatching_cases now duration
      · rw [hn]
        exact Effects.leaves _ _
      obtain ⟨e', hf, hls, hd⟩ | ⟨x, hz, hd⟩ := hr
      · rw [hd]
        exact Effects.starts [] e' _ (startsAttempt_of_not_expired hdl hexp hst)
          hf (fun _ h => absurd h List.not_mem_nil) hls
      · rw [hd]
        exact Effects.leaves _ _

/-- The effect of an operation on an entry. -/
theorem effects_of_some (digest : HookEntryBody → I) (e : HookOutboxEntry) (op : HookOp I) :
    Effects e op (op.effect digest (some e)) := by
  cases op with
  | enqueue invocation event maxAttempts deadline =>
    show Effects e _ (ite _ _ _)
    split <;> exact Effects.leaves _ _
  | publish id =>
    show Effects e _ e.publishing
    unfold publishing
    split
    · obtain ⟨x, -, hst⟩ | ⟨e', heq, hst⟩ :=
        store_cases { e.data with state := .pending } .entry
      · rw [hst]
        exact Effects.leaves _ _
      · rw [hst]
        exact Effects.moves _ e' _ ⟨by rw [heq], by rw [heq], by rw [heq]⟩ (.inr (by rw [heq]))
    · exact Effects.leaves _ _
  | claim id worker now duration => exact effects_claiming e id worker now duration
  | settle id fence receipt now =>
    show Effects e _ (e.settling id fence receipt now)
    unfold settling
    split
    · exact Effects.leaves _ _
    obtain ⟨x, -, hst⟩ | ⟨e', heq, hst⟩ := store_cases
      { e.data with state := receipt.data.state, receipt := some receipt, leaseExpiresAt := 0 }
      .entry
    · rw [hst]
      exact Effects.leaves _ _
    · rw [hst]
      exact Effects.moves _ e' _ ⟨by rw [heq], by rw [heq], by rw [heq]⟩ (.inl (by rw [heq]))
  | reconcile id expected head fence known =>
    show Effects e _ (e.reconciling digest id expected head fence known)
    unfold reconciling
    split
    · exact Effects.leaves _ _
    obtain ⟨x, -, hst⟩ | ⟨e', heq, hst⟩ := store_cases
      { e.data with state := known.data.state, receipt := some known } .entry
    · rw [hst]
      exact Effects.leaves _ _
    · rw [hst]
      exact Effects.moves _ e' _ ⟨by rw [heq], by rw [heq], by rw [heq]⟩ (.inr (by rw [heq]))

end HookOutboxEntry

/-! ## What a document keeps of an entry -/

/-- A count of nanoseconds without a fraction of a millisecond. -/
def WholeMilliseconds (t : ℤ) : Prop := 1000000 ∣ t

theorem time_milliseconds_iff {t : ℤ} : time (milliseconds t) = t ↔ WholeMilliseconds t := by
  unfold time milliseconds WholeMilliseconds
  constructor
  · intro h
    exact ⟨_, by rw [mul_comm]; exact h.symm⟩
  · exact Int.tdiv_mul_cancel

theorem milliseconds_time (t : ℤ) : milliseconds (time t) = t := by
  unfold time milliseconds
  exact Int.mul_tdiv_cancel t (by decide)

namespace HookOutboxEntry

/-- The texts of an entry's invocation and event are read back. -/
structure Parsed (parsers : HookParsers) (e : HookOutboxEntry) : Prop where
  invocation : parsers.invocation e.data.invocation.canonical = .ok e.data.invocation
  event : parsers.event e.data.event.canonical = .ok e.data.event

variable {e : HookOutboxEntry}

theorem Parsed.follows {e' : HookOutboxEntry} (h : Parsed parsers e) (hf : e.Follows e') :
    Parsed parsers e' where
  invocation := by rw [hf.invocation, h.invocation]
  event := by rw [hf.event, h.event]

/-- What a document says of an entry: its times are cut. -/
def recorded (e : HookOutboxEntry) : HookOutboxEntryData :=
  { e.data with
    deadline := time (milliseconds e.data.deadline)
    leaseExpiresAt := time (milliseconds e.data.leaseExpiresAt) }

/-- A stored entry is checked again when it is read. -/
theorem parse_serializeCanonical (h : Parsed parsers e) :
    parse digest parsers (e.serializeCanonical digest) = tryCreate (recorded e) := by
  have hrc : receiptFrom (e.data.receipt.map HookExecutionReceipt.data)
      = .ok e.data.receipt := by
    cases hr : e.data.receipt with
    | none => rfl
    | some r =>
      show (HookExecutionReceipt.tryCreate r.data).map some = _
      rw [HookExecutionReceipt.tryCreate_data]
      rfl
  unfold parse
  rw [show (e.serializeCanonical digest).body.receipt
      = e.data.receipt.map HookExecutionReceipt.data from rfl,
    show (e.serializeCanonical digest).body.invocation = e.data.invocation.canonical from rfl,
    show (e.serializeCanonical digest).body.event = e.data.event.canonical from rfl,
    hrc, h.invocation, h.event]
  show (tryCreate (recorded e) >>= _) = _
  cases hcrt : tryCreate (recorded e) with
  | error x => rfl
  | ok e' =>
    rw [tryCreate_eq_ok] at hcrt
    have hb : e'.body = e.body := by
      unfold body
      rw [hcrt]
      unfold recorded
      rw [milliseconds_time, milliseconds_time]
    show (if digest e.body ≠ digest e'.body then _ else _) = _
    rw [hb, if_neg (not_not.mpr rfl)]

/-- An entry that its row gives back. -/
structure Readable (parsers : HookParsers) (e : HookOutboxEntry) : Prop where
  parsed : Parsed parsers e
  deadline : WholeMilliseconds e.data.deadline
  lease : WholeMilliseconds e.data.leaseExpiresAt

/-- A row reads as its entry. -/
theorem checkedHook_row_iff (h : Parsed parsers e) :
    checkedHook digest parsers e.data.invocation.id (e.row digest) = .ok e
      ↔ Readable parsers e := by
  unfold checkedHook
  show (parse digest parsers (e.serializeCanonical digest) >>= _) = _ ↔ _
  rw [parse_serializeCanonical h, bind_eq_ok]
  constructor
  · rintro ⟨e', hcrt, hc⟩
    rw [tryCreate_eq_ok] at hcrt
    split at hc
    · cases hc
    cases hc
    refine ⟨h, ?_, ?_⟩
    · rw [← time_milliseconds_iff]
      exact (congrArg deadline hcrt).symm
    · rw [← time_milliseconds_iff]
      exact (congrArg leaseExpiresAt hcrt).symm
  · intro hrd
    refine ⟨e, ?_, ?_⟩
    · rw [tryCreate_eq_ok]
      unfold recorded
      rw [time_milliseconds_iff.mpr hrd.deadline, time_milliseconds_iff.mpr hrd.lease]
    · simp [row]

/-! ## Claims that start an attempt -/

/-- The end of an attempt is recorded. -/
theorem expiring_failed (h : e.data.state = .dispatched) :
    ∃ e₁, e.expiring .failed "idempotent dispatched lease expired" = .ok e₁ := by
  have hv := e.valid
  unfold HookOutboxEntryData.valid HookOutboxEntryData.bound HookOutboxEntryData.stateValid
    at hv
  rw [h] at hv
  simp only [Bool.and_eq_true, decide_eq_true_eq] at hv
  obtain ⟨⟨⟨⟨⟨⟨⟨he, hph⟩, hm⟩, hms⟩, ha⟩, hdl⟩, -⟩,
    ⟨⟨⟨hc, hf⟩, -⟩, -⟩, -⟩ := hv
  have hr : HookExecutionReceiptData.valid
      { invocationId := e.data.invocation.id, attempt := e.data.attemptCount, state := .failed
        error := "idempotent dispatched lease expired" } = true := by
    have hsz : ("idempotent dispatched lease expired" : String).utf8ByteSize ≤ 4096 := by decide
    simp [HookExecutionReceiptData.valid, e.data.invocation.id_valid, hc, hsz]
  refine ⟨⟨{ e.data with
    state := .failed, leaseExpiresAt := 0, receipt := some ⟨_, hr⟩ }, ?_⟩, ?_⟩
  · simp [HookOutboxEntryData.valid, HookOutboxEntryData.bound, HookOutboxEntryData.stateValid,
      lease, attempted, receiptState,
      he, hph, hm, hms, ha, hdl, hc, hf]
  · unfold expiring
    have htry : HookExecutionReceipt.tryCreate
        { invocationId := e.data.invocation.id, attempt := e.data.attemptCount, state := .failed
          error := "idempotent dispatched lease expired" } = .ok ⟨_, hr⟩ :=
      HookExecutionReceipt.tryCreate_data ⟨_, hr⟩
    rw [htry]
    exact tryCreate_eq_ok.mpr rfl

/-- **A claim that starts an attempt.** Its lease ends where it should, or, if
that is the epoch, an attempt is lost. -/
theorem claiming_of_startsAttempt {now : ℤ} (duration : ℤ) (h : e.startsAttempt now = true) :
    (e.leaseEnd now duration ≠ 0 → ∃ (before : List HookOutboxEntry) (e' : HookOutboxEntry)
        (reply : HookReply), e.Follows e' ∧ e'.data.leaseExpiresAt = e.leaseEnd now duration
      ∧ e.claiming now duration = { stored := before ++ [e'], reply := .ok reply })
    ∧ (e.data.state = .dispatched → e.leaseEnd now duration = 0 →
      ∃ (e₁ : HookOutboxEntry) (x : Exn), e₁.data.state = .failed
        ∧ e.claiming now duration = { stored := [e₁], reply := .error x }) := by
  unfold startsAttempt at h
  rw [Bool.and_eq_true, Bool.not_eq_true'] at h
  obtain ⟨hdl, h⟩ := h
  have hcl : e.claiming now duration
      = if e.data.state = .dispatched && e.data.leaseExpiresAt ≤ now then
          if e.data.invocation.idempotency = .nonIdempotent then
            .andThen
              (e.expiring .reconciliationRequired
                "non-idempotent dispatched lease expired; external outcome is unknown")
              fun _ => {}
          else
            .andThen (e.expiring .failed "idempotent dispatched lease expired")
              fun e => e.dispatching now duration
        else e.dispatching now duration := by
    unfold claiming
    rw [hdl]
    rfl
  rw [hcl]
  split_ifs at h with hexp
  · simp only [Bool.and_eq_true, decide_eq_true_eq] at h
    obtain ⟨hi, ha⟩ := h
    rw [if_pos hexp, if_neg hi]
    rw [Bool.and_eq_true, decide_eq_true_eq] at hexp
    obtain ⟨e₁, he₁⟩ := expiring_failed hexp.1
    obtain ⟨hf, hfl, -, hc, hm⟩ := expiring_eq_ok he₁
    have hst : e₁.data.state = .pending
        ∨ e₁.data.state = .failed ∧ e₁.data.attemptCount < e₁.data.maxAttempts :=
      .inr ⟨hfl, by rw [hc, hm]; exact ha⟩
    have he : e₁.leaseEnd now duration = e.leaseEnd now duration := by
      unfold leaseEnd
      rw [hf.deadline]
    rw [he₁]
    unfold andThen
    dsimp only
    obtain ⟨hsts, hl⟩ := dispatching_of_attempts now duration hst
    rw [he] at hsts hl
    constructor
    · intro hz
      obtain ⟨e', hf', hls, hds⟩ := hsts hz
      rw [hds]
      refine ⟨[e₁], e', _, ⟨?_, ?_, ?_⟩, hls, rfl⟩
      · rw [hf'.invocation, hf.invocation]
      · rw [hf'.event, hf.event]
      · rw [hf'.deadline, hf.deadline]
    · intro _ hz
      obtain ⟨x, hds⟩ := hl hz
      rw [hds]
      exact ⟨e₁, x, hfl, rfl⟩
  · rw [if_neg hexp]
    simp only [Bool.or_eq_true, Bool.and_eq_true, decide_eq_true_eq] at h
    constructor
    · intro hz
      obtain ⟨e', hf, hls, hds⟩ := (dispatching_of_attempts now duration h).1 hz
      exact ⟨[], e', _, hf, hls, hds⟩
    · intro hd
      rw [hd] at h
      exact absurd h (by simp)

end HookOutboxEntry

end NeoGraph.Hook
