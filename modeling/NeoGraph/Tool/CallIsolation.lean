import NeoGraph.Tool.SingleFlightSafety

/-!
# The cancellations of other calls

A call that was not cancelled, whose deadline has not passed and whose tool
raised no cancellation should not end as if it was stopped: with a status of
cancellation, which stops the run of the caller, or with the error that says
that the deadline of the run has elapsed.

A step changes one call (`step_cases`), and a call that has ended stays as it
is. So a call of this kind is stopped in one of three ways. It follows a flight
whose leader was stopped and returns what the leader published; a queue that its
deadline bounds times out before the deadline; or its caller gives up the wait it
is in, before its tool has started, without cancelling its token. `isolated_iff`
says that there is no other way.
-/

namespace NeoGraph.Tool

open Call Option CallStage List Controller

/-! ## Endings that stop a run -/

/-- The result says that the deadline of the run has elapsed. -/
def Ending.reportsRunDeadline (e : Ending) : Bool :=
  match e.outcome with
  | .error .runDeadlineElapsed => true
  | .error (.hostAdmission .queueTimeout _) => e.deadlineHit
  | .error (.system .timedOut _) => !e.started && e.deadlineHit
  | _ => false

/-- A status of cancellation. -/
def cancels (result : ToolExecutionResult) : Bool :=
  result.status = .cancelledBeforeStart || result.status = .cancellationRequested

/-- **The call ends as if it was stopped.** -/
def Ending.Stops (e : Ending) : Prop := cancels e.result = true ∨ e.reportsRunDeadline = true

/-- The outcomes that end a call with a status of cancellation. -/
def cancelsWith (started : Bool) : Except ToolException String → Bool
  | .error (.cancelled _) => true
  | .error (.system .operationAborted _) => !started
  | .error (.processBridge (.killed .cancellationRequested _ _ _ _)) => true
  | _ => false

variable (policy : ToolExecutionPolicy)

theorem cancels_publish (result : ToolExecutionResult) :
    cancels (publish policy result) = cancels result := rfl

theorem cancels_ordinaryToolFailure (started : Bool) (error : String) :
    cancels (ordinaryToolFailure policy started error) = false := by
  unfold cancels ordinaryToolFailure
  dsimp only
  split <;> rfl

theorem cancels_executeResult (started deadlineHit : Bool) (outcome : Except ToolException String) :
    cancels (executeResult policy started deadlineHit outcome) = cancelsWith started outcome := by
  cases outcome with
  | ok output =>
    unfold executeResult outputResult
    rw [cancels_publish]
    split
    · exact cancels_ordinaryToolFailure _ _ _
    · rfl
  | error e =>
    unfold executeResult
    rw [cancels_publish]
    cases e with
    | runDeadlineElapsed | requestRefusal what retryable => rfl
    | cancelled what | unknown => cases started <;> rfl
    | hostAdmission failure what => cases failure <;> rfl
    | system code what =>
      cases started with
      | true => cases code <;> first | rfl | exact cancels_ordinaryToolFailure _ _ _
      | false => cases code <;> cases deadlineHit <;> rfl
    | processBridge error =>
      cases error with
      | killed reason what output exitCode signalNumber => cases reason <;> rfl
      | _ => rfl
    | lengthError what | stopsRun what | other what => exact cancels_ordinaryToolFailure _ _ _

theorem Ending.stops_iff (e : Ending) :
    e.Stops ↔ cancelsWith e.started e.outcome = true ∨ e.reportsRunDeadline = true := by
  unfold Stops Ending.result
  rw [cancels_executeResult]

/-! ## What a step does to its call -/

/-- The call has done nothing by which it may be stopped. -/
structure Innocent {K : Type} (call : Call K) : Prop where
  cancelled : call.cancelled = false
  deadlinePassed : call.deadlinePassed = false
  toolCancels : call.toolCancels = false

namespace Controller

variable {K : Type} {s s' : Controller K} {c : ℕ} {call call' : Call K} {e : CallEvent K}

/-- The call that a move of an execution leaves. -/
def moved : Move K → Call K
  | .go call => call
  | .finish call outcome => { call with stage := .ended (call.endingWith outcome) none }

/-- The tool of the call runs. -/
def runsTool : CallStage → Bool
  | .running _ => true
  | _ => false

theorem runsTool_afterLease (hostAdmission : Bool) :
    runsTool (afterLease hostAdmission) = false := by
  cases hostAdmission <;> rfl

/-- **What a step does to its call**, and what it depends on. -/
inductive CallStep (s : Controller K) (c : ℕ) (call : Call K) : CallEvent K → Call K → Prop
  | fail (what : String) (hstage : call.stage = .entered) :
    CallStep s c call (.fail c what)
      { call with stage := .ended (call.endingWith (.error (.other what))) none }
  | refuse (hstage : call.stage = .entered) :
    CallStep s c call (.join c)
      { call with stage := .ended (call.endingWith
          (.error (.system .noBufferSpace "No buffer space available"))) none }
  | invalid (what : String) (hstage : call.stage = .entered) :
    CallStep s c call (.join c)
      { call with stage := .ended (call.endingWith (.error (.other what))) none }
  | join (hstage : call.stage = .entered) (stage : CallStage) (leads : Option ℕ)
      (hlive : stage.live = true) (hrunning : runsTool stage = false) :
    CallStep s c call (.join c) { call with stage := stage, leads := leads }
  | execute (e : ExecutionEvent) (move : Move K)
      (hmove : call.advance s.hostAdmission e = some move) :
    CallStep s c call (.execute c e) (moved move)
  | observe (f : ℕ) (flight : Flight K) (ending : Ending) (hstage : call.stage = .following f)
      (hf : s.flights[f]? = some flight) (hcompleted : flight.completed = some ending) :
    CallStep s c call (.observe c) { call with stage := .ended ending (some f) }
  | leave (why : Leave) (f : ℕ) (outcome : Except ToolException String)
      (hstage : call.stage = .following f) (hleave : leaveOutcome call why = some outcome) :
    CallStep s c call (.leave c why) { call with stage := .ended (call.endingWith outcome) none }
  | destroy (hlive : call.stage.live = true) :
    CallStep s c call (.destroy c) { call with stage := .destroyed }
  | cancel (hlive : call.stage.live = true) :
    CallStep s c call (.cancel c) { call with cancelled := true }
  | cancelWait (hlive : call.stage.live = true) :
    CallStep s c call (.cancelWait c) { call with waitCancelled := true }
  | passDeadline (hlive : call.stage.live = true) :
    CallStep s c call (.passDeadline c) { call with deadlinePassed := true }

theorem CallStep.live (h : CallStep s c call e call') : call.stage.live = true := by
  cases h with
  | fail what hs | refuse hs | invalid what hs | join hs
  | observe f flight ending hs | leave why f outcome hs => rw [hs]; rfl
  | execute e move hmv =>
    have hr := (advanced_of_advance hmv).executing
    cases hs : call.stage with
    | ended ending shared | destroyed =>
      rw [hs] at hr
      cases hr
    | _ => rfl
  | destroy hlv | cancel hlv | cancelWait hlv | passDeadline hlv => exact hlv

/-! ## The call that a step changes -/

theorem calls_depart (s : Controller K) (c : ℕ) (call : Call K) (f : ℕ) :
    (s.depart c call f).calls = s.calls.set c call := by
  unfold depart
  split <;> rfl

section Step

variable [DecidableEq K]

theorem calls_publishSingleflight (s : Controller K) (f : ℕ) (ending : Ending) :
    (s.publishSingleflight f ending).calls = s.calls := by
  unfold publishSingleflight
  split
  · rfl
  · split <;> rfl

theorem calls_close (s : Controller K) (c : ℕ) (call : Call K) (ending : Ending) :
    (s.close c call ending).calls = s.calls.set c call := by
  unfold close
  split
  · rfl
  · exact calls_publishSingleflight _ _ _

theorem calls_apply (s : Controller K) (c : ℕ) (move : Move K) :
    (s.apply c move).calls = s.calls.set c (moved move) := by
  cases move with
  | go call => rfl
  | finish call outcome => exact calls_close _ _ _ _

theorem live_of_executing {stage : CallStage} (h : stage.executing = true) : stage.live = true := by
  cases stage <;> first | rfl | cases h

omit [DecidableEq K] in
theorem runsTool_firstStage (s : Controller K) (policy : ToolExecutionPolicy) :
    runsTool (s.firstStage policy) = false := by
  unfold firstStage
  split
  · exact runsTool_afterLease _
  · rfl

theorem callStep_of_join (hs : call.stage = .entered) (hj : s.join c call = some s') :
    ∃ call', CallStep s c call (.join c) call' ∧ s'.calls = s.calls.set c call' := by
  have hf := live_of_executing (firstStage_executing s call.spec.policy)
  have hr := runsTool_firstStage s call.spec.policy
  unfold join at hj
  split at hj
  · cases hj
    exact ⟨_, .invalid _ hs, rfl⟩
  split at hj
  · cases hj
    exact ⟨_, .join hs _ call.leads hf hr, rfl⟩
  split at hj
  · rename_i f _
    obtain ⟨flight, -, hj⟩ := map_eq_some_iff.mp hj
    rw [← hj]
    unfold follow
    split
    · exact ⟨_, .refuse hs, rfl⟩
    · exact ⟨_, .join hs (.following f) call.leads rfl rfl, rfl⟩
  · cases hj
    exact ⟨_, .join hs _ _ hf hr, rfl⟩

/-- **A step makes a call or changes one.** -/
theorem step_cases (hs : s.step e = some s') :
    (∃ spec : CallSpec K, e = .enter spec ∧ s'.calls = s.calls ++ [({ spec } : Call K)])
      ∨ ∃ c call call', s.calls[c]? = some call ∧ CallStep s c call e call'
        ∧ s'.calls = s.calls.set c call' := by
  cases e with
  | enter spec =>
    cases hs
    exact .inl ⟨spec, rfl, rfl⟩
  | fail c what =>
    obtain ⟨call, hc, hs⟩ := bind_eq_some_iff.mp hs
    split at hs
    · cases hs
      exact .inr ⟨c, call, _, hc, .fail what ‹_›, rfl⟩
    · cases hs
  | join c =>
    obtain ⟨call, hc, hs⟩ := bind_eq_some_iff.mp hs
    split at hs
    · obtain ⟨call', hc', hcs⟩ := callStep_of_join ‹_› hs
      exact .inr ⟨c, call, call', hc, hc', hcs⟩
    · cases hs
  | execute c e =>
    obtain ⟨call, hc, hs⟩ := bind_eq_some_iff.mp hs
    obtain ⟨move, hmv, hs⟩ := bind_eq_some_iff.mp hs
    cases hs
    exact .inr ⟨c, call, moved move, hc, .execute e move hmv, calls_apply s c move⟩
  | observe c =>
    obtain ⟨call, hc, hs⟩ := bind_eq_some_iff.mp hs
    unfold observe at hs
    split at hs
    · rename_i f hstg
      obtain ⟨ending, hb, hs⟩ := map_eq_some_iff.mp hs
      obtain ⟨flight, hf, hcm⟩ := bind_eq_some_iff.mp hb
      exact .inr ⟨c, call, _, hc, .observe f flight ending hstg hf hcm, by
        rw [← hs]; rfl⟩
    · cases hs
  | leave c why =>
    obtain ⟨call, hc, hs⟩ := bind_eq_some_iff.mp hs
    unfold leave at hs
    split at hs
    · rename_i f hstg
      obtain ⟨outcome, hlv, hs⟩ := map_eq_some_iff.mp hs
      exact .inr ⟨c, call, _, hc, .leave why f outcome hstg hlv, by
        rw [← hs]; exact calls_depart _ _ _ _⟩
    · cases hs
  | destroy c =>
    obtain ⟨call, hc, hs⟩ := bind_eq_some_iff.mp hs
    unfold destroy at hs
    split at hs
    · rename_i f hstg
      cases hs
      exact .inr ⟨c, call, _, hc, .destroy (by rw [hstg]; rfl), calls_depart _ _ _ _⟩
    · split at hs <;> cases hs
      exact .inr ⟨c, call, _, hc, .destroy ‹_›, calls_close _ _ _ _⟩
  | cancel c =>
    obtain ⟨call, hc, hs⟩ := bind_eq_some_iff.mp hs
    split at hs <;> cases hs
    exact .inr ⟨c, call, _, hc, .cancel ‹_›, rfl⟩
  | cancelWait c =>
    obtain ⟨call, hc, hs⟩ := bind_eq_some_iff.mp hs
    split at hs <;> cases hs
    exact .inr ⟨c, call, _, hc, .cancelWait ‹_›, rfl⟩
  | passDeadline c =>
    obtain ⟨call, hc, hs⟩ := bind_eq_some_iff.mp hs
    split at hs <;> cases hs
    exact .inr ⟨c, call, _, hc, .passDeadline ‹_›, rfl⟩

end Step

/-! ## Calls that have started -/

/-- The stages before the first attempt. -/
def waiting : CallStage → Bool
  | .entered | .following _ | .requesting | .queued | .leased | .admitting | .admitted => true
  | _ => false

/-- A call starts with its first attempt. -/
structure StartsOnce (call : Call K) : Prop where
  before : waiting call.stage = true → call.started = false
  running : runsTool call.stage = true → call.started = true

theorem startsOnce_of_waiting (hst : call.started = false) {stage : CallStage}
    (hs : runsTool stage = false) : StartsOnce { call with stage := stage } :=
  ⟨fun _ => hst, fun h => absurd (hs.symm.trans h) Bool.false_ne_true⟩

theorem startsOnce_of_stage (hs : waiting call.stage = false)
    (hst : runsTool call.stage = true → call.started = true) : StartsOnce call :=
  ⟨fun h => absurd (hs.symm.trans h) Bool.false_ne_true, hst⟩

theorem startsOnce_ended (call : Call K) (ending : Ending) (shared : Option ℕ) :
    StartsOnce { call with stage := .ended ending shared } :=
  ⟨nofun, nofun⟩

variable {move : Move K}

theorem StartsOnce.throwIfCancelled (h : StartsOnce (moved move)) (what : String) :
    StartsOnce (moved (call.throwIfCancelled what move)) := by
  unfold Call.throwIfCancelled
  split
  · exact startsOnce_ended _ _ _
  · exact h

theorem StartsOnce.onArbiter (hst : call.started = false) (answer : ArbiterAnswer) :
    StartsOnce (moved (call.onArbiter answer)) := by
  cases answer with
  | granted => exact (startsOnce_of_waiting hst rfl).throwIfCancelled _
  | full | timedOut | failed what => exact (startsOnce_ended _ _ _).throwIfCancelled _

theorem StartsOnce.onHost (hst : call.started = false) (answer : HostAnswer) :
    StartsOnce (moved (call.onHost answer)) := by
  cases answer with
  | granted => exact (startsOnce_of_waiting hst rfl).throwIfCancelled _
  | refused failure what => exact (startsOnce_ended _ _ _).throwIfCancelled _
  | timedOut => exact startsOnce_ended _ _ _

variable {attempt : ℕ} {outcome : Except ToolException String}

theorem StartsOnce.onTool (hmv : call.onTool attempt outcome = some move) :
    StartsOnce (moved move) := by
  unfold Call.onTool at hmv
  dsimp only at hmv
  split at hmv
  · cases hmv
    exact startsOnce_ended _ _ _
  · cases hmv
  · split at hmv <;> cases hmv
    · exact ⟨nofun, nofun⟩
    · exact startsOnce_ended _ _ _

variable {x : ExecutionEvent} {hostAdmission : Bool}

/-- A call does not start twice. -/
theorem StartsOnce.advance (h : StartsOnce call)
    (hmv : call.advance hostAdmission x = some move) : StartsOnce (moved move) := by
  have hb : ∀ stage, call.stage = stage → waiting stage = true → call.started = false :=
    fun stage hs hw => h.before (hs ▸ hw)
  cases advances hmv with
  | late | expired | abort => exact startsOnce_ended _ _ _
  | request what hs | admitted what hs =>
    exact (startsOnce_of_waiting (hb _ hs rfl) rfl).throwIfCancelled _
  | arbiter answer hs => exact StartsOnce.onArbiter (hb _ hs rfl) answer
  | host answer hs => exact StartsOnce.onHost (hb _ hs rfl) answer
  | leased what hs =>
    exact (startsOnce_of_waiting (hb _ hs rfl)
      (runsTool_afterLease hostAdmission)).throwIfCancelled _
  | attempt => exact (startsOnce_of_stage rfl fun _ => rfl).throwIfCancelled _
  | toolEnds _ hmv => exact StartsOnce.onTool hmv

theorem CallStep.startsOnce (h : CallStep s c call e call') (hc : StartsOnce call) :
    StartsOnce call' := by
  cases h with
  | fail what hs | refuse hs | invalid what hs
  | observe f flight ending hs hf hcm
  | leave why f outcome hs hleave => exact startsOnce_ended _ _ _
  | join hs stage leads hlv hr =>
    have hst := hc.before (by rw [hs]; rfl)
    exact ⟨fun _ => hst, fun h => absurd (hr.symm.trans h) Bool.false_ne_true⟩
  | execute x move hmv => exact hc.advance hmv
  | destroy hlv => exact startsOnce_of_stage rfl fun h => absurd h Bool.false_ne_true
  | cancel hlv | cancelWait hlv | passDeadline hlv => exact ⟨hc.before, hc.running⟩

/-! ## How an innocent call is stopped -/

/-- The tool runs for the last time. -/
def lastAttempt (call : Call K) : Bool :=
  match call.stage with
  | .running attempt => max 1 call.spec.policy.retryMaxAttempts.toNat ≤ attempt + 1
  | _ => false

/-- A queue times out, of the call or of a tool that asks the host itself. -/
def queueTimesOut (call : Call K) : ExecutionEvent → Bool
  | .arbiter .timedOut => true
  | .host .timedOut => true
  | .host (.refused .queueTimeout _) => true
  | .toolEnds (.error (.hostAdmission .queueTimeout _)) => lastAttempt call
  | _ => false

/-- The caller gives up the wait that the call is in, before its tool has
started. -/
def givenUp (call : Call K) : ExecutionEvent → Bool
  | .abort _ => !call.started
  | _ => false

theorem throwIfCancelled_of_not_cancelled (h : call.cancelled = false) (what : String)
    (move : Move K) : call.throwIfCancelled what move = move := by
  unfold throwIfCancelled
  rw [h]
  rfl

/-- An innocent call is not stopped by an ending that was not for its deadline
or a cancellation. -/
theorem stops_endingWith_iff (h : call.deadlinePassed = false)
    (outcome : Except ToolException String) :
    (call.endingWith outcome).Stops ↔ cancelsWith call.started outcome = true
      ∨ (match outcome with
        | .error .runDeadlineElapsed => true
        | .error (.hostAdmission .queueTimeout _) => call.spec.deadlineBoundsQueue
        | .error (.system .timedOut _) => !call.started && call.spec.deadlineBoundsQueue
        | _ => false) = true := by
  rw [Ending.stops_iff]
  unfold Ending.reportsRunDeadline Call.endingWith
  rw [h, Bool.false_or]

/-- The queue of the arbiter or of the host answers an innocent call. -/
theorem stops_of_onArbiter (hb : call.started = false) (hc : call.cancelled = false)
    (hdl : call.deadlinePassed = false) {answer : ArbiterAnswer}
    (hmv : call.onArbiter answer = .finish call' outcome) :
    call' = call ∧ ((call.endingWith outcome).Stops
      ↔ call.spec.deadlineBoundsQueue = true ∧ queueTimesOut call (.arbiter answer) = true) := by
  unfold onArbiter at hmv
  simp only [throwIfCancelled_of_not_cancelled hc] at hmv
  cases answer with
  | granted => cases hmv
  | full | failed what | timedOut =>
    cases hmv
    refine ⟨rfl, ?_⟩
    rw [stops_endingWith_iff hdl]
    simp [cancelsWith, queueTimesOut, hb]

theorem stops_of_onHost (hb : call.started = false) (hc : call.cancelled = false)
    (hdl : call.deadlinePassed = false) {answer : HostAnswer}
    (hmv : call.onHost answer = .finish call' outcome) :
    call' = call ∧ ((call.endingWith outcome).Stops
      ↔ call.spec.deadlineBoundsQueue = true ∧ queueTimesOut call (.host answer) = true) := by
  unfold onHost at hmv
  simp only [throwIfCancelled_of_not_cancelled hc] at hmv
  cases answer with
  | granted => cases hmv
  | refused failure what =>
    cases hmv
    refine ⟨rfl, ?_⟩
    rw [stops_endingWith_iff hdl]
    cases failure <;> simp [cancelsWith, queueTimesOut]
  | timedOut =>
    cases hmv
    refine ⟨rfl, ?_⟩
    rw [stops_endingWith_iff hdl]
    simp [cancelsWith, queueTimesOut, hb]

variable {outcome' : Except ToolException String}

/-- The tool ends a call: nothing follows its answer. -/
theorem onTool_eq_finish (hmv : call.onTool attempt outcome = some (.finish call' outcome')) :
    call' = { call with
        toolCancels := call.toolCancels || (raisesCancellation outcome && !call.cancelled) }
      ∧ outcome' = outcome ∧ outcome ≠ .error .runDeadlineElapsed
      ∧ ∀ e, outcome = .error e → neverRetried e = false →
        max 1 call.spec.policy.retryMaxAttempts.toNat ≤ attempt + 1 := by
  unfold onTool at hmv
  dsimp only at hmv
  split at hmv
  · cases hmv
    exact ⟨rfl, rfl, nofun, nofun⟩
  · cases hmv
  rename_i e hne
  split at hmv <;> cases hmv
  rename_i hl
  refine ⟨rfl, rfl, fun h => hne (Except.error.inj h), fun e' he hretried => ?_⟩
  obtain rfl := Except.error.inj he
  rw [hretried, Bool.not_false, Bool.true_and] at hl
  exact not_lt.mp fun hlt => hl (decide_eq_true hlt)

/-- The tool of an innocent call ends its last attempt. -/
theorem stops_of_onTool (hst : call.started = true) (hc : call.cancelled = false)
    (hdl : call.deadlinePassed = false) (hs : call.stage = .running attempt)
    (hmv : call.onTool attempt outcome = some (.finish call' outcome'))
    (htool : call'.toolCancels = false) : (call'.endingWith outcome').Stops
      ↔ call.spec.deadlineBoundsQueue = true ∧ queueTimesOut call (.toolEnds outcome) = true := by
  obtain ⟨rfl, rfl, hne, hl⟩ := onTool_eq_finish hmv
  rw [hc, Bool.not_false, Bool.and_true, Bool.or_eq_false_iff] at htool
  refine (stops_endingWith_iff hdl outcome').trans ?_
  rw [hst]
  cases outcome' with
  | ok output => simp [cancelsWith, queueTimesOut]
  | error e =>
    cases e with
    | runDeadlineElapsed => exact absurd rfl hne
    | cancelled what => cases htool.2
    | hostAdmission failure what =>
      have hatt : lastAttempt call = true := by
        unfold lastAttempt
        rw [hs]
        exact decide_eq_true (hl _ rfl rfl)
      cases failure <;> simp [cancelsWith, queueTimesOut, hatt]
    | system code what => cases code <;> simp [cancelsWith, queueTimesOut]
    | processBridge error =>
      cases error with
      | killed reason what output exitCode signalNumber =>
        cases reason with
        | cancellationRequested => cases htool.2
        | _ => simp [cancelsWith, queueTimesOut]
      | _ => simp [cancelsWith, queueTimesOut]
    | _ => simp [cancelsWith, queueTimesOut]

/-- **An execution ends an innocent call** as if it was stopped exactly when a
queue that its deadline bounds times out, or its caller gives it up. -/
theorem stops_of_finish (hc : StartsOnce call)
    (hmv : call.advance hostAdmission x = some (.finish call' outcome)) (h : Innocent call') :
    (call'.endingWith outcome).Stops
      ↔ (call.spec.deadlineBoundsQueue = true ∧ queueTimesOut call x = true)
        ∨ givenUp call x = true := by
  have hadv := advanced_of_advance hmv
  have hcanc : call.cancelled = false := hadv.cancelled.symm.trans h.cancelled
  have hdl : call.deadlinePassed = false :=
    hadv.deadlinePassed.symm.trans h.deadlinePassed
  have hb : ∀ stage, call.stage = stage → waiting stage = true → call.started = false :=
    fun stage hs hw => hc.before (hs ▸ hw)
  have hkp (what : String) (next : Call K) :
      call.throwIfCancelled what (.go next) ≠ .finish call' outcome := by
    rw [throwIfCancelled_of_not_cancelled hcanc]
    exact nofun
  generalize hmv' : Move.finish call' outcome = move at hmv
  cases advances hmv with
  | late _ hl | expired _ _ hl => exact absurd (hdl.symm.trans hl) nofun
  | request | leased | admitted | attempt => exact absurd hmv'.symm (hkp _ _)
  | arbiter answer hs =>
    obtain ⟨rfl, hstops⟩ :=
      stops_of_onArbiter (hb _ hs rfl) hcanc hdl hmv'.symm
    exact hstops.trans (or_iff_left Bool.false_ne_true).symm
  | host answer hs =>
    obtain ⟨rfl, hstops⟩ := stops_of_onHost (hb _ hs rfl) hcanc hdl hmv'.symm
    exact hstops.trans (or_iff_left Bool.false_ne_true).symm
  | toolEnds hs hmv =>
    subst hmv'
    exact (stops_of_onTool (hc.running (by rw [hs]; rfl)) hcanc hdl hs hmv
      h.toolCancels).trans (or_iff_left Bool.false_ne_true).symm
  | abort what =>
    cases hmv'
    rw [stops_endingWith_iff hdl]
    simp [cancelsWith, queueTimesOut, givenUp]

/-- A queue that times out ends the call, and so does a caller that gives it
up. -/
theorem finish_of_stopped (h : Innocent call) (hmv : call.advance hostAdmission x = some move)
    (hstp : queueTimesOut call x = true ∨ givenUp call x = true) :
    ∃ call' outcome, move = .finish call' outcome ∧ Innocent call' := by
  cases advances hmv with
  | late | request | leased | admitted | expired | attempt => obtain ⟨⟨⟩⟩ | ⟨⟨⟩⟩ := hstp
  | arbiter answer =>
    cases answer with
    | timedOut => exact ⟨call, _, throwIfCancelled_of_not_cancelled h.cancelled _ _, h⟩
    | _ => obtain ⟨⟨⟩⟩ | ⟨⟨⟩⟩ := hstp
  | host answer =>
    cases answer with
    | timedOut => exact ⟨call, _, rfl, h⟩
    | refused failure what =>
      exact ⟨call, _, throwIfCancelled_of_not_cancelled h.cancelled _ _, h⟩
    | _ => obtain ⟨⟨⟩⟩ | ⟨⟨⟩⟩ := hstp
  | abort what => exact ⟨call, _, rfl, h⟩
  | @toolEnds attempt outcome _ hs hmv =>
    obtain ht | ⟨⟨⟩⟩ := hstp
    generalize hx : ExecutionEvent.toolEnds outcome = x at ht
    unfold queueTimesOut at ht
    split at ht <;> cases hx
    · unfold lastAttempt at ht
      rw [hs] at ht
      have hl : ¬attempt + 1 < max 1 call.spec.policy.retryMaxAttempts.toNat :=
        not_lt.mpr (of_decide_eq_true ht)
      dsimp only [onTool] at hmv
      rw [decide_eq_false hl, Bool.and_false] at hmv
      cases hmv
      exact ⟨_, _, rfl, h.cancelled, h.deadlinePassed, by
        dsimp only [raisesCancellation]
        rw [h.toolCancels]
        rfl⟩
    · cases ht

/-! ## Calls that are stopped by others -/

/-- **No innocent call has ended as if it was stopped.** -/
def Isolated (s : Controller K) : Prop :=
  ∀ (c : ℕ) (call : Call K) (ending : Ending) (shared : Option ℕ), s.calls[c]? = some call →
    call.stage = .ended ending shared → Innocent call → ¬ending.Stops

/-- A step shows no innocent call an ending that stops, no queue that its
deadline bounds times out on it, and no caller gives it up before its tool has
started. -/
structure Undisturbed (s : Controller K) (e : CallEvent K) : Prop where
  observes : ∀ (c f : ℕ) (call : Call K) (flight : Flight K) (ending : Ending), e = .observe c →
    s.calls[c]? = some call → Innocent call → call.stage = .following f →
    s.flights[f]? = some flight → flight.completed = some ending → ¬ending.Stops
  waits : ∀ (c : ℕ) (call : Call K) (x : ExecutionEvent), e = .execute c x →
    s.calls[c]? = some call → Innocent call → call.spec.deadlineBoundsQueue = true →
    queueTimesOut call x = false
  aborts : ∀ (c : ℕ) (call : Call K) (x : ExecutionEvent), e = .execute c x →
    s.calls[c]? = some call → Innocent call → givenUp call x = false
  leaves : ∀ (c : ℕ) (call : Call K) (what : String), e = .leave c (.aborted what) →
    s.calls[c]? = some call → ¬Innocent call

/-- A follower that leaves by itself is not stopped, unless it is cancelled or
given up, or its deadline has passed. -/
theorem not_stops_of_leave (hinn : Innocent call) {why : Leave}
    (hgv : ∀ what, why ≠ .aborted what) (hlv : leaveOutcome call why = some outcome) :
    ¬(call.endingWith outcome).Stops := by
  rw [stops_endingWith_iff hinn.deadlinePassed]
  cases why with
  | cancelled =>
    unfold leaveOutcome at hlv
    rw [hinn.cancelled] at hlv
    cases hlv
  | timedOut =>
    dsimp only [leaveOutcome] at hlv
    rw [hinn.deadlinePassed, Bool.not_false, Bool.and_true] at hlv
    split at hlv <;> cases hlv
    rename_i hbds
    simp [cancelsWith, hbds]
  | failed what =>
    cases hlv
    simp [cancelsWith]
  | aborted what => exact absurd rfl (hgv what)

/-- No step of an innocent call is stopped by another call. -/
theorem not_stops_of_step (h : CallStep s c call e call') (hc : s.calls[c]? = some call)
    (hcl : StartsOnce call) (hund : s.Undisturbed e) (hinn : Innocent call')
    {ending : Ending} {shared : Option ℕ} (he : call'.stage = .ended ending shared) :
    ¬ending.Stops := by
  have hlv : call'.stage.live = false := by rw [he]; rfl
  cases h with
  | fail what hs | refuse hs | invalid what hs =>
    obtain ⟨rfl, -⟩ := ended.inj he
    refine mt (stops_endingWith_iff hinn.deadlinePassed _).mp ?_
    simp [cancelsWith]
  | join hs stage leads hlv' hrunning | cancel hlv' | cancelWait hlv'
  | passDeadline hlv' =>
    exact absurd (hlv.symm.trans hlv') nofun
  | execute x move hmv =>
    cases move with
    | go call' =>
      have hr : call'.stage.executing = true := (advanced_of_advance hmv).moved
      exact absurd (hlv.symm.trans (live_of_executing hr)) nofun
    | finish call' outcome =>
      obtain ⟨rfl, -⟩ := ended.inj he
      have hinn : Innocent call' := ⟨hinn.1, hinn.2, hinn.3⟩
      have hadv := advanced_of_advance hmv
      have hb : Innocent call := ⟨hadv.cancelled.symm.trans hinn.1,
        hadv.deadlinePassed.symm.trans hinn.2, hadv.toolCancels hinn.3⟩
      rw [stops_of_finish hcl hmv hinn]
      rintro (⟨hbds, ht⟩ | hgv)
      · have hw := hund.waits c call x rfl hc hb hbds
        exact Bool.false_ne_true (hw.symm.trans ht)
      · have haborts := hund.aborts c call x rfl hc hb
        exact Bool.false_ne_true (haborts.symm.trans hgv)
  | observe f flight ending' hs hf hcm =>
    obtain ⟨rfl, -⟩ := ended.inj he
    exact hund.observes c f call flight _ rfl hc
      ⟨hinn.1, hinn.2, hinn.3⟩ hs hf hcm
  | leave why f outcome hs hleave =>
    obtain ⟨rfl, -⟩ := ended.inj he
    have hb : Innocent call := ⟨hinn.1, hinn.2, hinn.3⟩
    refine not_stops_of_leave hb (fun what hwhy => ?_) hleave
    exact hund.leaves c call what (congrArg _ hwhy) hc hb
  | destroy hlv' => cases he

/-- What disturbs a step stops an innocent call. -/
theorem undisturbed_of_step (h : CallStep s c call e call') (hc : s.calls[c]? = some call)
    (hcl : StartsOnce call) (hisolated : ∀ ending shared, call'.stage = .ended ending shared →
      Innocent call' → ¬ending.Stops) : s.Undisturbed e := by
  constructor
  · intro c' f call₁ flight ending he hc' hinn hs hf hcm
    subst he
    cases h with
    | observe f' flight' ending' hs' hf' hcm' =>
      rw [hc] at hc'
      obtain rfl := Option.some.inj hc'
      obtain rfl := following.inj (hs.symm.trans hs')
      rw [hf] at hf'
      obtain rfl := Option.some.inj hf'
      obtain rfl := Option.some.inj (hcm.symm.trans hcm')
      exact hisolated _ _ rfl ⟨hinn.1, hinn.2, hinn.3⟩
  · intro c' call₁ x he hc' hinn hbds
    subst he
    cases h with
    | execute x move hmv =>
      rw [hc] at hc'
      obtain rfl := Option.some.inj hc'
      refine Bool.eq_false_iff.mpr fun ht => ?_
      obtain ⟨call₂, outcome, rfl, hinn₂⟩ :=
        finish_of_stopped hinn hmv (.inl ht)
      exact hisolated _ _ rfl ⟨hinn₂.1, hinn₂.2, hinn₂.3⟩
        ((stops_of_finish hcl hmv hinn₂).mpr (.inl ⟨hbds, ht⟩))
  · intro c' call₁ x he hc' hinn
    subst he
    cases h with
    | execute x move hmv =>
      rw [hc] at hc'
      obtain rfl := Option.some.inj hc'
      refine Bool.eq_false_iff.mpr fun hgv => ?_
      obtain ⟨call₂, outcome, rfl, hinn₂⟩ :=
        finish_of_stopped hinn hmv (.inr hgv)
      exact hisolated _ _ rfl ⟨hinn₂.1, hinn₂.2, hinn₂.3⟩
        ((stops_of_finish hcl hmv hinn₂).mpr (.inr hgv))
  · intro c' call₁ what he hc' hinn
    subst he
    cases h with
    | leave _ f outcome hs hlv =>
      rw [hc] at hc'
      obtain rfl := Option.some.inj hc'
      have hst := hcl.before (by rw [hs]; rfl)
      dsimp only [leaveOutcome] at hlv
      split at hlv <;> cases hlv
      refine hisolated _ _ rfl ⟨hinn.1, hinn.2, hinn.3⟩
        ((stops_endingWith_iff hinn.deadlinePassed _).mpr ?_)
      simp [cancelsWith, hst]

section Step

variable [DecidableEq K]

theorem startsOnce_step (h : ∀ (c : ℕ) (call : Call K), s.calls[c]? = some call → StartsOnce call)
    (hs : s.step e = some s') :
    ∀ (c : ℕ) (call : Call K), s'.calls[c]? = some call → StartsOnce call := by
  intro c' call₁ hc'
  obtain ⟨spec, -, hcs⟩ | ⟨c, call, call', hc, hcl', hcs⟩ := step_cases hs
  · rw [hcs] at hc'
    obtain hm | hm := mem_append.mp (mem_of_getElem? hc')
    · obtain ⟨c, hc⟩ := mem_iff_getElem?.mp hm
      exact h c call₁ hc
    · rw [mem_singleton.mp hm]
      exact ⟨fun _ => rfl, fun h => absurd h Bool.false_ne_true⟩
  · rw [hcs] at hc'
    obtain hm | rfl := mem_or_eq_of_mem_set (mem_of_getElem? hc')
    · obtain ⟨c, hc⟩ := mem_iff_getElem?.mp hm
      exact h c call₁ hc
    · exact hcl'.startsOnce (h c call hc)

/-- **A call that has ended stays as it is.** -/
theorem ended_step (hs : s.step e = some s') (hc : s.calls[c]? = some call)
    (he : call.stage.live = false) : s'.calls[c]? = some call := by
  obtain ⟨spec, -, hcs⟩ | ⟨c', call₁, call', hc', hcl', hcs⟩ := step_cases hs
  · rw [hcs, getElem?_append_left (lt_of_getElem? hc), hc]
  have hne : c' ≠ c := by
    rintro rfl
    rw [hc] at hc'
    obtain rfl := Option.some.inj hc'
    exact Bool.false_ne_true (he.symm.trans hcl'.live)
  rw [hcs, getElem?_set_ne hne, hc]

theorem isolated_of_step (hs : s.step e = some s') (h : s'.Isolated) : s.Isolated :=
  fun c call ending shared hc he =>
    h c call ending shared (ended_step hs hc (by rw [he]; rfl)) he

/-- **A step keeps innocent calls from being stopped if and only if it is not
disturbed.** -/
theorem isolated_step_iff
    (hsts : ∀ (c : ℕ) (call : Call K), s.calls[c]? = some call → StartsOnce call)
    (hs : s.step e = some s') : s'.Isolated ↔ s.Isolated ∧ s.Undisturbed e := by
  obtain ⟨spec, rfl, hcs⟩ | ⟨c, call, call', hc, hcl', hcs⟩ := step_cases hs
  · refine ⟨fun h => ⟨isolated_of_step hs h, fun _ _ _ _ _ he => (nomatch he),
      fun _ _ _ he => (nomatch he), fun _ _ _ he => (nomatch he), fun _ _ _ he => (nomatch he)⟩,
      ?_⟩
    rintro ⟨h, -⟩ c call ending shared hc hend
    rw [hcs] at hc
    obtain hm | hm := mem_append.mp (mem_of_getElem? hc)
    · obtain ⟨c', hc'⟩ := mem_iff_getElem?.mp hm
      exact h c' call ending shared hc' hend
    · rw [mem_singleton.mp hm] at hend
      cases hend
  · constructor
    · intro h
      refine ⟨isolated_of_step hs h, undisturbed_of_step hcl' hc (hsts c call hc)
        fun ending shared hend => h c call' ending shared ?_ hend⟩
      rw [hcs, getElem?_set_self (lt_of_getElem? hc)]
    · rintro ⟨h, hund⟩ c' call₁ ending shared hc' hend hinn
      rw [hcs] at hc'
      obtain hm | rfl := mem_or_eq_of_mem_set (mem_of_getElem? hc')
      · obtain ⟨c₀, hc₀⟩ := mem_iff_getElem?.mp hm
        exact h c₀ call₁ ending shared hc₀ hend hinn
      · exact not_stops_of_step hcl' hc (hsts c call hc) hund hinn hend

theorem isolated_run_iff {events : List (CallEvent K)}
    (hsts : ∀ (c : ℕ) (call : Call K), s.calls[c]? = some call → StartsOnce call)
    (hr : s.run events = some s') :
    s'.Isolated ↔ s.Isolated ∧ Throughout step Undisturbed s events := by
  induction events generalizing s with
  | nil =>
    cases hr
    exact (and_iff_left trivial).symm
  | cons e events ih =>
    obtain ⟨s₁, hs, hr⟩ := Option.bind_eq_some_iff.mp hr
    rw [ih (startsOnce_step hsts hs) hr, isolated_step_iff hsts hs, and_assoc]
    refine and_congr_right fun _ => and_congr_right fun _ => ⟨fun h s₂ hs₂ => ?_, fun h =>
      h s₁ hs⟩
    obtain rfl := Option.some.inj (hs.symm.trans hs₂)
    exact h

/-- **No innocent call ends as if it was stopped, if and only if none observes a
flight whose leader was stopped, no queue that its deadline bounds times out on
it, and no caller gives one up before its tool has started.** -/
theorem isolated_iff {hostAdmission : Bool} {events : List (CallEvent K)}
    (hr : ({ hostAdmission } : Controller K).run events = some s) :
    s.Isolated ↔ Throughout step Undisturbed ({ hostAdmission } : Controller K) events := by
  have hcs : ∀ (c : ℕ) (call : Call K),
      ({ hostAdmission } : Controller K).calls[c]? ≠ some call := fun c call hc =>
    some_ne_none call (hc.symm.trans getElem?_nil)
  rw [isolated_run_iff (fun c call hc => absurd hc (hcs c call)) hr]
  exact and_iff_right fun c call _ _ hc => absurd hc (hcs c call)

end Step

/-- The leader of a search is cancelled, and its follower observes it. -/
def cancelledLeader : List (CallEvent String) :=
  [.enter searchCall, .enter searchCall, .join 0, .join 1, .cancel 0, .execute 0 .request,
    .observe 1]

/-- The follower that nobody cancelled ends cancelled. -/
theorem not_isolated_cancelledLeader :
    ∃ s, ({} : Controller String).run cancelledLeader = some s ∧ ¬s.Isolated := by
  refine ⟨_, rfl, fun h => ?_⟩
  exact h 1 _ _ _ rfl rfl ⟨rfl, rfl, rfl⟩ (.inl rfl)

theorem isolated_iff_sharesASearch :
    ∃ s, ({} : Controller String).run sharesASearch = some s
      ∧ (s.Isolated ↔ Throughout step Undisturbed ({} : Controller String) sharesASearch) :=
  ⟨_, rfl, isolated_iff rfl⟩

end Controller

end NeoGraph.Tool
