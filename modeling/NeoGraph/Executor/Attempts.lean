import NeoGraph.Executor.ResumeWrites

/-!
# The attempts of an invocation

An invocation runs its node until it returns, fails for good, or pauses.
Each attempt after the first it makes records, before it starts, that it
starts: an empty pending write under the attempt's effect namespace. A
resumed invocation counts these writes and goes on with the last attempt
that started.

What a node does at an attempt, and what the failure policies decide, comes
from outside: an `Invocation` gives the outcome of every attempt.
-/

namespace NeoGraph.Executor

open List Nat

variable {R : Type}

/-! ## Invocations -/

/-- What is invoked: a ready node, or a Send. -/
inductive InvocationKind where
  | static (nodeName : String)
  | send (index : ℕ) (target input : String)
deriving DecidableEq

namespace InvocationKind

/-- The node that runs. -/
def nodeName : InvocationKind → String
  | static nodeName => nodeName
  | send _ target _ => target

/-- The task id in a step. -/
def taskId (step : ℕ) : InvocationKind → String
  | static nodeName => makeStaticTaskId step nodeName
  | send index target input => makeSendTaskId step index target input

theorem ofStep_taskId (step : ℕ) (kind : InvocationKind) : OfStep step (kind.taskId step) := by
  cases kind with
  | static nodeName => exact ofStep_makeStaticTaskId step nodeName
  | send index target input => exact ofStep_makeSendTaskId step index target input

end InvocationKind

/-- How one attempt ended. -/
inductive AttemptOutcome (R : Type) where
  | returned (result : R)
  /-- The node raised an interrupt, or left an uncertain effect, for which the
  executor raises one that asks for reconciliation. -/
  | interrupted (reconciliation : Bool)
  /-- A cancellation, out of memory. -/
  | stopped
  /-- A Hook block: a failure that is neither retried nor routed. -/
  | blocked
  | failed (retryable : Bool)

/-- How an invocation ended. -/
inductive InvocationExit (R : Type) where
  | finished (result : R)
  | interrupted (attempt : ℕ) (reconciliation : Bool)
  | failed
  | stopped
deriving DecidableEq

/-- An invocation, with everything that happens to it. -/
structure Invocation (R : Type) where
  kind : InvocationKind
  maxRetries : ℕ
  maxRetries_le : maxRetries ≤ intMax := by decide
  /-- Its activation is past the node's visit limit. -/
  visitLimited : Bool
  /-- The node cache has its result. -/
  cached : Option R
  attempt : ℕ → AttemptOutcome R
  /-- Giving up after so many attempts: the result of a failure that is
  routed along the failure edge. -/
  giveUp : ℕ → Option R
  /-- The deadline or the run's retry ceiling ends the retries. -/
  stopsRetrying : ℕ → Bool
  cancelledInBackoff : ℕ → Bool

/-- A namespace has a write in the replay. -/
def Recorded (replay : List (PendingWrite R)) (id : String) : Prop :=
  id ∈ replay.map PendingWrite.taskId

instance (replay : List (PendingWrite R)) (id : String) : Decidable (Recorded replay id) :=
  inferInstanceAs (Decidable (_ ∈ _))

/-- Counting on from an attempt, at most so many times, while the next one
is recorded. -/
def countAttempts (replay : List (PendingWrite R)) (taskId : String) : ℕ → ℕ → ℕ
  | 0, first => first
  | bound + 1, first =>
    if Recorded replay (attemptEffectNamespace taskId (first + 1)) then
      countAttempts replay taskId bound (first + 1)
    else first

/-- **The first attempt of a resumed invocation**: the latest whose start was
recorded. -/
def resumedFirstAttempt (taskId : String) (replay : List (PendingWrite R)) : ℕ :=
  countAttempts replay taskId intMax 0

/-- What settling an attempt decides: the exit of the invocation, or `none`
to try again. -/
def settleAttempt (inv : Invocation R) (attempt lastAttempt : ℕ) :
    AttemptOutcome R → Option (InvocationExit R)
  | .returned result => some (.finished result)
  | .interrupted reconciliation => some (.interrupted attempt reconciliation)
  | .stopped => some .stopped
  | .blocked => some .failed
  | .failed retryable =>
    if retryable = false ∨ attempt ≥ lastAttempt ∨ inv.stopsRetrying attempt = true then
      some (((inv.giveUp (attempt + 1)).map InvocationExit.finished).getD .failed)
    else if inv.cancelledInBackoff attempt then some .stopped
    else none

/-- What an invocation did: the attempts it made, the writes it recorded,
and its exit. -/
structure InvocationRun (R : Type) where
  attempts : List ℕ := []
  writes : List (PendingWrite R) := []
  exit : InvocationExit R

/-- A node of the graph is named like a retry. -/
def NamesRetry (nodes : Finset String) (taskId : String) (attempt : ℕ) : Prop :=
  ∃ name, afterColon (attemptEffectNamespace taskId attempt) = some name ∧ name ∈ nodes

instance (nodes : Finset String) (taskId : String) (attempt : ℕ) :
    Decidable (NamesRetry nodes taskId attempt) :=
  match h : afterColon (attemptEffectNamespace taskId attempt) with
  | none => .isFalse fun ⟨_, hnm, _⟩ => nomatch h.symm.trans hnm
  | some name =>
    if hm : name ∈ nodes then .isTrue ⟨name, h, hm⟩
    else .isFalse fun ⟨_, hnm, hm'⟩ =>
      hm (Option.some.inj (h.symm.trans hnm) ▸ hm')

/-- The record that an attempt starts. -/
def attemptStart (started : R) (taskId nodeName : String) (attempt step : ℕ) : PendingWrite R :=
  { taskId := attemptEffectNamespace taskId attempt
    nodeName := nodeName
    result := started
    step := step }

section Run

variable (started : R) (nodes : Finset String) (step : ℕ)

/-- The attempts from one on, at most so many. An attempt that is named like
a node of the graph is refused. -/
def runAttempts (inv : Invocation R) (firstAttempt lastAttempt : ℕ) : ℕ → ℕ → InvocationRun R
  | 0, _ => { exit := .failed }
  | bound + 1, attempt =>
    let taskId := inv.kind.taskId step
    if attempt > 0 ∧ NamesRetry nodes taskId attempt then
      { exit := ((inv.giveUp attempt).map InvocationExit.finished).getD .failed }
    else
      let start := if attempt > firstAttempt then
        [attemptStart started taskId inv.kind.nodeName attempt step] else []
      match settleAttempt inv attempt lastAttempt (inv.attempt attempt) with
      | some exit => { attempts := [attempt], writes := start, exit := exit }
      | none =>
        let rest := runAttempts inv firstAttempt lastAttempt bound (attempt + 1)
        { attempts := attempt :: rest.attempts
          writes := start ++ rest.writes
          exit := rest.exit }

/-- The invocation when nothing is replayed: the visit limit and the node
cache come before the attempts. -/
def runFresh (replay : List (PendingWrite R)) (inv : Invocation R) : InvocationRun R :=
  if inv.kind.nodeName ∉ nodes then { exit := .failed }
  else if inv.visitLimited then
    { exit := ((inv.giveUp 0).map InvocationExit.finished).getD .failed }
  else
    match inv.cached with
    | some result => { exit := .finished result }
    | none =>
      let firstAttempt := resumedFirstAttempt (inv.kind.taskId step) replay
      let lastAttempt := max inv.maxRetries firstAttempt
      runAttempts started nodes step inv firstAttempt lastAttempt
        (lastAttempt + 1 - firstAttempt) firstAttempt

/-- The result of an invocation that finished is recorded behind what its
attempts recorded. -/
def withResult (kind : InvocationKind) (run : InvocationRun R) : InvocationRun R :=
  match run.exit with
  | .finished result =>
    { run with writes := run.writes ++ [⟨kind.taskId step, kind.nodeName, result, step⟩] }
  | _ => run

/-- **One invocation.** A recorded result is replayed, and not recorded
again. -/
def runInvocation (replay : List (PendingWrite R)) (inv : Invocation R) : InvocationRun R :=
  match replay.find? fun row => row.taskId = inv.kind.taskId step with
  | some row => { exit := .finished row.result }
  | none => withResult step inv.kind (runFresh started nodes step replay inv)

end Run

/-! ## Counting attempts -/

/-- The attempts that were started are counted up to the first that was not. -/
theorem countAttempts_eq_iff (replay : List (PendingWrite R)) (taskId : String)
    {bound first k : ℕ} : countAttempts replay taskId bound first = k ↔
      first ≤ k ∧ k ≤ first + bound ∧
        (∀ j, first < j → j ≤ k → Recorded replay (attemptEffectNamespace taskId j)) ∧
        (k < first + bound → ¬ Recorded replay (attemptEffectNamespace taskId (k + 1))) := by
  induction bound generalizing first with
  | zero =>
    rw [countAttempts]
    constructor
    · rintro rfl
      exact ⟨le_rfl, le_rfl, fun j h h' => absurd h' (not_le.mpr h),
        fun h => absurd h (lt_irrefl _)⟩
    · rintro ⟨hle, hge, -⟩
      exact le_antisymm hle hge
  | succ bound ih =>
    rw [countAttempts]
    split_ifs with hnx
    · rw [ih, show first + 1 + bound = first + (bound + 1) by omega]
      constructor
      · rintro ⟨hle, hge, ha, hl⟩
        refine ⟨(le_succ first).trans hle, hge, fun j hj hjk => ?_, hl⟩
        obtain rfl | hj := eq_or_lt_of_le (succ_le_of_lt hj)
        · exact hnx
        · exact ha j hj hjk
      · rintro ⟨hle, hge, ha, hl⟩
        refine ⟨?_, hge, fun j hj hjk => ha j ((lt_succ_self first).trans hj) hjk, hl⟩
        -- `first` itself is no answer, for the attempt after it is recorded
        refine lt_of_le_of_ne hle ?_
        rintro rfl
        exact hl (by omega) hnx
    · constructor
      · rintro rfl
        exact ⟨le_rfl, le_add_right _ _, fun j h h' => absurd h' (not_le.mpr h), fun _ => hnx⟩
      · rintro ⟨hle, -, ha, -⟩
        obtain rfl | hlt := eq_or_lt_of_le hle
        · rfl
        · exact absurd (ha _ (lt_succ_self first) hlt) hnx

variable (taskId : String)

/-- **The first attempt of a resume**: every attempt up to it is recorded,
and the next one is not. -/
theorem resumedFirstAttempt_eq_iff (replay : List (PendingWrite R)) {k : ℕ} :
    resumedFirstAttempt taskId replay = k ↔ k ≤ intMax ∧
      (∀ j, 0 < j → j ≤ k → Recorded replay (attemptEffectNamespace taskId j)) ∧
      (k < intMax → ¬ Recorded replay (attemptEffectNamespace taskId (k + 1))) := by
  rw [resumedFirstAttempt, countAttempts_eq_iff, zero_add]
  exact and_iff_right (zero_le k)

theorem resumedFirstAttempt_le (replay : List (PendingWrite R)) :
    resumedFirstAttempt taskId replay ≤ intMax :=
  ((resumedFirstAttempt_eq_iff taskId replay).mp rfl).1

theorem recorded_of_le_resumedFirstAttempt {taskId : String} {replay : List (PendingWrite R)}
    {j : ℕ} (hj : 0 < j) (h : j ≤ resumedFirstAttempt taskId replay) :
    Recorded replay (attemptEffectNamespace taskId j) :=
  ((resumedFirstAttempt_eq_iff taskId replay).mp rfl).2.1 j hj h

theorem resumedFirstAttempt_nil : resumedFirstAttempt taskId ([] : List (PendingWrite R)) = 0 := by
  rw [resumedFirstAttempt_eq_iff]
  exact ⟨zero_le _, fun j hj h => absurd h (not_le.mpr hj), fun _ => not_mem_nil⟩

/-! ## What an invocation does -/

section Spec

variable {started : R} {nodes : Finset String} {step : ℕ}
  {b : Bool} {inv : Invocation R} {attempt : ℕ} {k a : ℕ}

theorem settleAttempt_eq_interrupted {lastAttempt : ℕ} {outcome : AttemptOutcome R}
    (h : settleAttempt inv attempt lastAttempt outcome = some (.interrupted k b)) :
    k = attempt := by
  cases outcome with
  | interrupted reconciliation =>
    cases h
    rfl
  | returned result | stopped | blocked => cases h
  | failed retryable =>
    rw [settleAttempt] at h
    split at h
    · cases hgive : inv.giveUp (attempt + 1) with
      | none | some result =>
        rw [hgive] at h
        cases h
    · split at h <;> cases h

theorem giveUp_ne_interrupted (inv : Invocation R) (attempts k : ℕ) (b : Bool) :
    ((inv.giveUp attempts).map InvocationExit.finished).getD .failed ≠ .interrupted k b := by
  cases inv.giveUp attempts with
  | none | some result => exact nofun

variable {last bound first : ℕ}

/-- No attempt is made again. -/
theorem le_of_mem_attempts
    (h : a ∈ (runAttempts started nodes step inv first last bound attempt).attempts) :
    attempt ≤ a := by
  induction bound generalizing attempt with
  | zero => cases h
  | succ bound ih =>
    rw [runAttempts] at h
    dsimp only at h
    split at h
    · cases h
    split at h
    · exact (mem_singleton.mp h).ge
    · obtain rfl | h := mem_cons.mp h
      · exact le_rfl
      · exact (le_succ attempt).trans (ih h)

variable {row : PendingWrite R}

/-- What is recorded on the way are starts of attempts after the first. -/
theorem mem_writes_runAttempts
    (h : row ∈ (runAttempts started nodes step inv first last bound attempt).writes) :
    ∃ j, first < j ∧
      row = attemptStart started (inv.kind.taskId step) inv.kind.nodeName j step := by
  have hs : ∀ attempt, row ∈ (if attempt > first then
      [attemptStart started (inv.kind.taskId step) inv.kind.nodeName attempt step] else []) →
      ∃ j, first < j ∧
        row = attemptStart started (inv.kind.taskId step) inv.kind.nodeName j step := by
    intro attempt h
    split_ifs at h with hlt
    · exact ⟨attempt, hlt, mem_singleton.mp h⟩
    · cases h
  induction bound generalizing attempt with
  | zero => cases h
  | succ bound ih =>
    rw [runAttempts] at h
    dsimp only at h
    split at h
    · cases h
    split at h
    · exact hs attempt h
    · obtain h | h := mem_append.mp h
      · exact hs attempt h
      · exact ih h

/-- **Attempts that end in a pause**: they lead from the one they began with
to the one that paused, none of them is named like a node, and what they
record are the starts of all after the first. -/
theorem runAttempts_interrupted
    (h : (runAttempts started nodes step inv first last bound attempt).exit = .interrupted k b) :
    attempt ≤ k ∧ k < attempt + bound ∧
      (∀ j, 0 < j → attempt ≤ j → j ≤ k → ¬ NamesRetry nodes (inv.kind.taskId step) j) ∧
      ∀ row, row ∈ (runAttempts started nodes step inv first last bound attempt).writes ↔
        ∃ j, first < j ∧ attempt ≤ j ∧ j ≤ k ∧
          row = attemptStart started (inv.kind.taskId step) inv.kind.nodeName j step := by
  have hs : ∀ attempt row, row ∈ (if attempt > first then
      [attemptStart started (inv.kind.taskId step) inv.kind.nodeName attempt step] else []) ↔
      first < attempt ∧
        row = attemptStart started (inv.kind.taskId step) inv.kind.nodeName attempt step := by
    intro attempt row
    split
    · rename_i hlt
      exact mem_singleton.trans (and_iff_right hlt).symm
    · rename_i hge
      exact ⟨nofun, fun h => absurd h.1 hge⟩
  induction bound generalizing attempt with
  | zero => cases h
  | succ bound ih =>
    rw [runAttempts] at h ⊢
    dsimp only at h ⊢
    split at h
    · exact absurd h (giveUp_ne_interrupted inv attempt k b)
    rename_i hn
    rw [if_neg hn]
    split at h
    · rename_i exit hset
      obtain rfl : exit = .interrupted k b := h
      obtain rfl := settleAttempt_eq_interrupted hset
      refine ⟨le_rfl, by omega, fun j hj hle hge hnm => ?_, fun row => ?_⟩
      · obtain rfl := le_antisymm hge hle
        exact hn ⟨hj, hnm⟩
      refine (hs k row).trans ⟨fun h => ⟨k, h.1, le_rfl, le_rfl, h.2⟩, ?_⟩
      rintro ⟨j, hj, hle, hge, hr⟩
      obtain rfl := le_antisymm hge hle
      exact ⟨hj, hr⟩
    · rename_i hset
      obtain ⟨hle, hlt, hno, hrec⟩ := ih h
      refine ⟨(le_succ attempt).trans hle, by omega, fun j hj hjle hjge => ?_, fun row => ?_⟩
      · obtain rfl | hj' := eq_or_lt_of_le hjle
        · exact fun hnm => hn ⟨hj, hnm⟩
        · exact hno j hj hj' hjge
      · refine mem_append.trans ?_
        rw [hs, hrec]
        constructor
        · rintro (⟨hj, hr⟩ | ⟨j, hj, hjle, hjge, hr⟩)
          · exact ⟨attempt, hj, le_rfl, (le_succ attempt).trans hle, hr⟩
          · exact ⟨j, hj, (le_succ attempt).trans hjle, hjge, hr⟩
        · rintro ⟨j, hj, hjle, hjge, hr⟩
          obtain rfl | hj' := eq_or_lt_of_le hjle
          · exact .inl ⟨hj, hr⟩
          · exact .inr ⟨j, hj, hj', hjge, hr⟩

/-! ### The whole invocation -/

variable {replay : List (PendingWrite R)} {inv : Invocation R}

theorem withResult_exit (kind : InvocationKind) (run : InvocationRun R) :
    (withResult step kind run).exit = run.exit := by
  unfold withResult
  split
  · rename_i h
    exact h.symm ▸ rfl
  · rfl

theorem withResult_attempts (kind : InvocationKind) (run : InvocationRun R) :
    (withResult step kind run).attempts = run.attempts := by
  unfold withResult
  split <;> rfl

theorem mem_withResult_writes_iff {kind : InvocationKind} {run : InvocationRun R} :
    row ∈ (withResult step kind run).writes ↔ row ∈ run.writes ∨
      ∃ result, run.exit = .finished result
        ∧ row = ⟨kind.taskId step, kind.nodeName, result, step⟩ := by
  unfold withResult
  split
  · rename_i result h
    rw [mem_append, mem_singleton]
    refine or_congr Iff.rfl ⟨fun hr => ⟨result, h, hr⟩, ?_⟩
    rintro ⟨result', h', rfl⟩
    cases h.symm.trans h'
    rfl
  · rename_i h
    exact ⟨.inl, fun h' => h'.elim id fun ⟨result, hex, _⟩ => absurd hex (h result)⟩

theorem recorded_iff_find? {id : String} :
    Recorded replay id ↔ ∃ row, replay.find? (fun row => row.taskId = id) = some row := by
  rw [← Option.isSome_iff_exists, find?_isSome]
  unfold Recorded
  rw [mem_map]
  exact exists_congr fun row => and_congr Iff.rfl (decide_eq_true_iff).symm

theorem runInvocation_of_recorded (started : R) (nodes : Finset String)
    (h : Recorded replay (inv.kind.taskId step)) :
    ∃ result, runInvocation started nodes step replay inv = { exit := .finished result } := by
  obtain ⟨row, hr⟩ := recorded_iff_find?.mp h
  refine ⟨row.result, ?_⟩
  rw [runInvocation, hr]

theorem runInvocation_of_not_recorded (h : ¬ Recorded replay (inv.kind.taskId step)) :
    runInvocation started nodes step replay inv
      = withResult step inv.kind (runFresh started nodes step replay inv) := by
  have hn : replay.find? (fun row => row.taskId = inv.kind.taskId step) = none :=
    Option.eq_none_iff_forall_ne_some.mpr fun row hr => h (recorded_iff_find?.mpr ⟨row, hr⟩)
  rw [runInvocation, hn]

/-- A fresh run records the start of every attempt after the first. -/
theorem mem_writes_runFresh (h : row ∈ (runFresh started nodes step replay inv).writes) :
    ∃ j, 0 < j ∧ row = attemptStart started (inv.kind.taskId step) inv.kind.nodeName j step := by
  unfold runFresh at h
  split at h
  · cases h
  split at h
  · cases h
  split at h
  · cases h
  · obtain ⟨j, hj, hr⟩ := mem_writes_runAttempts h
    exact ⟨j, zero_lt_of_lt hj, hr⟩

/-- **What an invocation records**: starts of attempts, and its result. -/
theorem mem_writes_runInvocation (h : row ∈ (runInvocation started nodes step replay inv).writes) :
    (∃ j, 0 < j ∧ row = attemptStart started (inv.kind.taskId step) inv.kind.nodeName j step) ∨
      ∃ result, (runInvocation started nodes step replay inv).exit = .finished result
        ∧ row = ⟨inv.kind.taskId step, inv.kind.nodeName, result, step⟩ := by
  by_cases hrec : Recorded replay (inv.kind.taskId step)
  · obtain ⟨result, hr⟩ := runInvocation_of_recorded started nodes hrec
    rw [hr] at h
    cases h
  · rw [runInvocation_of_not_recorded hrec] at h ⊢
    rw [withResult_exit]
    obtain h | h := mem_withResult_writes_iff.mp h
    · exact .inl (mem_writes_runFresh h)
    · exact .inr h

variable {result : R}

/-- An invocation that finished has its result recorded, now or before. -/
theorem recorded_of_finished
    (h : (runInvocation started nodes step replay inv).exit = .finished result) :
    Recorded replay (inv.kind.taskId step) ∨
      ∃ row ∈ (runInvocation started nodes step replay inv).writes,
        row.taskId = inv.kind.taskId step := by
  by_cases hr : Recorded replay (inv.kind.taskId step)
  · exact .inl hr
  · rw [runInvocation_of_not_recorded hr] at h ⊢
    rw [withResult_exit] at h
    exact .inr ⟨_, mem_withResult_writes_iff.mpr (.inr ⟨result, h, rfl⟩), rfl⟩

/-- The node of an invocation that finished is one of the graph, unless its
result is replayed. -/
theorem nodeName_mem_of_finished (hr : ¬ Recorded replay (inv.kind.taskId step))
    (h : (runInvocation started nodes step replay inv).exit = .finished result) :
    inv.kind.nodeName ∈ nodes := by
  rw [runInvocation_of_not_recorded hr, withResult_exit] at h
  unfold runFresh at h
  split at h
  · cases h
  · rename_i hnd
    exact not_not.mp hnd

/-- **An invocation that pauses**: it goes from the attempt it resumed to the
one that paused, and records the starts of all after the first. -/
theorem runInvocation_interrupted
    (h : (runInvocation started nodes step replay inv).exit = .interrupted k b) :
    resumedFirstAttempt (inv.kind.taskId step) replay ≤ k ∧ k ≤ intMax ∧
      (∀ j, 0 < j → resumedFirstAttempt (inv.kind.taskId step) replay ≤ j → j ≤ k →
        ¬ NamesRetry nodes (inv.kind.taskId step) j) ∧
      ∀ row, row ∈ (runInvocation started nodes step replay inv).writes ↔
        ∃ j, resumedFirstAttempt (inv.kind.taskId step) replay < j ∧ j ≤ k ∧
          row = attemptStart started (inv.kind.taskId step) inv.kind.nodeName j step := by
  by_cases hrec : Recorded replay (inv.kind.taskId step)
  · obtain ⟨result, hr⟩ := runInvocation_of_recorded started nodes hrec
    rw [hr] at h
    cases h
  · rw [runInvocation_of_not_recorded hrec] at h ⊢
    rw [withResult_exit] at h
    have hws : ∀ row, row ∈ (withResult step inv.kind
        (runFresh started nodes step replay inv)).writes ↔
        row ∈ (runFresh started nodes step replay inv).writes := by
      intro row
      rw [mem_withResult_writes_iff, h]
      exact or_iff_left fun ⟨_, hfin, _⟩ => nomatch hfin
    have hm := resumedFirstAttempt_le (inv.kind.taskId step) replay
    have hrty := inv.maxRetries_le
    simp only [hws]
    unfold runFresh at h ⊢
    split at h
    · cases h
    rename_i hnd
    rw [if_neg hnd]
    split at h
    · exact absurd h (giveUp_ne_interrupted inv 0 k b)
    rename_i hl
    rw [if_neg hl]
    split at h
    · cases h
    obtain ⟨hle, hlt, hno, hrs⟩ := runAttempts_interrupted h
    refine ⟨hle, by omega, hno, fun row => (hrs row).trans ?_⟩
    exact exists_congr fun j =>
      ⟨fun h => ⟨h.1, h.2.2⟩, fun h => ⟨h.1, h.1.le, h.2⟩⟩

/-- A resumed invocation makes no attempt before the one it resumes. -/
theorem resumedFirstAttempt_le_of_mem_attempts
    (h : a ∈ (runInvocation started nodes step replay inv).attempts) :
    resumedFirstAttempt (inv.kind.taskId step) replay ≤ a := by
  by_cases hrec : Recorded replay (inv.kind.taskId step)
  · obtain ⟨result, hr⟩ := runInvocation_of_recorded started nodes hrec
    rw [hr] at h
    cases h
  · rw [runInvocation_of_not_recorded hrec, withResult_attempts] at h
    unfold runFresh at h
    split at h
    · cases h
    split at h
    · cases h
    · split at h
      · cases h
      · exact le_of_mem_attempts h

end Spec

end NeoGraph.Executor
