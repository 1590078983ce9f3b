import NeoGraph.Lib.History
import NeoGraph.PlanSpec

/-!
# Join safety over whole runs

A run of the scheduler is a sequence of planning calls that thread one
`BarrierState`, starting empty. A call that throws leaves the barrier
state as it was, and so does a call decided by a `Command` target; neither
signals a join nor fires one. `Scheduler.received` is the set of nodes
that signalled a join since it last fired, read off the history of the
calls and not off the barrier state.

The invariant of a run (`Scheduler.after_eq_received`) is that the entry
of a join in the barrier state *is* that set, emptied when the join fires.
With what one call does (`Scheduler.planNextStep_cases`) it gives the
safety of joins: a join enters the ready set only when the signals since
its previous fire fill it, and a signalled join that is left out keeps
them all.
-/

namespace NeoGraph

variable {σ : Type}

/-! ## Runs -/

/-- The arguments of a planning call, apart from the barrier state. An
empty list of failures is the overload without one. -/
structure PlanCall (σ : Type) where
  routings : List StepRouting
  state : σ
  failed : List Bool

/-- A call with what it returned and the barrier state around it. -/
structure PlanRecord (σ : Type) where
  call : PlanCall σ
  before : BarrierState
  outcome : Except Exn NextStepPlan
  after : BarrierState

/-- The call returned a plan that no `Command` target decided. -/
def PlanRecord.Gating (r : PlanRecord σ) (plan : NextStepPlan) : Prop :=
  r.outcome = .ok plan ∧ plan.winningCommandGoto = none

namespace Scheduler

/-- One call of a run. -/
def callPlan (sch : Scheduler σ) (before : BarrierState) (call : PlanCall σ) : PlanRecord σ :=
  match sch.planNextStep call.routings call.state before call.failed with
  | .ok (plan, after) => ⟨call, before, .ok plan, after⟩
  | .error e => ⟨call, before, .error e, before⟩

variable (sch : Scheduler σ)

@[simp] theorem callPlan_call (before : BarrierState) (call : PlanCall σ) :
    (sch.callPlan before call).call = call := by
  unfold callPlan
  split <;> rfl

@[simp] theorem callPlan_before (before : BarrierState) (call : PlanCall σ) :
    (sch.callPlan before call).before = before := by
  unfold callPlan
  split <;> rfl

/-- The records of a sequence of calls that thread one barrier state. -/
def runPlans (sch : Scheduler σ) : BarrierState → List (PlanCall σ) → List (PlanRecord σ)
  | _, [] => []
  | before, call :: calls =>
    sch.callPlan before call :: sch.runPlans (sch.callPlan before call).after calls

/-! ## The history of a join -/

/-- The nodes whose routing in a call leads to a target: by their failure
target when their failure is handled, else by their edges. A route to
`endNode` ends the run and signals no node. -/
def signalledBy (sch : Scheduler σ) (call : PlanCall σ) (target : String) : Set String :=
  {node | target ≠ endNode ∧ ∃ flags, failedFlags call.routings call.failed = .ok flags
    ∧ ∃ q ∈ call.routings.zip flags, q.1.nodeName = node
      ∧ ∃ next, sch.successorsOf call.state q.1.nodeName q.2 = .ok next ∧ target ∈ next}

/-- The nodes that signal a target in the `i`-th call of a run. -/
def signalledAt (sch : Scheduler σ) (records : List (PlanRecord σ)) (target : String)
    (i : ℕ) : Set String :=
  {node | ∃ r plan, records[i]? = some r ∧ r.Gating plan ∧ node ∈ sch.signalledBy r.call target}

/-- The `i`-th call of a run fires a target. -/
def firesAt (records : List (PlanRecord σ)) (target : String) (i : ℕ) : Prop :=
  ∃ r plan, records[i]? = some r ∧ r.Gating plan ∧ target ∈ plan.ready

/-- **The nodes that signalled a target since its previous fire**, the
`i`-th call included. -/
def received (sch : Scheduler σ) (records : List (PlanRecord σ)) (target : String)
    (i : ℕ) : Set String :=
  sinceReset (sch.signalledAt records target) (firesAt records target) i

/-! ## Records of a run -/

variable {i : ℕ} {r : PlanRecord σ} {calls : List (PlanCall σ)} {before : BarrierState}

/-- A record of a run is the record of its own call. -/
theorem eq_callPlan_of_getElem? (h : (sch.runPlans before calls)[i]? = some r) :
    r = sch.callPlan r.before r.call := by
  induction calls generalizing before i with
  | nil => cases h
  | cons call calls ih =>
    cases i with
    | zero =>
      cases h
      rw [callPlan_before, callPlan_call]
    | succ i => exact ih h

/-- The first call of a run gets the initial barrier state. -/
theorem before_of_getElem?_zero (h : (sch.runPlans before calls)[0]? = some r) :
    r.before = before := by
  cases calls with
  | nil => cases h
  | cons call calls =>
    cases h
    exact sch.callPlan_before before call

/-- Every later call gets the barrier state the previous one left. -/
theorem before_of_getElem?_succ (h : (sch.runPlans before calls)[i + 1]? = some r) :
    ∃ r', (sch.runPlans before calls)[i]? = some r' ∧ r.before = r'.after := by
  induction calls generalizing before i with
  | nil => cases h
  | cons call calls ih =>
    cases i with
    | zero => exact ⟨_, rfl, sch.before_of_getElem?_zero h⟩
    | succ i => exact ih (i := i) h

/-! ## One call -/

/-- **The cases of one record**: the barrier state is left alone and
nothing is signalled or fired, or the call gates the signals of its
routings. -/
theorem record_cases (hr : r = sch.callPlan r.before r.call) :
    ((∀ plan, ¬ r.Gating plan) ∧ r.after = r.before)
      ∨ ∃ plan, r.Gating plan
        ∧ sch.Gated (sch.signalledBy r.call) r.before r.after plan.ready := by
  cases hpl : sch.planNextStep r.call.routings r.call.state r.before r.call.failed with
  | error e =>
    unfold callPlan at hr
    rw [hpl] at hr
    refine .inl ⟨fun plan h => ?_, congrArg PlanRecord.after hr⟩
    have ho := congrArg PlanRecord.outcome hr
    rw [h.1] at ho
    cases ho
  | ok p =>
    obtain ⟨plan, after⟩ := p
    unfold callPlan at hr
    rw [hpl] at hr
    have ho : r.outcome = .ok plan := congrArg PlanRecord.outcome hr
    have haft : r.after = after := congrArg PlanRecord.after hr
    obtain ⟨target, -, rfl, hb⟩ | ⟨flags, routed, -, hf, hrt, hrdy, hg⟩ :=
      planNextStep_cases hpl
    · refine .inl ⟨fun plan' h => ?_, haft.trans hb⟩
      obtain ⟨h, hgt⟩ := h
      rw [ho] at h
      cases h
      unfold gotoPlan at hgt
      split at hgt <;> cases hgt
    · refine .inr ⟨plan, ⟨ho, by rw [hrdy]; rfl⟩, ?_⟩
      have hs : signalers routed = sch.signalledBy r.call := by
        funext t
        ext node
        refine and_congr_right fun _ => ?_
        constructor
        · rintro ⟨p, hp, rfl, ht⟩
          obtain ⟨q, hq, hnm, hnx⟩ := (sch.mem_routeAll_iff _ hrt p).mp hp
          exact ⟨flags, hf, q, hq, hnm.symm, p.2, hnx, ht⟩
        · rintro ⟨flags', hf', q, hq, rfl, next, hnx, ht⟩
          rw [hf] at hf'
          cases hf'
          exact ⟨(q.1.nodeName, next),
            (sch.mem_routeAll_iff _ hrt _).mpr ⟨q, hq, rfl, hnx⟩, rfl, ht⟩
      rw [haft, ← hs]
      exact hg

/-! ## The invariant of a run -/

variable {records : List (PlanRecord σ)}

/-- In a call that gates, the emissions of the history are the signals of
the call, and it fires what it makes ready. -/
theorem signalledAt_of_gating {plan : NextStepPlan} (h : records[i]? = some r) (hg : r.Gating plan)
    (t : String) : sch.signalledAt records t i = sch.signalledBy r.call t
      ∧ (firesAt records t i ↔ t ∈ plan.ready) := by
  constructor
  · ext node
    constructor
    · rintro ⟨r', plan', h', -, hnd⟩
      rw [h] at h'
      cases h'
      exact hnd
    · intro hnd
      exact ⟨r, plan, h, hg, hnd⟩
  · constructor
    · rintro ⟨r', plan', h', hg', hr⟩
      rw [h] at h'
      cases h'
      have := hg.1.symm.trans hg'.1
      cases this
      exact hr
    · intro hr
      exact ⟨r, plan, h, hg, hr⟩

/-- A call that does not gate signals and fires nothing. -/
theorem signalledAt_of_not_gating (h : records[i]? = some r) (hg : ∀ plan, ¬ r.Gating plan)
    (t : String) : sch.signalledAt records t i = ∅ ∧ ¬ firesAt records t i := by
  constructor
  · refine Set.eq_empty_iff_forall_notMem.mpr ?_
    rintro node ⟨r', plan, h', hg', -⟩
    rw [h] at h'
    cases h'
    exact hg plan hg'
  · rintro ⟨r', plan, h', hg', -⟩
    rw [h] at h'
    cases h'
    exact hg plan hg'

/-- What the barrier state holds for a join, given the history: nothing
right after it fired, else every signal since then. -/
def Recorded (sch : Scheduler σ) (records : List (PlanRecord σ)) (t : String) (i : ℕ)
    (r : PlanRecord σ) : Prop :=
  (firesAt records t i → r.after.getD t ∅ = ∅)
    ∧ (¬ firesAt records t i → (↑(r.after.getD t ∅) : Set String) = sch.received records t i)

variable {t : String}

/-- **One call keeps the record of a join**: if the barrier state before
the call accounts for the history up to it, the barrier state after the
call does. -/
theorem recorded_of_before (h : records[i]? = some r) (hr : r = sch.callPlan r.before r.call)
    (hb : sch.isBarrier t = true)
    (hbef : sch.received records t i = ↑(r.before.getD t ∅) ∪ sch.signalledAt records t i) :
    sch.Recorded records t i r := by
  unfold Recorded
  rw [hbef]
  obtain ⟨hg, haft⟩ | ⟨plan, hg, hgt⟩ := sch.record_cases hr
  · obtain ⟨hsig, hfr⟩ := sch.signalledAt_of_not_gating h hg t
    rw [hsig, haft, Set.union_empty]
    exact ⟨fun hf => absurd hf hfr, fun _ => rfl⟩
  · obtain ⟨hsig, hfr⟩ := sch.signalledAt_of_gating h hg t
    rw [hsig, hfr]
    obtain he | hne := Set.eq_empty_or_nonempty (sch.signalledBy r.call t)
    · obtain ⟨hrdy, haft⟩ := hgt.silent t hb he
      unfold SortedMap.getD
      rw [he, Set.union_empty, haft]
      exact ⟨fun hf => absurd hf hrdy, fun _ => rfl⟩
    · unfold SortedMap.getD
      refine ⟨fun hrdy => ?_, fun hrdy => ?_⟩
      · rw [(hgt.fires t hb hne hrdy).2]
        rfl
      · obtain ⟨-, s, hs, heq⟩ := hgt.deferred t hb hne hrdy
        rw [hs]
        exact heq

/-- In every call of a run the signals received up to it are what the
barrier state held before, together with the signals of the call. -/
theorem received_eq_before_union (calls : List (PlanCall σ))
    (h : (sch.runPlans ∅ calls)[i]? = some r) (hb : sch.isBarrier t = true) :
    sch.received (sch.runPlans ∅ calls) t i
      = ↑(r.before.getD t ∅) ∪ sch.signalledAt (sch.runPlans ∅ calls) t i := by
  induction i generalizing r with
  | zero =>
    rw [sch.before_of_getElem?_zero h]
    show sinceReset _ _ 0 = ((∅ : Finset String) : Set String) ∪ _
    rw [sinceReset_zero, Finset.coe_empty, Set.empty_union]
  | succ i ih =>
    obtain ⟨r', h', hbef⟩ := sch.before_of_getElem?_succ h
    -- the barrier state before this call is the one after the previous call
    obtain ⟨hfired, hk⟩ :=
      sch.recorded_of_before h' (sch.eq_callPlan_of_getElem? h') hb (ih h')
    rw [hbef]
    by_cases hf : firesAt (sch.runPlans ∅ calls) t i
    · rw [hfired hf, Finset.coe_empty, Set.empty_union]
      exact sinceReset_succ_of_reset _ _ hf
    · rw [hk hf]
      exact sinceReset_succ_of_not_reset _ _ hf

/-! ## Join safety -/

/-- **Joins are safe over whole runs.** In every run of planning calls
that starts from an empty barrier state, a plan without a `Command` target
that puts a join into the ready set does so only when the signals since
the join's previous fire fill it, and clears its entry; if it signals the
join and leaves it out, those signals do not fill it and are all still
recorded. A plan decided by a `Command` target leaves the barrier state
unchanged. -/
theorem join_safety (sch : Scheduler σ) (calls : List (PlanCall σ)) (i : ℕ)
    (r : PlanRecord σ) (h : (sch.runPlans ∅ calls)[i]? = some r) :
    (∀ plan, r.Gating plan → ∀ t, sch.isBarrier t = true →
      (t ∈ plan.ready →
        sch.Filled t (sch.received (sch.runPlans ∅ calls) t i) ∧ r.after.getD t ∅ = ∅)
      ∧ (t ∉ plan.ready → (sch.signalledBy r.call t).Nonempty →
        ¬ sch.Filled t (sch.received (sch.runPlans ∅ calls) t i)
          ∧ (↑(r.after.getD t ∅) : Set String) = sch.received (sch.runPlans ∅ calls) t i))
    ∧ (∀ plan target, r.outcome = .ok plan → plan.winningCommandGoto = some target →
      r.after = r.before) := by
  have hr := sch.eq_callPlan_of_getElem? h
  refine ⟨fun plan hg t hb => ?_, fun plan target ho hgo => ?_⟩
  · have hreceived := sch.received_eq_before_union calls h hb
    obtain ⟨hfired, hk⟩ := sch.recorded_of_before h hr hb hreceived
    obtain ⟨hs, hfr⟩ := sch.signalledAt_of_gating h hg t
    rw [hs] at hreceived
    obtain ⟨hno, -⟩ | ⟨plan', hg', hgt⟩ := sch.record_cases hr
    · exact absurd hg (hno plan)
    · have hp := hg.1.symm.trans hg'.1
      cases hp
      refine ⟨fun hrdy => ⟨?_, hfired (hfr.mpr hrdy)⟩, fun hrdy hne => ⟨?_, ?_⟩⟩
      · obtain he | hne := Set.eq_empty_or_nonempty (sch.signalledBy r.call t)
        · exact absurd hrdy (hgt.silent t hb he).1
        · rw [hreceived]
          exact (hgt.fires t hb hne hrdy).1
      · rw [hreceived]
        exact (hgt.deferred t hb hne hrdy).1
      · exact hk (fun hf => hrdy (hfr.mp hf))
  · obtain ⟨-, haft⟩ | ⟨plan', hg', -⟩ := sch.record_cases hr
    · exact haft
    · have hp := ho.symm.trans hg'.1
      cases hp
      have hn := hg'.2
      rw [hgo] at hn
      cases hn

/-- Two branches into a barrier. -/
def diamond : Scheduler Unit where
  edges := [⟨"a", "j"⟩, ⟨"b", "j"⟩]
  conditionalEdges := []
  barrierSpecs := SortedMap.ofList [("j", {"a", "b"})]
  joinSpecs := ∅
  failureTargets := ∅
  registry := ⟨fun _ => .error (.runtimeError "no condition"), fun _ => none⟩

/-- A run of `diamond` in which the branches arrive one after the
other. -/
def diamondCalls : List (PlanCall Unit) :=
  [⟨[⟨"a", none⟩], (), []⟩, ⟨[⟨"b", none⟩], (), []⟩]

theorem join_safety_diamond :
    (∃ r, (diamond.runPlans ∅ diamondCalls)[1]? = some r ∧ r.Gating { ready := ["j"] })
      ∧ diamond.Filled "j" (diamond.received (diamond.runPlans ∅ diamondCalls) "j" 1) :=
  ⟨⟨_, rfl, rfl, rfl⟩,
    (((diamond.join_safety diamondCalls 1 _ rfl).1 { ready := ["j"] } ⟨rfl, rfl⟩ "j"
      (by decide)).1 (by decide)).1⟩

end Scheduler

end NeoGraph
