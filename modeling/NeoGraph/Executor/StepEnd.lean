import NeoGraph.Executor.Pause
import NeoGraph.Lib.JsonObject

/-!
# How a super-step ends

The invocations of a step end each with a result or with an exception. The
step takes one end of all of them: what stops the run comes first, then an
effect whose outcome is unknown, then a failure, and then the ordinary
interrupts. The exceptions are scanned once, in dispatch order, into a record
of what was seen (`Seen`); the end is read off it.

The end does not depend on the order of the invocations, except for the order
in which a pause lists its interrupts (`stepEnd_of_perm`).
-/

namespace NeoGraph.Executor

open List Option Bool

/-! ## Exceptions -/

/-- What an invocation ended with, if not with a result. -/
inductive Thrown where
  | nodeInterrupt (reason : String) (value : Json String)
  | cancelled
  | badAlloc
  | other (what : String)

/-- How one invocation of a step ended, by precedence, lowest first. -/
inductive ExitClass where
  | interrupt
  | failure
  | reconciliation
  | stop
deriving DecidableEq

/-- An interrupt asks for reconciliation by the kind in its payload. -/
def exitOf : Thrown → ExitClass
  | .nodeInterrupt _ value =>
    match value.get? "kind" with
    | some (.str "tool_effect_reconciliation") => .reconciliation
    | _ => .interrupt
  | .cancelled => .stop
  | .badAlloc => .stop
  | .other _ => .failure

/-! ## The scan -/

/-- What the scan has seen of the invocations of a step. -/
structure Seen where
  stop : Option ℕ := none
  failure : Option ℕ := none
  reconciliations : List ℕ := []
  interrupts : List ℕ := []

namespace Seen

/-- One invocation more. -/
def note (seen : Seen) (index : ℕ) : Option ExitClass → Seen
  | none => seen
  | some .stop => { seen with stop := seen.stop.or (some index) }
  | some .failure => { seen with failure := seen.failure.or (some index) }
  | some .reconciliation => { seen with
      reconciliations := seen.reconciliations ++ [index]
      interrupts := seen.interrupts ++ [index] }
  | some .interrupt => { seen with interrupts := seen.interrupts ++ [index] }

/-- The end of the step. -/
def outcome (seen : Seen) : StepOutcome :=
  if seen.stop.isSome then { endAt := seen.stop }
  else if seen.failure.isSome && seen.reconciliations.isEmpty then { endAt := seen.failure }
  else
    { besideFailure := seen.failure.isSome
      pause := if seen.failure.isSome then seen.reconciliations else seen.interrupts }

end Seen

/-- **The outcome of a step**, from how its invocations ended in dispatch
order. -/
def outcomeOf (ends : List (Option ExitClass)) : StepOutcome :=
  (ends.zipIdx.foldl (fun seen e => seen.note e.2 e.1) ({} : Seen)).outcome

/-! ## The end of a step -/

/-- An invocation that has ended. -/
structure EndedInvocation where
  taskId : String
  nodeName : String
  error : Option Thrown

/-- A paused invocation, as the step reports it. -/
structure PendingInterrupt where
  id : String
  node : String
  value : Json String

/-- The report of an interrupt: the payload is absent when the node attached
none. -/
def interruptValueOf (reason : String) (value : Json String) : Json String :=
  .obj ([("reason", .str reason), ("type", .str "NodeInterrupt")]
    ++ match value with
      | .null => []
      | value => [("value", value)])

namespace EndedInvocation

/-- How the invocation ended, if with an exception. -/
def exit (inv : EndedInvocation) : Option ExitClass := inv.error.map exitOf

/-- The interrupt of a paused invocation. -/
def pending? (inv : EndedInvocation) : Option PendingInterrupt :=
  match inv.error with
  | some (.nodeInterrupt reason value) =>
    some { id := inv.taskId, node := inv.nodeName, value := interruptValueOf reason value }
  | _ => none

end EndedInvocation

/-- How a step ends: with an exception, in a pause, or with its results. -/
inductive StepEnd where
  | throws (error : Thrown)
  | pauses (interrupts : List PendingInterrupt) (besideFailure : Bool)
  | finishes

/-- **The end of a step.** -/
def stepEnd (invs : List EndedInvocation) : StepEnd :=
  let outcome := outcomeOf (invs.map EndedInvocation.exit)
  match outcome.endAt.bind (fun i => invs[i]?.bind EndedInvocation.error) with
  | some error => .throws error
  | none =>
    if outcome.pause.isEmpty then .finishes
    else
      .pauses (outcome.pause.filterMap fun i => invs[i]?.bind EndedInvocation.pending?)
        outcome.besideFailure

/-- The kind of an end. -/
inductive EndKind where
  | stops
  | fails
  | pauses (besideFailure : Bool)
  | finishes
deriving DecidableEq

namespace StepEnd

def kind : StepEnd → EndKind
  | throws error => if exitOf error = .stop then .stops else .fails
  | pauses _ besideFailure => .pauses besideFailure
  | finishes => .finishes

/-- The interrupts the step reports. -/
def reported : StepEnd → List PendingInterrupt
  | pauses interrupts _ => interrupts
  | _ => []

end StepEnd

/-! ## What the scan finds -/

/-- The invocations of a class. -/
def inClass (c : ExitClass) (e : Option ExitClass) : Bool := e = some c

/-- The invocations that interrupted, of either kind. -/
def interrupted (e : Option ExitClass) : Bool :=
  e = some .interrupt || e = some .reconciliation

/-- **The scan finds** the first invocation that stopped, the first that failed
and every interrupt. -/
theorem seen_eq (ends : List (Option ExitClass)) :
    ends.zipIdx.foldl (fun seen e => seen.note e.2 e.1) ({} : Seen) = {
      stop := (indicesOf ends (inClass .stop)).head?
      failure := (indicesOf ends (inClass .failure)).head?
      reconciliations := indicesOf ends (inClass .reconciliation)
      interrupts := indicesOf ends interrupted } := by
  induction ends using reverseRecOn with
  | nil => rfl
  | append_singleton ends e ih =>
    rw [zipIdx_append, foldl_append, ih, indicesOf_concat, indicesOf_concat,
      indicesOf_concat, indicesOf_concat, Nat.zero_add]
    cases e with
    | none =>
      show Seen.mk _ _ _ _ = Seen.mk _ _ _ _
      rw [if_neg (by decide), if_neg (by decide), if_neg (by decide), if_neg (by decide)]
      repeat rw [append_nil]
    | some c =>
      cases c with (show Seen.mk _ _ _ _ = Seen.mk _ _ _ _)
      | interrupt =>
        rw [if_neg (by decide), if_neg (by decide), if_neg (by decide), if_pos (by decide)]
        repeat rw [append_nil]
      | failure =>
        rw [if_neg (by decide), if_pos (by decide), if_neg (by decide), if_neg (by decide)]
        repeat rw [append_nil]
        rw [head?_append]
        rfl
      | reconciliation =>
        rw [if_neg (by decide), if_neg (by decide), if_pos (by decide), if_pos (by decide)]
        repeat rw [append_nil]
      | stop =>
        rw [if_pos (by decide), if_neg (by decide), if_neg (by decide), if_neg (by decide)]
        repeat rw [append_nil]
        rw [head?_append]
        rfl

/-- How an invocation of a part of a step ended, for the scan. -/
def InvocationExit.class? {R : Type} : InvocationExit R → Option ExitClass
  | .finished _ => none
  | .interrupted _ true => some .reconciliation
  | .interrupted _ false => some .interrupt
  | .failed => some .failure
  | .stopped => some .stop

/-- **The scan finds what searches over all invocations find.** -/
theorem outcomeOf_eq_stepOutcome {R : Type} (exits : List (InvocationExit R)) :
    outcomeOf (exits.map InvocationExit.class?) = stepOutcome exits := by
  have hi : ∀ {p : Option ExitClass → Bool} (q : InvocationExit R → Bool),
      (∀ x, p (InvocationExit.class? x) = q x) →
      indicesOf (exits.map InvocationExit.class?) p = indicesOf exits q := by
    intro p q hpq
    rw [indicesOf_map, funext hpq]
  have hcls : ∀ x : InvocationExit R, inClass .stop x.class? = x.isStopped
      ∧ inClass .failure x.class? = x.isFailed
      ∧ inClass .reconciliation x.class? = x.isReconciliation
      ∧ interrupted x.class? = x.isInterrupted := by
    intro x
    rcases x with _ | ⟨_, _ | _⟩ | _ | _ <;> exact ⟨rfl, rfl, rfl, rfl⟩
  unfold outcomeOf stepOutcome
  rw [seen_eq, hi _ fun x => (hcls x).1, hi _ fun x => (hcls x).2.1,
    hi _ fun x => (hcls x).2.2.1, hi _ fun x => (hcls x).2.2.2]
  unfold Seen.outcome indicesOf
  simp only [head?_filter, Bool.and_eq_true, List.isEmpty_iff]

/-! ## The end of a step -/

section StepEnd

variable {invs : List EndedInvocation} {inv : EndedInvocation}

theorem pending?_eq_none (h : interrupted inv.exit = false) : inv.pending? = none := by
  unfold EndedInvocation.pending?
  split
  · rename_i reason value herr
    unfold EndedInvocation.exit at h
    rw [herr, map_some] at h
    unfold exitOf at h
    dsimp only at h
    split at h <;> exact absurd h (by decide)
  · rfl

theorem pending?_isSome (h : interrupted inv.exit = true) : inv.pending?.isSome = true := by
  unfold EndedInvocation.exit at h
  unfold EndedInvocation.pending?
  cases herr : inv.error with
  | none =>
    rw [herr] at h
    exact absurd h (by decide)
  | some error =>
    rw [herr] at h
    cases error with
    | nodeInterrupt reason value => rfl
    | cancelled | badAlloc => exact absurd h (by decide)
    | other what => exact absurd (show interrupted (some .failure) = true from h) (by decide)

/-- The first invocation of a class, if there is one, with its exception. -/
theorem head?_indicesOf (c : ExitClass) (invs : List EndedInvocation) :
    (indicesOf (invs.map EndedInvocation.exit) (inClass c)).head? = none
        ∧ (∀ inv ∈ invs, inv.exit ≠ some c)
      ∨ ∃ i error, (indicesOf (invs.map EndedInvocation.exit) (inClass c)).head? = some i
        ∧ invs[i]?.bind EndedInvocation.error = some error ∧ exitOf error = c
        ∧ ∃ inv ∈ invs, inv.exit = some c := by
  rw [indicesOf_map]
  cases hin : indicesOf invs fun inv => inClass c inv.exit with
  | nil =>
    refine .inl ⟨rfl, fun inv hi hex => ?_⟩
    have hn := indicesOf_eq_nil_iff.mp hin inv hi
    rw [hex] at hn
    exact of_decide_eq_false hn rfl
  | cons i rest =>
    obtain ⟨inv, hi, hg, hcls⟩ := of_mem_indicesOf (hin ▸ mem_cons_self)
    have hex : inv.exit = some c := of_decide_eq_true hcls
    obtain ⟨error, herr, hc⟩ := map_eq_some_iff.mp hex
    refine .inr ⟨i, error, rfl, ?_, hc, inv, hi, hex⟩
    rw [hg]
    exact herr

/-- **What stops the run** stops it. -/
theorem stepEnd_of_stop (h : ∃ inv ∈ invs, inv.exit = some .stop) :
    ∃ error, exitOf error = .stop ∧ stepEnd invs = .throws error := by
  obtain ⟨-, hn⟩ | ⟨i, error, hhd, hg, hcls, -⟩ := head?_indicesOf .stop invs
  · obtain ⟨inv, hi, hex⟩ := h
    exact absurd hex (hn inv hi)
  refine ⟨error, hcls, ?_⟩
  unfold stepEnd outcomeOf
  rw [seen_eq, hhd]
  unfold Seen.outcome
  dsimp only
  rw [if_pos (show (some i).isSome = true from rfl)]
  rw [bind_some, hg]

section NotStopped

variable (hstop : ∀ inv ∈ invs, inv.exit ≠ some .stop)

include hstop

theorem head?_stop : (indicesOf (invs.map EndedInvocation.exit) (inClass .stop)).head? = none := by
  obtain ⟨hhd, -⟩ | ⟨_, _, -, -, -, inv, hi, hex⟩ := head?_indicesOf .stop invs
  · exact hhd
  · exact absurd hex (hstop inv hi)

/-- **A failure fails the run**, unless an effect is to be reconciled. -/
theorem stepEnd_of_failure (h : ∃ inv ∈ invs, inv.exit = some .failure)
    (hr : ∀ inv ∈ invs, inv.exit ≠ some .reconciliation) :
    ∃ error, exitOf error = .failure ∧ stepEnd invs = .throws error := by
  obtain ⟨-, hn⟩ | ⟨i, error, hhd, hg, hcls, -⟩ := head?_indicesOf .failure invs
  · obtain ⟨inv, hi, hex⟩ := h
    exact absurd hex (hn inv hi)
  refine ⟨error, hcls, ?_⟩
  have he : indicesOf (invs.map EndedInvocation.exit) (inClass .reconciliation) = [] := by
    rw [indicesOf_map, indicesOf_eq_nil_iff]
    exact fun inv hi => decide_eq_false (hr inv hi)
  unfold stepEnd outcomeOf
  rw [seen_eq, head?_stop hstop, hhd, he]
  unfold Seen.outcome
  dsimp only
  rw [if_neg (show ¬ (none : Option ℕ).isSome = true by decide),
    if_pos (show ((some i).isSome && ([] : List ℕ).isEmpty) = true from rfl)]
  rw [bind_some, hg]

/-- **An uncertain effect pauses the step** even beside a failure; the pause
reports what is to be reconciled. -/
theorem stepEnd_of_reconciliation (h : ∃ inv ∈ invs, inv.exit = some .failure)
    (hr : ∃ inv ∈ invs, inv.exit = some .reconciliation) : stepEnd invs = .pauses
      ((invs.filter fun inv => inv.exit = some .reconciliation).filterMap
        EndedInvocation.pending?) true := by
  obtain ⟨-, hn⟩ | ⟨i, error, hhd, -, -, -⟩ := head?_indicesOf .failure invs
  · obtain ⟨inv, hi, hex⟩ := h
    exact absurd hex (hn inv hi)
  have hin : (indicesOf (invs.map EndedInvocation.exit)
      (inClass .reconciliation)).isEmpty = false := by
    rw [isEmpty_eq_false_iff, indicesOf_map]
    intro hnil
    obtain ⟨inv, hi, hex⟩ := hr
    exact of_decide_eq_false (indicesOf_eq_nil_iff.mp hnil inv hi) hex
  unfold stepEnd outcomeOf
  rw [seen_eq, head?_stop hstop, hhd]
  unfold Seen.outcome
  dsimp only
  rw [hin, if_neg (show ¬ (none : Option ℕ).isSome = true by decide),
    if_neg (show ¬ ((some i).isSome && false) = true from false_ne_true)]
  rw [bind_none, if_pos (show (some i).isSome = true from rfl)]
  rw [hin, if_neg Bool.false_ne_true, indicesOf_map, filterMap_indicesOf]
  rfl

/-- **Otherwise the step pauses on every interrupt**, or finishes. -/
theorem stepEnd_of_no_failure (h : ∀ inv ∈ invs, inv.exit ≠ some .failure) :
    stepEnd invs = if invs.filterMap EndedInvocation.pending? = [] then .finishes
      else .pauses (invs.filterMap EndedInvocation.pending?) false := by
  obtain ⟨hhd, -⟩ | ⟨_, _, -, -, -, inv, hi, hex⟩ := head?_indicesOf .failure invs
  · have hp : ((indicesOf invs fun inv => interrupted inv.exit).filterMap
        fun i => invs[i]?.bind EndedInvocation.pending?)
          = invs.filterMap EndedInvocation.pending? := by
      rw [filterMap_indicesOf, filterMap_filter]
      refine filterMap_congr fun inv _ => ?_
      cases hint : interrupted inv.exit with
      | false =>
        rw [if_neg Bool.false_ne_true]
        exact (pending?_eq_none hint).symm
      | true => exact if_pos rfl
    have he : (indicesOf invs fun inv => interrupted inv.exit).isEmpty = true
        ↔ invs.filterMap EndedInvocation.pending? = [] := by
      rw [List.isEmpty_iff, indicesOf_eq_nil_iff, List.filterMap_eq_nil_iff]
      refine forall₂_congr fun inv _ => ⟨pending?_eq_none, fun hn => ?_⟩
      by_contra hint
      have hs := pending?_isSome (eq_true_of_not_eq_false hint)
      rw [hn] at hs
      cases hs
    unfold stepEnd outcomeOf
    rw [seen_eq, head?_stop hstop, hhd]
    unfold Seen.outcome
    dsimp only
    rw [if_neg (show ¬ (none : Option ℕ).isSome = true by decide),
      if_neg (show ¬ ((none : Option ℕ).isSome && _) = true from false_ne_true)]
    rw [bind_none, if_neg (show ¬ (none : Option ℕ).isSome = true by decide)]
    rw [indicesOf_map, hp]
    exact if_congr he rfl rfl
  · exact absurd hex (h inv hi)

end NotStopped

/-- A step without a cancelled node does not stop. -/
theorem kind_ne_stops (hstop : ∀ inv ∈ invs, inv.exit ≠ some .stop) :
    (stepEnd invs).kind ≠ .stops := by
  by_cases hflr : ∃ inv ∈ invs, inv.exit = some .failure
  · by_cases hr : ∃ inv ∈ invs, inv.exit = some .reconciliation
    · rw [stepEnd_of_reconciliation hstop hflr hr]
      exact nofun
    push Not at hr
    obtain ⟨error, hcls, he⟩ := stepEnd_of_failure hstop hflr hr
    rw [he]
    show (if exitOf error = .stop then EndKind.stops else EndKind.fails) ≠ .stops
    rw [hcls]
    decide
  · push Not at hflr
    rw [stepEnd_of_no_failure hstop hflr]
    split <;> exact nofun

/-- The invocations in another order end the step in the same way. -/
theorem stepEnd_of_perm {invs' : List EndedInvocation} (hp : invs'.Perm invs) :
    (stepEnd invs').kind = (stepEnd invs).kind
      ∧ (stepEnd invs').reported.Perm (stepEnd invs).reported := by
  have hex : ∀ c, (∃ inv ∈ invs', inv.exit = some c) ↔ ∃ inv ∈ invs, inv.exit = some c :=
    fun c => exists_congr fun inv => and_congr_left fun _ => hp.mem_iff
  by_cases hstop : ∃ inv ∈ invs, inv.exit = some .stop
  · obtain ⟨error, hcls, hend⟩ := stepEnd_of_stop hstop
    obtain ⟨error', hcls', hend'⟩ := stepEnd_of_stop ((hex _).mpr hstop)
    rw [hend, hend']
    exact ⟨(if_pos hcls').trans (if_pos hcls).symm, List.Perm.nil⟩
  · have hstop' := mt (hex _).mp hstop
    push Not at hstop hstop'
    by_cases hflr : ∃ inv ∈ invs, inv.exit = some .failure
    · have hflr' := (hex _).mpr hflr
      by_cases hr : ∃ inv ∈ invs, inv.exit = some .reconciliation
      · rw [stepEnd_of_reconciliation hstop hflr hr,
          stepEnd_of_reconciliation hstop' hflr' ((hex _).mpr hr)]
        exact ⟨rfl, (hp.filter _).filterMap _⟩
      · have hr' := mt (hex _).mp hr
        push Not at hr hr'
        obtain ⟨error, hcls, hend⟩ := stepEnd_of_failure hstop hflr hr
        obtain ⟨error', hcls', hend'⟩ := stepEnd_of_failure hstop' hflr' hr'
        rw [hend, hend']
        refine ⟨?_, List.Perm.nil⟩
        show (if exitOf error' = .stop then EndKind.stops else EndKind.fails)
          = if exitOf error = .stop then EndKind.stops else EndKind.fails
        rw [hcls, hcls']
    · have hflr' := mt (hex _).mp hflr
      push Not at hflr hflr'
      have hrep := hp.filterMap EndedInvocation.pending?
      rw [stepEnd_of_no_failure hstop hflr, stepEnd_of_no_failure hstop' hflr']
      have hn : invs'.filterMap EndedInvocation.pending? = []
          ↔ invs.filterMap EndedInvocation.pending? = [] :=
        ⟨fun h => (h ▸ hrep.symm).eq_nil, fun h => (h ▸ hrep).eq_nil⟩
      by_cases he : invs.filterMap EndedInvocation.pending? = []
      · rw [if_pos he, if_pos (hn.mpr he)]
        exact ⟨rfl, List.Perm.nil⟩
      · rw [if_neg he, if_neg (mt hn.mp he)]
        exact ⟨rfl, hrep⟩

/-- **How a step ends does not depend on the order of its invocations.** It
stops if one of them stopped; else it fails if one failed and none asks for
reconciliation; else it pauses, on every interrupt in dispatch order, or beside
a failure on those that ask for reconciliation, or it finishes if there is
nothing to report. -/
theorem stepEnd_order_independent (invs : List EndedInvocation) :
    ((stepEnd invs).kind = .stops ↔ ∃ inv ∈ invs, inv.exit = some .stop)
      ∧ ((∀ inv ∈ invs, inv.exit ≠ some .stop) →
        ((stepEnd invs).kind = .fails ↔ (∃ inv ∈ invs, inv.exit = some .failure)
          ∧ ∀ inv ∈ invs, inv.exit ≠ some .reconciliation)
        ∧ ((∀ inv ∈ invs, inv.exit ≠ some .failure) →
          stepEnd invs = if invs.filterMap EndedInvocation.pending? = [] then .finishes
            else .pauses (invs.filterMap EndedInvocation.pending?) false)
        ∧ ((∃ inv ∈ invs, inv.exit = some .failure) →
          (∃ inv ∈ invs, inv.exit = some .reconciliation) →
          stepEnd invs = .pauses
            ((invs.filter fun inv => inv.exit = some .reconciliation).filterMap
              EndedInvocation.pending?) true))
      ∧ ∀ invs' : List EndedInvocation, invs'.Perm invs →
        (stepEnd invs').kind = (stepEnd invs).kind
          ∧ (stepEnd invs').reported.Perm (stepEnd invs).reported := by
  refine ⟨⟨?_, ?_⟩, fun hstop => ⟨⟨?_, ?_⟩, stepEnd_of_no_failure hstop,
    stepEnd_of_reconciliation hstop⟩, fun invs' hp => stepEnd_of_perm hp⟩
  · intro hkd
    by_contra hn
    exact kind_ne_stops (fun inv hi hex => hn ⟨inv, hi, hex⟩) hkd
  · intro h
    obtain ⟨error, hcls, he⟩ := stepEnd_of_stop h
    rw [he]
    exact if_pos hcls
  · intro hkd
    have hflr : ∃ inv ∈ invs, inv.exit = some .failure := by
      by_contra hn
      rw [stepEnd_of_no_failure hstop fun inv hi hex => hn ⟨inv, hi, hex⟩] at hkd
      split at hkd <;> cases hkd
    refine ⟨hflr, fun inv hi hex => ?_⟩
    rw [stepEnd_of_reconciliation hstop hflr ⟨inv, hi, hex⟩] at hkd
    cases hkd
  · rintro ⟨hflr, hr⟩
    obtain ⟨error, hcls, he⟩ := stepEnd_of_failure hstop hflr hr
    rw [he]
    show (if exitOf error = .stop then EndKind.stops else EndKind.fails) = .fails
    rw [hcls]
    rfl

end StepEnd

end NeoGraph.Executor
