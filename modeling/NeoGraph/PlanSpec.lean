import NeoGraph.Scheduler

/-!
# What one plan does

The three passes of `Scheduler.planImpl` are stated here once, in terms of
the routed nodes rather than of the maps the passes build:

* `Scheduler.mem_routeAll_iff`: the routed list pairs every node of the
  super-step with the successors it signals;
* `mem_collectSignals`: a target's signalers are the nodes routed to it;
* `Scheduler.foldl_gate_spec`: gating handles every signalled target
  exactly once and touches no other entry of the barrier state.

`Scheduler.planNextStep_cases` puts them together: a call that returns is
either decided by a `Command` target, with the barrier state untouched, or
gated target by target (`Scheduler.Gated`). Later proofs about plans use
these cases and never unfold the passes.
-/

namespace NeoGraph

open List

variable {σ : Type}

/-! ## Routed nodes -/

namespace Scheduler

/-- A routed node signals the successors it resolves to. -/
theorem mem_routeAll_iff (sch : Scheduler σ) (state : σ)
    {l : List (StepRouting × Bool)} {routed : List (String × List String)}
    (h : sch.routeAll state l = .ok routed) (p : String × List String) : p ∈ routed ↔
      ∃ q ∈ l, p.1 = q.1.nodeName
        ∧ sch.successorsOf state q.1.nodeName q.2 = .ok p.2 := by
  induction l generalizing routed with
  | nil =>
    cases h
    simp
  | cons a l ih =>
    obtain ⟨next, hnx, h⟩ := bind_eq_ok.mp h
    obtain ⟨tail, ht, h⟩ := bind_eq_ok.mp h
    cases h
    rw [mem_cons, ih ht]
    constructor
    · rintro (rfl | ⟨q, hq, hp⟩)
      · exact ⟨a, mem_cons_self, rfl, hnx⟩
      · exact ⟨q, mem_cons_of_mem a hq, hp⟩
    · rintro ⟨q, hq, hp, hs⟩
      obtain rfl | hq := mem_cons.mp hq
      · rw [hnx] at hs
        cases hs
        exact .inl (Prod.ext hp rfl)
      · exact .inr ⟨q, hq, hp, hs⟩

end Scheduler

/-! ## Signals -/

/-- A signal map records `node` for `target`. -/
def Signals (signals : SortedMap String (Finset String)) (node target : String) : Prop :=
  ∃ s, signals.find? target = some s ∧ node ∈ s

theorem signals_addSignal (signals : SortedMap String (Finset String)) (node next n t : String) :
    Signals (addSignal node signals next) n t
      ↔ Signals signals n t ∨ (n = node ∧ t = next ∧ t ≠ endNode) := by
  unfold addSignal
  split_ifs with hnx
  · constructor
    · exact .inl
    · rintro (h | ⟨-, rfl, hne⟩)
      · exact h
      · exact absurd hnx hne
  · unfold Signals
    rw [SortedMap.find?_alterD]
    by_cases ht : t = next
    · subst ht
      rw [if_pos rfl]
      simp only [Option.some.injEq, exists_eq_left', Finset.mem_insert, true_and]
      rw [or_comm]
      refine or_congr ?_ (by simp [hnx])
      unfold SortedMap.getD
      cases signals.find? t <;> simp
    · rw [if_neg ht]
      simp [ht]

theorem signals_foldl_addSignal (node : String) (nexts : List String)
    (signals : SortedMap String (Finset String)) (n t : String) :
    Signals (nexts.foldl (addSignal node) signals) n t
      ↔ Signals signals n t ∨ (n = node ∧ t ∈ nexts ∧ t ≠ endNode) := by
  induction nexts generalizing signals with
  | nil => simp
  | cons next nexts ih =>
    rw [foldl_cons, ih, signals_addSignal, mem_cons]
    tauto

/-- **Pass 2 records every signal and nothing else**: the signalers of a
target other than `endNode` are the nodes routed to it. -/
theorem signals_collectSignals (routed : List (String × List String)) (n t : String) :
    Signals (collectSignals routed) n t
      ↔ t ≠ endNode ∧ ∃ p ∈ routed, p.1 = n ∧ t ∈ p.2 := by
  have key : ∀ (routed : List (String × List String)) (signals : SortedMap String (Finset String)),
      Signals (routed.foldl (fun signals p => p.2.foldl (addSignal p.1) signals) signals) n t
        ↔ Signals signals n t ∨ (t ≠ endNode ∧ ∃ p ∈ routed, p.1 = n ∧ t ∈ p.2) := by
    intro routed
    induction routed with
    | nil => simp
    | cons p routed ih =>
      intro signals
      rw [foldl_cons, ih, signals_foldl_addSignal, exists_mem_cons_iff]
      tauto
  unfold collectSignals
  rw [key]
  simp [Signals, EmptyCollection.emptyCollection]

/-- Every entry of a signal map has a signaler. -/
def NonemptyEntries (signals : SortedMap String (Finset String)) : Prop :=
  ∀ t s, signals.find? t = some s → s.Nonempty

theorem nonemptyEntries_addSignal (node next : String) {signals : SortedMap String (Finset String)}
    (h : NonemptyEntries signals) : NonemptyEntries (addSignal node signals next) := by
  intro t s hs
  unfold addSignal at hs
  split at hs
  · exact h t s hs
  rw [SortedMap.find?_alterD] at hs
  split at hs
  · cases hs
    exact Finset.insert_nonempty _ _
  · exact h t s hs

/-- Pass 2 creates an entry only together with a first signaler. -/
theorem nonemptyEntries_collectSignals (routed : List (String × List String)) :
    NonemptyEntries (collectSignals routed) := by
  unfold collectSignals
  refine foldlRecOn routed _ (fun _ _ h => nomatch h) (fun m hm p _ => ?_)
  exact foldlRecOn p.2 _ hm (fun m hm next _ => nonemptyEntries_addSignal p.1 next hm)

/-! ## Gating -/

namespace Scheduler

/-- **A join is filled by a set of signalers**: a barrier when it contains
every required upstream, an `any_of` join when every slot has an
alternative in it. A barrier declaration takes precedence. -/
def Filled (sch : Scheduler σ) (target : String) (received : Set String) : Prop :=
  match sch.barrierSpecs.find? target with
  | some required => ↑required ⊆ received
  | none => ∀ join, sch.joinSpecs.find? target = some join →
      ∀ slot ∈ join.slots, ∃ source ∈ slot, source ∈ received

variable (sch : Scheduler σ)

theorem satisfied_iff_filled (target : String) (accum : Finset String) :
    satisfied (sch.barrierSpecs.find? target) (sch.joinSpecs.find? target) accum = true
      ↔ sch.Filled target ↑accum := by
  unfold satisfied Filled
  cases sch.barrierSpecs.find? target with
  | some required =>
    show decide (required ⊆ accum) = true ↔ (required : Set String) ⊆ accum
    rw [decide_eq_true_iff, Finset.coe_subset]
  | none =>
    cases sch.joinSpecs.find? target with
    | none | some join => simp

variable {t : String}

/-- Gating a target leaves every other target alone. -/
theorem gate_of_ne (acc : List String × BarrierState) {entry : String × Finset String}
    (h : t ≠ entry.1) : (t ∈ (sch.gate acc entry).1 ↔ t ∈ acc.1)
      ∧ (sch.gate acc entry).2.find? t = acc.2.find? t := by
  unfold gate
  split
  · dsimp only
    split
    · exact ⟨by simp [h], SortedMap.find?_insert_of_ne _ h _⟩
    · exact ⟨Iff.rfl, SortedMap.find?_insert_of_ne _ h _⟩
  · exact ⟨by simp [h], rfl⟩

/-- Gating a target that is no join adds it to the ready set. -/
theorem gate_plain (acc : List String × BarrierState) (s : Finset String)
    (hb : sch.isBarrier t = false) : sch.gate acc (t, s) = (acc.1 ++ [t], acc.2) := by
  unfold gate
  rw [if_neg (by simp [hb])]

variable {s : Finset String}

/-- Gating a join that its signals fill clears its entry. -/
theorem gate_filled (acc : List String × BarrierState) (hb : sch.isBarrier t = true)
    (h : sch.Filled t ↑(acc.2.getD t ∅ ∪ s)) :
    sch.gate acc (t, s) = (acc.1 ++ [t], acc.2.insert t ∅) := by
  unfold gate
  rw [if_pos hb]
  exact if_pos ((sch.satisfied_iff_filled t _).mpr h)

/-- Gating a join that its signals do not fill records them. -/
theorem gate_unfilled (acc : List String × BarrierState) (hb : sch.isBarrier t = true)
    (h : ¬ sch.Filled t ↑(acc.2.getD t ∅ ∪ s)) :
    sch.gate acc (t, s) = (acc.1, acc.2.insert t (acc.2.getD t ∅ ∪ s)) := by
  unfold gate
  rw [if_pos hb]
  exact if_neg (fun hs => h ((sch.satisfied_iff_filled t _).mp hs))

/-- Gating over several targets leaves every other target alone. -/
theorem foldl_gate_of_not_mem (l : List (String × Finset String)) (acc : List String × BarrierState)
    (h : ∀ e ∈ l, t ≠ e.1) : (t ∈ (l.foldl sch.gate acc).1 ↔ t ∈ acc.1)
      ∧ (l.foldl sch.gate acc).2.find? t = acc.2.find? t := by
  induction l generalizing acc with
  | nil => exact ⟨Iff.rfl, rfl⟩
  | cons e l ih =>
    obtain ⟨hm, hf⟩ := ih (sch.gate acc e) (fun e' he' => h e' (mem_cons_of_mem e he'))
    obtain ⟨hm', hf'⟩ := sch.gate_of_ne acc (h e mem_cons_self)
    exact ⟨hm.trans hm', hf.trans hf'⟩

/-- **Each signalled target is gated exactly once**, from the barrier
state of the call: what gating does to a target is what its own entry
does. -/
theorem foldl_gate_of_mem (l : List (String × Finset String)) (acc : List String × BarrierState)
    (hl : l.Pairwise (fun a b => a.1 < b.1)) (h : (t, s) ∈ l) :
    ∃ acc' : List String × BarrierState, (t ∈ acc'.1 ↔ t ∈ acc.1) ∧ acc'.2.find? t = acc.2.find? t
        ∧ (t ∈ (l.foldl sch.gate acc).1 ↔ t ∈ (sch.gate acc' (t, s)).1)
        ∧ (l.foldl sch.gate acc).2.find? t = (sch.gate acc' (t, s)).2.find? t := by
  induction l generalizing acc with
  | nil => cases h
  | cons e l ih =>
    obtain ⟨he, hl⟩ := pairwise_cons.mp hl
    obtain rfl | h := mem_cons.mp h
    · -- the entry itself comes first: the later ones have larger keys
      obtain ⟨hm, hf⟩ := sch.foldl_gate_of_not_mem l (sch.gate acc (t, s))
        (fun e' he' => (he e' he').ne)
      exact ⟨acc, Iff.rfl, rfl, hm, hf⟩
    · obtain ⟨acc', hm, hf, hg⟩ := ih (sch.gate acc e) hl h
      obtain ⟨hm', hf'⟩ := sch.gate_of_ne acc (he _ h).ne'
      exact ⟨acc', hm.trans hm', hf.trans hf', hg⟩

/-- The nodes that signal a target. A route to `endNode` ends the run and
is no signal to a node. -/
def signalers (routed : List (String × List String)) (target : String) : Set String :=
  {node | target ≠ endNode ∧ ∃ p ∈ routed, p.1 = node ∧ target ∈ p.2}

/-- **What a plan without a `Command` target does**, target by target:
nodes that are no joins run when they are signalled; a join that is not
signalled is left alone; a signalled join runs, with its entry cleared,
when all signals received so far fill it, and otherwise records them
all. -/
structure Gated (sch : Scheduler σ) (signalers : String → Set String)
    (before after : BarrierState) (ready : List String) : Prop where
  plain : ∀ t, sch.isBarrier t = false →
    (t ∈ ready ↔ (signalers t).Nonempty) ∧ after.find? t = before.find? t
  silent : ∀ t, sch.isBarrier t = true → signalers t = ∅ →
    t ∉ ready ∧ after.find? t = before.find? t
  fires : ∀ t, sch.isBarrier t = true → (signalers t).Nonempty → t ∈ ready →
    sch.Filled t (↑(before.getD t ∅) ∪ signalers t) ∧ after.find? t = some ∅
  deferred : ∀ t, sch.isBarrier t = true → (signalers t).Nonempty → t ∉ ready →
    ¬ sch.Filled t (↑(before.getD t ∅) ∪ signalers t)
      ∧ ∃ s, after.find? t = some s ∧ (s : Set String) = ↑(before.getD t ∅) ∪ signalers t

/-- The signal map of pass 2 holds the signalers of a target, and has no
entry for a target without signalers. -/
theorem find?_collectSignals (routed : List (String × List String)) (t : String) :
    (signalers routed t = ∅ ∧ (collectSignals routed).find? t = none)
      ∨ ((signalers routed t).Nonempty
        ∧ ∃ s, (collectSignals routed).find? t = some s
          ∧ (s : Set String) = signalers routed t) := by
  cases hf : (collectSignals routed).find? t with
  | none =>
    refine .inl ⟨Set.eq_empty_iff_forall_notMem.mpr fun n hn => ?_, rfl⟩
    obtain ⟨s, hs, -⟩ := (signals_collectSignals routed n t).mpr hn
    rw [hf] at hs
    cases hs
  | some s =>
    have hs : (s : Set String) = signalers routed t := by
      ext n
      refine Iff.trans ?_ (signals_collectSignals routed n t)
      unfold Signals
      rw [hf]
      simp
    refine .inr ⟨?_, s, rfl, hs⟩
    rw [← hs]
    exact nonemptyEntries_collectSignals routed t s hf

/-- A target without an entry in the signal map is left alone. -/
theorem foldl_gate_of_find?_eq_none (signals : SortedMap String (Finset String))
    (before : BarrierState) (h : signals.find? t = none) :
    t ∉ (signals.entries.foldl sch.gate ([], before)).1
      ∧ (signals.entries.foldl sch.gate ([], before)).2.find? t = before.find? t := by
  have hne : ∀ e ∈ signals.entries, t ≠ e.1 := by
    rintro e he rfl
    rw [(SortedMap.mem_entries_iff signals e.1 e.2).mp he] at h
    cases h
  obtain ⟨hm, hf⟩ := sch.foldl_gate_of_not_mem signals.entries ([], before) hne
  exact ⟨fun h => not_mem_nil (hm.mp h), hf⟩

/-- A target with an entry in the signal map is gated from the barrier
state of the call. -/
theorem foldl_gate_of_find?_eq_some (signals : SortedMap String (Finset String))
    (before : BarrierState) (h : signals.find? t = some s) :
    ∃ acc : List String × BarrierState, t ∉ acc.1 ∧ acc.2.find? t = before.find? t
      ∧ (t ∈ (signals.entries.foldl sch.gate ([], before)).1
          ↔ t ∈ (sch.gate acc (t, s)).1)
      ∧ (signals.entries.foldl sch.gate ([], before)).2.find? t
          = (sch.gate acc (t, s)).2.find? t := by
  obtain ⟨acc, hm, hf, hg⟩ := sch.foldl_gate_of_mem signals.entries ([], before)
    signals.sorted ((SortedMap.mem_entries_iff signals t s).mpr h)
  exact ⟨acc, fun h => not_mem_nil (hm.mp h), hf, hg⟩

/-- Pass 3 gates the signals of pass 2. -/
theorem gated_foldl_gate (routed : List (String × List String)) (before : BarrierState) :
    sch.Gated (signalers routed) before
      ((collectSignals routed).entries.foldl sch.gate ([], before)).2
      ((collectSignals routed).entries.foldl sch.gate ([], before)).1 := by
  constructor
  case plain =>
    intro t hb
    obtain ⟨he, hn⟩ | ⟨hne, s, hsm, -⟩ := find?_collectSignals routed t
    · obtain ⟨hm, hf⟩ := sch.foldl_gate_of_find?_eq_none _ before hn
      refine ⟨iff_of_false hm ?_, hf⟩
      rw [he]
      exact Set.not_nonempty_empty
    · obtain ⟨acc, -, ha, hm, hf⟩ := sch.foldl_gate_of_find?_eq_some _ before hsm
      rw [hm, hf, sch.gate_plain acc s hb]
      exact ⟨iff_of_true (by simp) hne, ha⟩
  case silent =>
    intro t _ he
    obtain ⟨-, hn⟩ | ⟨hne, -⟩ := find?_collectSignals routed t
    · exact sch.foldl_gate_of_find?_eq_none _ before hn
    · rw [he] at hne
      exact absurd hne Set.not_nonempty_empty
  case fires =>
    intro t hb hne hr
    obtain ⟨he, -⟩ | ⟨-, s, hsm, hs⟩ := find?_collectSignals routed t
    · rw [he] at hne
      exact absurd hne Set.not_nonempty_empty
    obtain ⟨acc, ha, hbef, hm, hf⟩ := sch.foldl_gate_of_find?_eq_some _ before hsm
    have hg : acc.2.getD t ∅ = before.getD t ∅ := congrArg (Option.getD · ∅) hbef
    by_cases hfl : sch.Filled t ↑(acc.2.getD t ∅ ∪ s)
    · rw [hf, sch.gate_filled acc hb hfl]
      rw [hg, Finset.coe_union, hs] at hfl
      exact ⟨hfl, SortedMap.find?_insert_self _ _ _⟩
    · rw [hm, sch.gate_unfilled acc hb hfl] at hr
      exact absurd hr ha
  case deferred =>
    intro t hb hne hr
    obtain ⟨he, -⟩ | ⟨-, s, hsm, hs⟩ := find?_collectSignals routed t
    · rw [he] at hne
      exact absurd hne Set.not_nonempty_empty
    obtain ⟨acc, -, hbef, hm, hf⟩ := sch.foldl_gate_of_find?_eq_some _ before hsm
    have hg : acc.2.getD t ∅ = before.getD t ∅ := congrArg (Option.getD · ∅) hbef
    by_cases hfl : sch.Filled t ↑(acc.2.getD t ∅ ∪ s)
    · rw [hm, sch.gate_filled acc hb hfl] at hr
      exact absurd (by simp) hr
    rw [hf, sch.gate_unfilled acc hb hfl]
    rw [hg, Finset.coe_union, hs] at hfl
    refine ⟨hfl, _, SortedMap.find?_insert_self _ _ _, ?_⟩
    rw [hg, Finset.coe_union, hs]

/-! ## The cases of a call -/

theorem mem_sortUnique (l : List String) (t : String) : t ∈ sortUnique l ↔ t ∈ l := by
  unfold sortUnique
  rw [(pairwise_insertionSort (· ≤ ·) l).destutter_eq_dedup, mem_dedup,
    mem_insertionSort]

/-- Without declared joins every signalled node runs, which is what gating
does. -/
theorem gated_sortUnique (routed : List (String × List String)) (before : BarrierState)
    (hb : (sch.barrierSpecs.isEmpty && sch.joinSpecs.isEmpty) = true) :
    sch.Gated (signalers routed) before before
      (sortUnique ((routed.flatMap Prod.snd).filter (· ≠ endNode))) := by
  have hn : ∀ t, sch.isBarrier t = false := by
    intro t
    obtain ⟨h₁, h₂⟩ := Bool.and_eq_true_iff.mp hb
    unfold isBarrier SortedMap.contains SortedMap.find?
    rw [isEmpty_iff.mp h₁, isEmpty_iff.mp h₂]
    rfl
  have habs : ∀ {t : String} {P : Prop}, sch.isBarrier t = true → P := by
    intro t P h
    rw [hn t] at h
    cases h
  refine ⟨fun t _ => ⟨?_, rfl⟩, fun t h => habs h, fun t h => habs h, fun t h => habs h⟩
  rw [mem_sortUnique, mem_filter, mem_flatMap]
  unfold signalers Set.Nonempty
  simp only [decide_eq_true_eq, Set.mem_ofPred_eq]
  constructor
  · rintro ⟨⟨p, hp, ht⟩, hne⟩
    exact ⟨p.1, hne, p, hp, rfl, ht⟩
  · rintro ⟨-, hne, p, hp, -, ht⟩
    exact ⟨⟨p, hp, ht⟩, hne⟩

/-- **The cases of a planning call that returns**: a `Command` target wins
and the barrier state is left alone, or all routed nodes resolve and their
signals are gated. -/
theorem planNextStep_cases {sch : Scheduler σ} {routings : List StepRouting} {state : σ}
    {before after : BarrierState} {failed : List Bool} {plan : NextStepPlan}
    (h : sch.planNextStep routings state before failed = .ok (plan, after)) :
    (∃ target, winningGoto routings = some target ∧ plan = gotoPlan target ∧ after = before)
      ∨ (∃ flags routed, winningGoto routings = none
          ∧ failedFlags routings failed = .ok flags
          ∧ sch.routeAll state (routings.zip flags) = .ok routed
          ∧ plan = sch.routedPlan routed plan.ready
          ∧ sch.Gated (signalers routed) before after plan.ready) := by
  obtain ⟨⟨plan', after'⟩, hp, heq⟩ := bind_eq_ok.mp h
  cases heq
  obtain ⟨flags, hf, h⟩ := bind_eq_ok.mp hp
  cases hg : winningGoto routings with
  | some target =>
    rw [hg] at h
    cases h
    exact .inl ⟨target, rfl, rfl, rfl⟩
  | none =>
    rw [hg] at h
    obtain ⟨routed, hrt, h⟩ := bind_eq_ok.mp h
    refine .inr ⟨flags, routed, rfl, hf, hrt, ?_⟩
    dsimp only at h
    split_ifs at h with he
    · cases h
      exact ⟨rfl, sch.gated_sortUnique routed before he⟩
    · cases h
      exact ⟨rfl, sch.gated_foldl_gate routed before⟩

end Scheduler

end NeoGraph
