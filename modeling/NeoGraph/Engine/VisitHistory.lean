import NeoGraph.Engine.Visits

/-!
# Histories of visits

What the run that has reached some point really did is its *history*: the
activations and the completions of the super-steps it continues, as they
followed each other. A super-step that was left by an interrupt and entered
again is in it once.

The counters of a run are a function of its history (`Counts`), and the limits
hold along a history when no count on the way is above its limit
(`Bounded.withinLimits`). An activation and a completion keep both.
-/

namespace NeoGraph

open List SortedMap

/-! ## Histories -/

/-- What a run did, as far as visits are concerned. -/
inductive VisitEvent where
  /-- A node was activated; past its limit it does not execute. -/
  | activated (node : String) (executes : Bool)
  /-- An invocation of a node completed, and not with a handled failure. -/
  | completed (node : String)
deriving DecidableEq

namespace FailureRouting

variable (routing : FailureRouting)

/-- The executed activations of a node, after one more event. -/
def countEvent (node : String) (count : ℕ) : VisitEvent → ℕ
  | .activated node' executes => if node' = node ∧ executes = true then count + 1 else count
  | .completed target => if routing.target node = some target then 0 else count

/-- The executed activations of a node since its failure target completed. -/
def visitsSince (node : String) (history : List VisitEvent) : ℕ :=
  history.foldl (routing.countEvent node) 0

/-- **The limits hold along a history**: a node with a limit does not execute
more often between two completions of its failure target, nor from the start
to the first one. -/
def WithinLimits (history : List VisitEvent) : Prop :=
  ∀ node limit, routing.limit node = some limit →
    ∀ before window behind, history = before ++ window ++ behind →
      (∀ target, routing.target node = some target → .completed target ∉ window) →
      (window.count (.activated node true) : ℤ) ≤ limit

/-- At no point of a history is a count above its limit. -/
def Bounded (history : List VisitEvent) : Prop :=
  ∀ node limit, routing.limit node = some limit →
    ∀ before, before <+: history → (routing.visitsSince node before : ℤ) ≤ limit

/-- The entry of a count: only nodes with a limit have one, and not for zero. -/
def entryOf (limited : Bool) (count : ℕ) : Option ℤ :=
  if limited = true ∧ 0 < count then some (count : ℤ) else none

/-- The counters of a run with a history. -/
def Counts (visits : SortedMap String ℤ) (history : List VisitEvent) : Prop :=
  ∀ node, visits.find? node
    = entryOf (routing.limit node).isSome (routing.visitsSince node history)

/-- The limits of a graph are those the compiler accepts. -/
def LimitsAccepted : Prop :=
  ∀ node limit, routing.limit node = some limit → 1 ≤ limit ∧ limit ≤ 100

end FailureRouting

/-! ## Counting along a history -/

namespace FailureRouting

variable {routing : FailureRouting}

theorem visitsSince_concat (node : String) (history : List VisitEvent) (event : VisitEvent) :
    routing.visitsSince node (history ++ [event])
      = routing.countEvent node (routing.visitsSince node history) event := by
  unfold visitsSince
  rw [foldl_append]
  rfl

variable {node : String}

/-- In a window without resets every event counts. -/
theorem foldl_countEvent {window : List VisitEvent}
    (h : ∀ target, routing.target node = some target → .completed target ∉ window) (n : ℕ) :
    window.foldl (routing.countEvent node) n = n + window.count (.activated node true) := by
  induction window generalizing n with
  | nil => rfl
  | cons event window ih =>
    have hr := ih fun target ht hm => h target ht (mem_cons_of_mem _ hm)
    rw [foldl_cons, hr, count_cons]
    cases event with
    | activated node' executes =>
      show (if node' = node ∧ executes = true then n + 1 else n) + _ = _
      by_cases hnd : node' = node ∧ executes = true
      · obtain ⟨rfl, rfl⟩ := hnd
        rw [if_pos ⟨rfl, rfl⟩, if_pos (by simp)]
        omega
      · rw [if_neg hnd, if_neg (by simpa using hnd)]
        rfl
    | completed target =>
      have hne : routing.target node ≠ some target := fun ht =>
        h target ht mem_cons_self
      show (if routing.target node = some target then 0 else n) + _ = _
      rw [if_neg hne, if_neg (by simp)]
      rfl

variable {history : List VisitEvent}

/-- **A bounded history is within the limits.** A window without completions of
the failure target adds its executions to the count before it. -/
theorem Bounded.withinLimits (h : routing.Bounded history) : routing.WithinLimits history := by
  rintro node limit hl before window behind rfl hw
  have hc : routing.visitsSince node (before ++ window)
      = routing.visitsSince node before + window.count (.activated node true) := by
    unfold visitsSince
    rw [foldl_append]
    exact foldl_countEvent hw _
  have hle := h node limit hl (before ++ window) (prefix_append _ behind)
  rw [hc] at hle
  omega

theorem bounded_nil (h : routing.LimitsAccepted) : routing.Bounded [] := by
  intro node limit hl before hb
  obtain rfl := prefix_nil.mp hb
  show ((0 : ℕ) : ℤ) ≤ limit
  have := (h node limit hl).1
  omega

theorem Bounded.concat (h : routing.Bounded history) {event : VisitEvent}
    (he : ∀ node limit, routing.limit node = some limit →
      (routing.visitsSince node (history ++ [event]) : ℤ) ≤ limit) :
    routing.Bounded (history ++ [event]) := by
  intro node limit hl before hb
  obtain rfl | hb := prefix_concat_iff.mp hb
  · exact he node limit hl
  · exact h node limit hl before hb

theorem Bounded.count_le (h : routing.Bounded history) {limit : ℤ}
    (hl : routing.limit node = some limit) : (routing.visitsSince node history : ℤ) ≤ limit :=
  h node limit hl history prefix_rfl

/-! ## What the counters are -/

variable (count : ℕ)

@[simp] theorem entryOf_false : entryOf false count = none :=
  if_neg fun h => Bool.false_ne_true h.1

@[simp] theorem entryOf_zero (limited : Bool) : entryOf limited 0 = none :=
  if_neg fun h => lt_irrefl 0 h.2

@[simp] theorem entryOf_true_succ : entryOf true (count + 1) = some ((count : ℤ) + 1) :=
  if_pos ⟨rfl, count.succ_pos⟩

theorem getD_entryOf_true : (entryOf true count).getD 0 = count := by
  cases count with
  | zero => rfl
  | succ count =>
    rw [entryOf_true_succ]
    rfl

theorem counts_nil : routing.Counts ∅ [] := fun _ => (entryOf_zero _).symm

variable {visits : SortedMap String ℤ}

theorem Counts.getD (h : routing.Counts visits history) (hl : (routing.limit node).isSome) :
    visits.getD node 0 = routing.visitsSince node history := by
  unfold SortedMap.getD
  rw [h node, hl]
  exact getD_entryOf_true _

theorem Counts.inRange (h : routing.Counts visits history) (hbd : routing.Bounded history)
    (ha : routing.LimitsAccepted) : FailureRunState.InRange visits := by
  intro node count hc
  rw [h node] at hc
  unfold entryOf at hc
  split at hc
  · rename_i hs
    obtain ⟨limit, hl⟩ := Option.isSome_iff_exists.mp hs.1
    have hle := hbd.count_le hl
    have haccept := ha node limit hl
    obtain rfl := Option.some.inj hc
    unfold FailureRunState.countLimit
    omega
  · cases hc

end FailureRouting

/-! ## One event -/

namespace FailureRouting

variable {routing : FailureRouting}

theorem visitsSince_activated (node : String) (executes : Bool) (history : List VisitEvent)
    (node' : String) : routing.visitsSince node' (history ++ [.activated node executes])
      = if node = node' ∧ executes = true then routing.visitsSince node' history + 1
        else routing.visitsSince node' history :=
  FailureRouting.visitsSince_concat node' history _

variable {history : List VisitEvent}

theorem Counts.concat {visits visits' : SortedMap String ℤ} {event : VisitEvent}
    (h : routing.Counts visits history)
    (he : ∀ node, visits'.find? node = visits.find? node
        ∧ (routing.limit node = none
          ∨ routing.countEvent node (routing.visitsSince node history) event
            = routing.visitsSince node history)
      ∨ (routing.limit node).isSome ∧ visits'.find? node
        = entryOf true (routing.countEvent node (routing.visitsSince node history) event)) :
    routing.Counts visits' (history ++ [event]) := by
  intro node
  rw [visitsSince_concat]
  obtain ⟨hsm, hl | hc⟩ | ⟨hl, hen⟩ := he node
  · rw [hsm, h node, hl]
    exact (entryOf_false _).trans (entryOf_false _).symm
  · rw [hsm, h node, hc]
  · rw [hen, hl]

variable {s : FailureRunState}

/-- An activation is counted if it executes, and then its node stays within
its limit. -/
theorem Counts.activate (h : routing.Counts s.visits history) (node : String) :
    let taken := s.activate routing node
    routing.Counts taken.2.visits (history ++ [.activated node taken.1])
      ∧ ∀ limit, routing.limit node = some limit → taken.1 = true →
          (routing.visitsSince node history : ℤ) < limit := by
  obtain hl | ⟨limit, hl⟩ := (routing.limit node).eq_none_or_eq_some
  · have htk : s.activate routing node = (true, s) := by
      unfold FailureRunState.activate
      rw [hl]
    rw [htk]
    refine ⟨h.concat fun node' => .inl ⟨rfl, ?_⟩, fun limit' h' => ?_⟩
    · by_cases hnd : node = node'
      · exact .inl (hnd ▸ hl)
      · exact .inr (if_neg fun heq => hnd heq.1)
    · rw [hl] at h'
      cases h'
  have hs : (routing.limit node).isSome := by rw [hl]; rfl
  have hc := h.getD hs
  by_cases hle : limit ≤ s.visits.getD node 0
  · have htk : s.activate routing node = (false,
        if s.visits.getD node 0 = 0 then { s with visits := s.visits.erase node } else s) := by
      unfold FailureRunState.activate
      rw [hl]
      exact if_pos hle
    have hvs : ∀ node', (if s.visits.getD node 0 = 0 then
        { s with visits := s.visits.erase node } else s).visits.find? node'
          = s.visits.find? node' := by
      intro node'
      split_ifs with hz
      · rw [hc] at hz
        have hz : routing.visitsSince node history = 0 := by omega
        show (s.visits.erase node).find? node' = _
        rw [find?_erase]
        split_ifs with hnd
        · rw [hnd, h node, hz, entryOf_zero]
        · rfl
      · rfl
    rw [htk]
    exact ⟨h.concat fun node' => .inl ⟨hvs node', .inr (if_neg fun heq =>
      Bool.false_ne_true heq.2)⟩, fun _ _ hf => absurd hf Bool.false_ne_true⟩
  · have htk : s.activate routing node
        = (true, { s with visits := s.visits.insert node (s.visits.getD node 0 + 1) }) := by
      unfold FailureRunState.activate
      rw [hl]
      exact if_neg hle
    rw [htk]
    refine ⟨h.concat fun node' => ?_, fun limit' hl' _ => ?_⟩
    · by_cases hnd : node = node'
      · subst hnd
        refine .inr ⟨hs, ?_⟩
        rw [find?_insert_self, hc]
        exact (entryOf_true_succ _).symm.trans (congrArg (entryOf true) (if_pos ⟨rfl, rfl⟩).symm)
      · exact .inl ⟨find?_insert_of_ne _ (Ne.symm hnd) _, .inr (if_neg fun heq => hnd heq.1)⟩
    · rw [hl] at hl'
      obtain rfl := Option.some.inj hl'
      rw [← hc]
      exact not_le.mp hle

/-- A node that is activated has not used up its limit. -/
theorem Bounded.activated (h : routing.Bounded history) {node : String} {executes : Bool}
    (hexecutes : ∀ limit, routing.limit node = some limit → executes = true →
      (routing.visitsSince node history : ℤ) < limit) :
    routing.Bounded (history ++ [.activated node executes]) := by
  refine h.concat fun node' limit hl => ?_
  rw [visitsSince_activated]
  split_ifs with heq
  · obtain ⟨rfl, rfl⟩ := heq
    have := hexecutes limit hl rfl
    omega
  · exact h.count_le hl

/-- A completion forgets the counts of the nodes it is the failure target of. -/
theorem Counts.targetCompleted (h : routing.Counts s.visits history)
    (hlk : routing.Linked) (target : String) :
    routing.Counts (s.targetCompleted routing target).visits (history ++ [.completed target]) := by
  have he : ∀ (nodes : List String) (visits : SortedMap String ℤ) (node : String),
      (nodes.foldl erase visits).find? node
        = if node ∈ nodes then none else visits.find? node := by
    intro nodes
    induction nodes with
    | nil => exact fun _ _ => rfl
    | cons node' nodes ih =>
      intro visits node
      rw [foldl_cons, ih, find?_erase]
      by_cases hm : node ∈ nodes
      · rw [if_pos hm, if_pos (mem_cons_of_mem node' hm)]
      · rw [if_neg hm]
        refine if_congr ?_ rfl rfl
        rw [mem_cons, or_iff_left hm]
  have hvs : ∀ node, (s.targetCompleted routing target).visits.find? node
      = if node ∈ (routing.visitResets.find? target).getD [] then none
        else s.visits.find? node := by
    intro node
    unfold FailureRunState.targetCompleted
    cases routing.visitResets.find? target with
    | none => exact (if_neg not_mem_nil).symm
    | some nodes => exact he nodes s.visits node
  refine h.concat fun node => ?_
  by_cases hm : node ∈ (routing.visitResets.find? target).getD []
  · obtain ⟨hl, ht⟩ := (hlk.mem_visitResets target node).mp hm
    refine .inr ⟨hl, ?_⟩
    rw [hvs, if_pos hm]
    exact (entryOf_zero true).symm.trans (congrArg (entryOf true) (if_pos ht).symm)
  · refine .inl ⟨(hvs node).trans (if_neg hm), ?_⟩
    rw [hlk.mem_visitResets, not_and_or, Bool.not_eq_true, Option.isSome_eq_false_iff,
      Option.isNone_iff_eq_none] at hm
    exact hm.imp_right fun ht => if_neg ht

theorem Bounded.completed (h : routing.Bounded history) (target : String)
    (ha : routing.LimitsAccepted) : routing.Bounded (history ++ [.completed target]) := by
  refine h.concat fun node limit hl => ?_
  rw [visitsSince_concat]
  show ((if routing.target node = some target then 0 else _ : ℕ) : ℤ) ≤ limit
  split
  · have := (ha node limit hl).1
    omega
  · exact h.count_le hl

end FailureRouting

end NeoGraph
