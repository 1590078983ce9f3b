import Mathlib
import NeoGraph.Lib.SortedMap

/-!
# Searches of a finite graph

A `while` loop is a function that makes one round of a state, or finds nothing
to do. A measure that every round makes smaller is the fuel of the loop, and
what every round keeps, the loop keeps (`whileLoop_spec`).

Three loops over a graph that is given by the successors of its nodes: a search
from a node, which finds what it reaches (`mem_search_iff`); a saturation, which
finds what reaches an exit (`mem_saturate_iff`); and a peeling, which removes
the nodes that have nothing before them, one by one, and leaves the largest
part in which every node has one (`mem_peel_iff`). What both peelings of a graph
leave lies between cycles (`exists_cycle_before`).
-/

namespace NeoGraph

section Loop

variable {σ : Type*}

/-- At most this many rounds. -/
def rounds (step : σ → Option σ) : ℕ → σ → σ
  | 0, s => s
  | n + 1, s =>
    match step s with
    | none => s
    | some s' => rounds step n s'

/-- A loop whose rounds are bounded by a measure of its first state. -/
def whileLoop (measure : σ → ℕ) (step : σ → Option σ) (s : σ) : σ := rounds step (measure s) s

variable {step : σ → Option σ} {measure : σ → ℕ} {Inv : σ → Prop}

theorem rounds_spec (hst : ∀ s s', Inv s → step s = some s' → Inv s' ∧ measure s' < measure s)
    {n : ℕ} {s : σ} (hs : Inv s) (hn : measure s ≤ n) :
    Inv (rounds step n s) ∧ step (rounds step n s) = none := by
  induction n generalizing s with
  | zero =>
    refine ⟨hs, ?_⟩
    show step s = none
    cases hnx : step s with
    | none => rfl
    | some s' => exact absurd (hst s s' hs hnx).2 (by omega)
  | succ n ih =>
    unfold rounds
    cases hnx : step s with
    | none => exact ⟨hs, hnx⟩
    | some s' =>
      obtain ⟨hs', hlt⟩ := hst s s' hs hnx
      exact ih hs' (by omega)

/-- **The rule of the loop.** -/
theorem whileLoop_spec (measure : σ → ℕ)
    (hst : ∀ s s', Inv s → step s = some s' → Inv s' ∧ measure s' < measure s) {s : σ}
    (hs : Inv s) : Inv (whileLoop measure step s) ∧ step (whileLoop measure step s) = none :=
  rounds_spec hst hs (Nat.le_refl _)

end Loop

open Relation Finset List Function TransGen Nat

variable {α : Type*} [DecidableEq α]

/-! ## Search -/

/-- The state of a search: what is still to be visited, and what has been seen. -/
structure Search (α : Type*) where
  queue : List α
  seen : Finset α

namespace Search

/-- A successor is seen; it is visited if it is new. -/
def see (s : Search α) (next : α) : Search α :=
  if next ∈ s.seen then s else { queue := s.queue ++ [next], seen := insert next s.seen }

/-- The first of the queue is visited. -/
def step (succ : α → List α) (s : Search α) : Option (Search α) :=
  match s.queue with
  | [] => none
  | current :: queue => some ((succ current).foldl see { s with queue := queue })

/-- What is in a space and not yet seen, and what is in the queue. -/
def measure (space : Finset α) (s : Search α) : ℕ := (space \ s.seen).card + s.queue.length

end Search

/-- What is reached from a node, inside a space that its edges do not leave. -/
def search (space : Finset α) (succ : α → List α) (start : α) : Finset α :=
  (whileLoop (Search.measure space) (Search.step succ)
    { queue := [start], seen := {start} }).seen

namespace Search

variable {space : Finset α} {succ : α → List α} (s : Search α)

theorem mem_seen_see (next x : α) : x ∈ (s.see next).seen ↔ x = next ∨ x ∈ s.seen := by
  unfold see
  split_ifs with hs
  · constructor
    · exact .inr
    · rintro (rfl | hx)
      · exact hs
      · exact hx
  · exact mem_insert

/-- What is seen stays seen, and is visited or still in the queue. -/
theorem mem_queue_see (next x : α) :
    x ∈ (s.see next).queue ↔ x ∈ s.queue ∨ (x = next ∧ next ∉ s.seen) := by
  unfold see
  split_ifs with hs
  · exact ⟨.inl, fun h => h.resolve_right fun hx => hx.2 hs⟩
  · rw [List.mem_append, List.mem_singleton, and_iff_left hs]

theorem measure_see {next : α} (hnx : next ∈ space) :
    (s.see next).measure space = s.measure space := by
  unfold see measure
  split_ifs with hn
  · rfl
  have hc := card_erase_add_one (mem_sdiff.mpr ⟨hnx, hn⟩)
  rw [← sdiff_insert] at hc
  dsimp only
  rw [length_append, length_singleton]
  omega

theorem foldl_see (l : List α) (hl : ∀ x ∈ l, x ∈ space) :
    (∀ x, x ∈ (l.foldl see s).seen ↔ x ∈ l ∨ x ∈ s.seen)
      ∧ (∀ x, x ∈ (l.foldl see s).queue ↔ x ∈ s.queue ∨ (x ∈ l ∧ x ∉ s.seen))
      ∧ (l.foldl see s).measure space = s.measure space := by
  induction l generalizing s with
  | nil => simp
  | cons next l ih =>
    obtain ⟨hs, hq, hm⟩ := ih (s.see next) fun x hx => hl x (mem_cons_of_mem _ hx)
    refine ⟨fun x => ?_, fun x => ?_, ?_⟩
    · rw [List.foldl_cons, hs, mem_seen_see, List.mem_cons]
      tauto
    · rw [List.foldl_cons, hq, mem_queue_see, mem_seen_see, List.mem_cons]
      by_cases hx : x = next
      · subst hx
        tauto
      · tauto
    · rw [foldl_cons, hm, s.measure_see (hl next mem_cons_self)]

/-- What a search keeps: everything seen is reached and in the space, and the
successors of everything visited are seen. -/
structure Sound (space : Finset α) (succ : α → List α) (start : α) (s : Search α) : Prop where
  begun : start ∈ s.seen
  queue : ∀ x ∈ s.queue, x ∈ s.seen
  reached : ∀ x ∈ s.seen, ReflTransGen (fun a b => b ∈ succ a) start x
  inside : ∀ x ∈ s.seen, x ∈ space
  visited : ∀ x ∈ s.seen, x ∈ s.queue ∨ ∀ y ∈ succ x, y ∈ s.seen

theorem Sound.step {start : α} {s s' : Search α} (h : Sound space succ start s)
    (hcl : ∀ x ∈ space, ∀ y ∈ succ x, y ∈ space) (hs : s.step succ = some s') :
    Sound space succ start s' ∧ s'.measure space < s.measure space := by
  unfold Search.step at hs
  split at hs
  · cases hs
  rename_i current queue hq
  cases hs
  have hc : current ∈ s.seen := h.queue current (hq ▸ mem_cons_self)
  obtain ⟨hsn, hq', hm⟩ := foldl_see { s with queue := queue } (succ current)
    (hcl current (h.inside current hc))
  refine ⟨⟨?_, fun x hx => ?_, fun x hx => ?_, fun x hx => ?_, fun x hx => ?_⟩, ?_⟩
  · exact (hsn start).mpr (.inr h.begun)
  · obtain hx | ⟨hx, -⟩ := (hq' x).mp hx
    · exact (hsn x).mpr (.inr (h.queue x (hq ▸ mem_cons_of_mem _ hx)))
    · exact (hsn x).mpr (.inl hx)
  · obtain hx | hx := (hsn x).mp hx
    · exact (h.reached current hc).tail hx
    · exact h.reached x hx
  · obtain hx | hx := (hsn x).mp hx
    · exact hcl current (h.inside current hc) x hx
    · exact h.inside x hx
  · by_cases hold : x ∈ s.seen
    · obtain hx' | ha := h.visited x hold
      · rw [hq] at hx'
        obtain rfl | hx' := mem_cons.mp hx'
        · exact .inr fun y hy => (hsn y).mpr (.inl hy)
        · exact .inl ((hq' x).mpr (.inl hx'))
      · exact .inr fun y hy => (hsn y).mpr (.inr (ha y hy))
    · obtain hx' | hx' := (hsn x).mp hx
      · exact .inl ((hq' x).mpr (.inr ⟨hx', hold⟩))
      · exact absurd hx' hold
  · rw [hm]
    unfold measure
    rw [hq, length_cons]
    exact lt_succ_self _

end Search

variable {succ : α → List α}

/-- **A search finds what is reached.** -/
theorem mem_search_iff {space : Finset α} {start : α}
    (hstart : start ∈ space) (hcl : ∀ x ∈ space, ∀ y ∈ succ x, y ∈ space) (x : α) :
    x ∈ search space succ start ↔ ReflTransGen (fun a b => b ∈ succ a) start x := by
  have hf : Search.Sound space succ start { queue := [start], seen := {start} } := by
    refine ⟨Finset.mem_singleton_self _, fun x hx => ?_, fun x hx => ?_, fun x hx => ?_,
      fun x hx => ?_⟩
    · exact Finset.mem_singleton.mpr (List.mem_singleton.mp hx)
    · rw [Finset.mem_singleton.mp hx]
    · rw [Finset.mem_singleton.mp hx]
      exact hstart
    · rw [Finset.mem_singleton.mp hx]
      exact .inl mem_cons_self
  obtain ⟨hsd, hdn⟩ := whileLoop_spec (Search.measure space)
    (fun s s' hs hst => Search.Sound.step hs hcl hst) hf
  refine ⟨fun hx => hsd.reached x hx, fun hx => ?_⟩
  have hq : (whileLoop (Search.measure space) (Search.step succ)
      { queue := [start], seen := {start} }).queue = [] := by
    unfold Search.step at hdn
    split at hdn
    · assumption
    · cases hdn
  induction hx with
  | refl => exact hsd.begun
  | tail _ he ih =>
    obtain hin | ha := hsd.visited _ ih
    · rw [hq] at hin
      cases hin
    · exact ha _ he

/-! ## Saturation -/

/-- The state of a saturation: what is known, and whether the last pass has
found anything. -/
structure Saturation (α : Type*) where
  closed : Finset α
  grew : Bool

namespace Saturation

variable (exits : α → Bool) (succ : α → List α)

/-- A node leaves the graph, or has a successor that is known to. -/
def Leaves (closed : Finset α) (x : α) : Prop := exits x = true ∨ ∃ y ∈ succ x, y ∈ closed

/-- A place is left directly, or for a place that is. -/
def leaves (closed : Finset α) (x : α) : Bool := exits x || (succ x).any (· ∈ closed)

/-- One place of a round. -/
def visit (s : Saturation α) (x : α) : Saturation α :=
  if x ∈ s.closed then s
  else if leaves exits succ s.closed x then { closed := insert x s.closed, grew := true }
  else s

/-- Passes over all nodes are made as long as one finds something. -/
def step (nodes : List α) (s : Saturation α) : Option (Saturation α) :=
  if s.grew then some (nodes.foldl (visit exits succ) { s with grew := false }) else none

def measure (nodes : List α) (s : Saturation α) : ℕ :=
  (nodes.toFinset \ s.closed).card + if s.grew then 1 else 0

end Saturation

/-- The nodes that reach an exit. -/
def saturate (nodes : List α) (exits : α → Bool) (succ : α → List α) : Finset α :=
  (whileLoop (Saturation.measure nodes) (Saturation.step exits succ nodes)
    { closed := ∅, grew := true }).closed

namespace Saturation

variable {exits : α → Bool} {succ : α → List α} {nodes : List α}

theorem leaves_iff (closed : Finset α) (x : α) :
    leaves exits succ closed x = true ↔ Leaves exits succ closed x := by
  unfold leaves Leaves
  rw [Bool.or_eq_true, any_eq_true]
  simp only [decide_eq_true_eq]

/-- An exit is reached through the nodes. -/
def ReachesExit (exits : α → Bool) (succ : α → List α) (nodes : List α) (x : α) : Prop :=
  ∃ y, ReflTransGen (fun a b => a ∈ nodes ∧ b ∈ nodes ∧ b ∈ succ a) x y ∧ exits y = true

/-- What a saturation keeps. -/
structure Sound (exits : α → Bool) (succ : α → List α) (nodes : List α) (s : Saturation α) :
    Prop where
  known : ∀ x ∈ s.closed, x ∈ nodes ∧ ReachesExit exits succ nodes x
  saturated : s.grew = false → ∀ x ∈ nodes, Leaves exits succ s.closed x → x ∈ s.closed

/-- A pass over some of the nodes. -/
theorem foldl_visit (s : Saturation α) (l : List α) (hl : ∀ x ∈ l, x ∈ nodes)
    (hkn : ∀ x ∈ s.closed, x ∈ nodes ∧ ReachesExit exits succ nodes x) :
    (∀ x ∈ (l.foldl (visit exits succ) s).closed, x ∈ nodes ∧ ReachesExit exits succ nodes x)
      ∧ ((l.foldl (visit exits succ) s).grew = false →
        l.foldl (visit exits succ) s = s ∧ ∀ x ∈ l, Leaves exits succ s.closed x → x ∈ s.closed)
      ∧ (nodes.toFinset \ (l.foldl (visit exits succ) s).closed).card
        ≤ (nodes.toFinset \ s.closed).card
      ∧ ((l.foldl (visit exits succ) s).grew = true → s.grew = true
        ∨ (nodes.toFinset \ (l.foldl (visit exits succ) s).closed).card
          < (nodes.toFinset \ s.closed).card) := by
  induction l generalizing s with
  | nil =>
    exact ⟨hkn, fun _ => ⟨rfl, fun x hx => absurd hx not_mem_nil⟩, le_refl _, .inl⟩
  | cons x l ih =>
    have hx : x ∈ nodes := hl x mem_cons_self
    have hl' : ∀ y ∈ l, y ∈ nodes := fun y hy => hl y (mem_cons_of_mem _ hy)
    rw [foldl_cons]
    by_cases hn : x ∉ s.closed ∧ Leaves exits succ s.closed x
    · obtain ⟨hfr, hlv⟩ := hn
      have hv : visit exits succ s x = { closed := insert x s.closed, grew := true } := by
        unfold visit
        rw [if_neg hfr, if_pos ((leaves_iff _ _).mpr hlv)]
      have hrch : ReachesExit exits succ nodes x := by
        obtain hex | ⟨y, hy, hcl⟩ := hlv
        · exact ⟨x, ReflTransGen.refl, hex⟩
        · obtain ⟨hnd, z, hpt, hex⟩ := hkn y hcl
          exact ⟨z, ReflTransGen.head ⟨hx, hnd, hy⟩ hpt, hex⟩
      have hc := card_erase_add_one (mem_sdiff.mpr ⟨mem_toFinset.mpr hx, hfr⟩)
      rw [← sdiff_insert] at hc
      obtain ⟨hkn', hs, hle, -⟩ := ih (visit exits succ s x) hl' (by
        rw [hv]
        intro y hy
        obtain rfl | hy := mem_insert.mp hy
        · exact ⟨hx, hrch⟩
        · exact hkn y hy)
      rw [hv] at hkn' hs hle ⊢
      dsimp only at hle
      refine ⟨hkn', fun hg => ?_, by omega, fun _ => .inr (by omega)⟩
      have hsm := (hs hg).1
      rw [hsm] at hg
      cases hg
    · have hv : visit exits succ s x = s := by
        unfold visit
        split
        · rfl
        · rename_i hfr
          rw [if_neg fun hlv => hn ⟨hfr, (leaves_iff _ _).mp hlv⟩]
      rw [hv]
      obtain ⟨hkn', hs, hle, hg⟩ := ih s hl' hkn
      refine ⟨hkn', fun hno => ⟨(hs hno).1, fun y hy hlv => ?_⟩, hle, hg⟩
      obtain rfl | hy := mem_cons.mp hy
      · by_contra hfr
        exact hn ⟨hfr, hlv⟩
      · exact (hs hno).2 y hy hlv

theorem Sound.step {s s' : Saturation α} (h : Sound exits succ nodes s)
    (hs : s.step exits succ nodes = some s') :
    Sound exits succ nodes s' ∧ s'.measure nodes < s.measure nodes := by
  unfold Saturation.step at hs
  split at hs
  · rename_i hg
    cases hs
    obtain ⟨hkn, hst, hle, hlt⟩ :=
      foldl_visit { s with grew := false } nodes (show ∀ x ∈ nodes, x ∈ nodes from fun x hx => hx)
        h.known
    refine ⟨⟨hkn, fun hno => ?_⟩, ?_⟩
    · obtain ⟨hsm, ha⟩ := hst hno
      rw [hsm]
      exact ha
    · unfold measure
      rw [if_pos hg]
      split
      · rename_i hm
        have hc := (hlt hm).resolve_left Bool.false_ne_true
        dsimp only at hc
        omega
      · dsimp only at hle
        omega
  · cases hs

end Saturation

/-- **A saturation finds what reaches an exit.** -/
theorem mem_saturate_iff {nodes : List α} {exits : α → Bool} (x : α) :
    x ∈ saturate nodes exits succ ↔ x ∈ nodes ∧ Saturation.ReachesExit exits succ nodes x := by
  have hf : Saturation.Sound exits succ nodes { closed := ∅, grew := true } :=
    ⟨fun x hx => absurd hx (notMem_empty x), nofun⟩
  obtain ⟨hsd, hdn⟩ := whileLoop_spec (Saturation.measure nodes)
    (fun s s' hs hst => Saturation.Sound.step hs hst) hf
  have hg : (whileLoop (Saturation.measure nodes) (Saturation.step exits succ nodes)
      { closed := ∅, grew := true }).grew = false := by
    unfold Saturation.step at hdn
    split at hdn
    · cases hdn
    · rename_i hno
      exact Bool.eq_false_of_not_eq_true hno
  refine ⟨hsd.known x, ?_⟩
  rintro ⟨hx, y, hpt, hex⟩
  induction hpt using ReflTransGen.head_induction_on with
  | refl => exact hsd.saturated hg _ hx (.inl hex)
  | head he _ ih =>
    exact hsd.saturated hg _ hx (.inr ⟨_, he.2.2, ih he.2.1⟩)

/-! ## Peeling -/

/-- The state of a peeling: what remains, what still stands before each node, and
the nodes to be removed, the last one first. -/
structure Peel (α : Type*) where
  remaining : Finset α
  degree : α → Finset α
  ready : List α

namespace Peel

/-- A removed node no longer stands before this one. -/
def drop (removed : α) (s : Peel α) (x : α) : Peel α :=
  if removed ∈ s.degree x then
    { s with
      degree := update s.degree x ((s.degree x).erase removed)
      ready := if (s.degree x).erase removed = ∅ ∧ x ∈ s.remaining then x :: s.ready else s.ready }
  else s

def step (reverse : α → List α) (s : Peel α) : Option (Peel α) :=
  match s.ready with
  | [] => none
  | x :: ready =>
    if x ∈ s.remaining then
      some ((reverse x).foldl (drop x)
        { s with remaining := s.remaining.erase x, ready := ready })
    else some { s with ready := ready }

/-- The nodes that may still become ready, and those that are. -/
def measure (s : Peel α) : ℕ :=
  (s.remaining.filter fun x => s.degree x ≠ ∅).card + s.ready.length

end Peel

/-- The nodes that have nothing before them are removed, one by one, and what
stands behind each is looked at again. What remains, with what still stands
before each node. -/
def peel [LinearOrder α] (remaining : Finset α) (degree reverse : α → Finset α) :
    Finset α × (α → Finset α) :=
  let degree' := fun x =>
    if x ∈ remaining then (degree x).filter (· ∈ remaining) else degree x
  let s := whileLoop Peel.measure (Peel.step fun x => (reverse x).sort (· ≤ ·)) {
    remaining := remaining
    degree := degree'
    ready := ((remaining.sort (· ≤ ·)).filter fun x => degree' x = ∅).reverse }
  (s.remaining, s.degree)

namespace Peel

variable (removed : α)

theorem drop_degree (s : Peel α) (x y : α) :
    (s.drop removed x).degree y = if y = x then (s.degree y).erase removed else s.degree y := by
  unfold drop
  split
  · dsimp only
    rw [update_apply]
    split
    · rename_i hy
      rw [hy]
    · rfl
  · rename_i ho
    split
    · rename_i hy
      rw [hy, erase_eq_of_notMem ho]
    · rfl

theorem drop_remaining (s : Peel α) (x : α) : (s.drop removed x).remaining = s.remaining := by
  unfold drop
  split <;> rfl

/-- A node becomes ready when nothing stands before it any more. -/
theorem mem_drop_ready (s : Peel α) (x y : α) : y ∈ (s.drop removed x).ready ↔ y ∈ s.ready
      ∨ (y = x ∧ removed ∈ s.degree x ∧ (s.degree x).erase removed = ∅ ∧ x ∈ s.remaining) := by
  unfold drop
  split
  · rename_i hin
    dsimp only
    split
    · rename_i hl
      rw [List.mem_cons]
      tauto
    · tauto
  · tauto

/-- A place that is dropped does not add to the measure. -/
theorem measure_drop_le (s : Peel α) (x : α) : (s.drop removed x).measure ≤ s.measure := by
  unfold measure
  rw [drop_remaining]
  have hs : (s.remaining.filter fun y => (s.drop removed x).degree y ≠ ∅)
      ⊆ s.remaining.filter fun y => s.degree y ≠ ∅ := by
    intro y hy
    rw [Finset.mem_filter, drop_degree] at hy
    refine mem_filter.mpr ⟨hy.1, fun he => hy.2 ?_⟩
    rw [he, erase_empty, ite_self]
  by_cases hl : removed ∈ s.degree x ∧ (s.degree x).erase removed = ∅ ∧ x ∈ s.remaining
  · obtain ⟨hin, he, hx⟩ := hl
    have hr : (s.drop removed x).ready = x :: s.ready := by
      unfold drop
      rw [if_pos hin]
      dsimp only
      rw [if_pos ⟨he, hx⟩]
    have hlt : (s.remaining.filter fun y => (s.drop removed x).degree y ≠ ∅).card
        < (s.remaining.filter fun y => s.degree y ≠ ∅).card := by
      refine card_lt_card ⟨hs, fun hb => ?_⟩
      have hm : x ∈ s.remaining.filter fun y => s.degree y ≠ ∅ :=
        mem_filter.mpr ⟨hx, ne_empty_of_mem hin⟩
      have hnow := (mem_filter.mp (hb hm)).2
      rw [drop_degree, if_pos rfl] at hnow
      exact hnow he
    rw [hr, length_cons]
    omega
  · have hr : (s.drop removed x).ready = s.ready := by
      unfold drop
      split
      · rename_i hin
        dsimp only
        rw [if_neg fun h => hl ⟨hin, h⟩]
      · rfl
    rw [hr]
    exact Nat.add_le_add_right (card_le_card hs) _

/-- A removed node no longer stands before these. -/
theorem foldl_drop (s : Peel α) (l : List α) : (l.foldl (drop removed) s).remaining = s.remaining
      ∧ (∀ y, (l.foldl (drop removed) s).degree y
        = if y ∈ l then (s.degree y).erase removed else s.degree y)
      ∧ (∀ y, y ∈ (l.foldl (drop removed) s).ready ↔ y ∈ s.ready
        ∨ (y ∈ l ∧ removed ∈ s.degree y ∧ (s.degree y).erase removed = ∅ ∧ y ∈ s.remaining))
      ∧ (l.foldl (drop removed) s).measure ≤ s.measure := by
  induction l generalizing s with
  | nil => simp
  | cons x l ih =>
    obtain ⟨hrem, hd, hr, hm⟩ := ih (s.drop removed x)
    rw [drop_remaining] at hrem hr
    rw [List.foldl_cons]
    refine ⟨hrem, fun y => ?_, fun y => ?_, hm.trans (measure_drop_le removed s x)⟩
    · rw [hd, drop_degree]
      by_cases hyx : y = x
      · subst hyx
        rw [if_pos rfl, if_pos List.mem_cons_self]
        split
        · exact Finset.erase_idem
        · rfl
      · rw [if_neg hyx]
        exact if_congr (by rw [List.mem_cons, or_iff_right hyx]) rfl rfl
    · rw [hr, mem_drop_ready, drop_degree]
      by_cases hyx : y = x
      · subst hyx
        simp only [if_true, Finset.notMem_erase, List.mem_cons, true_and, true_or, false_and,
          and_false, or_false]
      · simp only [hyx, if_false, List.mem_cons, false_and, or_false, false_or]

/-- What a peeling keeps: what stands before a remaining node is what remains
of it, a remaining node is ready if nothing does, and no part in which every
node has one before it is touched. -/
structure Sound (first : Finset α) (degree : α → Finset α) (s : Peel α) : Prop where
  inside : s.remaining ⊆ first
  before : ∀ x ∈ s.remaining, s.degree x = (degree x).filter (· ∈ s.remaining)
  ready : ∀ x ∈ s.remaining, x ∈ s.ready ↔ s.degree x = ∅
  kept : ∀ part ⊆ first, (∀ x ∈ part, ∃ y ∈ part, y ∈ degree x) → part ⊆ s.remaining

theorem Sound.step {first : Finset α} {degree : α → Finset α} (reverse : α → List α) {s s' : Peel α}
    (h : Sound first degree s) (hrv : ∀ x ∈ first, ∀ y ∈ first, y ∈ reverse x ↔ x ∈ degree y)
    (hs : s.step reverse = some s') : Sound first degree s' ∧ s'.measure < s.measure := by
  unfold Peel.step at hs
  split at hs
  · cases hs
  rename_i x ready hr
  have hlen : ready.length < s.ready.length := by
    rw [hr]
    exact Nat.lt_succ_self _
  by_cases hx : x ∈ s.remaining
  · rw [if_pos hx] at hs
    cases hs
    have he : s.degree x = ∅ :=
      (h.ready x hx).mp (hr ▸ mem_cons_self)
    obtain ⟨hrem, hd, hr', hms⟩ := foldl_drop x
      { s with remaining := s.remaining.erase x, ready := ready } (reverse x)
    dsimp only at hrem hd hr'
    have hd' : ∀ y ∈ s.remaining, ((reverse x).foldl (drop x)
        { s with remaining := s.remaining.erase x, ready := ready }).degree y
        = (s.degree y).erase x := by
      intro y hy
      rw [hd]
      split_ifs with ho
      · rfl
      rw [hrv x (h.inside hx) y (h.inside hy)] at ho
      rw [erase_eq_of_notMem]
      rw [h.before y hy]
      exact fun hm => ho (mem_filter.mp hm).1
    refine ⟨⟨?_, fun y hy => ?_, fun y hy => ?_, fun part hp ha => ?_⟩, ?_⟩
    · rw [hrem]
      exact (erase_subset _ _).trans h.inside
    · rw [hrem] at hy
      rw [hd' y (mem_of_mem_erase hy), hrem, h.before y (mem_of_mem_erase hy)]
      ext z
      rw [Finset.mem_erase, Finset.mem_filter, Finset.mem_filter, Finset.mem_erase]
      tauto
    · rw [hrem] at hy
      obtain ⟨hne, hin⟩ := mem_erase.mp hy
      rw [hr' y, hd' y hin]
      have hold := h.ready y hin
      rw [hr, List.mem_cons, or_iff_right hne] at hold
      rw [hold]
      constructor
      · rintro (hn | ⟨-, -, hl, -⟩)
        · rw [hn, erase_empty]
        · exact hl
      · intro hl
        by_cases hstood : x ∈ s.degree y
        · refine .inr ⟨?_, hstood, hl, hy⟩
          rw [hrv x (h.inside hx) y (h.inside hin)]
          rw [h.before y hin] at hstood
          exact (mem_filter.mp hstood).1
        · rw [erase_eq_of_notMem hstood] at hl
          exact .inl hl
    · intro y hy
      have hk := h.kept part hp ha
      rw [hrem]
      refine mem_erase.mpr ⟨?_, hk hy⟩
      rintro rfl
      obtain ⟨z, hz, hb⟩ := ha y hy
      have hm : z ∈ s.degree y := by
        rw [h.before y hx]
        exact mem_filter.mpr ⟨hb, hk hz⟩
      rw [he] at hm
      exact notMem_empty z hm
    · refine lt_of_le_of_lt hms ?_
      unfold measure
      refine Nat.add_lt_add_of_le_of_lt (card_le_card ?_) hlen
      exact filter_subset_filter _ (erase_subset _ _)
  · rw [if_neg hx] at hs
    cases hs
    refine ⟨⟨h.inside, h.before, fun y hy => ?_, h.kept⟩, Nat.add_lt_add_left hlen _⟩
    have hold := h.ready y hy
    rw [hr, List.mem_cons, or_iff_right fun heq : y = x => hx (heq ▸ hy)] at hold
    exact hold

end Peel

/-- **A peeling leaves the largest part** in which every node has one before it. -/
theorem peel_spec [LinearOrder α] (first : Finset α) (degree reverse : α → Finset α)
    (hrv : ∀ x ∈ first, ∀ y ∈ first, y ∈ reverse x ↔ x ∈ degree y) :
    (peel first degree reverse).1 ⊆ first
      ∧ (∀ x ∈ (peel first degree reverse).1, (peel first degree reverse).2 x
          = (degree x).filter (· ∈ (peel first degree reverse).1))
      ∧ (∀ x ∈ (peel first degree reverse).1,
        ∃ y ∈ (peel first degree reverse).1, y ∈ degree x)
      ∧ ∀ part ⊆ first, (∀ x ∈ part, ∃ y ∈ part, y ∈ degree x) →
        part ⊆ (peel first degree reverse).1 := by
  have hf : Peel.Sound first degree {
      remaining := first
      degree := fun x => if x ∈ first then (degree x).filter (· ∈ first) else degree x
      ready := ((first.sort (· ≤ ·)).filter fun x =>
        (if x ∈ first then (degree x).filter (· ∈ first) else degree x) = ∅).reverse } := by
    refine ⟨Finset.Subset.refl _, fun x hx => if_pos hx, fun x hx => ?_, fun part hp _ => hp⟩
    rw [mem_reverse, mem_filter, mem_sort, and_iff_right hx, decide_eq_true_iff]
  obtain ⟨hsd, hdn⟩ := whileLoop_spec Peel.measure
    (fun s s' hs hst => Peel.Sound.step (fun x => (reverse x).sort (· ≤ ·)) hs
      (fun x hx y hy => by rw [mem_sort]; exact hrv x hx y hy) hst) hf
  refine ⟨hsd.inside, hsd.before, fun x hx => ?_, hsd.kept⟩
  have hr : (whileLoop Peel.measure (Peel.step fun x => (reverse x).sort (· ≤ ·)) {
      remaining := first
      degree := fun x => if x ∈ first then (degree x).filter (· ∈ first) else degree x
      ready := ((first.sort (· ≤ ·)).filter fun x =>
        (if x ∈ first then (degree x).filter (· ∈ first) else degree x) = ∅).reverse }).ready
      = [] := by
    unfold Peel.step at hdn
    split at hdn
    · assumption
    · split at hdn <;> cases hdn
  have hnonempty := (not_congr (hsd.ready x hx)).mp (hr ▸ not_mem_nil)
  obtain ⟨y, hy⟩ := nonempty_iff_ne_empty.mpr hnonempty
  rw [hsd.before x hx] at hy
  obtain ⟨hb, hin⟩ := mem_filter.mp hy
  exact ⟨y, hin, hb⟩

omit [DecidableEq α] in
/-- If every node of a finite part has one before it, each is reached from a
cycle. -/
theorem exists_cycle_before {r : α → α → Prop} {part : Finset α} (h : ∀ x ∈ part, ∃ y ∈ part, r y x)
    {x : α} (hx : x ∈ part) : ∃ c ∈ part, TransGen r c c ∧ ReflTransGen r c x := by
  choose! before hm he using h
  have hb : ∀ n, before^[n] x ∈ part := by
    intro n
    induction n with
    | zero => exact hx
    | succ n ih =>
      rw [iterate_succ_apply']
      exact hm _ ih
  have hpt : ∀ m n, TransGen r (before^[m + n + 1] x) (before^[m] x) := by
    intro m n
    induction n with
    | zero =>
      rw [add_zero, iterate_succ_apply']
      exact single (he _ (hb m))
    | succ n ih =>
      rw [← add_assoc, iterate_succ_apply']
      exact head (he _ (hb _)) ih
  obtain ⟨m, n, hne, heq⟩ := Finite.exists_ne_map_eq_of_infinite
    fun n : ℕ => (⟨before^[n] x, hb n⟩ : part)
  have hcyc : ∀ m n, m < n → before^[m] x = before^[n] x →
      ∃ c ∈ part, TransGen r c c ∧ ReflTransGen r c x := by
    intro m n hlt heq
    obtain ⟨k, rfl⟩ := Nat.exists_eq_add_of_lt hlt
    refine ⟨before^[m] x, hb m, ?_, ?_⟩
    · have hrnd := hpt m k
      rw [← heq] at hrnd
      exact hrnd
    · cases m with
      | zero => exact ReflTransGen.refl
      | succ m =>
        have hr := hpt 0 m
        rw [zero_add] at hr
        exact hr.to_reflTransGen
  obtain hlt | hlt := lt_or_gt_of_ne hne
  · exact hcyc m n hlt (congrArg Subtype.val heq)
  · exact hcyc n m hlt (congrArg Subtype.val heq).symm

/-- What both peelings leave: first the nodes with nothing before them are
removed, then those with nothing behind them. -/
def peelBoth [LinearOrder α] (nodes : Finset α) (incoming outgoing : α → Finset α) : Finset α :=
  let first := peel nodes incoming outgoing
  (peel first.1 outgoing first.2).1

/-- **Both peelings leave what lies between cycles.** -/
theorem mem_peelBoth_iff [LinearOrder α] {nodes : Finset α} {incoming outgoing : α → Finset α}
    (h : ∀ x ∈ nodes, ∀ y ∈ nodes, y ∈ outgoing x ↔ x ∈ incoming y) (x : α) :
    x ∈ peelBoth nodes incoming outgoing ↔
      ∃ c c', TransGen (fun a b => a ∈ nodes ∧ b ∈ nodes ∧ b ∈ outgoing a) c c
        ∧ ReflTransGen (fun a b => a ∈ nodes ∧ b ∈ nodes ∧ b ∈ outgoing a) c x
        ∧ ReflTransGen (fun a b => a ∈ nodes ∧ b ∈ nodes ∧ b ∈ outgoing a) x c'
        ∧ TransGen (fun a b => a ∈ nodes ∧ b ∈ nodes ∧ b ∈ outgoing a) c' c' := by
  obtain ⟨hs, hd, hhas, hlargest⟩ := peel_spec nodes incoming outgoing h
  obtain ⟨hs', -, hhas', hlargest'⟩ := peel_spec (peel nodes incoming outgoing).1 outgoing
    (peel nodes incoming outgoing).2 (by
      intro a ha b hb
      rw [hd a ha, Finset.mem_filter, and_iff_left hb, h b (hs hb) a (hs ha)])
  constructor
  · intro hx
    obtain ⟨c, -, hcyc, hr⟩ := exists_cycle_before
      (r := fun a b => a ∈ nodes ∧ b ∈ nodes ∧ b ∈ outgoing a) (fun a ha => by
        obtain ⟨b, hb, hbef⟩ := hhas a ha
        exact ⟨b, hb, hs hb, hs ha, (h b (hs hb) a (hs ha)).mpr hbef⟩) (hs' hx)
    obtain ⟨c', -, hcyc', hr'⟩ := exists_cycle_before
      (r := swap fun a b => a ∈ nodes ∧ b ∈ nodes ∧ b ∈ outgoing a) (fun a ha => by
        obtain ⟨b, hb, hbh⟩ := hhas' a ha
        exact ⟨b, hb, hs (hs' ha), hs (hs' hb), hbh⟩) hx
    exact ⟨c, c', hcyc, hr, reflTransGen_swap.mp hr', transGen_swap.mp hcyc'⟩
  · rintro ⟨c, c', hcyc, hr, hr', hcyc'⟩
    classical
    -- What a cycle reaches has something before it that a cycle reaches.
    have hbh : ∀ y, ReflTransGen (fun a b => a ∈ nodes ∧ b ∈ nodes ∧ b ∈ outgoing a) c y →
        y ∈ (peel nodes incoming outgoing).1 := by
      intro y hy
      have hp := hlargest (nodes.filter fun z =>
        ReflTransGen (fun a b => a ∈ nodes ∧ b ∈ nodes ∧ b ∈ outgoing a) c z)
        (filter_subset _ _) (by
          intro z hz
          obtain ⟨w, hw, he⟩ := tail'_iff.mp (hcyc.trans_left (mem_filter.mp hz).2)
          exact ⟨w, mem_filter.mpr ⟨he.1, hw⟩, (h w he.1 z he.2.1).mp he.2.2⟩)
      refine hp (mem_filter.mpr ⟨?_, hy⟩)
      obtain ⟨w, -, he⟩ := tail'_iff.mp (hcyc.trans_left hy)
      exact he.2.1
    have hp := hlargest' ((peel nodes incoming outgoing).1.filter fun z =>
      ReflTransGen (fun a b => a ∈ nodes ∧ b ∈ nodes ∧ b ∈ outgoing a) c z
        ∧ ReflTransGen (fun a b => a ∈ nodes ∧ b ∈ nodes ∧ b ∈ outgoing a) z c')
      (filter_subset _ _) (by
        intro z hz
        obtain ⟨-, hf, hto⟩ := mem_filter.mp hz
        obtain ⟨w, he, hw⟩ := head'_iff.mp (hcyc'.trans_right hto)
        have hnx := hf.tail he
        exact ⟨w, mem_filter.mpr ⟨hbh w hnx, hnx, hw⟩, he.2.2⟩)
    exact hp (mem_filter.mpr ⟨hbh x hr, hr, hr'⟩)

end NeoGraph
