import Mathlib

/-!
# Cancellation goes down the tree of tokens

A token is cancelled from any thread, any number of times. The first call posts
a signal to the executor that is bound to the token, and then cancels the
tokens that were forked from it and that someone still holds. A fork registers
the new token with its parent, and looks after that whether the parent was
cancelled meanwhile.

The critical sections of the calls are events, and a list of events is any
interleaving of the calls of all threads. `CancelTokens.cancels_descendants`
says that no cancellation is lost on the way down, and that none goes up.
-/

namespace NeoGraph

open List

/-- Where the call that forks a token is: the token is made, and its parent has
registered it. -/
inductive ForkPhase where
  | made
  | registered
  | done
deriving DecidableEq

/-- Where the call is that cancels a token first. -/
inductive CancelPhase where
  | posting
  | cascading
  | idle
deriving DecidableEq

/-- A token, with the points that the calls on it have come to. -/
structure CancelToken where
  parent : Option ℕ := none
  forking : ForkPhase := .done
  /-- Someone holds the token. -/
  live : Bool := true
  /-- A caller has cancelled the token itself. -/
  requested : Bool := false
  /-- The calls of `cancel` that have not looked at the token. -/
  calls : ℕ := 0
  stopRequested : Bool := false
  cancelling : CancelPhase := .idle
  children : List ℕ := []
  /-- An executor is bound, for the time of a binding. -/
  bound : Bool := false
  bindingGeneration : ℕ := 0
  /-- The bindings for which a signal was posted. -/
  posted : List ℕ := []

/-- No call is at work on the token. -/
def CancelToken.Quiet (token : CancelToken) : Prop :=
  token.calls = 0 ∧ token.forking = .done ∧ token.cancelling = .idle

/-- The tokens that were made so far, by their numbers. -/
structure CancelTokens where
  token : ℕ → CancelToken := fun _ => {}
  count : ℕ := 0

namespace CancelTokens

/-- One token is changed. -/
def modify (s : CancelTokens) (t : ℕ) (f : CancelToken → CancelToken) : CancelTokens :=
  { s with token := fun c => if c = t then f (s.token c) else s.token c }

/-- A new token, which its parent does not know yet. -/
def fork (s : CancelTokens) (p : ℕ) : CancelTokens :=
  { s.modify s.count fun _ => { parent := some p, forking := .made } with count := s.count + 1 }

/-- The children that no one holds are dropped. -/
def register (s : CancelTokens) (c p : ℕ) : CancelTokens :=
  (s.modify p fun token =>
    { token with children := (token.children.filter fun c => (s.token c).live) ++ [c] }).modify c
      fun token => { token with forking := .registered }

/-- The fork looks whether the parent was cancelled meanwhile. -/
def propagate (s : CancelTokens) (c p : ℕ) : CancelTokens :=
  s.modify c fun token =>
    { token with
      forking := .done
      calls := if (s.token p).stopRequested then token.calls + 1 else token.calls }

/-- A caller cancels a token. -/
def cancel (s : CancelTokens) (t : ℕ) : CancelTokens :=
  s.modify t fun token => { token with requested := true, calls := token.calls + 1 }

/-- The first call goes on, and all others return. -/
def requestStop (s : CancelTokens) (t : ℕ) : CancelTokens :=
  s.modify t fun token =>
    { token with
      calls := token.calls - 1
      stopRequested := true
      cancelling := if token.stopRequested then token.cancelling else .posting }

/-- The signal goes to the executor that is bound. -/
def post (s : CancelTokens) (t : ℕ) : CancelTokens :=
  s.modify t fun token =>
    { token with
      cancelling := .cascading
      posted := if token.bound then token.posted ++ [token.bindingGeneration] else token.posted }

/-- The children that someone holds are cancelled. -/
def cascade (s : CancelTokens) (t : ℕ) : CancelTokens :=
  { s with token := fun c =>
      { s.token c with
        cancelling := if c = t then .idle else (s.token c).cancelling
        calls := if c ∈ (s.token t).children ∧ (s.token c).live then (s.token c).calls + 1
          else (s.token c).calls } }

/-- A binding to a cancelled token gets its signal at once. -/
def bindExecutor (s : CancelTokens) (t : ℕ) (executor : Bool) : CancelTokens :=
  s.modify t fun token =>
    { token with
      bound := executor
      bindingGeneration := token.bindingGeneration + 1
      posted := if token.stopRequested && executor then
          token.posted ++ [token.bindingGeneration + 1] else token.posted }

def unbindExecutor (s : CancelTokens) (t : ℕ) : CancelTokens :=
  s.modify t fun token =>
    { token with bound := false, bindingGeneration := token.bindingGeneration + 1 }

/-- The critical sections of the calls. -/
inductive Event where
  | create
  | fork (p : ℕ)
  | register (c p : ℕ)
  | propagate (c p : ℕ)
  | cancel (t : ℕ)
  | requestStop (t : ℕ)
  | post (t : ℕ)
  | cascade (t : ℕ)
  | bindExecutor (t : ℕ) (executor : Bool)
  | unbindExecutor (t : ℕ)
  /-- The last holder lets the token go. -/
  | release (t : ℕ)

/-- An event that cannot happen changes nothing. -/
def perform (s : CancelTokens) : Event → CancelTokens
  | .create => { s with count := s.count + 1 }
  | .fork p => if p < s.count then s.fork p else s
  | .register c p =>
    if (s.token c).parent = some p ∧ (s.token c).forking = .made then s.register c p else s
  | .propagate c p =>
    if (s.token c).parent = some p ∧ (s.token c).forking = .registered then s.propagate c p else s
  | .cancel t => if t < s.count then s.cancel t else s
  | .requestStop t => if 0 < (s.token t).calls then s.requestStop t else s
  | .post t => if (s.token t).cancelling = .posting then s.post t else s
  | .cascade t => if (s.token t).cancelling = .cascading then s.cascade t else s
  | .bindExecutor t executor => s.bindExecutor t executor
  | .unbindExecutor t => s.unbindExecutor t
  | .release t => s.modify t fun token => { token with live := false }

/-- What holds at every moment. -/
@[mk_iff]
structure Inv (s : CancelTokens) : Prop where
  known : ∀ t, (s.token t).parent ≠ none ∨ (s.token t).requested = true
    ∨ (s.token t).stopRequested = true ∨ 0 < (s.token t).calls → t < s.count
  parent : ∀ c p, (s.token c).parent = some p → p < s.count
  /-- A child is registered, or will be. -/
  registered : ∀ c p, (s.token c).parent = some p → (s.token c).live = true →
    (s.token c).forking = .made ∨ c ∈ (s.token p).children
  related : ∀ c p, c ∈ (s.token p).children → (s.token c).parent = some p
  /-- A cancelled token has cancelled its children, or a call will. -/
  reached : ∀ c p, (s.token c).parent = some p → (s.token c).live = true →
    (s.token p).stopRequested = true → (s.token c).stopRequested = true ∨ 0 < (s.token c).calls
      ∨ (s.token c).forking ≠ .done ∨ (s.token p).cancelling ≠ .idle
  requested : ∀ t, (s.token t).requested = true →
    (s.token t).stopRequested = true ∨ 0 < (s.token t).calls
  caused : ∀ t, (s.token t).stopRequested = true ∨ 0 < (s.token t).calls →
    (s.token t).requested = true
      ∨ ∃ p, (s.token t).parent = some p ∧ (s.token p).stopRequested = true
  signalled : ∀ t, (s.token t).stopRequested = true → (s.token t).bound = true →
    (s.token t).bindingGeneration ∈ (s.token t).posted ∨ (s.token t).cancelling = .posting
  stopped : ∀ t, (s.token t).posted ≠ [] ∨ (s.token t).cancelling ≠ .idle →
    (s.token t).stopRequested = true

variable {s : CancelTokens}

/-! ### Every event keeps the invariant -/

/-- What an event changes, field by field. -/
theorem modify_eq (t : ℕ) (f : CancelToken → CancelToken) : s.modify t f =
    { s with token := fun c => {
        parent := if c = t then (f (s.token c)).parent else (s.token c).parent
        forking := if c = t then (f (s.token c)).forking else (s.token c).forking
        live := if c = t then (f (s.token c)).live else (s.token c).live
        requested := if c = t then (f (s.token c)).requested else (s.token c).requested
        calls := if c = t then (f (s.token c)).calls else (s.token c).calls
        stopRequested := if c = t then (f (s.token c)).stopRequested
          else (s.token c).stopRequested
        cancelling := if c = t then (f (s.token c)).cancelling else (s.token c).cancelling
        children := if c = t then (f (s.token c)).children else (s.token c).children
        bound := if c = t then (f (s.token c)).bound else (s.token c).bound
        bindingGeneration := if c = t then (f (s.token c)).bindingGeneration
          else (s.token c).bindingGeneration
        posted := if c = t then (f (s.token c)).posted else (s.token c).posted } } := by
  simp only [modify, mk.injEq, and_true]
  funext c
  split <;> rfl

theorem Inv.create (h : s.Inv) : Inv { s with count := s.count + 1 } where
  __ := h
  known t ht := (h.known t ht).trans (Nat.lt_succ_self _)
  parent c p hp := (h.parent c p hp).trans (Nat.lt_succ_self _)

theorem Inv.fork (h : s.Inv) {p : ℕ} (hp : p < s.count) : (s.fork p).Inv := by
  rw [inv_iff] at *
  simp only [CancelTokens.fork, modify_eq]
  grind

/-- A child that is registered late is still reached: it looks after its parent
when it is registered. -/
theorem Inv.register (h : s.Inv) {c p : ℕ} (hp : (s.token c).parent = some p) :
    (s.register c p).Inv := by
  rw [inv_iff] at *
  simp only [CancelTokens.register, modify_eq, ite_self]
  grind

theorem Inv.propagate (h : s.Inv) {c p : ℕ} (hp : (s.token c).parent = some p)
    (hr : (s.token c).forking = .registered) : (s.propagate c p).Inv := by
  rw [inv_iff] at *
  simp only [CancelTokens.propagate, modify_eq]
  grind

theorem Inv.cancel (h : s.Inv) {t : ℕ} (ht : t < s.count) : (s.cancel t).Inv := by
  rw [inv_iff] at *
  simp only [CancelTokens.cancel, modify_eq]
  grind

theorem Inv.requestStop (h : s.Inv) {t : ℕ} (ht : 0 < (s.token t).calls) :
    (s.requestStop t).Inv := by
  rw [inv_iff] at *
  simp only [CancelTokens.requestStop, modify_eq]
  grind

theorem Inv.post (h : s.Inv) {t : ℕ} (ht : (s.token t).cancelling = .posting) :
    (s.post t).Inv := by
  rw [inv_iff] at *
  simp only [CancelTokens.post, modify_eq]
  grind

/-- The children that someone holds are now as good as cancelled. -/
theorem Inv.cascade (h : s.Inv) {t : ℕ} (ht : (s.token t).cancelling = .cascading) :
    (s.cascade t).Inv := by
  rw [inv_iff] at *
  simp only [CancelTokens.cascade]
  grind

theorem Inv.bindExecutor (h : s.Inv) (t : ℕ) (executor : Bool) :
    (s.bindExecutor t executor).Inv := by
  rw [inv_iff] at *
  simp only [CancelTokens.bindExecutor, modify_eq]
  grind

theorem Inv.unbindExecutor (h : s.Inv) (t : ℕ) : (s.unbindExecutor t).Inv := by
  rw [inv_iff] at *
  simp only [CancelTokens.unbindExecutor, modify_eq]
  grind

theorem Inv.release (h : s.Inv) (t : ℕ) :
    (s.modify t fun token => { token with live := false }).Inv := by
  rw [inv_iff] at *
  simp only [modify_eq]
  grind

/-- An event that may not happen changes nothing. -/
theorem Inv.ite (h : s.Inv) {s' : CancelTokens} {p : Prop} [Decidable p] (h' : p → s'.Inv) :
    (if p then s' else s).Inv := by
  split
  · exact h' ‹_›
  · exact h

theorem Inv.perform (h : s.Inv) (event : Event) : (s.perform event).Inv := by
  cases event with
  | create => exact h.create
  | fork p => exact h.ite h.fork
  | register c p => exact h.ite fun hc => h.register hc.1
  | propagate c p => exact h.ite fun hc => h.propagate hc.1 hc.2
  | cancel t => exact h.ite h.cancel
  | requestStop t => exact h.ite h.requestStop
  | post t => exact h.ite h.post
  | cascade t => exact h.ite h.cascade
  | bindExecutor t executor => exact h.bindExecutor t executor
  | unbindExecutor t => exact h.unbindExecutor t
  | release t => exact h.release t

/-- **Cancellation reaches the tokens below, and no others.** At every moment of
every interleaving a cancelled token was cancelled by a caller, or its parent
is cancelled, and only a cancelled token sends signals. When no call is under
way, a token that someone holds is cancelled if it was cancelled by a caller or
its parent is cancelled, and a signal was sent to the executor that is bound to
a cancelled token, for this binding. -/
theorem cancels_descendants (events : List Event) :
    let s := events.foldl perform {}
    (∀ t, (s.token t).stopRequested = true → (s.token t).requested = true
        ∨ ∃ p, (s.token t).parent = some p ∧ (s.token p).stopRequested = true)
      ∧ (∀ t, (s.token t).posted ≠ [] → (s.token t).stopRequested = true)
      ∧ ((∀ t, (s.token t).Quiet) → ∀ t, (s.token t).live = true →
        ((s.token t).requested = true
          ∨ (∃ p, (s.token t).parent = some p ∧ (s.token p).stopRequested = true) →
          (s.token t).stopRequested = true)
        ∧ ((s.token t).stopRequested = true → (s.token t).bound = true →
          (s.token t).bindingGeneration ∈ (s.token t).posted)) := by
  have hst : ({} : CancelTokens).Inv := by constructor <;> simp
  have h := foldlRecOn events perform hst fun s hs event _ => hs.perform event
  refine ⟨fun t ht => h.caused t (.inl ht), fun t ht => h.stopped t (.inl ht),
    fun hq t hlv => ⟨?_, fun hsp hbd => ?_⟩⟩
  · obtain ⟨hcs, hforking, -⟩ := hq t
    rintro (hr | ⟨p, hpar, hsp⟩)
    · exact (h.requested t hr).resolve_right (Nat.ne_of_gt · hcs)
    · obtain hsp | hc | hf | hp := h.reached t p hpar hlv hsp
      · exact hsp
      · exact absurd hcs (Nat.ne_of_gt hc)
      · exact absurd hforking hf
      · exact absurd (hq p).2.2 hp
  · refine (h.signalled t hsp hbd).resolve_right fun hposting => ?_
    cases hposting.symm.trans (hq t).2.2

end CancelTokens

end NeoGraph
