import Mathlib

/-!
# Operation locks

An operation lock is held across store calls and suspensions, so it is not a
mutex: its state is a flag and a queue of waiters, both read and written in
short critical sections, and a release with waiters hands the lock to the
first of them without clearing the flag.

A caller is somewhere in the code of the lock (`LockPhase`). Each critical
section, and each moment at which a granted waiter takes its guard, is an
event of one caller; an event that the caller's phase does not allow changes
nothing, so that a list of events is any interleaving of any callers.

`LockSystem.Moves` says once what an event can do. `LockSystem.Inv` is kept by
every move, and `LockSystem.queue_append_arrivals` says that the lock is
granted in the order in which requests took it or queued for it.
-/

namespace NeoGraph.Program

open Function Bool List

variable {C : Type} [DecidableEq C]

/-! ## The lock -/

/-- The state that the critical sections read and write. -/
structure OperationLock (C : Type) where
  locked : Bool := false
  /-- The waiters, the one that waits longest first. -/
  queue : List C := []
deriving DecidableEq

namespace OperationLock

/-- The test that every request starts with: a lock that nobody holds or waits
for is taken. -/
def test (lock : OperationLock C) : Option (OperationLock C) :=
  if !lock.locked && lock.queue.isEmpty then some { lock with locked := true } else none

/-- A caller joins the queue. -/
def push (lock : OperationLock C) (c : C) : OperationLock C :=
  { lock with queue := lock.queue ++ [c] }

/-- The state after a release, and the waiter that the lock passes to. -/
def release (lock : OperationLock C) : OperationLock C × Option C :=
  match lock.queue with
  | [] => ({ lock with locked := false }, none)
  | next :: queue => ({ lock with queue := queue }, some next)

end OperationLock

/-- Where a caller is in the code of a lock. -/
inductive LockPhase where
  /-- It asks for nothing and has no guard. -/
  | idle
  /-- In `lock_async`, between its two tests. -/
  | retesting
  /-- In the queue. -/
  | queued
  /-- The lock is its, and its thread or coroutine has not resumed yet. -/
  | granted
  /-- It has the guard. -/
  | holds
deriving DecidableEq

/-- The lock is the caller's. -/
def LockPhase.owns (phase : LockPhase) : Bool := phase = .granted || phase = .holds

/-- The caller owns the lock or is in its queue. -/
def LockPhase.requested (phase : LockPhase) : Bool := phase = .queued || phase.owns

/-- The critical sections of the calls on one lock. -/
inductive LockEvent where
  | tryLock
  /-- The critical section of `lock_blocking`, up to the wait. -/
  | lockBlocking
  /-- The first test of `lock_async`. -/
  | lockAsync
  /-- Its second test, in the initiation of the wait. -/
  | initiate
  /-- A granted waiter resumes and gets its guard. -/
  | take
  /-- A guard is unlocked or destroyed. -/
  | unlock
deriving DecidableEq

/-- A lock and its callers. -/
structure LockSystem (C : Type) where
  lock : OperationLock C := {}
  phase : C → LockPhase := fun _ => .idle

namespace LockSystem

/-- A caller goes on. -/
def moveTo (s : LockSystem C) (c : C) (phase : LockPhase) : LockSystem C :=
  { s with phase := update s.phase c phase }

/-- A caller that does not get the lock waits. -/
def enqueue (s : LockSystem C) (c : C) : LockSystem C :=
  { lock := s.lock.push c, phase := update s.phase c .queued }

/-- A request tests the lock. -/
def request (s : LockSystem C) (c : C) (won : LockPhase) (lost : LockSystem C) : LockSystem C :=
  match s.lock.test with
  | some lock => { lock := lock, phase := update s.phase c won }
  | none => lost

/-- A caller gives the lock up. -/
def release (s : LockSystem C) (c : C) : LockSystem C :=
  match s.lock.release with
  | (lock, none) => { lock := lock, phase := update s.phase c .idle }
  | (lock, some next) =>
    { lock := lock
      phase := update (update s.phase c .idle) next .granted }

/-- What an event does. In a build without threads a contended blocking request
is refused. -/
def step (threads : Bool) (s : LockSystem C) (c : C) : LockEvent → LockSystem C
  | .tryLock => if s.phase c = .idle then s.request c .holds s else s
  | .lockBlocking =>
    if s.phase c = .idle then s.request c .holds (if threads then s.enqueue c else s) else s
  | .lockAsync =>
    if s.phase c = .idle then s.request c .holds (s.moveTo c .retesting) else s
  | .initiate =>
    if s.phase c = .retesting then s.request c .granted (s.enqueue c) else s
  | .take => if s.phase c = .granted then s.moveTo c .holds else s
  | .unlock => if s.phase c = .holds then s.release c else s

/-- The state after a list of events. -/
def run (threads : Bool) (s : LockSystem C) (events : List (C × LockEvent)) : LockSystem C :=
  events.foldl (fun s e => s.step threads e.1 e.2) s

/-- The caller, if its event takes the lock or queues for it. -/
def arrival (threads : Bool) (s : LockSystem C) (c : C) (event : LockEvent) : List C :=
  if !(s.phase c).requested && ((s.step threads c event).phase c).requested then [c] else []

/-- The callers that the lock becomes the property of. -/
def grant (threads : Bool) (s : LockSystem C) (c : C) (event : LockEvent) : List C :=
  (c :: s.lock.queue).filter fun d =>
    !(s.phase d).owns && ((s.step threads c event).phase d).owns

/-- The requests of a run, in the order in which they take the lock or queue. -/
def arrivals (threads : Bool) : LockSystem C → List (C × LockEvent) → List C
  | _, [] => []
  | s, (c, event) :: events =>
    s.arrival threads c event ++ arrivals threads (s.step threads c event) events

/-- The grants of a run, in their order. -/
def grants (threads : Bool) : LockSystem C → List (C × LockEvent) → List C
  | _, [] => []
  | s, (c, event) :: events =>
    s.grant threads c event ++ grants threads (s.step threads c event) events

/-! ## What an event can do -/

/-- **Everything an event of a caller can do.** -/
inductive Moves (s : LockSystem C) (c : C) : LockSystem C → Prop where
  | stays : Moves s c s
  /-- A free lock is taken. -/
  | wins (won : LockPhase) (hidle : (s.phase c).requested = false)
      (hlocked : s.lock.locked = false) (hqueue : s.lock.queue = []) (hwon : won.owns = true) :
      Moves s c
        { lock := { locked := true, queue := [] }, phase := update s.phase c won }
  /-- A lock that is not free is waited for. -/
  | queues (hidle : (s.phase c).requested = false)
      (hbusy : s.lock.locked = true ∨ s.lock.queue ≠ []) : Moves s c (s.enqueue c)
  /-- The first test of `lock_async` fails. -/
  | retests (hidle : s.phase c = .idle) : Moves s c (s.moveTo c .retesting)
  | takes (hgranted : s.phase c = .granted) : Moves s c (s.moveTo c .holds)
  /-- A lock that nobody waits for becomes free. -/
  | frees (hholds : s.phase c = .holds) (hqueue : s.lock.queue = []) :
      Moves s c
        { lock := { locked := false, queue := [] }, phase := update s.phase c .idle }
  /-- The lock passes to the waiter that waits longest. -/
  | passes (next : C) (queue : List C) (hholds : s.phase c = .holds)
      (hqueue : s.lock.queue = next :: queue) :
      Moves s c
        { lock := { s.lock with queue := queue }
          phase := update (update s.phase c .idle) next .granted }

variable {s s' : LockSystem C} {c : C} {threads : Bool} {won : LockPhase}

theorem moves_request {lost : LockSystem C} (hid : (s.phase c).requested = false)
    (hwon : won.owns = true) (hl : s.lock.locked = true ∨ s.lock.queue ≠ [] → Moves s c lost) :
    Moves s c (s.request c won lost) := by
  unfold request OperationLock.test
  by_cases hfr : (!s.lock.locked && s.lock.queue.isEmpty) = true
  · rw [if_pos hfr]
    rw [and_eq_true, not_eq_true', List.isEmpty_iff] at hfr
    obtain ⟨hlk, hq⟩ := hfr
    rw [hq]
    exact Moves.wins won hid hlk hq hwon
  · rw [if_neg hfr]
    refine hl ?_
    rw [and_eq_true, not_eq_true', List.isEmpty_iff, not_and_or, not_eq_false] at hfr
    exact hfr

theorem moves_release (hh : s.phase c = .holds) : Moves s c (s.release c) := by
  unfold release OperationLock.release
  cases hq : s.lock.queue with
  | nil => exact Moves.frees hh hq
  | cons next queue => exact Moves.passes next queue hh hq

/-- What a step of a caller can do. -/
theorem moves_step (threads : Bool) (s : LockSystem C) (c : C) (event : LockEvent) :
    Moves s c (s.step threads c event) := by
  unfold step
  cases event with (dsimp only)
  | tryLock =>
    split
    · rename_i hid
      exact moves_request (by rw [hid]; rfl) rfl fun _ => Moves.stays
    · exact Moves.stays
  | lockBlocking =>
    split
    · rename_i hid
      have hr : (s.phase c).requested = false := by rw [hid]; rfl
      refine moves_request hr rfl fun hb => ?_
      split
      · exact Moves.queues hr hb
      · exact Moves.stays
    · exact Moves.stays
  | lockAsync =>
    split
    · rename_i hid
      exact moves_request (by rw [hid]; rfl) rfl fun _ => Moves.retests hid
    · exact Moves.stays
  | initiate =>
    split
    · rename_i hretesting
      have hr : (s.phase c).requested = false := by rw [hretesting]; rfl
      exact moves_request hr rfl fun hb => Moves.queues hr hb
    · exact Moves.stays
  | take =>
    split
    · rename_i hgr
      exact Moves.takes hgr
    · exact Moves.stays
  | unlock =>
    split
    · rename_i hh
      exact moves_release hh
    · exact Moves.stays

/-! ## What always holds -/

/-- **What holds of a lock and its callers**: the queue is the callers that
wait, once each; a lock that is free has no queue; and a lock that is not has
one owner. -/
structure Inv (s : LockSystem C) : Prop where
  mem_queue : ∀ c, c ∈ s.lock.queue ↔ s.phase c = .queued
  nodup : s.lock.queue.Nodup
  free : s.lock.locked = false → s.lock.queue = []
  owned : s.lock.locked = true ↔ ∃ c, (s.phase c).owns = true
  unique : ∀ c d, (s.phase c).owns = true → (s.phase d).owns = true → c = d

omit [DecidableEq C] in
theorem inv_default : Inv ({} : LockSystem C) where
  mem_queue c := ⟨fun h => absurd h not_mem_nil, fun h => by cases h⟩
  nodup := nodup_nil
  free _ := rfl
  owned := iff_of_false nofun (by rintro ⟨c, h⟩; cases h)
  unique c d h _ := by cases h

variable {phase : LockPhase}

theorem not_owns_of_not_requested (h : phase.requested = false) : phase.owns = false := by
  unfold LockPhase.requested at h
  rw [or_eq_false_iff] at h
  exact h.2

theorem ne_queued_of_not_requested (h : phase.requested = false) : phase ≠ .queued := by
  intro hqd
  rw [hqd] at h
  cases h

theorem ne_queued_of_owns (h : phase.owns = true) : phase ≠ .queued := by
  intro hqd
  rw [hqd] at h
  cases h

theorem owns_moveTo (how : phase.owns = (s.phase c).owns) (d : C) :
    ((s.moveTo c phase).phase d).owns = (s.phase d).owns := by
  show (update s.phase c phase d).owns = _
  by_cases hd : d = c
  · rw [hd, update_self, how]
  · rw [update_of_ne hd]

/-- A caller moves between two phases that neither own the lock nor wait, or
between two that own it. -/
theorem Inv.moveTo (hs : s.Inv) (how : phase.owns = (s.phase c).owns)
    (hqd : s.phase c ≠ .queued) (hqd' : phase ≠ .queued) : (s.moveTo c phase).Inv := by
  have how' := owns_moveTo how
  refine ⟨?_, hs.nodup, hs.free, ?_, ?_⟩
  · intro d
    show d ∈ s.lock.queue ↔ update s.phase c phase d = .queued
    rw [hs.mem_queue d]
    by_cases hd : d = c
    · rw [hd, update_self]
      exact iff_of_false hqd hqd'
    · rw [update_of_ne hd]
  · rw [show (s.moveTo c phase).lock = s.lock from rfl, hs.owned]
    exact exists_congr fun d => by rw [how' d]
  · intro d d' hd hd'
    rw [how'] at hd hd'
    exact hs.unique d d' hd hd'

/-- A caller takes a lock that is free. -/
theorem Inv.wins (hs : s.Inv) (hlk : s.lock.locked = false) (hwon : won.owns = true) :
    Inv { lock := { locked := true, queue := [] }, phase := update s.phase c won } := by
  have hn : ∀ d, (s.phase d).owns = false := by
    intro d
    rw [eq_false_iff]
    intro hd
    rw [hs.owned.mpr ⟨d, hd⟩] at hlk
    cases hlk
  have how : ∀ d, (update s.phase c won d).owns = true → d = c := by
    intro d hd
    by_contra hne
    rw [update_of_ne hne, hn d] at hd
    cases hd
  refine ⟨?_, nodup_nil, fun _ => rfl, ?_, ?_⟩
  · intro d
    refine ⟨fun h => absurd h not_mem_nil, fun h => ?_⟩
    dsimp only at h
    by_cases hd : d = c
    · rw [hd, update_self] at h
      exact absurd h (ne_queued_of_owns hwon)
    · rw [update_of_ne hd, ← hs.mem_queue d, hs.free hlk] at h
      exact h
  · exact ⟨fun _ => ⟨c, by dsimp only; rw [update_self]; exact hwon⟩, fun _ => rfl⟩
  · intro d d' hd hd'
    rw [how d hd, how d' hd']

/-- A caller joins the queue. -/
theorem Inv.queues (hs : s.Inv) (hid : (s.phase c).requested = false)
    (hbs : s.lock.locked = true ∨ s.lock.queue ≠ []) : (s.enqueue c).Inv := by
  have hlk : s.lock.locked = true := by
    obtain h | h := hbs
    · exact h
    · rw [← not_eq_false]
      exact fun hfr => h (hs.free hfr)
  have how : ∀ d, ((s.enqueue c).phase d).owns = (s.phase d).owns := by
    intro d
    show (update s.phase c .queued d).owns = _
    by_cases hd : d = c
    · rw [hd, update_self, not_owns_of_not_requested hid]
      rfl
    · rw [update_of_ne hd]
  have hn : c ∉ s.lock.queue := fun h =>
    ne_queued_of_not_requested hid ((hs.mem_queue c).mp h)
  refine ⟨?_, ?_, ?_, ?_, ?_⟩
  · intro d
    show d ∈ s.lock.queue ++ [c] ↔ update s.phase c .queued d = .queued
    by_cases hd : d = c
    · rw [hd, update_self]
      exact iff_of_true (mem_append_right _ (mem_singleton_self c)) rfl
    · rw [update_of_ne hd, ← hs.mem_queue d, mem_append, mem_singleton]
      exact or_iff_left hd
  · exact nodup_append.mpr ⟨hs.nodup, nodup_singleton c, fun a ha b hb hab =>
      hn (mem_singleton.mp hb ▸ hab ▸ ha)⟩
  · intro hfr
    rw [show (s.enqueue c).lock.locked = s.lock.locked from rfl, hlk] at hfr
    cases hfr
  · rw [show (s.enqueue c).lock.locked = s.lock.locked from rfl, hs.owned]
    exact exists_congr fun d => by rw [how d]
  · intro d d' hd hd'
    rw [how] at hd hd'
    exact hs.unique d d' hd hd'

/-- The last holder leaves. -/
theorem Inv.frees (hs : s.Inv) (hh : s.phase c = .holds) (hq : s.lock.queue = []) :
    Inv { lock := { locked := false, queue := [] }, phase := update s.phase c .idle } := by
  have how : (s.phase c).owns = true := by
    rw [hh]
    rfl
  have hn : ∀ d, (update s.phase c .idle d).owns = false := by
    intro d
    by_cases hd : d = c
    · rw [hd, update_self]
      rfl
    · rw [update_of_ne hd, eq_false_iff]
      exact fun h => hd (hs.unique d c h how)
  refine ⟨?_, nodup_nil, fun _ => rfl, ?_, ?_⟩
  · intro d
    refine ⟨fun h => absurd h not_mem_nil, fun h => ?_⟩
    dsimp only at h
    by_cases hd : d = c
    · rw [hd, update_self] at h
      cases h
    · rw [update_of_ne hd, ← hs.mem_queue d, hq] at h
      exact h
  · refine ⟨fun h => (by cases h), fun ⟨d, hd⟩ => ?_⟩
    rw [hn d] at hd
    cases hd
  · intro d d' hd
    rw [hn d] at hd
    cases hd

variable {next : C} {queue : List C}

theorem Inv.passes (hs : s.Inv) (hh : s.phase c = .holds)
    (hq : s.lock.queue = next :: queue) :
    Inv { lock := { s.lock with queue := queue }
          phase := update (update s.phase c .idle) next .granted } := by
  have how : (s.phase c).owns = true := by
    rw [hh]
    rfl
  have hlk : s.lock.locked = true := hs.owned.mpr ⟨c, how⟩
  have hnx : s.phase next = .queued :=
    (hs.mem_queue next).mp (hq ▸ mem_cons_self)
  have hnd := hs.nodup
  rw [hq, nodup_cons] at hnd
  have ho : ∀ d, (update (update s.phase c .idle) next .granted d).owns = true →
      d = next := by
    intro d hd
    by_contra hne
    rw [update_of_ne hne] at hd
    by_cases hdc : d = c
    · rw [hdc, update_self] at hd
      cases hd
    · rw [update_of_ne hdc] at hd
      exact hdc (hs.unique d c hd how)
  refine ⟨?_, hnd.2, ?_, ?_, ?_⟩
  · intro d
    dsimp only
    by_cases hd : d = next
    · rw [hd, update_self]
      exact iff_of_false hnd.1 nofun
    rw [update_of_ne hd]
    by_cases hdc : d = c
    · rw [hdc, update_self]
      refine iff_of_false (fun h => ?_) nofun
      have hm : c ∈ s.lock.queue := hq ▸ mem_cons_of_mem _ h
      exact absurd ((hs.mem_queue c).mp hm) (ne_queued_of_owns how)
    · rw [update_of_ne hdc, ← hs.mem_queue d, hq, mem_cons]
      exact (or_iff_right hd).symm
  · intro hfr
    rw [hlk] at hfr
    cases hfr
  · refine iff_of_true hlk ⟨next, ?_⟩
    dsimp only
    rw [update_self]
    rfl
  · intro d d' hd hd'
    rw [ho d hd, ho d' hd']

/-- **Every event keeps the invariant.** -/
theorem Inv.moves (hs : s.Inv) (h : Moves s c s') : s'.Inv := by
  cases h with
  | stays => exact hs
  | wins won hid hlk hq hwon => exact hs.wins hlk hwon
  | queues hid hb => exact hs.queues hid hb
  | retests hid =>
    refine hs.moveTo ?_ ?_ nofun
    · rw [hid]
      rfl
    · rw [hid]
      nofun
  | takes hgr =>
    refine hs.moveTo ?_ ?_ nofun
    · rw [hgr]
      rfl
    · rw [hgr]
      nofun
  | frees hh hq => exact hs.frees hh hq
  | passes next queue hh hq => exact hs.passes hh hq

theorem Inv.step (hs : s.Inv) (event : LockEvent) : (s.step threads c event).Inv :=
  hs.moves (moves_step threads s c event)

/-- An event moves no caller that is idle, but its own. -/
theorem Inv.phase_of_idle (hs : s.Inv) (h : Moves s c s') {d : C} (hd : d ≠ c)
    (hid : s.phase d = .idle) : s'.phase d = .idle := by
  cases h with
  | stays => exact hid
  | wins won _ _ _ _ | queues _ _ | retests _ | takes _ | frees _ _ =>
    exact (update_of_ne hd ..).trans hid
  | passes next queue hh hq =>
    have hne : d ≠ next := by
      rintro rfl
      have hqd := (hs.mem_queue d).mp (hq ▸ mem_cons_self)
      rw [hid] at hqd
      cases hqd
    dsimp only
    rw [update_of_ne hne, update_of_ne hd]
    exact hid

/-- **A release with waiters grants the lock to the one that waits longest**,
and to no other. -/
theorem Inv.release_cons (hs : s.Inv) (hh : s.phase c = .holds)
    (hq : s.lock.queue = next :: queue) :
    (s.release c).lock = { locked := true, queue := queue }
      ∧ (s.release c).phase next = .granted ∧ (s.release c).phase c = .idle
      ∧ ∀ d, d ≠ next → d ≠ c → (s.release c).phase d = s.phase d := by
  have hlk : s.lock.locked = true := by
    refine hs.owned.mpr ⟨c, ?_⟩
    rw [hh]
    rfl
  have hne : c ≠ next := by
    rintro rfl
    have hqd := (hs.mem_queue c).mp (hq ▸ mem_cons_self)
    rw [hh] at hqd
    cases hqd
  unfold release OperationLock.release
  rw [hq]
  dsimp only
  refine ⟨by rw [hlk], update_self .., ?_, ?_⟩
  · rw [update_of_ne hne, update_self]
  · intro d hd hdc
    rw [update_of_ne hd, update_of_ne hdc]

/-- The caller of a release has no guard any more. -/
theorem Inv.release_phase (hs : s.Inv) (hh : s.phase c = .holds) :
    (s.release c).phase c = .idle := by
  cases hq : s.lock.queue with
  | nil =>
    unfold release OperationLock.release
    rw [hq]
    exact update_self ..
  | cons next queue => exact (hs.release_cons hh hq).2.2.1

theorem Inv.run (hs : s.Inv) (events : List (C × LockEvent)) : (s.run threads events).Inv := by
  induction events generalizing s with
  | nil => exact hs
  | cons e events ih => exact ih (hs.step e.2)

/-! ## The order of the grants -/

variable {event : LockEvent}

theorem arrival_of_step (h : s.step threads c event = s') : s.arrival threads c event
      = if !(s.phase c).requested && (s'.phase c).requested then [c] else [] := by
  unfold arrival
  rw [h]

theorem grant_of_step (h : s.step threads c event = s') : s.grant threads c event
      = (c :: s.lock.queue).filter fun d => !(s.phase d).owns && (s'.phase d).owns := by
  unfold grant
  rw [h]

omit [DecidableEq C] in
theorem filter_newly_eq_nil {l : List C}
    (h : ∀ d ∈ l, (s'.phase d).owns = true → (s.phase d).owns = true) :
    (l.filter fun d => !(s.phase d).owns && (s'.phase d).owns) = [] := by
  rw [filter_eq_nil_iff]
  intro d hd hn
  rw [and_eq_true, not_eq_true'] at hn
  rw [h d hd hn.2] at hn
  cases hn.1

/-- Nobody arrives and nobody is granted the lock when no caller comes to own it
and the one that moves makes no request. -/
theorem arrival_grant_nil (h : s.step threads c event = s')
    (harr : (s'.phase c).requested = true → (s.phase c).requested = true)
    (hgr : ∀ d, (s'.phase d).owns = true → (s.phase d).owns = true) :
    s.arrival threads c event = [] ∧ s.grant threads c event = [] := by
  rw [arrival_of_step h, grant_of_step h]
  refine ⟨if_neg ?_, filter_newly_eq_nil fun d _ => hgr d⟩
  intro hn
  rw [and_eq_true, not_eq_true'] at hn
  rw [harr hn.2] at hn
  cases hn.1

/-- **An event keeps the order**: who arrives goes behind the queue, and who is
granted the lock comes from its front. -/
theorem queue_append_arrival (hs : s.Inv) (event : LockEvent) :
    s.lock.queue ++ s.arrival threads c event
      = s.grant threads c event ++ (s.step threads c event).lock.queue := by
  generalize hs' : s.step threads c event = s'
  have hmv : Moves s c s' := hs' ▸ moves_step threads s c event
  cases hmv with
  | stays =>
    obtain ⟨harr, hg⟩ := arrival_grant_nil hs' id fun _ => id
    rw [harr, hg, append_nil, nil_append]
  | wins won hid hlk hq hwon =>
    have hreqd : won.requested = true := by
      unfold LockPhase.requested
      rw [hwon, Bool.or_true]
    have harr : s.arrival threads c event = [c] := by
      rw [arrival_of_step hs']
      refine if_pos ?_
      dsimp only
      rw [update_self, hid, hreqd]
      rfl
    have hg : s.grant threads c event = [c] := by
      rw [grant_of_step hs', hq]
      refine filter_cons_of_pos ?_
      dsimp only
      rw [update_self, not_owns_of_not_requested hid, hwon]
      rfl
    rw [harr, hg, hq]
    rfl
  | queues hid hb =>
    have hph : (s.enqueue c).phase c = .queued := update_self ..
    have hg : (c :: s.lock.queue).filter
        (fun d => !(s.phase d).owns && ((s.enqueue c).phase d).owns) = [] := by
      refine filter_newly_eq_nil fun d _ hd => ?_
      by_cases hdc : d = c
      · rw [hdc, hph] at hd
        cases hd
      · rw [show (s.enqueue c).phase d = s.phase d from update_of_ne hdc ..] at hd
        exact hd
    rw [arrival_of_step hs', grant_of_step hs', hg, hph, hid]
    rfl
  | retests hid =>
    have how : LockPhase.retesting.owns = (s.phase c).owns := by
      rw [hid]
      rfl
    obtain ⟨harr, hg⟩ := arrival_grant_nil hs' (fun h => by
        rw [show (s.moveTo c .retesting).phase c = .retesting from update_self ..] at h
        cases h)
      (fun d hd => owns_moveTo how d ▸ hd)
    rw [harr, hg, append_nil, nil_append]
    rfl
  | takes hgr =>
    have how : LockPhase.holds.owns = (s.phase c).owns := by
      rw [hgr]
      rfl
    obtain ⟨harr, hg⟩ := arrival_grant_nil hs' (fun _ => by rw [hgr]; rfl)
      (fun d hd => owns_moveTo how d ▸ hd)
    rw [harr, hg, append_nil, nil_append]
    rfl
  | frees hh hq =>
    obtain ⟨harr, hg⟩ := arrival_grant_nil hs' (fun _ => by rw [hh]; rfl)
      (fun d hd => by
        dsimp only at hd
        by_cases hdc : d = c
        · rw [hdc, update_self] at hd
          cases hd
        · rw [update_of_ne hdc] at hd
          exact hd)
    rw [harr, hg, hq, append_nil]
  | passes next queue hh hq =>
    have hnx : s.phase next = .queued :=
      (hs.mem_queue next).mp (hq ▸ mem_cons_self)
    have hne : next ≠ c := by
      rintro rfl
      rw [hnx] at hh
      cases hh
    have hnd := hs.nodup
    rw [hq, nodup_cons] at hnd
    have hr : ∀ d, d ≠ next →
        (update (update s.phase c .idle) next .granted d).owns = true →
        (s.phase d).owns = true := by
      intro d hd hn
      rw [update_of_ne hd] at hn
      by_cases hdc : d = c
      · rw [hdc, update_self] at hn
        cases hn
      · rw [update_of_ne hdc] at hn
        exact hn
    have harr : s.arrival threads c event = [] := by
      rw [arrival_of_step hs', hh]
      rfl
    have hg : s.grant threads c event = [next] := by
      rw [grant_of_step hs', hq, filter_cons_of_neg, filter_cons_of_pos, filter_newly_eq_nil]
      · intro d hd
        exact hr d fun heq => hnd.1 (heq ▸ hd)
      · dsimp only
        rw [update_self, hnx]
        rfl
      · rw [hh]
        nofun
    rw [harr, hg, hq, append_nil]
    rfl

/-- **The lock is granted in the order of the requests**: who was queued and who
arrives during a run, in this order, are who is granted the lock during the
run and who is queued at its end. -/
theorem queue_append_arrivals (hs : s.Inv) (events : List (C × LockEvent)) :
    s.lock.queue ++ s.arrivals threads events
      = s.grants threads events ++ (s.run threads events).lock.queue := by
  induction events generalizing s with
  | nil => exact append_nil _
  | cons e events ih =>
    show s.lock.queue ++ (s.arrival threads e.1 e.2 ++ arrivals threads _ events)
      = s.grant threads e.1 e.2 ++ grants threads _ events
        ++ (run threads (s.step threads e.1 e.2) events).lock.queue
    rw [← append_assoc, queue_append_arrival hs, append_assoc, ih (hs.step e.2), append_assoc]

/-- While a caller stays queued, the lock is granted only to those that were
ahead of it. -/
theorem grants_ahead (hs : s.Inv) {c : C} (hc : s.phase c = .queued)
    (events : List (C × LockEvent)) (hw : c ∉ s.grants threads events) :
    s.grants threads events <+: s.lock.queue.takeWhile (· ≠ c) := by
  have ho : s.lock.queue ++ s.arrivals threads events
      = s.grants threads events ++ (s.run threads events).lock.queue :=
    queue_append_arrivals hs events
  obtain ⟨ahead, behind, hq⟩ := append_of_mem ((hs.mem_queue c).mpr hc)
  have ha : ∀ d ∈ ahead, decide (d ≠ c) = true := by
    intro d hd
    have hnd := hs.nodup
    rw [hq, nodup_append] at hnd
    exact decide_eq_true (hnd.2.2 d hd c mem_cons_self)
  have htk : s.lock.queue.takeWhile (· ≠ c) = ahead := by
    rw [hq, takeWhile_append_of_pos ha, takeWhile_cons_of_neg (by simp), append_nil]
  rw [htk]
  rw [hq, append_assoc] at ho
  obtain ⟨rest, hg, ht⟩ | ⟨rest, hg, -⟩ := append_eq_append_iff.mp ho
  · -- a longer list of grants would contain the caller
    cases rest with
    | nil => exact ⟨[], by rw [append_nil, hg, append_nil]⟩
    | cons d rest =>
      rw [cons_append, cons_append, List.cons.injEq] at ht
      refine absurd ?_ hw
      rw [hg, ht.1]
      exact mem_append_right _ mem_cons_self
  · exact ⟨rest, hg.symm⟩

end LockSystem

end NeoGraph.Program
