import NeoGraph.Program.OperationLock

/-!
# Keyed operation locks

A family of operation locks, one for each key. The table points to an entry
for each key that is in use; an entry has a lock and counts its users. A
caller joins the table, takes the lock of the entry that it found there,
releases it and only then leaves the table; the last to leave erases the
entry, and the next caller of the key makes a new one.

Entries are shared pointers, so the model numbers them: an entry that has been
erased keeps its number, and a caller keeps the number it was given. That a
caller never uses the lock of an entry that is no longer in the table is
proved (`KeyedOperationLock.Inv.placed`), not assumed.
-/

namespace NeoGraph.Program

open Function List Option LockSystem

namespace KeyedOperationLock

variable {C : Type} [DecidableEq C]

/-- The key of a lock. -/
structure Key where
  coordination : String
  ownerScope : String
  logicalRunId : String
deriving DecidableEq

/-- The lock of a key, while somebody uses it. -/
structure Entry (C : Type) where
  lock : OperationLock C := {}
  /-- The callers between their `join` and their `leave`. -/
  users : ℕ := 0

/-- A caller's place in the table, with where it is in the code of the lock. -/
structure Place where
  key : Key
  entry : ℕ
  phase : LockPhase := .idle
  /-- It is done with the lock and has not left the table yet. -/
  leaving : Bool := false
deriving DecidableEq

/-- The table, the entries and the callers. -/
structure State (C : Type) where
  entries : Key → Option ℕ := fun _ => none
  heap : ℕ → Entry C := fun _ => {}
  /-- The number of the next entry. -/
  next : ℕ := 0
  place : C → Option Place := fun _ => none

/-- A step of some caller. -/
inductive Event where
  | join (key : Key)
  /-- An event of the lock of the caller's entry. -/
  | lock (event : LockEvent)
  /-- The caller fails before it has taken the lock or queued for it. -/
  | fail
  | leave
deriving DecidableEq

namespace State

/-- The phase of a caller in the lock of an entry. -/
def phaseIn (s : State C) (entry : ℕ) (c : C) : LockPhase :=
  match s.place c with
  | some p => if p.entry = entry then p.phase else .idle
  | none => .idle

/-- The lock of an entry with its callers. -/
def system (s : State C) (entry : ℕ) : LockSystem C :=
  { lock := (s.heap entry).lock, phase := s.phaseIn entry }

/-- One more caller for a key; the entry is created for the first. -/
def join (s : State C) (c : C) (key : Key) : State C :=
  match s.entries key with
  | some entry =>
    { s with
      heap := update s.heap entry
        { s.heap entry with users := (s.heap entry).users + 1 }
      place := update s.place c (some { key := key, entry := entry }) }
  | none =>
    { entries := update s.entries key (some s.next)
      heap := update s.heap s.next { users := 1 }
      next := s.next + 1
      place := update s.place c (some { key := key, entry := s.next }) }

/-- The caller leaves a key; the entry is erased with the last of them. -/
def leave (s : State C) (c : C) (key : Key) : State C :=
  match s.entries key with
  | none => { s with place := update s.place c none }
  | some entry =>
    { s with
      entries :=
        if (s.heap entry).users = 1 then update s.entries key none else s.entries
      heap := update s.heap entry
        { s.heap entry with users := (s.heap entry).users - 1 }
      place := update s.place c none }

/-- The caller is done with the lock: its guard was unlocked, or its blocking
request was refused. -/
def finishes (event : LockEvent) (before after : LockPhase) : Bool :=
  (event = .unlock && before = .holds) || (event = .lockBlocking && after = .idle)

/-- An event of the lock of an entry moves the callers of that entry. -/
def lockStep (s : State C) (threads : Bool) (c : C) (entry : ℕ) (event : LockEvent) : State C :=
  let after := (s.system entry).step threads c event
  { s with
    heap := update s.heap entry { s.heap entry with lock := after.lock }
    place := fun d => (s.place d).map fun q =>
      if q.entry = entry then
        { q with
          phase := after.phase d
          leaving := q.leaving || (d = c && finishes event q.phase (after.phase d)) }
      else q }

/-- What a step of a caller makes of the state. -/
def step (threads : Bool) (s : State C) (c : C) (event : Event) : State C :=
  match s.place c, event with
  | none, .join key => s.join c key
  | some p, .lock event =>
    if p.leaving || event = .tryLock then s else s.lockStep threads c p.entry event
  | some p, .fail =>
    if p.leaving || p.phase.requested then s
    else { s with place := update s.place c (some { p with phase := .idle, leaving := true }) }
  | some p, .leave => if p.leaving then s.leave c p.key else s
  | _, _ => s

/-- The state after a list of events, from the empty table. -/
def run (threads : Bool) (events : List (C × Event)) : State C :=
  events.foldl (fun s e => s.step threads e.1 e.2) {}

/-- The caller holds the lock of a key or waits for it. -/
def Uses (s : State C) (c : C) (key : Key) : Prop :=
  ∃ p, s.place c = some p ∧ p.key = key ∧ p.leaving = false

/-- The caller has released the lock of a key, or has failed before it queued,
and is about to leave the table. -/
def Leaves (s : State C) (c : C) (key : Key) : Prop :=
  ∃ p, s.place c = some p ∧ p.key = key ∧ p.leaving = true

/-- The caller has the guard of a key. -/
def Holds (s : State C) (c : C) (key : Key) : Prop :=
  ∃ p, s.place c = some p ∧ p.key = key ∧ p.phase = .holds

end State

open State

/-! ## What always holds -/

/-- The callers of a key, each once. -/
def Users (s : State C) (key : Key) (l : List C) : Prop :=
  l.Nodup ∧ ∀ c, c ∈ l ↔ ∃ p, s.place c = some p ∧ p.key = key

/-- **What holds of the table**: a caller's entry is the one that the table has
for its key, no two keys have one entry, the users of an entry are counted, and
every lock is as it should be. -/
structure Inv (s : State C) : Prop where
  allocated : ∀ key entry, s.entries key = some entry → entry < s.next
  injective : ∀ key key' entry, s.entries key = some entry → s.entries key' = some entry →
    key = key'
  placed : ∀ c p, s.place c = some p → s.entries p.key = some p.entry
  counted : ∀ key entry, s.entries key = some entry →
    ∃ l, Users s key l ∧ l.length = (s.heap entry).users ∧ l ≠ []
  locks : ∀ entry, (s.system entry).Inv
  fresh : ∀ entry, s.next ≤ entry → s.heap entry = {}
  left : ∀ c p, s.place c = some p → p.leaving = true → p.phase = .idle

omit [DecidableEq C] in
theorem inv_default : Inv ({} : State C) where
  allocated key entry h := by cases h
  injective key key' entry h := by cases h
  placed c p h := by cases h
  counted key entry h := by cases h
  locks _ := LockSystem.inv_default
  fresh _ _ := rfl
  left c p h := by cases h

variable {s : State C} {c : C} {threads : Bool} {p : Place}

omit [DecidableEq C] in
theorem phaseIn_of_place (h : s.place c = some p) : s.phaseIn p.entry c = p.phase := by
  unfold phaseIn
  rw [h]
  exact if_pos rfl

omit [DecidableEq C] in
theorem phaseIn_of_none (h : s.place c = none) (entry : ℕ) : s.phaseIn entry c = .idle := by
  unfold phaseIn
  rw [h]

variable {s' : State C}

/-- A place in the table that does not move any lock. -/
theorem phaseIn_update {p : Option Place} (entry : ℕ) (hp : ∀ q, p = some q → q.phase = .idle)
    (hc : s.phaseIn entry c = .idle) (d : C) (hs' : s'.place = update s.place c p) :
    s'.phaseIn entry d = s.phaseIn entry d := by
  unfold phaseIn
  rw [hs']
  by_cases hd : d = c
  · rw [hd, update_self]
    unfold phaseIn at hc
    rw [hc]
    cases p with
    | none => rfl
    | some q =>
      dsimp only
      rw [hp q rfl, ite_self]
  · rw [update_of_ne hd]

omit [DecidableEq C] in
/-- A change of the table that leaves the locks and phases alone keeps every
lock as it should be. -/
theorem Inv.locks_of_same (hs : Inv s) (hlock : ∀ entry, (s'.heap entry).lock = (s.heap entry).lock)
    (hph : ∀ entry d, s'.phaseIn entry d = s.phaseIn entry d) (entry : ℕ) :
    (s'.system entry).Inv := by
  have heq : s'.system entry = s.system entry := by
    unfold system
    rw [hlock entry, funext (hph entry)]
  rw [heq]
  exact hs.locks entry

variable {d : C} {q : Place}

theorem place_update_cases {p : Option Place} (h : update s.place c p d = some q) :
    (d = c ∧ p = some q) ∨ (d ≠ c ∧ s.place d = some q) := by
  by_cases hd : d = c
  · rw [hd, update_self] at h
    exact .inl ⟨hd, h⟩
  · rw [update_of_ne hd] at h
    exact .inr ⟨hd, h⟩

/-! ## Joining and leaving -/

variable {key : Key} {entry : ℕ}

/-- A caller of a key that is in the table. -/
theorem Inv.join_found (hs : Inv s) (hc : s.place c = none) (hen : s.entries key = some entry) :
    Inv { s with
      heap := update s.heap entry
        { s.heap entry with users := (s.heap entry).users + 1 }
      place := update s.place c (some { key := key, entry := entry }) } := by
  refine ⟨hs.allocated, hs.injective, ?_, ?_, ?_, ?_, ?_⟩
  · intro d q hd
    obtain ⟨-, hq⟩ | ⟨-, hq⟩ := place_update_cases hd
    · cases hq
      exact hen
    · exact hs.placed d q hq
  · intro key' entry' hen'
    obtain ⟨l, hl, hlen, hne⟩ := hs.counted key' entry' hen'
    by_cases hk : key' = key
    · subst hk
      obtain rfl : entry = entry' := Option.some.inj (hen.symm.trans hen')
      have hn : c ∉ l := by
        intro hm
        obtain ⟨q, hq, -⟩ := (hl.2 c).mp hm
        rw [hc] at hq
        cases hq
      refine ⟨c :: l, ⟨nodup_cons.mpr ⟨hn, hl.1⟩, ?_⟩, ?_, cons_ne_nil _ _⟩
      · intro d
        rw [mem_cons, hl.2 d]
        dsimp only
        by_cases hd : d = c
        · rw [hd, update_self]
          exact iff_of_true (.inl rfl) ⟨_, rfl, rfl⟩
        · rw [update_of_ne hd]
          exact or_iff_right hd
      · dsimp only
        rw [update_self, length_cons, hlen]
    · have hne' : entry' ≠ entry := fun heq =>
        hk (hs.injective key' key entry (heq ▸ hen') hen)
      refine ⟨l, ⟨hl.1, ?_⟩, ?_, hne⟩
      · intro d
        rw [hl.2 d]
        dsimp only
        by_cases hd : d = c
        · rw [hd, update_self, hc]
          refine iff_of_false (fun ⟨_, h, _⟩ => (by cases h)) fun ⟨q, hq, hqk⟩ => ?_
          cases hq
          exact hk hqk.symm
        · rw [update_of_ne hd]
      · dsimp only
        rw [update_of_ne hne']
        exact hlen
  · refine hs.locks_of_same ?_ ?_
    · intro e
      by_cases he : e = entry
      · rw [he]
        dsimp only
        rw [update_self]
      · dsimp only
        rw [update_of_ne he]
    · intro e d
      exact phaseIn_update e (fun q hq => by cases hq; rfl) (phaseIn_of_none hc e) d rfl
  · intro e he
    have hlt := hs.allocated key entry hen
    dsimp only at he ⊢
    rw [update_of_ne (by omega)]
    exact hs.fresh e he
  · intro d q hd hlv
    obtain ⟨-, hq⟩ | ⟨-, hq⟩ := place_update_cases hd
    · cases hq
      cases hlv
    · exact hs.left d q hq hlv

/-- The first caller of a key. -/
theorem Inv.join_new (hs : Inv s) (hc : s.place c = none) (hen : s.entries key = none) :
    Inv { entries := update s.entries key (some s.next)
          heap := update s.heap s.next { users := 1 }
          next := s.next + 1
          place := update s.place c (some { key := key, entry := s.next }) } := by
  have hcs : ∀ key' entry', update s.entries key (some s.next) key' = some entry' →
      (key' = key ∧ entry' = s.next) ∨ (key' ≠ key ∧ s.entries key' = some entry') := by
    intro key' entry' h
    by_cases hk : key' = key
    · rw [hk, update_self] at h
      exact .inl ⟨hk, (Option.some.inj h).symm⟩
    · rw [update_of_ne hk] at h
      exact .inr ⟨hk, h⟩
  have hky : ∀ d q, s.place d = some q → q.key ≠ key := by
    intro d q hq heq
    have := hs.placed d q hq
    rw [heq, hen] at this
    cases this
  refine ⟨?_, ?_, ?_, ?_, ?_, ?_, ?_⟩
  · intro key' entry' h
    obtain ⟨-, rfl⟩ | ⟨-, hold⟩ := hcs key' entry' h
    · exact Nat.lt_succ_self _
    · exact Nat.lt_succ_of_lt (hs.allocated key' entry' hold)
  · intro key₁ key₂ entry' h₁ h₂
    obtain ⟨rfl, rfl⟩ | ⟨-, hold₁⟩ := hcs key₁ entry' h₁
    · obtain ⟨rfl, -⟩ | ⟨-, hold₂⟩ := hcs key₂ _ h₂
      · rfl
      · exact absurd (hs.allocated key₂ _ hold₂) (Nat.lt_irrefl _)
    · obtain ⟨-, rfl⟩ | ⟨-, hold₂⟩ := hcs key₂ entry' h₂
      · exact absurd (hs.allocated key₁ _ hold₁) (Nat.lt_irrefl _)
      · exact hs.injective key₁ key₂ entry' hold₁ hold₂
  · intro d q hd
    obtain ⟨-, hq⟩ | ⟨-, hq⟩ := place_update_cases hd
    · cases hq
      exact update_self ..
    · dsimp only
      rw [update_of_ne (hky d q hq)]
      exact hs.placed d q hq
  · intro key' entry' h
    obtain ⟨rfl, rfl⟩ | ⟨hne, hold⟩ := hcs key' entry' h
    · refine ⟨[c], ⟨nodup_singleton c, ?_⟩, ?_, cons_ne_nil _ _⟩
      · intro d
        rw [mem_singleton]
        dsimp only
        by_cases hd : d = c
        · rw [hd, update_self]
          exact iff_of_true rfl ⟨_, rfl, rfl⟩
        · rw [update_of_ne hd]
          exact iff_of_false hd fun ⟨q, hq, hqk⟩ => hky d q hq hqk
      · dsimp only
        rw [update_self]
        rfl
    · obtain ⟨l, hl, hlen, hlne⟩ := hs.counted key' entry' hold
      have hlt := hs.allocated key' entry' hold
      refine ⟨l, ⟨hl.1, ?_⟩, ?_, hlne⟩
      · intro d
        rw [hl.2 d]
        dsimp only
        by_cases hd : d = c
        · rw [hd, update_self, hc]
          refine iff_of_false (fun ⟨_, h, _⟩ => (by cases h)) fun ⟨q, hq, hqk⟩ => ?_
          cases hq
          exact hne hqk.symm
        · rw [update_of_ne hd]
      · dsimp only
        rw [update_of_ne (by omega)]
        exact hlen
  · refine hs.locks_of_same ?_ ?_
    · intro e
      by_cases he : e = s.next
      · rw [he]
        dsimp only
        rw [update_self, hs.fresh s.next (Nat.le_refl _)]
      · dsimp only
        rw [update_of_ne he]
    · intro e d
      exact phaseIn_update e (fun q hq => by cases hq; rfl) (phaseIn_of_none hc e) d rfl
  · intro e he
    dsimp only at he ⊢
    rw [update_of_ne (by omega)]
    exact hs.fresh e (by omega)
  · intro d q hd hlv
    obtain ⟨-, hq⟩ | ⟨-, hq⟩ := place_update_cases hd
    · cases hq
      cases hlv
    · exact hs.left d q hq hlv

theorem Inv.join (hs : Inv s) (hc : s.place c = none) (key : Key) : Inv (s.join c key) := by
  unfold State.join
  split
  · rename_i entry hen
    exact hs.join_found hc hen
  · rename_i hen
    exact hs.join_new hc hen

/-- **The last caller of a key erases its entry**, and no other does. -/
theorem Inv.leave (hs : Inv s) (hc : s.place c = some p) (hlv : p.leaving = true) :
    Inv (s.leave c p.key) := by
  have hen := hs.placed c p hc
  obtain ⟨l, hl, hlen, -⟩ := hs.counted p.key p.entry hen
  have hm : c ∈ l := (hl.2 c).mpr ⟨p, hc, rfl⟩
  have hph : ∀ entry, s.phaseIn entry c = .idle := by
    intro entry
    unfold phaseIn
    rw [hc]
    dsimp only
    rw [hs.left c p hc hlv, ite_self]
  -- the callers of the key that stay
  have hr : ∀ d, d ∈ l.erase c ↔ ∃ q, update s.place c none d = some q ∧ q.key = p.key := by
    intro d
    rw [hl.1.mem_erase_iff, hl.2 d]
    by_cases hd : d = c
    · rw [hd, update_self]
      exact iff_of_false (fun h => h.1 rfl) fun ⟨q, hq, _⟩ => (by cases hq)
    · rw [update_of_ne hd]
      exact and_iff_right hd
  have her : (l.erase c).length = (s.heap p.entry).users - 1 := by
    rw [length_erase_of_mem hm, hlen]
  unfold State.leave
  rw [hen]
  have hkp : ∀ key' entry',
      (if (s.heap p.entry).users = 1 then update s.entries p.key none else s.entries) key'
        = some entry' →
      s.entries key' = some entry' ∧ (key' = p.key → (s.heap p.entry).users ≠ 1) := by
    intro key' entry' h
    split_ifs at h with hu
    · by_cases hk : key' = p.key
      · rw [hk, update_self] at h
        cases h
      · rw [update_of_ne hk] at h
        exact ⟨h, fun heq => absurd heq hk⟩
    · exact ⟨h, fun _ => hu⟩
  refine ⟨?_, ?_, ?_, ?_, ?_, ?_, ?_⟩
  · intro key' entry' h
    exact hs.allocated key' entry' (hkp key' entry' h).1
  · intro key₁ key₂ entry' h₁ h₂
    exact hs.injective key₁ key₂ entry' (hkp key₁ entry' h₁).1 (hkp key₂ entry' h₂).1
  · intro d q hd
    obtain ⟨-, hq⟩ | ⟨hne, hq⟩ := place_update_cases hd
    · cases hq
    dsimp only
    have hold := hs.placed d q hq
    split_ifs with hu
    · have hk : q.key ≠ p.key := by
        intro heq
        have hd' : d ∈ l.erase c := (hl.1.mem_erase_iff).mpr ⟨hne, (hl.2 d).mpr ⟨q, hq, heq⟩⟩
        have hn : l.erase c = [] := by
          rw [← length_eq_zero_iff, her, hu]
        rw [hn] at hd'
        cases hd'
      rw [update_of_ne hk]
      exact hold
    · exact hold
  · intro key' entry' h
    obtain ⟨hold, hu⟩ := hkp key' entry' h
    by_cases hk : key' = p.key
    · subst hk
      obtain rfl : p.entry = entry' := Option.some.inj (hen.symm.trans hold)
      refine ⟨l.erase c, ⟨hl.1.erase c, hr⟩, ?_, ?_⟩
      · dsimp only
        rw [update_self, her]
      intro hn
      have hpos := length_pos_of_mem hm
      have ho := hu rfl
      rw [hn] at her
      have hz : 0 = (s.heap p.entry).users - 1 := her
      omega
    · have hne : entry' ≠ p.entry := fun heq =>
        hk (hs.injective key' p.key p.entry (heq ▸ hold) hen)
      obtain ⟨l', hl', hlen', hne'⟩ := hs.counted key' entry' hold
      refine ⟨l', ⟨hl'.1, ?_⟩, ?_, hne'⟩
      · intro d
        rw [hl'.2 d]
        dsimp only
        by_cases hd : d = c
        · rw [hd, update_self, hc]
          refine iff_of_false (fun ⟨q, hq, hqk⟩ => ?_) fun ⟨q, hq, _⟩ => (by cases hq)
          cases hq
          exact hk hqk.symm
        · rw [update_of_ne hd]
      · dsimp only
        rw [update_of_ne hne]
        exact hlen'
  · refine hs.locks_of_same ?_ ?_
    · intro e
      by_cases he : e = p.entry
      · rw [he]
        dsimp only
        rw [update_self]
      · dsimp only
        rw [update_of_ne he]
    · intro e d
      exact phaseIn_update e (fun q hq => by cases hq) (hph e) d rfl
  · intro e he
    have hlt := hs.allocated p.key p.entry hen
    dsimp only at he ⊢
    rw [update_of_ne (by omega)]
    exact hs.fresh e he
  · intro d q hd hq
    obtain ⟨-, hp⟩ | ⟨-, hp⟩ := place_update_cases hd
    · cases hp
    · exact hs.left d q hp hq

/-! ## The locks of the entries -/

omit [DecidableEq C] in
/-- The callers of every key are the same when only phases change. -/
theorem Inv.counted_of_same (hs : Inv s) (hens : s'.entries = s.entries)
    (hky : ∀ d, (s'.place d).map Place.key = (s.place d).map Place.key)
    (hu : ∀ entry, (s'.heap entry).users = (s.heap entry).users) (key : Key) (entry : ℕ)
    (h : s'.entries key = some entry) :
    ∃ l, Users s' key l ∧ l.length = (s'.heap entry).users ∧ l ≠ [] := by
  rw [hens] at h
  obtain ⟨l, hl, hlen, hne⟩ := hs.counted key entry h
  refine ⟨l, ⟨hl.1, fun d => ?_⟩, hlen.trans (hu entry).symm, hne⟩
  rw [hl.2 d]
  have hd := hky d
  constructor
  · rintro ⟨q, hq, rfl⟩
    rw [hq] at hd
    obtain ⟨q', hq', hk⟩ := map_eq_some_iff.mp hd
    exact ⟨q', hq', hk⟩
  · rintro ⟨q, hq, rfl⟩
    rw [hq] at hd
    obtain ⟨q', hq', hk⟩ := map_eq_some_iff.mp hd.symm
    exact ⟨q', hq', hk⟩

/-- The lock of the entry takes its step, and the others stay as they are. -/
theorem Inv.system_lockStep (hs : Inv s) (hc : s.place c = some p) (event : LockEvent) (entry : ℕ) :
    (s.lockStep threads c p.entry event).system entry
      = if entry = p.entry then (s.system entry).step threads c event else s.system entry := by
  have hmv := moves_step threads (s.system p.entry) c event
  split_ifs with he
  · subst he
    have hph : (s.lockStep threads c p.entry event).phaseIn p.entry
        = ((s.system p.entry).step threads c event).phase := by
      funext d
      unfold phaseIn lockStep
      dsimp only
      cases hd : s.place d with
      | none =>
        have hne : d ≠ c := by
          rintro rfl
          rw [hc] at hd
          cases hd
        exact ((hs.locks p.entry).phase_of_idle hmv hne (phaseIn_of_none hd _)).symm
      | some q =>
        dsimp only [map_some]
        by_cases hq : q.entry = p.entry
        · rw [if_pos hq]
          exact if_pos hq
        rw [if_neg hq, if_neg hq]
        have hne : d ≠ c := by
          rintro rfl
          rw [hc] at hd
          cases hd
          exact hq rfl
        have hid : (s.system p.entry).phase d = .idle := by
          show s.phaseIn p.entry d = .idle
          unfold phaseIn
          rw [hd]
          exact if_neg hq
        exact ((hs.locks p.entry).phase_of_idle hmv hne hid).symm
    unfold system at hph ⊢
    rw [hph]
    unfold lockStep
    dsimp only
    rw [update_self]
    rfl
  · have hph : (s.lockStep threads c p.entry event).phaseIn entry = s.phaseIn entry := by
      funext d
      unfold phaseIn lockStep
      dsimp only
      cases hd : s.place d with
      | none => rfl
      | some q =>
        dsimp only [map_some]
        by_cases hq : q.entry = p.entry
        · rw [if_pos hq]
          rw [hq, if_neg (Ne.symm he), if_neg (Ne.symm he)]
        · rw [if_neg hq]
    unfold system
    rw [hph]
    unfold lockStep
    dsimp only
    rw [update_of_ne he]

variable {event : LockEvent}

/-- The key and the entry of a caller stay the same. -/
theorem place_lockStep (h : (s.lockStep threads c entry event).place d = some q) :
    ∃ q₀, s.place d = some q₀ ∧ q.key = q₀.key ∧ q.entry = q₀.entry
      ∧ (q = q₀ ∨ (q₀.entry = entry
        ∧ q.phase = ((s.system entry).step threads c event).phase d
        ∧ q.leaving = (q₀.leaving || (d = c && finishes event q₀.phase q.phase)))) := by
  unfold lockStep at h
  obtain ⟨q₀, hq₀, rfl⟩ := map_eq_some_iff.mp h
  refine ⟨q₀, hq₀, ?_⟩
  by_cases he : q₀.entry = entry
  · rw [if_pos he]
    exact ⟨rfl, rfl, .inr ⟨he, rfl, rfl⟩⟩
  · rw [if_neg he]
    exact ⟨rfl, rfl, .inl rfl⟩

/-- A caller that is done with the lock is idle in it. -/
theorem idle_of_finishes {system : LockSystem C} (hs : system.Inv)
    (h : finishes event (system.phase c) ((system.step threads c event).phase c) = true) :
    (system.step threads c event).phase c = .idle := by
  unfold finishes at h
  simp only [Bool.or_eq_true, Bool.and_eq_true, decide_eq_true_eq] at h
  obtain ⟨rfl, hh⟩ | ⟨-, hid⟩ := h
  · unfold LockSystem.step
    rw [if_pos hh]
    exact hs.release_phase hh
  · exact hid

/-- A step of the lock of a caller's entry. -/
theorem Inv.lockStep (hs : Inv s) (hc : s.place c = some p) (hlv : p.leaving = false)
    (event : LockEvent) : Inv (s.lockStep threads c p.entry event) := by
  have hlk := hs.locks p.entry
  have hmv := LockSystem.moves_step threads (s.system p.entry) c event
  refine ⟨hs.allocated, hs.injective, ?_, ?_, ?_, ?_, ?_⟩
  · intro d q hd
    obtain ⟨q₀, hq₀, hk, hen, -⟩ := place_lockStep hd
    rw [hk, hen]
    exact hs.placed d q₀ hq₀
  · refine hs.counted_of_same rfl ?_ ?_
    · intro d
      cases hd : (s.lockStep threads c p.entry event).place d with
      | none =>
        have := Option.map_eq_none_iff.mp hd
        rw [this]
      | some q =>
        obtain ⟨q₀, hq₀, hk, -⟩ := place_lockStep hd
        rw [hq₀]
        exact congrArg some hk
    · intro entry
      unfold State.lockStep
      dsimp only
      by_cases he : entry = p.entry
      · rw [he, update_self]
      · rw [update_of_ne he]
  · intro entry
    rw [hs.system_lockStep hc]
    split
    · exact (hs.locks entry).step event
    · exact hs.locks entry
  · intro entry he
    have hlt := hs.allocated p.key p.entry (hs.placed c p hc)
    unfold State.lockStep at he ⊢
    dsimp only at he ⊢
    rw [update_of_ne (by omega)]
    exact hs.fresh entry he
  · intro d q hd hq
    obtain ⟨q₀, hq₀, -, -, rfl | ⟨hen, hph, hl⟩⟩ := place_lockStep hd
    · exact hs.left d q hq₀ hq
    have hb : (s.system p.entry).phase d = q₀.phase := hen ▸ phaseIn_of_place hq₀
    rw [hph]
    by_cases hdc : d = c
    · subst hdc
      obtain rfl : p = q₀ := Option.some.inj (hc.symm.trans hq₀)
      rw [hq, hlv, decide_eq_true rfl, Bool.false_or, Bool.true_and, hph,
        ← hb] at hl
      exact idle_of_finishes hlk hl.symm
    · rw [hq, decide_eq_false hdc, Bool.false_and, Bool.or_false] at hl
      refine hlk.phase_of_idle hmv hdc ?_
      rw [hb]
      exact hs.left d q₀ hq₀ hl.symm

/-- A caller fails before it has taken the lock or queued for it. -/
theorem Inv.fail (hs : Inv s) (hc : s.place c = some p) (hr : p.phase.requested = false) :
    Inv { s with place := update s.place c (some { p with phase := .idle, leaving := true }) } := by
  refine ⟨hs.allocated, hs.injective, ?_, ?_, ?_, hs.fresh, ?_⟩
  · intro d q hd
    obtain ⟨-, hq⟩ | ⟨-, hq⟩ := place_update_cases hd
    · cases hq
      exact hs.placed c p hc
    · exact hs.placed d q hq
  · refine hs.counted_of_same rfl ?_ fun _ => rfl
    intro d
    dsimp only
    by_cases hd : d = c
    · rw [hd, update_self, hc]
      rfl
    · rw [update_of_ne hd]
  · intro entry
    have hsystem : State.system { s with
        place := update s.place c (some { p with phase := .idle, leaving := true }) } entry
        = if entry = p.entry then (s.system entry).moveTo c .idle else s.system entry := by
      have hot : ∀ d, d ≠ c → phaseIn { s with
          place := update s.place c (some { p with phase := .idle, leaving := true }) }
            entry d = s.phaseIn entry d := by
        intro d hd
        unfold phaseIn
        dsimp only
        rw [update_of_ne hd]
      have hsl : phaseIn { s with
          place := update s.place c (some { p with phase := .idle, leaving := true }) }
            entry c = .idle := by
        unfold phaseIn
        dsimp only
        rw [update_self]
        exact ite_self _
      split_ifs with he
      · unfold system moveTo
        congr 1
        funext d
        by_cases hd : d = c
        · rw [hd, hsl, update_self]
        · rw [hot d hd, update_of_ne hd]
      · unfold system
        congr 1
        funext d
        by_cases hd : d = c
        · rw [hd, hsl]
          unfold phaseIn
          rw [hc]
          exact (if_neg (Ne.symm he)).symm
        · exact hot d hd
    rw [hsystem]
    split_ifs with he
    · have hph : (s.system entry).phase c = p.phase := he ▸ phaseIn_of_place hc
      refine (hs.locks entry).moveTo ?_ ?_ nofun
      · rw [hph, not_owns_of_not_requested hr]
        rfl
      · rw [hph]
        exact ne_queued_of_not_requested hr
    · exact hs.locks entry
  · intro d q hd hlv
    obtain ⟨-, hq⟩ | ⟨-, hq⟩ := place_update_cases hd
    · cases hq
      rfl
    · exact hs.left d q hq hlv

/-! ## Every interleaving -/

/-- Every step of a caller keeps the invariant. -/
theorem Inv.step (hs : Inv s) (event : Event) : Inv (s.step threads c event) := by
  unfold State.step
  split
  · rename_i key hc
    exact hs.join hc key
  · rename_i p event hc
    split_ifs with hg
    · exact hs
    · rw [Bool.or_eq_true, not_or, Bool.not_eq_true] at hg
      exact hs.lockStep hc hg.1 event
  · rename_i p hc
    split_ifs with hg
    · exact hs
    · simp only [Bool.or_eq_true, not_or, Bool.not_eq_true] at hg
      exact hs.fail hc hg.2
  · rename_i p hc
    split_ifs with hlv
    · exact hs.leave hc hlv
    · exact hs
  · exact hs

theorem inv_run (threads : Bool) (events : List (C × Event)) : Inv (State.run threads events) := by
  have hf : ∀ (events : List (C × Event)) (s : State C), Inv s →
      Inv (events.foldl (fun s e => s.step threads e.1 e.2) s) := by
    intro events
    induction events with
    | nil => exact fun s hs => hs
    | cons e events ih => exact fun s hs => ih _ (hs.step e.2)
  exact hf events {} inv_default

omit [DecidableEq C] in
/-- The table has an entry for a key exactly while a caller holds it, waits for
it or is leaving it. -/
theorem Inv.entries_isSome_iff (hs : Inv s) (key : Key) :
    (s.entries key).isSome = true ↔ ∃ c, s.Uses c key ∨ s.Leaves c key := by
  constructor
  · intro h
    obtain ⟨entry, hen⟩ := isSome_iff_exists.mp h
    obtain ⟨l, hl, -, hne⟩ := hs.counted key entry hen
    obtain ⟨c, hc⟩ := exists_mem_of_ne_nil l hne
    obtain ⟨p, hp, hk⟩ := (hl.2 c).mp hc
    cases hlv : p.leaving with
    | false => exact ⟨c, .inl ⟨p, hp, hk, hlv⟩⟩
    | true => exact ⟨c, .inr ⟨p, hp, hk, hlv⟩⟩
  · rintro ⟨c, ⟨p, hp, rfl, -⟩ | ⟨p, hp, rfl, -⟩⟩
    all_goals
      rw [hs.placed c p hp]
      rfl

omit [DecidableEq C] in
/-- Callers of one key share one entry. -/
theorem Inv.entry_eq (hs : Inv s) (hc : s.place c = some p) (hd : s.place d = some q)
    (hk : p.key = q.key) : p.entry = q.entry := by
  have hp := hs.placed c p hc
  rw [hk, hs.placed d q hd] at hp
  exact (Option.some.inj hp).symm

omit [DecidableEq C] in
/-- **Two callers never hold one key.** -/
theorem Inv.eq_of_holds (hs : Inv s) (hc : s.Holds c key) (hd : s.Holds d key) : c = d := by
  obtain ⟨p, hp, hpkey, hpholds⟩ := hc
  obtain ⟨q, hq, hqkey, hqholds⟩ := hd
  have hen := hs.entry_eq hp hq (hpkey.trans hqkey.symm)
  refine (hs.locks p.entry).unique c d ?_ ?_
  · show (s.phaseIn p.entry c).owns = true
    rw [phaseIn_of_place hp, hpholds]
    rfl
  · show (s.phaseIn p.entry d).owns = true
    rw [hen, phaseIn_of_place hq, hqholds]
    rfl

end KeyedOperationLock

/-- **Operation locks exclude, keep order and are never lost.** For every
interleaving of the events of one lock, at most one caller holds it or has been
granted it, one does unless it is free, and then nobody waits; a release with
waiters grants it to the one that waits longest; grants follow the order of the
requests, and while a caller is queued only those ahead of it are granted the
lock. For every interleaving of the events of a keyed lock, the table has the
keys that a caller holds, waits for or is leaving, the callers of a key share
the lock of one entry, and two of them never hold it. -/
theorem operationLocks_safe {C : Type} [DecidableEq C] (threads : Bool) :
    (∀ events : List (C × LockEvent),
      let s : LockSystem C := LockSystem.run threads {} events
      (∀ c d, (s.phase c).owns = true → (s.phase d).owns = true → c = d)
      ∧ (s.lock.locked = true ↔ ∃ c, (s.phase c).owns = true)
      ∧ (s.lock.locked = false → ∀ c, s.phase c ≠ .queued)
      ∧ (∀ c, c ∈ s.lock.queue ↔ s.phase c = .queued)
      ∧ arrivals threads {} events
          = grants threads {} events ++ s.lock.queue
      ∧ (∀ c next queue, s.phase c = .holds → s.lock.queue = next :: queue →
          (s.step threads c .unlock).lock = { locked := true, queue := queue }
          ∧ (s.step threads c .unlock).phase next = .granted
          ∧ ∀ d, d ≠ next → ((s.step threads c .unlock).phase d).owns = false)
      ∧ ∀ c more, s.phase c = .queued → c ∉ s.grants threads more →
          s.grants threads more <+: s.lock.queue.takeWhile (· ≠ c))
    ∧ ∀ events : List (C × KeyedOperationLock.Event),
      let s := KeyedOperationLock.State.run threads events
      (∀ key, (s.entries key).isSome = true ↔ ∃ c, s.Uses c key ∨ s.Leaves c key)
      ∧ (∀ c d p q, s.place c = some p → s.place d = some q → p.key = q.key → p.entry = q.entry)
      ∧ ∀ c d key, s.Holds c key → s.Holds d key → c = d := by
  constructor
  · intro events s
    have hs : s.Inv := LockSystem.inv_default.run events
    refine ⟨hs.unique, hs.owned, ?_, hs.mem_queue, ?_, ?_, ?_⟩
    · intro hfr c hc
      have hm := (hs.mem_queue c).mpr hc
      rw [hs.free hfr] at hm
      exact absurd hm not_mem_nil
    · exact queue_append_arrivals LockSystem.inv_default events
    · intro c next queue hh hq
      have hst : s.step threads c .unlock = s.release c := if_pos hh
      rw [hst]
      obtain ⟨hlock, hnx, -⟩ := hs.release_cons hh hq
      refine ⟨hlock, hnx, fun d hd => ?_⟩
      have hr : (s.release c).Inv := hs.moves (moves_release hh)
      rw [Bool.eq_false_iff]
      refine fun how => hd (hr.unique d next how ?_)
      rw [hnx]
      rfl
    · intro c more hc hw
      exact grants_ahead hs hc more hw
  · intro events s
    have hs : KeyedOperationLock.Inv s := KeyedOperationLock.inv_run threads events
    refine ⟨hs.entries_isSome_iff, ?_, ?_⟩
    · intro c d p q hc hd hk
      exact hs.entry_eq hc hd hk
    · intro c d key hc hd
      exact hs.eq_of_holds hc hd

namespace KeyedOperationLock

/-- The events of one caller up to the moment at which it has released the lock
of a key and is still in the table. -/
def releasedEvents (key : Key) : List (ℕ × Event) :=
  [(0, .join key), (0, .lock .lockAsync), (0, .lock .unlock)]

/-- Between the release of a lock and the leaving of the table a key is in the
table that nobody holds or waits for. -/
theorem entry_without_use :
    ∃ (events : List (ℕ × Event)) (key : Key),
      ((State.run true events).entries key).isSome = true
      ∧ ¬∃ c, (State.run true events).Uses c key := by
  refine ⟨releasedEvents ⟨"", "", ""⟩, ⟨"", "", ""⟩, by decide, ?_⟩
  rintro ⟨c, p, hp, hk, hlv⟩
  have hz : (State.run true (releasedEvents ⟨"", "", ""⟩)).place 0
      = some { key := ⟨"", "", ""⟩, entry := 0, phase := .idle, leaving := true } := by decide
  -- the entry counts one user, so the caller is the one that is leaving
  obtain ⟨l, hl, hlen, -⟩ :=
    (inv_run true (releasedEvents ⟨"", "", ""⟩)).counted ⟨"", "", ""⟩ 0 (by decide)
  have ho : l.length = 1 := hlen.trans (by decide)
  obtain ⟨d, rfl⟩ := length_eq_one_iff.mp ho
  have hc := mem_singleton.mp ((hl.2 c).mpr ⟨p, hp, hk⟩)
  have hd := mem_singleton.mp ((hl.2 0).mpr ⟨_, hz, rfl⟩)
  rw [hc, ← hd, hz] at hp
  cases hp
  cases hlv

end KeyedOperationLock

end NeoGraph.Program
