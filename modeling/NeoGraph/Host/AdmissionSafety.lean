import NeoGraph.Host.Admission
import NeoGraph.Lib.Selection

/-!
# Host admission neither over-commits nor idles

What a controller has reserved is the exact sum of its live reservations as
long as no sum saturates, and none does when every profile leaves less than the
largest quantity of each resource available: a sum that fits such a capacity is
exact. `HostAdmissionController.Core` is what then holds of every state, and
`HostAdmissionController.Idle` what holds besides when a scheduling is done.

A profile with the largest quantity of a resource available lets the sum
saturate and still fit (`HostAdmissionController.admits_iff`).
-/

namespace NeoGraph.Host

open SortedMap List HostResourceProfile Nat Option

/-- Less than the largest quantity of each resource is available. -/
def HostResourceProfile.Bounded (p : HostResourceProfile) : Prop :=
  ∀ r, p.availableCapacity r ≠ maxComponent

variable {p : HostResourceProfile}

theorem HostResourceProfile.Bounded.lt (h : p.Bounded)
    (r : HostResource) : (p.availableCapacity r).toNat < 2 ^ 64 - 1 := by
  have hne : (p.availableCapacity r).toNat ≠ 2 ^ 64 - 1 := by
    intro heq
    exact h r (BitVec.eq_of_toNat_eq (heq.trans toNat_maxComponent.symm))
  have hlt := (p.availableCapacity r).isLt
  omega

theorem HostResourceProfile.Bounded.scaled (h : p.Bounded) {percent : ℕ}
    (hp : percent ≤ 100) : (p.scaledAvailable percent).Bounded := by
  intro r heq
  have hle := p.availableCapacity_scaledAvailable_le hp r
  have hlt := h.lt r
  rw [heq, toNat_maxComponent] at hle
  omega

namespace HostAdmissionController

variable {cfg : HostAdmissionControllerConfig} {s s' : HostAdmissionController}

/-- The exact sum of the live reservations. -/
def live (s : HostAdmissionController) (r : HostResource) : ℕ :=
  s.reservations.sumBy fun _ v => (v r).toNat

/-- A request fits into what is left of the capacity, by exact sums. -/
def Fits (s : HostAdmissionController) (requested : HostResourceVector) : Prop :=
  ∀ r, s.live r + (requested r).toNat ≤ (s.profile.availableCapacity r).toNat

/-- **What holds of every state.** -/
structure Core (s : HostAdmissionController) : Prop where
  base_bounded : s.baseProfile.Bounded
  bounded : s.profile.Bounded
  percent : s.pressureScalePercent ≤ 100
  exact : ∀ r, (s.reserved r).toNat = s.live r
  nodup : s.waiters.Nodup
  queued : ∀ sequence, sequence ∈ s.waiters ↔
    ∃ w, s.heap.find? sequence = some w ∧ w.state = .queued
  sequences : ∀ sequence w, s.heap.find? sequence = some w → sequence < s.nextSequence
  ids : ∀ id v, s.reservations.find? id = some v → 0 < id ∧ id < s.nextReservationId
  next_pos : 0 < s.nextReservationId
  reservation : ∀ sequence w, s.heap.find? sequence = some w →
    w.reservationId < s.nextReservationId ∧ (w.state = .queued → w.reservationId = 0)
  cancelled : ∀ sequence w, s.heap.find? sequence = some w → w.state = .cancelled →
    s.reservations.find? w.reservationId = none

/-- No queued request fits. -/
def Idle (s : HostAdmissionController) : Prop :=
  ∀ sequence ∈ s.waiters, ∀ w, s.heap.find? sequence = some w → ¬s.Fits w.request.resources

/-- **What never comes back**: numbers of reservations are not used again, and a
waiter that is claimed or cancelled stays so. -/
structure Later (s s' : HostAdmissionController) : Prop where
  next_le : s.nextReservationId ≤ s'.nextReservationId
  old : ∀ id v, id < s.nextReservationId → s'.reservations.find? id = some v →
    s.reservations.find? id = some v
  ended : ∀ sequence w, s.heap.find? sequence = some w →
    w.state = .claimed ∨ w.state = .cancelled → s'.heap.find? sequence = some w

theorem Later.refl (s : HostAdmissionController) : Later s s :=
  ⟨le_rfl, fun _ _ _ h => h, fun _ _ h _ => h⟩

theorem Later.trans {s'' : HostAdmissionController} (h : Later s s') (h' : Later s' s'') :
    Later s s'' where
  next_le := h.next_le.trans h'.next_le
  old id v hid hlv := h.old id v hid (h'.old id v (hid.trans_le h.next_le) hlv)
  ended sequence w hw he := h'.ended sequence w (h.ended sequence w hw he) he

/-- **What is right about a grant**: the exact sum stays within the capacity, and
a waiter that is granted fits, has the highest priority of those that fit, and
is the earliest of these. -/
structure GoodGrant (cfg : HostAdmissionControllerConfig) (g : Grant) : Prop where
  within : ∀ r, g.after.live r ≤ (g.after.profile.availableCapacity r).toNat
  chosen : ∀ sequence, g.waiter = some sequence → sequence ∈ g.before.waiters ∧
    ∃ w, g.before.heap.find? sequence = some w ∧ g.before.Fits w.request.resources
      ∧ ∀ other ∈ g.before.waiters, ∀ w', g.before.heap.find? other = some w' →
        g.before.Fits w'.request.resources →
        effectivePriority cfg w' g.now ≤ effectivePriority cfg w g.now
          ∧ (effectivePriority cfg w' g.now = effectivePriority cfg w g.now → sequence ≤ other)

/-! ## Sums that do not saturate -/

theorem Core.toNat_saturatingAdd (hs : s.Core) (v : HostResourceVector) (r : HostResource) :
    (s.reserved.saturatingAdd v r).toNat = min (2 ^ 64 - 1) (s.live r + (v r).toNat) := by
  show (saturatingComponentAdd _ _).toNat = _
  rw [toNat_saturatingComponentAdd, hs.exact r]

/-- The check of the code is the exact one. -/
theorem Core.fits_iff (hs : s.Core) (v : HostResourceVector) : s.fits v = true ↔ s.Fits v := by
  unfold fits Fits
  rw [fitsWithin_iff]
  refine forall_congr' fun r => ?_
  rw [hs.toNat_saturatingAdd]
  have hlt := hs.bounded.lt r
  omega

variable {v : HostResourceVector}

theorem live_insert (hs : s.Core) (r : HostResource) :
    (s.reserve v).live r = s.live r + (v r).toNat := by
  have hn : s.reservations.find? s.nextReservationId = none := by
    cases h : s.reservations.find? s.nextReservationId with
    | none => rfl
    | some w => exact absurd (hs.ids _ w h).2 (lt_irrefl _)
  have hsm := sumBy_insert s.reservations s.nextReservationId v fun _ v => (v r).toNat
  rw [hn] at hsm
  exact hsm

/-- A reservation that fits is added exactly. -/
theorem Core.exact_reserve (hs : s.Core) (hft : s.Fits v) (r : HostResource) :
    ((s.reserve v).reserved r).toNat = (s.reserve v).live r := by
  have hle := hft r
  have hlt := hs.bounded.lt r
  rw [live_insert hs]
  show (s.reserved.saturatingAdd v r).toNat = _
  rw [hs.toNat_saturatingAdd]
  omega

theorem find?_reserve {id : ℕ} (hid : id < s.nextReservationId) :
    (s.reserve v).reservations.find? id = s.reservations.find? id :=
  find?_insert_of_ne _ hid.ne v

/-- A request that fits is reserved. -/
theorem Core.reserve (hs : s.Core) (hft : s.Fits v) :
    (s.reserve v).Core ∧ Later s (s.reserve v) := by
  refine ⟨⟨hs.base_bounded, hs.bounded, hs.percent, hs.exact_reserve hft, hs.nodup, hs.queued,
    hs.sequences, ?_, succ_pos _, ?_, ?_⟩, ⟨le_succ _, ?_, fun _ _ h _ => h⟩⟩
  · intro id w hw
    by_cases hid : id = s.nextReservationId
    · rw [hid]
      exact ⟨hs.next_pos, lt_succ_self _⟩
    have hold : s.reservations.find? id = some w := by
      rw [← hw]
      exact (find?_insert_of_ne _ hid v).symm
    obtain ⟨hp, hlt⟩ := hs.ids id w hold
    exact ⟨hp, lt_succ_of_lt hlt⟩
  · intro sequence w hw
    obtain ⟨hlt, hqd⟩ := hs.reservation sequence w hw
    exact ⟨lt_succ_of_lt hlt, hqd⟩
  · intro sequence w hw hc
    rw [find?_reserve (hs.reservation sequence w hw).1]
    exact hs.cancelled sequence w hw hc
  · intro id w hid hw
    rw [find?_reserve hid] at hw
    exact hw

/-! ## The waiter that is selected -/

/-- A waiter that may be granted. -/
def Candidate (s : HostAdmissionController) (sequence : ℕ) (w : Waiter) : Prop :=
  s.heap.find? sequence = some w ∧ w.state = .queued ∧ s.fits w.request.resources = true

variable {now : ℤ}

/-- The priority of a waiter, if it may be granted. -/
def score (cfg : HostAdmissionControllerConfig) (s : HostAdmissionController) (now : ℤ)
    (sequence : ℕ) : Option ℕ :=
  match s.heap.find? sequence with
  | none => none
  | some w =>
    if w.state ≠ .queued || !s.fits w.request.resources then none
    else some (effectivePriority cfg w now)

theorem consider_eq : s.consider cfg now = keepBetter (s.score cfg now) := by
  funext selected sequence
  unfold consider keepBetter score
  cases s.heap.find? sequence with
  | none => rfl
  | some w =>
    dsimp only
    split
    · rfl
    · cases selected <;> simp

variable {sequence priority : ℕ}

theorem score_eq_some : s.score cfg now sequence = some priority
    ↔ ∃ w, s.Candidate sequence w ∧ effectivePriority cfg w now = priority := by
  unfold score Candidate
  cases s.heap.find? sequence with
  | none => simp
  | some w => simp [and_assoc]

theorem select_eq_none (h : s.select cfg now = none) (hm : sequence ∈ s.waiters) (w : Waiter) :
    ¬s.Candidate sequence w := by
  have hk := kept_foldl (s.score cfg now) s.waiters
  unfold select at h
  rw [map_eq_none_iff, consider_eq] at h
  rw [h] at hk
  exact fun hw => some_ne_none _ ((score_eq_some.mpr ⟨w, hw, rfl⟩).symm.trans (hk sequence hm))

theorem select_eq_some (h : s.select cfg now = some sequence) :
    sequence ∈ s.waiters ∧ ∃ w, s.Candidate sequence w
      ∧ ∀ other ∈ s.waiters, ∀ w', s.Candidate other w' →
        effectivePriority cfg w' now ≤ effectivePriority cfg w now
          ∧ (effectivePriority cfg w' now = effectivePriority cfg w now → sequence ≤ other) := by
  have hk := kept_foldl (s.score cfg now) s.waiters
  unfold select at h
  rw [map_eq_some_iff, consider_eq] at h
  obtain ⟨⟨chosen, priority⟩, hchosen, rfl⟩ := h
  rw [hchosen] at hk
  obtain ⟨hm, hscore, ha⟩ := hk
  obtain ⟨w, hw, rfl⟩ := score_eq_some.mp hscore
  exact ⟨hm, w, hw, fun other hot w' hw' => ha other hot _
    (score_eq_some.mpr ⟨w', hw', rfl⟩)⟩

/-! ## A waiter that leaves the queue -/

/-- A waiter that is queued or granted moves on. -/
def replace (s : HostAdmissionController) (sequence : ℕ) (w : Waiter) : HostAdmissionController :=
  { s with waiters := s.waiters.erase sequence, heap := s.heap.insert sequence w }

theorem find?_replace (sequence other : ℕ) (w : Waiter) : (s.replace sequence w).heap.find? other
      = if other = sequence then some w else s.heap.find? other :=
  find?_insert s.heap sequence other w

/-- What a waiter that moves on has to satisfy. -/
structure MovesOn (s : HostAdmissionController) (w w' : Waiter) : Prop where
  before : w.state = .queued ∨ w.state = .granted
  after : w'.state ≠ .queued
  reservation : w'.reservationId < s.nextReservationId
  cancelled : w'.state = .cancelled → s.reservations.find? w'.reservationId = none

variable {w : Waiter}

/-- A waiter that moves on. -/
theorem Core.replace (hs : s.Core) {w' : Waiter} (hw : s.heap.find? sequence = some w)
    (hmv : MovesOn s w w') : (s.replace sequence w').Core ∧ Later s (s.replace sequence w') := by
  have hcs : ∀ other v, (s.replace sequence w').heap.find? other = some v →
      (other = sequence ∧ v = w') ∨ (other ≠ sequence ∧ s.heap.find? other = some v) := by
    intro other v hv
    rw [find?_replace] at hv
    split_ifs at hv with heq
    · exact .inl ⟨heq, (Option.some.inj hv).symm⟩
    · exact .inr ⟨heq, hv⟩
  refine ⟨⟨hs.base_bounded, hs.bounded, hs.percent, hs.exact, hs.nodup.erase sequence,
    ?_, ?_, hs.ids,
    hs.next_pos, ?_, ?_⟩, ⟨le_rfl, fun _ _ _ h => h, ?_⟩⟩
  · intro other
    show other ∈ s.waiters.erase sequence ↔ _
    rw [hs.nodup.mem_erase_iff, hs.queued other]
    constructor
    · rintro ⟨hne, v, hv, hqd⟩
      refine ⟨v, ?_, hqd⟩
      rw [find?_replace, if_neg hne]
      exact hv
    · rintro ⟨v, hv, hqd⟩
      obtain ⟨-, rfl⟩ | ⟨hne, hold⟩ := hcs other v hv
      · exact absurd hqd hmv.after
      · exact ⟨hne, v, hold, hqd⟩
  · intro other v hv
    obtain ⟨rfl, -⟩ | ⟨-, hold⟩ := hcs other v hv
    · exact hs.sequences other w hw
    · exact hs.sequences other v hold
  · intro other v hv
    obtain ⟨-, rfl⟩ | ⟨-, hold⟩ := hcs other v hv
    · exact ⟨hmv.reservation, fun h => absurd h hmv.after⟩
    · exact hs.reservation other v hold
  · intro other v hv hc
    obtain ⟨-, rfl⟩ | ⟨-, hold⟩ := hcs other v hv
    · exact hmv.cancelled hc
    · exact hs.cancelled other v hold hc
  · intro other v hv he
    rw [find?_replace]
    split_ifs with heq
    · rw [heq, hw] at hv
      cases hv
      obtain h | h := hmv.before
      all_goals
        rw [h] at he
        obtain h' | h' := he
        all_goals cases h'
    · exact hv

/-- The waiters that stay in the queue are as before. -/
theorem Idle.replace (hid : s.Idle) (hs : s.Core) (sequence : ℕ) (w : Waiter) :
    (s.replace sequence w).Idle := by
  intro other hot v hv
  obtain ⟨hne, hm⟩ := hs.nodup.mem_erase_iff.mp hot
  rw [find?_replace, if_neg hne] at hv
  exact hid other hm v hv

theorem grantWaiter_eq (hw : s.heap.find? sequence = some w) :
    s.grantWaiter sequence = (s.reserve w.request.resources).replace sequence
      { w with reservationId := s.nextReservationId, state := .granted } := by
  unfold grantWaiter
  rw [hw]
  rfl

/-- **A grant keeps what holds of the state.** -/
theorem Core.grantWaiter (hs : s.Core) (hw : s.Candidate sequence w) :
    (s.grantWaiter sequence).Core ∧ Later s (s.grantWaiter sequence)
      ∧ ∀ r, (s.grantWaiter sequence).live r
        ≤ ((s.grantWaiter sequence).profile.availableCapacity r).toNat := by
  have hft := (hs.fits_iff _).mp hw.2.2
  obtain ⟨hc, hlt⟩ := hs.reserve hft
  have hmv : MovesOn (s.reserve w.request.resources) w
      { w with reservationId := s.nextReservationId, state := .granted } :=
    ⟨.inl hw.2.1, nofun, lt_succ_self _, nofun⟩
  obtain ⟨hc', hlt'⟩ := hc.replace hw.1 hmv
  rw [grantWaiter_eq hw.1]
  refine ⟨hc', hlt.trans hlt', fun r => ?_⟩
  have hsm : ((s.reserve w.request.resources).replace sequence
      { w with reservationId := s.nextReservationId, state := .granted }).live r
      = s.live r + (w.request.resources r).toNat := live_insert hs r
  rw [hsm]
  exact hft r

/-! ## Scheduling -/

/-- What a scheduling does. -/
structure Scheduled (cfg : HostAdmissionControllerConfig) (s s' : HostAdmissionController)
    (grants : List Grant) : Prop where
  core : s'.Core
  later : Later s s'
  idle : s.stopping = false → s'.Idle
  good : ∀ g ∈ grants, GoodGrant cfg g
  stopping : s'.stopping = s.stopping
  kept : ∀ sequence w, s.heap.find? sequence = some w → w.state ≠ .queued →
    s'.heap.find? sequence = some w

theorem stopping_grantWaiter (sequence : ℕ) : (s.grantWaiter sequence).stopping = s.stopping := by
  unfold grantWaiter
  split <;> rfl

theorem length_grantWaiter (hw : s.heap.find? sequence = some w) (hm : sequence ∈ s.waiters) :
    (s.grantWaiter sequence).waiters.length = s.waiters.length - 1 := by
  rw [grantWaiter_eq hw]
  exact length_erase_of_mem hm

theorem idle_of_select (hs : s.Core) (h : s.select cfg now = none) : s.Idle := by
  intro sequence hm w hw hft
  obtain ⟨w', hw', hqd⟩ := (hs.queued sequence).mp hm
  obtain rfl : w' = w := Option.some.inj (hw'.symm.trans hw)
  exact select_eq_none h hm w' ⟨hw', hqd, (hs.fits_iff _).mpr hft⟩

/-- The loop grants until the next waiter does not fit. -/
theorem scheduled_scheduleLoop (hs : s.Core) (now : ℤ) {n : ℕ} (hn : s.waiters.length ≤ n) :
    Scheduled cfg s (scheduleLoop cfg now n s).1 (scheduleLoop cfg now n s).2 := by
  induction n generalizing s with
  | zero =>
    refine ⟨hs, Later.refl s, fun _ => ?_, fun g hg => absurd hg not_mem_nil, rfl, fun _ _ h _ => h⟩
    intro sequence (hm : sequence ∈ s.waiters)
    rw [length_eq_zero_iff.mp (le_zero.mp hn)] at hm
    exact absurd hm not_mem_nil
  | succ n ih =>
    unfold scheduleLoop
    split
    · rename_i hsl
      exact ⟨hs, Later.refl s, fun _ => idle_of_select hs hsl,
        fun g hg => absurd hg not_mem_nil, rfl, fun _ _ h _ => h⟩
    · rename_i sequence hsl
      obtain ⟨hm, w, hw, hb⟩ := select_eq_some hsl
      obtain ⟨hc, hlt, hwi⟩ := hs.grantWaiter hw
      have hl := length_grantWaiter hw.1 hm
      have hr := ih hc (by omega)
      refine ⟨hr.core, hlt.trans hr.later, ?_, ?_, ?_, ?_⟩
      · intro hstp
        exact hr.idle ((stopping_grantWaiter sequence).trans hstp)
      · intro g hg
        obtain rfl | hg := mem_cons.mp hg
        · refine ⟨hwi, ?_⟩
          rintro _ ⟨⟩
          refine ⟨hm, w, hw.1, (hs.fits_iff _).mp hw.2.2, ?_⟩
          intro other hot w' hw' hft
          obtain ⟨v, hv, hqd⟩ := (hs.queued other).mp hot
          obtain rfl : v = w' := Option.some.inj (hv.symm.trans hw')
          exact hb other hot v ⟨hv, hqd, (hs.fits_iff _).mpr hft⟩
        · exact hr.good g hg
      · exact hr.stopping.trans (stopping_grantWaiter sequence)
      · intro other v hv hst
        refine hr.kept other v ?_ hst
        have hne : other ≠ sequence := by
          rintro rfl
          rw [hw.1] at hv
          cases hv
          exact hst hw.2.1
        rw [grantWaiter_eq hw.1, find?_replace, if_neg hne]
        exact hv

theorem scheduled_schedule (cfg : HostAdmissionControllerConfig) (hs : s.Core) (now : ℤ) :
    Scheduled cfg s (s.schedule cfg now).1 (s.schedule cfg now).2 := by
  unfold schedule
  split_ifs with hstp
  · refine ⟨hs, Later.refl s, fun h => ?_, fun g hg => absurd hg not_mem_nil, rfl, fun _ _ h _ => h⟩
    rw [hstp] at h
    cases h
  · exact scheduled_scheduleLoop hs now le_rfl

/-! ## The operations -/

/-- **What an operation does.** -/
structure StepOk (cfg : HostAdmissionControllerConfig) (s : HostAdmissionController)
    (result : HostAdmissionController × AdmissionOutput) : Prop where
  core : result.1.Core
  later : Later s result.1
  idle : result.1.stopping = false → result.1.Idle
  good : ∀ g ∈ result.2.grants, GoodGrant cfg g
  released : result.2.released = [] ∨ ∃ id v, result.2.released = [id]
    ∧ s.reservations.find? id = some v ∧ result.1.reservations.find? id = none

/-- The invariant of states between operations. -/
def Inv (s : HostAdmissionController) : Prop := s.Core ∧ (s.stopping = false → s.Idle)

theorem stepOk_same (hs : s.Inv) : StepOk cfg s (s, {}) :=
  ⟨hs.1, Later.refl s, hs.2, fun _ hg => absurd hg not_mem_nil, .inl rfl⟩

/-- A state that is scheduled, after a change that released nothing. -/
theorem stepOk_scheduled {t : HostAdmissionController} (ht : t.Core) (hlt : Later s t)
    (now : ℤ) : StepOk cfg s (t.scheduled cfg now []) := by
  have hs := scheduled_schedule cfg ht now
  exact ⟨hs.core, hlt.trans hs.later,
    fun h => hs.idle (hs.stopping.symm.trans h), hs.good, .inl rfl⟩

/-- A request that fits while nobody waits. -/
theorem stepOk_reserveNow (hs : s.Core) {request : HostAdmissionRequest}
    (he : s.waiters = []) (hft : s.fits request.resources = true) (now : ℤ) :
    StepOk cfg s (s.reserveNow request now) := by
  have hex := (hs.fits_iff _).mp hft
  obtain ⟨hc, hlt⟩ := hs.reserve hex
  refine ⟨hc, hlt, fun _ => ?_, ?_, .inl rfl⟩
  · intro sequence (hm : sequence ∈ s.waiters)
    rw [he] at hm
    exact absurd hm not_mem_nil
  · intro g hg
    obtain rfl := mem_singleton.mp hg
    refine ⟨fun r => ?_, fun sequence h => by cases h⟩
    show (s.reserve request.resources).live r ≤ _
    rw [live_insert hs]
    exact hex r

/-- A new waiter. -/
theorem Core.push (hs : s.Core) (request : HostAdmissionRequest) (now : ℤ) :
    (s.push request now).Core ∧ Later s (s.push request now) := by
  have hf : ∀ sequence, (s.push request now).heap.find? sequence
      = if sequence = s.nextSequence then some { request := request, submittedAt := now }
        else s.heap.find? sequence := fun sequence =>
    find?_insert s.heap s.nextSequence sequence _
  have hn : s.heap.find? s.nextSequence = none := by
    cases h : s.heap.find? s.nextSequence with
    | none => rfl
    | some w => exact absurd (hs.sequences _ w h) (lt_irrefl _)
  have hcs : ∀ sequence w, (s.push request now).heap.find? sequence = some w →
      (sequence = s.nextSequence ∧ w = { request := request, submittedAt := now })
        ∨ (sequence ≠ s.nextSequence ∧ s.heap.find? sequence = some w) := by
    intro sequence w hw
    rw [hf] at hw
    split_ifs at hw with heq
    · exact .inl ⟨heq, (Option.some.inj hw).symm⟩
    · exact .inr ⟨heq, hw⟩
  have hnot : s.nextSequence ∉ s.waiters := by
    intro hm
    obtain ⟨w, hw, -⟩ := (hs.queued _).mp hm
    rw [hn] at hw
    cases hw
  refine ⟨⟨hs.base_bounded, hs.bounded, hs.percent, hs.exact, ?_, ?_, ?_, hs.ids, hs.next_pos, ?_,
    ?_⟩, ⟨le_rfl, fun _ _ _ h => h, ?_⟩⟩
  · refine nodup_append.mpr ⟨hs.nodup, nodup_singleton _, ?_⟩
    intro a ha b hb hab
    rw [hab, mem_singleton.mp hb] at ha
    exact hnot ha
  · intro sequence
    show sequence ∈ s.waiters ++ [s.nextSequence] ↔ _
    rw [mem_append, mem_singleton, hs.queued sequence, hf]
    by_cases hseq : sequence = s.nextSequence
    · rw [if_pos hseq]
      exact iff_of_true (.inr hseq) ⟨_, rfl, rfl⟩
    · rw [if_neg hseq]
      exact or_iff_left hseq
  · intro sequence w hw
    show sequence < s.nextSequence + 1
    obtain ⟨rfl, -⟩ | ⟨-, hold⟩ := hcs sequence w hw
    · exact lt_succ_self _
    · exact lt_succ_of_lt (hs.sequences sequence w hold)
  · intro sequence w hw
    obtain ⟨-, rfl⟩ | ⟨-, hold⟩ := hcs sequence w hw
    · exact ⟨hs.next_pos, fun _ => rfl⟩
    · exact hs.reservation sequence w hold
  · intro sequence w hw hc
    obtain ⟨-, rfl⟩ | ⟨-, hold⟩ := hcs sequence w hw
    · cases hc
    · exact hs.cancelled sequence w hold hc
  · intro sequence w hw _
    rw [hf, if_neg]
    · exact hw
    · rintro rfl
      rw [hn] at hw
      cases hw

theorem stepOk_enqueue (hs : s.Inv) (request : HostAdmissionRequest) (now : ℤ) :
    StepOk cfg s (s.enqueue cfg request now) := by
  unfold enqueue
  split
  · exact stepOk_same hs
  rename_i normal _
  split
  · exact stepOk_same hs
  split
  · rename_i hfr
    rw [Bool.and_eq_true, List.isEmpty_iff] at hfr
    exact stepOk_reserveNow hs.1 hfr.1 hfr.2 now
  · split
    · exact stepOk_same hs
    · obtain ⟨hc, hlt⟩ := hs.1.push normal now
      exact stepOk_scheduled hc hlt now

theorem stepOk_tryReserve (hs : s.Inv) (request : HostAdmissionRequest) (now : ℤ) :
    StepOk cfg s (s.tryReserve cfg request now) := by
  unfold tryReserve
  split
  · exact stepOk_same hs
  split
  · exact stepOk_same hs
  split_ifs with hfr
  · exact stepOk_same hs
  · rw [Bool.or_eq_true, not_or, Bool.not_eq_true', Bool.not_eq_false, Bool.not_eq_true',
      Bool.not_eq_false, List.isEmpty_iff] at hfr
    exact stepOk_reserveNow hs.1 hfr.1 hfr.2 now

variable {state : WaiterState}

/-- A waiter that is not queued changes its state. -/
theorem setState_eq_replace (hs : s.Core)
    (hw : s.heap.find? sequence = some w) (hst : w.state ≠ .queued) :
    s.setState sequence state = s.replace sequence { w with state := state } := by
  have hn : sequence ∉ s.waiters := by
    intro hm
    obtain ⟨w', hw', hqd⟩ := (hs.queued sequence).mp hm
    rw [hw] at hw'
    cases hw'
    exact hst hqd
  unfold setState replace
  rw [hw, erase_of_not_mem hn]

theorem stepOk_claim (hs : s.Inv) (sequence : ℕ) : StepOk cfg s (s.claim sequence, {}) := by
  unfold claim
  split
  · exact stepOk_same hs
  rename_i w hw
  split_ifs with hgr
  · have hst : w.state ≠ .queued := by
      rw [hgr]
      nofun
    rw [setState_eq_replace hs.1 hw hst]
    have hmv : MovesOn s w { w with state := .claimed } :=
      ⟨.inr hgr, nofun, (hs.1.reservation sequence w hw).1, nofun⟩
    obtain ⟨hc, hlt⟩ := hs.1.replace hw hmv
    exact ⟨hc, hlt, fun h => (hs.2 h).replace hs.1 sequence _,
      fun g hg => absurd hg not_mem_nil, .inl rfl⟩
  · exact stepOk_same hs

/-- A live reservation ends. -/
theorem Core.release (hs : s.Core) {id : ℕ} (hlv : s.reservations.find? id = some v) :
    Core { s with
      reservations := s.reservations.erase id
      reserved := s.reserved.subtractClamped v } := by
  have hf : ∀ id' w, (s.reservations.erase id).find? id' = some w →
      s.reservations.find? id' = some w := by
    intro id' w hw
    rw [find?_erase] at hw
    split at hw
    · cases hw
    · exact hw
  refine ⟨hs.base_bounded, hs.bounded, hs.percent, ?_, hs.nodup, hs.queued, hs.sequences, ?_,
    hs.next_pos, hs.reservation, ?_⟩
  · intro r
    have hsm := sumBy_erase s.reservations id fun _ w => (w r).toNat
    rw [hlv, elim_some] at hsm
    have hex : (s.reserved r).toNat = s.reservations.sumBy fun _ w => (w r).toNat := hs.exact r
    show (clampedComponentSubtract _ _).toNat = (s.reservations.erase id).sumBy _
    rw [toNat_clampedComponentSubtract]
    omega
  · intro id' w hw
    exact hs.ids id' w (hf id' w hw)
  · intro sequence w hw hc
    have hn := hs.cancelled sequence w hw hc
    show (s.reservations.erase id).find? _ = none
    rw [find?_erase, hn, ite_self]

theorem later_release (s : HostAdmissionController) (id : ℕ) (v : HostResourceVector) :
    Later s { s with
      reservations := s.reservations.erase id
      reserved := s.reserved.subtractClamped v } := by
  refine ⟨le_rfl, ?_, fun _ _ h _ => h⟩
  intro id' w _ hw
  have hw' : (s.reservations.erase id).find? id' = some w := hw
  rw [find?_erase] at hw'
  split at hw'
  · cases hw'
  · exact hw'

theorem stepOk_release (cfg : HostAdmissionControllerConfig) (hs : s.Inv) (id : ℕ) (now : ℤ) :
    StepOk cfg s (s.release cfg id now)
      ∧ (s.release cfg id now).1.reservations.find? id = none
      ∧ ∀ sequence w, s.heap.find? sequence = some w → w.state ≠ .queued →
        (s.release cfg id now).1.heap.find? sequence = some w := by
  unfold release
  split
  · rename_i hn
    exact ⟨stepOk_same hs, hn, fun _ _ h _ => h⟩
  rename_i v hlv
  have hc := hs.1.release hlv
  have hsc := scheduled_schedule cfg hc now
  have hid : id < s.nextReservationId := (hs.1.ids id v hlv).2
  have hg : ((schedule cfg { s with
      reservations := s.reservations.erase id
      reserved := s.reserved.subtractClamped v } now).1).reservations.find? id = none := by
    cases h : ((schedule cfg { s with
      reservations := s.reservations.erase id
      reserved := s.reserved.subtractClamped v } now).1).reservations.find? id with
    | none => rfl
    | some w =>
      have hold : (s.reservations.erase id).find? id = some w :=
        hsc.later.old id w hid h
      rw [find?_erase, if_pos rfl] at hold
      cases hold
  exact ⟨⟨hsc.core, (later_release s id v).trans hsc.later,
    fun h => hsc.idle (hsc.stopping.symm.trans h), hsc.good,
    .inr ⟨id, v, rfl, hlv, hg⟩⟩, hg, hsc.kept⟩

theorem setState_erase_eq (hw : s.heap.find? sequence = some w) :
    setState { s with waiters := s.waiters.erase sequence } sequence state
      = s.replace sequence { w with state := state } := by
  unfold setState replace
  rw [hw]

theorem stepOk_abandon (hs : s.Inv) (sequence : ℕ) (now : ℤ) :
    StepOk cfg s (s.abandon cfg sequence now) := by
  unfold abandon
  split
  · exact stepOk_same hs
  rename_i w hw
  obtain ⟨hid, hqd⟩ := hs.1.reservation sequence w hw
  split
  · rename_i hst
    -- a queued waiter has no reservation
    have hn : s.reservations.find? w.reservationId = none := by
      rw [hqd hst]
      cases h : s.reservations.find? 0 with
      | none => rfl
      | some v => exact absurd (hs.1.ids 0 v h).1 (lt_irrefl 0)
    have hmv : MovesOn s w { w with state := .cancelled } :=
      ⟨.inl hst, nofun, hid, fun _ => hn⟩
    obtain ⟨hc, hlt⟩ := hs.1.replace hw hmv
    rw [setState_erase_eq hw]
    exact stepOk_scheduled hc hlt now
  · rename_i hst
    obtain ⟨hr, hg, hk⟩ := stepOk_release cfg hs w.reservationId now
    have hst' : w.state ≠ .queued := by
      rw [hst]
      nofun
    have hw' := hk sequence w hw hst'
    have hmv : MovesOn (s.release cfg w.reservationId now).1 w { w with state := .cancelled } :=
      ⟨.inr hst, nofun, hid.trans_le hr.later.next_le, fun _ => hg⟩
    obtain ⟨hc, hlt⟩ := hr.core.replace hw' hmv
    rw [setState_eq_replace hr.core hw' hst']
    exact ⟨hc, hr.later.trans hlt,
      fun h => (hr.idle h).replace hr.core sequence _, hr.good,
      hr.released⟩
  · exact stepOk_same hs

variable {percent : ℕ}

/-- Another profile is in force. -/
theorem Core.setProfile (hs : s.Core) {base profile : HostResourceProfile} (hb : base.Bounded)
    (hpr : profile.Bounded) (hp : percent ≤ 100) (changedAt : ℤ) : Core { s with
        baseProfile := base, profile := profile, pressureScalePercent := percent
        pressureChangedAtMs := changedAt }
      ∧ Later s { s with
        baseProfile := base, profile := profile, pressureScalePercent := percent
        pressureChangedAtMs := changedAt } :=
  ⟨⟨hb, hpr, hp, hs.exact, hs.nodup, hs.queued, hs.sequences, hs.ids, hs.next_pos,
    hs.reservation, hs.cancelled⟩, ⟨le_rfl, fun _ _ _ h => h, fun _ _ h _ => h⟩⟩

theorem bounded_effectiveProfile (hb : s.baseProfile.Bounded) (hp : percent ≤ 100) :
    (s.effectiveProfile percent).Bounded := by
  unfold effectiveProfile
  split
  · exact hb
  · exact hb.scaled hp

theorem stepOk_updateProfile (hs : s.Inv) {profile : HostResourceProfile}
    (hp : profile.Bounded) (now : ℤ) : StepOk cfg s (s.updateProfile cfg profile now) := by
  have hbd : (effectiveProfile { s with baseProfile := profile }
      s.pressureScalePercent).Bounded := bounded_effectiveProfile hp hs.1.percent
  obtain ⟨hc, hlt⟩ :=
    hs.1.setProfile hp hbd hs.1.percent s.pressureChangedAtMs
  exact stepOk_scheduled hc hlt now

theorem Core.setScale (hs : s.Core) (hp : percent ≤ 100) (observedAtMs : ℤ) :
    (s.setScale percent observedAtMs).Core ∧ Later s (s.setScale percent observedAtMs) :=
  hs.setProfile hs.base_bounded (bounded_effectiveProfile hs.base_bounded hp) hp
    observedAtMs

theorem Core.applyPressure (hs : s.Core) (cfg : HostAdmissionControllerConfig)
    (level : HostPressureLevel) (observedAtMs : ℤ) :
    (s.applyPressure cfg level observedAtMs).Core
      ∧ Later s (s.applyPressure cfg level observedAtMs) := by
  unfold HostAdmissionController.applyPressure
  split
  · exact hs.setScale (cfg.critical_valid.2.trans cfg.elevated_valid.2) observedAtMs
  · exact hs.setScale cfg.elevated_valid.2 observedAtMs
  · split
    · exact hs.setScale (min_le_left _ _) observedAtMs
    · exact ⟨hs, Later.refl s⟩

theorem stepOk_observePressure (hs : s.Inv) (sample : HostPressureSample) (nowMs now : ℤ) :
    StepOk cfg s (s.observePressure cfg sample nowMs now) := by
  unfold observePressure
  dsimp only
  generalize (if sample.observedAtMs ≤ 0 then nowMs else sample.observedAtMs) = observedAtMs
  split
  · exact stepOk_same hs
  split
  · exact stepOk_same hs
  · obtain ⟨hc, hlt⟩ := hs.1.applyPressure cfg sample.level observedAtMs
    exact stepOk_scheduled hc hlt now

/-- The waiters of a list are cancelled, and nothing else changes. -/
theorem foldl_setState (l : List ℕ) (s : HostAdmissionController) :
    ∃ heap : SortedMap ℕ Waiter,
      l.foldl (fun s sequence => s.setState sequence .cancelled) s = { s with heap := heap }
      ∧ ∀ sequence, heap.find? sequence
        = if sequence ∈ l then (s.heap.find? sequence).map fun w => { w with state := .cancelled }
          else s.heap.find? sequence := by
  induction l generalizing s with
  | nil => exact ⟨s.heap, rfl, fun _ => rfl⟩
  | cons first l ih =>
    obtain ⟨heap, hfl, hf⟩ := ih (s.setState first .cancelled)
    have hs : ∃ heap', s.setState first .cancelled = { s with heap := heap' }
        ∧ ∀ sequence, heap'.find? sequence = if sequence = first
          then (s.heap.find? sequence).map fun w => { w with state := .cancelled }
          else s.heap.find? sequence := by
      unfold setState
      split
      · rename_i hn
        refine ⟨s.heap, rfl, fun sequence => ?_⟩
        split
        · rename_i heq
          rw [heq, hn]
          rfl
        · rfl
      · rename_i w hw
        refine ⟨_, rfl, fun sequence => ?_⟩
        rw [find?_insert]
        split
        · rename_i heq
          rw [heq, hw]
          rfl
        · rfl
    obtain ⟨heap', hs, hf'⟩ := hs
    refine ⟨heap, ?_, fun sequence => ?_⟩
    · rw [foldl_cons, hfl, hs]
    rw [hf, hs]
    rw [hf']
    by_cases hfst : sequence = first
    · rw [if_pos hfst, if_pos (mem_cons.mpr (.inl hfst))]
      split
      · rw [Option.map_map]
        rfl
      · rfl
    · rw [if_neg hfst]
      by_cases hm : sequence ∈ l
      · rw [if_pos hm, if_pos (mem_cons.mpr (.inr hm))]
      · rw [if_neg hm, if_neg fun h => (mem_cons.mp h).elim hfst hm]

theorem Core.shutdown (hs : s.Core) {heap : SortedMap ℕ Waiter}
    (hf : ∀ sequence, heap.find? sequence = if sequence ∈ s.waiters
      then (s.heap.find? sequence).map fun w => { w with state := .cancelled }
      else s.heap.find? sequence) :
    Core { s with heap := heap, stopping := true, waiters := [] }
      ∧ Later s { s with heap := heap, stopping := true, waiters := [] } := by
  have hcs : ∀ sequence w, heap.find? sequence = some w →
      (s.heap.find? sequence = some w ∧ w.state ≠ .queued)
        ∨ ∃ v, s.heap.find? sequence = some v ∧ v.state = .queued
          ∧ w = { v with state := .cancelled } := by
    intro sequence w hw
    rw [hf] at hw
    split_ifs at hw with hm
    · obtain ⟨v, hv, hqd⟩ := (hs.queued sequence).mp hm
      rw [hv] at hw
      exact .inr ⟨v, hv, hqd, (Option.some.inj hw).symm⟩
    · exact .inl ⟨hw, fun hqd => hm ((hs.queued sequence).mpr ⟨w, hw, hqd⟩)⟩
  refine ⟨⟨hs.base_bounded, hs.bounded, hs.percent, hs.exact, nodup_nil, ?_, ?_, hs.ids,
    hs.next_pos, ?_, ?_⟩, ⟨le_rfl, fun _ _ _ h => h, ?_⟩⟩
  · intro sequence
    refine iff_of_false not_mem_nil ?_
    rintro ⟨w, hw, hqd⟩
    obtain ⟨-, hne⟩ | ⟨v, -, -, rfl⟩ := hcs sequence w hw
    · exact hne hqd
    · cases hqd
  · intro sequence w hw
    obtain ⟨hold, -⟩ | ⟨v, hv, -, -⟩ := hcs sequence w hw
    · exact hs.sequences sequence w hold
    · exact hs.sequences sequence v hv
  · intro sequence w hw
    obtain ⟨hold, -⟩ | ⟨v, hv, -, rfl⟩ := hcs sequence w hw
    · exact hs.reservation sequence w hold
    · exact ⟨(hs.reservation sequence v hv).1, nofun⟩
  · intro sequence w hw hc
    obtain ⟨hold, -⟩ | ⟨v, hv, hqd, rfl⟩ := hcs sequence w hw
    · exact hs.cancelled sequence w hold hc
    -- a queued waiter has no reservation
    show s.reservations.find? v.reservationId = none
    rw [(hs.reservation sequence v hv).2 hqd]
    cases h : s.reservations.find? 0 with
    | none => rfl
    | some resources => exact absurd (hs.ids 0 resources h).1 (lt_irrefl 0)
  · intro sequence w hw he
    show heap.find? sequence = some w
    rw [hf, if_neg]
    · exact hw
    intro hm
    obtain ⟨v, hv, hqd⟩ := (hs.queued sequence).mp hm
    rw [hw] at hv
    cases hv
    rw [hqd] at he
    obtain h | h := he
    all_goals cases h

theorem stepOk_shutdown (hs : s.Inv) : StepOk cfg s (s.shutdown, {}) := by
  unfold shutdown
  split
  · exact stepOk_same hs
  obtain ⟨heap, hfl, hf⟩ := foldl_setState s.waiters s
  obtain ⟨hc, hlt⟩ := hs.1.shutdown hf
  rw [hfl]
  exact ⟨hc, hlt, nofun, fun g hg => absurd hg not_mem_nil, .inl rfl⟩

/-! ## Every sequence of operations -/

end HostAdmissionController

/-- The profiles that an operation puts in force. -/
def AdmissionOp.ProfileIn (P : HostResourceProfile → Prop) : AdmissionOp → Prop
  | .updateProfile profile _ => P profile
  | _ => True

namespace HostAdmissionController

variable {cfg : HostAdmissionControllerConfig} {s : HostAdmissionController}

/-- **Every operation keeps the invariant.** -/
theorem stepOk_step (cfg : HostAdmissionControllerConfig) (hs : s.Inv) {op : AdmissionOp}
    (hop : op.ProfileIn Bounded) : StepOk cfg s (s.step cfg op) := by
  cases op with
  | enqueue request now => exact stepOk_enqueue hs request now
  | tryReserve request now => exact stepOk_tryReserve hs request now
  | claim sequence => exact stepOk_claim hs sequence
  | abandon sequence now => exact stepOk_abandon hs sequence now
  | release reservationId now => exact (stepOk_release cfg hs reservationId now).1
  | updateProfile profile now => exact stepOk_updateProfile hs hop now
  | observePressure sample nowMs now => exact stepOk_observePressure hs sample nowMs now
  | shutdown => exact stepOk_shutdown hs

theorem inv_ofConfig (h : cfg.profile.Bounded) : (ofConfig cfg).Inv := by
  refine ⟨⟨h, h, le_rfl, fun _ => rfl, nodup_nil, ?_, ?_, ?_, one_pos, ?_, ?_⟩, fun _ => ?_⟩
  · intro sequence
    exact iff_of_false not_mem_nil fun ⟨w, hw, _⟩ => by cases hw
  · intro sequence w hw
    cases hw
  · intro id v hv
    cases hv
  · intro sequence w hw
    cases hw
  · intro sequence w hw
    cases hw
  · intro sequence hm
    exact absurd hm not_mem_nil

theorem run_concat (cfg : HostAdmissionControllerConfig) (ops : List AdmissionOp)
    (op : AdmissionOp) : run cfg (ops ++ [op]) = ((run cfg ops).step cfg op).1 := by
  unfold run
  rw [foldl_append]
  rfl

theorem released_concat (cfg : HostAdmissionControllerConfig) (ops : List AdmissionOp)
    (op : AdmissionOp) : released cfg (ofConfig cfg) (ops ++ [op])
      = released cfg (ofConfig cfg) ops ++ ((run cfg ops).step cfg op).2.released := by
  have hf : ∀ (ops : List AdmissionOp) (s : HostAdmissionController),
      released cfg s (ops ++ [op]) = released cfg s ops
        ++ ((ops.foldl (fun s op => (s.step cfg op).1) s).step cfg op).2.released := by
    intro ops
    induction ops with
    | nil => exact fun _ => append_nil _
    | cons op' ops ih =>
      intro s
      show _ ++ released cfg _ (ops ++ [op]) = (_ ++ released cfg _ ops) ++ _
      rw [ih, append_assoc]
      rfl
  exact hf ops (ofConfig cfg)

/-- **Host admission neither over-commits nor idles** along a sequence of
operations: what is reserved is the exact sum of the live reservations; no
queued request fits what is left; every grant is right; no reservation is
released twice; and a waiter that is claimed or cancelled stays so, and holds
nothing when it is cancelled. -/
structure Admits (cfg : HostAdmissionControllerConfig) (ops : List AdmissionOp) : Prop where
  exact : ∀ r, ((run cfg ops).reserved r).toNat = (run cfg ops).live r
  idle : (run cfg ops).stopping = false → (run cfg ops).Idle
  grants : ∀ before op, before ++ [op] <+: ops →
    ∀ g ∈ ((run cfg before).step cfg op).2.grants, GoodGrant cfg g
  released : (released cfg (ofConfig cfg) ops).Nodup
  ended : ∀ before sequence w, before <+: ops →
    (run cfg before).heap.find? sequence = some w →
    w.state = .claimed ∨ w.state = .cancelled → (run cfg ops).heap.find? sequence = some w
  cancelled : ∀ sequence w, (run cfg ops).heap.find? sequence = some w → w.state = .cancelled →
    sequence ∉ (run cfg ops).waiters ∧ (run cfg ops).reservations.find? w.reservationId = none

variable {ops : List AdmissionOp}

theorem inv_run (h : cfg.profile.Bounded)
    (ho : ∀ op ∈ ops, op.ProfileIn Bounded) : (run cfg ops).Inv := by
  induction ops using reverseRecOn with
  | nil => exact inv_ofConfig h
  | append_singleton ops op ih =>
    have hs := stepOk_step cfg (ih fun op' hop' => ho op' (mem_append_left _ hop'))
      (ho op (mem_append_right _ (mem_singleton_self op)))
    rw [run_concat]
    exact ⟨hs.core, hs.idle⟩

/-- The reservations that were released are gone, and all different. -/
theorem released_run (h : cfg.profile.Bounded) (ho : ∀ op ∈ ops, op.ProfileIn Bounded) :
    (released cfg (ofConfig cfg) ops).Nodup
      ∧ ∀ id ∈ released cfg (ofConfig cfg) ops, id < (run cfg ops).nextReservationId
        ∧ (run cfg ops).reservations.find? id = none := by
  induction ops using reverseRecOn with
  | nil => exact ⟨nodup_nil, fun id hid => absurd hid not_mem_nil⟩
  | append_singleton ops op ih =>
    have hbef : ∀ op' ∈ ops, op'.ProfileIn Bounded := fun op' hop' =>
      ho op' (mem_append_left _ hop')
    have hi := inv_run h hbef
    have hs := stepOk_step cfg hi (ho op (mem_append_right _ (mem_singleton_self op)))
    obtain ⟨hnd, hg⟩ := ih hbef
    have hk : ∀ id ∈ released cfg (ofConfig cfg) ops,
        id < (run cfg (ops ++ [op])).nextReservationId
          ∧ (run cfg (ops ++ [op])).reservations.find? id = none := by
      intro id hid
      obtain ⟨hlt, hn⟩ := hg id hid
      rw [run_concat]
      refine ⟨hlt.trans_le hs.later.next_le, ?_⟩
      cases hf : ((run cfg ops).step cfg op).1.reservations.find? id with
      | none => rfl
      | some v =>
        have hold := hs.later.old id v hlt hf
        rw [hn] at hold
        cases hold
    rw [released_concat]
    obtain hn | ⟨id, v, hid, hlv, he⟩ := hs.released
    · rw [hn, append_nil]
      exact ⟨hnd, hk⟩
    rw [hid]
    constructor
    · refine nodup_append.mpr ⟨hnd, nodup_singleton id, ?_⟩
      intro a ha b hb hab
      have hdead := (hg a ha).2
      rw [hab, mem_singleton.mp hb, hlv] at hdead
      cases hdead
    · intro a ha
      obtain ha | ha := mem_append.mp ha
      · exact hk a ha
      · rw [mem_singleton.mp ha, run_concat]
        exact ⟨(hi.1.ids id v hlv).2.trans_le hs.later.next_le, he⟩

theorem later_run (h : cfg.profile.Bounded) {before : List AdmissionOp}
    (ho : ∀ op ∈ ops, op.ProfileIn Bounded) (hb : before <+: ops) :
    Later (run cfg before) (run cfg ops) := by
  obtain ⟨after, rfl⟩ := hb
  induction after using reverseRecOn with
  | nil =>
    rw [append_nil]
    exact Later.refl _
  | append_singleton after op ih =>
    rw [← append_assoc] at ho ⊢
    have hearlier : ∀ op' ∈ before ++ after, op'.ProfileIn Bounded :=
      fun op' hop' => ho op' (mem_append_left _ hop')
    have hs := stepOk_step cfg (inv_run h hearlier)
      (ho op (mem_append_right _ (mem_singleton_self op)))
    rw [run_concat]
    exact (ih hearlier).trans hs.later

theorem admits_of_bounded (h : cfg.profile.Bounded)
    (ho : ∀ op ∈ ops, op.ProfileIn Bounded) : Admits cfg ops := by
  obtain ⟨hcr, hid⟩ := inv_run h ho
  refine ⟨hcr.exact, hid, ?_, (released_run h ho).1, ?_, ?_⟩
  · intro before op hb
    have hm : ∀ op' ∈ before ++ [op], op'.ProfileIn Bounded := fun op' hop' =>
      ho op' (hb.subset hop')
    exact (stepOk_step cfg (inv_run h fun op' hop' => hm op' (mem_append_left _ hop'))
      (hm op (mem_append_right _ (mem_singleton_self op)))).good
  · intro before sequence w hb hw he
    exact (later_run h ho hb).ended sequence w hw he
  · intro sequence w hw hc
    refine ⟨fun hm => ?_, hcr.cancelled sequence w hw hc⟩
    obtain ⟨v, hv, hqd⟩ := (hcr.queued sequence).mp hm
    rw [hw] at hv
    cases hv
    rw [hc] at hqd
    cases hqd

/-! ## Unlimited profiles -/

/-- A request for half of the largest quantity and one more. -/
def halfRequest (r : HostResource) : HostAdmissionRequest where
  resources r' := if r' = r then 0x8000000000000000#64 else 0

/-- Two requests that together are more than the largest quantity. -/
def twoHalves (r : HostResource) : List AdmissionOp :=
  [.tryReserve (halfRequest r) 0, .tryReserve (halfRequest r) 0]

theorem toNat_halfRequest (r r' : HostResource) :
    ((halfRequest r).resources r').toNat = if r' = r then 2 ^ 63 else 0 := by
  unfold halfRequest
  dsimp only
  split <;> rfl

theorem normalizeRequest_halfRequest (p : HostResourceProfile) (r : HostResource) :
    ∃ normal, normalizeRequest { profile := p } (halfRequest r) false = some normal
      ∧ normal.resources = (halfRequest r).resources := by
  have he : (halfRequest r).resources.empty = false := by
    rw [Bool.eq_false_iff]
    intro he
    have hz := of_decide_eq_true (all_eq_true.mp he r r.mem_all)
    have htoNat := toNat_halfRequest r r
    rw [hz, if_pos rfl] at htoNat
    cases htoNat
  refine ⟨_, if_neg ?_, rfl⟩
  have hl : ¬(decide (512 < "anonymous".utf8ByteSize)
      || decide (512 < "unspecified".utf8ByteSize) || decide (1024 < 1024) || false) = true := by
    decide
  rw [he]
  exact hl

variable {p : HostResourceProfile} {r : HostResource}

/-- The check of the code lets a half in as long as only the unlimited resource is
reserved. -/
theorem tryReserve_halfRequest (hm : p.availableCapacity r = maxComponent)
    (hstp : s.stopping = false) (he : s.waiters = []) (hp : s.profile = p)
    (hot : ∀ r', r' ≠ r → s.reserved r' = 0) (now : ℤ) :
    (s.tryReserve { profile := p } (halfRequest r) now).1
      = s.reserve (halfRequest r).resources := by
  have hsmall : (halfRequest r).resources.fitsWithin p.availableCapacity = true := by
    rw [fitsWithin_iff]
    intro r'
    rw [toNat_halfRequest]
    split_ifs with heq
    · rw [heq, hm, toNat_maxComponent]
      decide
    · exact zero_le _
  have hft : s.fits (halfRequest r).resources = true := by
    unfold fits
    rw [fitsWithin_iff, hp]
    intro r'
    show (saturatingComponentAdd _ _).toNat ≤ _
    rw [toNat_saturatingComponentAdd]
    by_cases heq : r' = r
    · rw [heq, hm, toNat_maxComponent]
      exact min_le_left _ _
    · rw [hot r' heq, toNat_halfRequest, if_neg heq]
      exact zero_le _
  obtain ⟨normal, hnrm, hresources⟩ := normalizeRequest_halfRequest p r
  unfold tryReserve reserveNow
  rw [hnrm]
  dsimp only
  rw [hstp, hp, hresources, hsmall, he, hft]
  rfl

/-- **A profile with the largest quantity of a resource available is
over-committed**: two halves are granted, and their sum is more than is
reserved. -/
theorem not_admits_twoHalves
    (hm : p.availableCapacity r = maxComponent) : ¬Admits { profile := p } (twoHalves r) := by
  intro hadm
  have hf : (HostAdmissionController.tryReserve { profile := p }
      (ofConfig { profile := p }) (halfRequest r) 0).1
      = (ofConfig { profile := p }).reserve (halfRequest r).resources :=
    tryReserve_halfRequest hm rfl rfl rfl (fun _ _ => rfl) 0
  have hsec : (((ofConfig { profile := p }).reserve (halfRequest r).resources).tryReserve
      { profile := p } (halfRequest r) 0).1
      = ((ofConfig { profile := p }).reserve (halfRequest r).resources).reserve
        (halfRequest r).resources := by
    refine tryReserve_halfRequest hm rfl rfl rfl (fun r' hr' => ?_) 0
    refine BitVec.eq_of_toNat_eq ?_
    show (saturatingComponentAdd _ _).toNat = 0
    rw [toNat_saturatingComponentAdd, toNat_halfRequest, if_neg hr']
    rfl
  have hr : run { profile := p } (twoHalves r)
      = ((ofConfig { profile := p }).reserve (halfRequest r).resources).reserve
        (halfRequest r).resources := by
    rw [← hsec, ← hf]
    rfl
  have hex := hadm.exact r
  rw [hr] at hex
  -- the exact sum is not a 64-bit quantity
  have hlv : (((ofConfig { profile := p }).reserve (halfRequest r).resources).reserve
      (halfRequest r).resources).live r = 2 ^ 64 := by
    have ho := sumBy_insert (∅ : SortedMap ℕ HostResourceVector) 1
      (halfRequest r).resources fun _ v => (v r).toNat
    have htwo := sumBy_insert
      ((∅ : SortedMap ℕ HostResourceVector).insert 1 (halfRequest r).resources) 2
      (halfRequest r).resources fun _ v => (v r).toNat
    rw [find?_insert_of_ne _ (by decide)] at htwo
    rw [toNat_halfRequest, if_pos rfl] at ho htwo
    have hz : (∅ : SortedMap ℕ HostResourceVector).sumBy (fun _ v => (v r).toNat) = 0 := rfl
    have hn : ∀ k, (∅ : SortedMap ℕ HostResourceVector).find? k = none := fun _ => rfl
    rw [hn, elim_none, add_zero, hz] at ho
    rw [hn, elim_none, add_zero, ho] at htwo
    exact htwo
  rw [hlv] at hex
  exact absurd hex (BitVec.isLt _).ne

/-- **The condition under which host admission neither over-commits nor idles**:
for any set of profiles, along every sequence of operations that starts with one
of them and changes to others of them, exactly if each leaves less than the
largest quantity of every resource available. -/
theorem admits_iff (P : HostResourceProfile → Prop) :
    (∀ (cfg : HostAdmissionControllerConfig) (ops : List AdmissionOp), P cfg.profile →
        (∀ op ∈ ops, op.ProfileIn P) → Admits cfg ops)
      ↔ ∀ p, P p → p.Bounded := by
  constructor
  · intro h p hp r hm
    refine not_admits_twoHalves hm (h { profile := p } (twoHalves r) hp fun op hop => ?_)
    rw [twoHalves, mem_cons, mem_singleton] at hop
    obtain rfl | rfl := hop <;> trivial
  · intro h cfg ops hpr ho
    refine admits_of_bounded (h _ hpr) fun op hop => ?_
    have hin := ho op hop
    cases op with
    | updateProfile profile now => exact h profile hin
    | _ => trivial

/-- A profile without a limit on anything. -/
def unlimitedProfile : HostResourceProfile where
  capacity := fun _ => maxComponent
  safetyReserve := fun _ => 0
  reserve_fits := by decide

/-- Two requests of half of an unlimited resource each are both admitted. -/
theorem not_admits_unlimitedProfile :
    ¬Admits { profile := unlimitedProfile } (twoHalves .modelTokens) :=
  not_admits_twoHalves (by decide)

end HostAdmissionController

end NeoGraph.Host
