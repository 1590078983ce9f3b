import NeoGraph.Tool.ArbiterSafety

/-!
# Leases and waiters share the slots

The leases that callers hold are counted over the lease objects
(`World.countLeases`). Every lease that was ever handed out is either held by
one object or was released, once (`World.Sound.numbered`). With the invariant of
the arbiter this gives `World.resources_safe`.

Moving a lease empties the object it comes from, and assigning to an object
releases what that held before. Neither changes how many are held, which is
why the count is over objects and not over calls.
-/

namespace NeoGraph.Tool.World

open Option ResourceArbiter Bool List World

variable {w w' : World} {a : ResourceArbiter} {address source : ℕ} {lease old : ResourceLease}
variable {clock : ℕ → ℤ} {grants : List Grant} {key : String} {op : Operation}

/-! ## Counting leases -/

def countLeases (w : World) (p : ResourceLease → Bool) : ℕ :=
  w.leases.sumBy fun _ lease => if p lease then 1 else 0

/-- A lease of a resource. -/
def leaseOf (key : String) (lease : ResourceLease) : Bool :=
  lease.impl.isSome && lease.resourceKey = key

/-- The live leases of a resource. -/
def liveLeases (w : World) (key : String) : ℕ := w.countLeases (leaseOf key)

/-- The objects that hold the lease with a number. -/
def holders (w : World) (number : ℕ) : ℕ := w.countLeases fun lease => lease.impl = some number

theorem countLeases_setLease (w : World) (address : ℕ) (lease : ResourceLease)
    (p : ResourceLease → Bool) : (w.setLease address lease).countLeases p
        + (w.leases.find? address).elim 0 (fun old => if p old then 1 else 0)
      = w.countLeases p + if p lease then 1 else 0 :=
  w.leases.sumBy_insert address lease fun _ lease => if p lease then 1 else 0

theorem countLeases_construct (h : w.leases.find? address = none) (key : String)
    (p : ResourceLease → Bool) : (w.construct address key).countLeases p
      = w.countLeases p + if p ⟨some w.nextLease, key⟩ then 1 else 0 := by
  have hsm := w.countLeases_setLease address ⟨some w.nextLease, key⟩ p
  rw [h] at hsm
  exact hsm

variable {p : ResourceLease → Bool}

/-- An object whose lease does not count may be destroyed. -/
theorem countLeases_erase (h : w.leases.find? address = some lease) (hp : p lease = false) :
    ({ w with leases := w.leases.erase address } : World).countLeases p = w.countLeases p := by
  have hsm := w.leases.sumBy_erase address fun _ lease => if p lease then 1 else 0
  rw [h, elim_some, if_neg (by rw [hp]; decide)] at hsm
  exact hsm

/-- A lease that is moved is counted where it is now. -/
theorem countLeases_moveFrom (h : w.leases.find? source = some lease) (hne : address ≠ source)
    (he : p {} = false) (hold : ∀ old, w.leases.find? address = some old → p old = false) :
    (w.moveFrom address source lease).countLeases p = w.countLeases p := by
  have hfst := w.countLeases_setLease source {} p
  have hsec := (w.setLease source {}).countLeases_setLease address lease p
  have hf : (w.setLease source {}).leases.find? address = w.leases.find? address :=
    w.leases.find?_insert_of_ne hne {}
  have hn : (w.leases.find? address).elim 0 (fun old => if p old then 1 else 0) = 0 := by
    cases ha : w.leases.find? address with
    | none => rfl
    | some old => rw [elim_some, if_neg (by rw [hold old ha]; decide)]
  have he' : ¬ p {} = true := eq_false_iff.mp he
  rw [h, elim_some, if_neg he'] at hfst
  rw [hf, hn] at hsec
  unfold moveFrom
  omega

/-! ## The invariant -/

/-- **What holds of every state.** -/
structure Sound (w : World) : Prop where
  arbiter : w.arbiter.Sound none w.liveLeases
  numbered : ∀ number, w.holders number + w.released.count number
    = if number < w.nextLease then 1 else 0

theorem leaseOf_empty (key : String) : leaseOf key {} = false := rfl

theorem holds_empty (number : ℕ) : decide (({} : ResourceLease).impl = some number) = false := rfl

/-- A lease is handed out. -/
theorem Sound.construct (h : w.Sound) (hfr : w.leases.find? address = none)
    (ha : ∀ live', live' key = w.liveLeases key + 1 →
      (∀ k, k ≠ key → live' k = w.liveLeases k) → a.Sound none live') :
    ((w.setArbiter a).construct address key).Sound := by
  have hc := countLeases_construct (w := w.setArbiter a) hfr key
  refine ⟨ha _ ?_ fun k hk => ?_, fun number => ?_⟩
  · refine (hc (leaseOf key)).trans (congrArg _ (if_pos ?_))
    unfold leaseOf
    rw [and_eq_true, decide_eq_true_eq]
    exact ⟨rfl, rfl⟩
  · refine (hc (leaseOf k)).trans (congrArg _ (if_neg ?_))
    unfold leaseOf
    rw [and_eq_true, decide_eq_true_eq]
    exact fun heq => hk heq.2.symm
  · have hh := hc fun lease => lease.impl = some number
    have hnum := h.numbered number
    have hnx : ((w.setArbiter a).construct address key).nextLease = w.nextLease + 1 := rfl
    have hr : ((w.setArbiter a).construct address key).released = w.released := rfl
    have hold : (w.setArbiter a).countLeases (fun lease => lease.impl = some number)
      = w.holders number := rfl
    unfold holders at hnum hold ⊢
    have hn : decide ((⟨some w.nextLease, key⟩ : ResourceLease).impl = some number) = true
        ↔ w.nextLease = number := by
      rw [decide_eq_true_eq]
      exact some_inj
    rw [hh, hold, hr, hnx]
    refine Eq.trans (congrArg (fun x => w.countLeases _ + x + _) (if_congr hn rfl rfl)) ?_
    split at hnum
    · rw [if_neg (by omega), if_pos (by omega)]
      exact hnum
    split
    · rw [if_pos (by omega)]
      omega
    · rw [if_neg (by omega)]
      exact hnum

/-- The arbiter changes and the leases do not. -/
theorem Sound.setArbiter (h : w.Sound) (ha : a.Sound none w.liveLeases) : (w.setArbiter a).Sound :=
  ⟨ha, h.numbered⟩

/-- A lease object has no pointer after its release. -/
theorem find?_releaseLease (ha : w.leases.find? address = some lease) (clock : ℕ → ℤ) :
    ∃ left, (w.releaseLease address lease clock).1.leases.find? address = some left
      ∧ left.impl = none := by
  unfold releaseLease
  cases himpl : lease.impl with
  | none => exact ⟨lease, ha, himpl⟩
  | some number => exact ⟨{}, w.leases.find?_insert_self address {}, rfl⟩

theorem find?_releaseLease_of_ne {a : ℕ} (hne : a ≠ address) (lease : ResourceLease)
    (clock : ℕ → ℤ) : (w.releaseLease address lease clock).1.leases.find? a = w.leases.find? a := by
  unfold releaseLease
  cases lease.impl with
  | none => rfl
  | some number => exact w.leases.find?_insert_of_ne hne {}

/-- A lease that moves is released once. -/
theorem Sound.moveFrom (h : w.Sound) (hsrc : w.leases.find? source = some lease)
    (hne : address ≠ source) (hold : ∀ old, w.leases.find? address = some old → old.impl = none) :
    (w.moveFrom address source lease).Sound := by
  have hlv : (w.moveFrom address source lease).liveLeases = w.liveLeases := by
    funext k
    refine countLeases_moveFrom hsrc hne (leaseOf_empty k) fun old ho => ?_
    unfold leaseOf
    rw [hold old ho]
    rfl
  refine ⟨?_, fun number => ?_⟩
  · rw [hlv]
    exact h.arbiter
  have hh : (w.moveFrom address source lease).holders number = w.holders number := by
    refine countLeases_moveFrom hsrc hne (holds_empty number) fun old ho => ?_
    rw [hold old ho]
    rfl
  rw [hh]
  exact h.numbered number

theorem Sound.erase (h : w.Sound) (ha : w.leases.find? address = some lease)
    (hn : lease.impl = none) : ({ w with leases := w.leases.erase address } : World).Sound := by
  have hlv : ({ w with leases := w.leases.erase address } : World).liveLeases
      = w.liveLeases := by
    funext k
    refine countLeases_erase ha ?_
    unfold leaseOf
    rw [hn]
    rfl
  refine ⟨?_, fun number => ?_⟩
  · rw [hlv]
    exact h.arbiter
  have hh : ({ w with leases := w.leases.erase address } : World).holders number
      = w.holders number := by
    refine countLeases_erase ha ?_
    rw [hn]
    rfl
  rw [hh]
  exact h.numbered number

/-! ## What an operation does -/

/-- The waiters that become granted are those of the grants; after shutdown
there are none. -/
structure Transition (a a' : ResourceArbiter) (grants : List Grant) : Prop where
  best : ∀ g ∈ grants, g.Best
  marked : ∀ n, n ∈ grants.map Grant.sequence
    ↔ a'.stateOf n = some .granted ∧ a.stateOf n ≠ some .granted
  stopping : a.stopping = true → a'.stopping = true ∧ grants = []

variable {a : ResourceArbiter}

/-- Nobody is granted a slot. -/
theorem transition_nil {a' : ResourceArbiter} (hs : a.stopping = true → a'.stopping = true)
    (h : ∀ n, a'.stateOf n = some .granted → a.stateOf n = some .granted) : Transition a a' [] where
  best _ hg := absurd hg not_mem_nil
  marked n := ⟨fun hn => absurd hn not_mem_nil, fun hn => absurd (h n hn.1) hn.2⟩
  stopping hsp := ⟨hs hsp, rfl⟩

variable {live : String → ℕ}

/-- A slot is given back, after a waiter may have left that was granted. -/
theorem transition_granted {a₁ a' : ResourceArbiter} {r : Resource}
    (h : Granted live key r a₁ a' grants) (hs : a₁.stopping = a.stopping)
    (hst : ∀ n, a₁.stateOf n ≠ some .granted → a.stateOf n = some .granted →
      a₁.stateOf n ≠ some .queued)
    (hkp : ∀ n, a₁.stateOf n = some .granted → a.stateOf n = some .granted) :
    Transition a a' grants where
  best := h.marked.best
  marked n := by
    rw [h.marked.state n]
    split_ifs with hn
    · have hqd := h.marked.queued n hn
      refine iff_of_true hn ⟨rfl, fun hgr => ?_⟩
      exact hst n (by rw [hqd]; rintro ⟨⟩) hgr hqd
    · exact iff_of_false hn fun hgr => hgr.2 (hkp n hgr.1)
  stopping hsp := ⟨(h.stopping.trans hs).trans hsp, h.quiet (hs.trans hsp)⟩

variable {waiter : Waiter} {n : ℕ}

/-- A waiter that was granted hands its slot over. -/
theorem transition_handOver (hn : a.heap.find? n = some waiter) {state : WaiterState}
    (hst : state ≠ .granted) : Transition a (a.setState n state) [] := by
  refine transition_nil (fun hs => ?_) fun m hm => ?_
  · rw [setState_stopping]
    exact hs
  rw [stateOf_setState hn] at hm
  split at hm
  · exact absurd (Option.some.inj hm) hst
  · exact hm

/-- **What a claim can do.** -/
inductive Claimed (a : ResourceArbiter) (n : ℕ) :
    ResourceArbiter × Except ArbiterError String → Prop
  | refused (e : ArbiterError) : Claimed a n (a, .error e)
  | taken {waiter : Waiter} (hn : a.heap.find? n = some waiter)
    (hgranted : waiter.state = .granted) :
    Claimed a n (a.setState n .claimed, .ok waiter.resourceKey)

theorem claimed_claim (a : ResourceArbiter) (n : ℕ) : Claimed a n (a.claim n) := by
  unfold claim
  split
  · exact .refused _
  rename_i waiter hn
  split_ifs with hgr
  · exact .taken hn hgr
  · exact .refused _

/-- **A waiter that was granted and is given up** gives its slot back. -/
theorem abandon_granted (h : a.Sound none live) (hn : a.heap.find? n = some waiter)
    (hgr : waiter.state = .granted) (clock : ℕ → ℤ) : ((a.abandon n clock).1.Sound none live
        ∧ Transition a (a.abandon n clock).1 (a.abandon n clock).2)
      ∧ ∀ r, a.resources.find? waiter.resourceKey = some r →
        ∃ r', (a.abandon n clock).1.resources.find? waiter.resourceKey = some r'
          ∧ r'.active + 1 = r.active + (a.abandon n clock).2.length := by
  have hab : a.abandon n clock
      = (a.setState n .cancelled).releaseOneLocked waiter.resourceKey clock := by
    unfold abandon
    rw [hn]
    dsimp only
    rw [hgr]
  rw [hab]
  let owed : String → ℕ := fun k => live k + if k = waiter.resourceKey then 1 else 0
  have ho : owed waiter.resourceKey = live waiter.resourceKey + 1 :=
    congrArg _ (if_pos rfl)
  have hlv : ∀ k, k ≠ waiter.resourceKey → owed k = live k :=
    fun k hk => congrArg _ (if_neg hk)
  have howed : (a.setState n .cancelled).Sound none owed :=
    h.handOver hn hgr (by decide) (by decide) ho hlv
  obtain ⟨r, hr⟩ := (h.known n waiter hn).2
  have hr' : (a.setState n .cancelled).resources.find? waiter.resourceKey = some r := by
    rw [setState_resources]
    exact hr
  have hrel := howed.releaseOneLocked clock hr' ho.symm fun k hk => (hlv k hk).symm
  have hst := stateOf_setState hn .cancelled
  refine ⟨⟨hrel.sound, transition_granted hrel
    (setState_stopping _ _ _) (fun m hm hm' => ?_) fun m hm => ?_⟩,
    fun r₀ hr₀ => ?_⟩
  · rw [hst] at hm ⊢
    split_ifs with hne
    · rintro ⟨⟩
    · rw [if_neg hne] at hm
      exact absurd hm' hm
  · rw [hst] at hm
    split at hm
    · cases hm
    · exact hm
  · rw [hr] at hr₀
    cases hr₀
    obtain ⟨r', hf, ha⟩ := hrel.counted
    have hc := (howed.counted _ r hr').1
    refine ⟨r', hf, ?_⟩
    dsimp only at ha
    omega

theorem abandon_queued (h : a.Sound none live) (hn : a.heap.find? n = some waiter)
    (hqd : waiter.state = .queued) (clock : ℕ → ℤ) : ((a.abandon n clock).1.Sound none live
        ∧ Transition a (a.abandon n clock).1 (a.abandon n clock).2)
      ∧ (a.abandon n clock).1.stateOf n = some .cancelled
      ∧ ∃ r, (a.abandon n clock).1.resources.find? waiter.resourceKey = some r
        ∧ n ∉ r.waiters := by
  have ha : a.abandon n clock
      = ((a.leaveQueue waiter.resourceKey n).setState n .cancelled, []) := by
    unfold abandon
    rw [hn]
    dsimp only
    rw [hqd]
  rw [ha]
  have hlv : (a.leaveQueue waiter.resourceKey n).heap = a.heap
      ∧ (a.leaveQueue waiter.resourceKey n).stopping = a.stopping := by
    unfold leaveQueue
    split <;> exact ⟨rfl, rfl⟩
  have hn' : (a.leaveQueue waiter.resourceKey n).heap.find? n = some waiter := by
    rw [hlv.1]
    exact hn
  obtain ⟨hsd, hq⟩ := h.leaveQueue hn hqd
  have hst := stateOf_setState hn' .cancelled
  refine ⟨⟨hsd, transition_nil (fun hs => ?_) fun m hm => ?_⟩, ?_, hq⟩
  · rw [setState_stopping, hlv.2]
    exact hs
  · dsimp only at hm
    rw [hst] at hm
    split at hm
    · cases hm
    · unfold stateOf at hm ⊢
      rw [hlv.1] at hm
      exact hm
  · dsimp only
    rw [hst, if_pos rfl]

/-- A waiter that is given up frees what it was granted. -/
theorem abandon_spec (h : a.Sound none live) (n : ℕ) (clock : ℕ → ℤ) :
    (a.abandon n clock).1.Sound none live
      ∧ Transition a (a.abandon n clock).1 (a.abandon n clock).2 := by
  cases hn : a.heap.find? n with
  | none =>
    have ha : a.abandon n clock = (a, []) := by
      unfold abandon
      rw [hn]
    rw [ha]
    exact ⟨h, transition_nil id fun _ hm => hm⟩
  | some waiter =>
    cases hst : waiter.state with
    | queued => exact (abandon_queued h hn hst clock).1
    | granted => exact (abandon_granted h hn hst clock).1
    | claimed | cancelled =>
      have ha : a.abandon n clock = (a, []) := by
        unfold abandon
        rw [hn]
        dsimp only
        rw [hst]
      rw [ha]
      exact ⟨h, transition_nil id fun _ hm => hm⟩

/-- **A lease that is released** gives its slot back and is released once. -/
theorem Sound.releaseLease (h : w.Sound) (ha : w.leases.find? address = some lease)
    (clock : ℕ → ℤ) : (w.releaseLease address lease clock).1.Sound
      ∧ Transition w.arbiter (w.releaseLease address lease clock).1.arbiter
        (w.releaseLease address lease clock).2 := by
  unfold World.releaseLease
  cases himpl : lease.impl with
  | none => exact ⟨h, transition_nil id fun _ hn => hn⟩
  | some number =>
    have hc : ∀ p : ResourceLease → Bool, p {} = false →
        (w.setLease address {}).countLeases p + (if p lease then 1 else 0) = w.countLeases p := by
      intro p hp
      have hsum := w.countLeases_setLease address {} p
      have hp' : ¬ p {} = true := eq_false_iff.mp hp
      rw [ha, elim_some, if_neg hp'] at hsum
      exact hsum
    -- one lease of the resource is gone, and none of any other
    have ho : (w.setLease address {}).liveLeases lease.resourceKey + 1
        = w.liveLeases lease.resourceKey := by
      refine Eq.trans (congrArg _ (if_pos ?_).symm) (hc _ (leaseOf_empty _))
      unfold leaseOf
      rw [himpl, and_eq_true, decide_eq_true_eq]
      exact ⟨rfl, rfl⟩
    have hlv : ∀ k, k ≠ lease.resourceKey →
        (w.setLease address {}).liveLeases k = w.liveLeases k := by
      intro k hk
      have hsum := hc (leaseOf k) (leaseOf_empty k)
      rw [if_neg] at hsum
      · exact hsum
      · unfold leaseOf
        rw [and_eq_true, decide_eq_true_eq]
        exact fun heq => hk heq.2.symm
    obtain ⟨r, hr⟩ : ∃ r, w.arbiter.resources.find? lease.resourceKey = some r := by
      cases hr : w.arbiter.resources.find? lease.resourceKey with
      | some r => exact ⟨r, rfl⟩
      | none =>
        have := (h.arbiter.unused _ hr).1
        omega
    have hgr := h.arbiter.releaseOneLocked clock hr ho hlv
    refine ⟨⟨hgr.sound, fun n => ?_⟩, transition_granted hgr rfl
      (fun n hne heq => absurd heq hne) fun _ hn => hn⟩
    have hnum := h.numbered n
    have hh := hc (fun lease => lease.impl = some n) (holds_empty n)
    have hsm : decide (lease.impl = some n) = true ↔ n = number := by
      rw [decide_eq_true_eq, himpl, some_inj]
      exact eq_comm
    have hnew : (w.released ++ [number]).count n
        = w.released.count n + if n = number then 1 else 0 := by
      rw [count_append, count_singleton]
      refine congrArg _ (if_congr ?_ rfl rfl)
      rw [beq_iff_eq]
      exact eq_comm
    rw [if_congr hsm rfl rfl] at hh
    show (w.setLease address {}).countLeases _ + (w.released ++ [number]).count n
      = if n < w.nextLease then 1 else 0
    unfold holders at hnum
    rw [hnew]
    omega

/-- **Every operation** keeps the invariant and grants what it should. -/
theorem Sound.step (h : w.Sound) (hst : w.step op = some (w', grants)) :
    w'.Sound ∧ Transition w.arbiter w'.arbiter grants := by
  cases op with
  | enqueue request now address =>
    rw [step] at hst
    split at hst
    · cases hst
    rename_i hfr
    have hc := enqueued_enqueue w.arbiter request now
    generalize w.arbiter.enqueue request now = result at hst hc
    cases hc with
    | refused e =>
      cases hst
      exact ⟨h, transition_nil id fun _ hn => hn⟩
    | made hf e =>
      cases hst
      exact ⟨h.setArbiter (h.arbiter.made hf), transition_nil id fun _ hn => hn⟩
    | immediate hf hrm he =>
      cases hst
      exact ⟨h.construct hfr fun _ ho hlv =>
        h.arbiter.immediate hf hrm he ho hlv, transition_nil id fun _ hn => hn⟩
    | waits hf hs hfl =>
      cases hst
      refine ⟨h.setArbiter (h.arbiter.push hf hs hfl now), transition_nil id fun n hn => ?_⟩
      unfold stateOf at hn ⊢
      rw [World.setArbiter, find?_heap_push] at hn
      split at hn
      · cases hn
      · exact hn
  | claim sequence address =>
    rw [step] at hst
    split at hst
    · cases hst
    rename_i hfr
    have hc := claimed_claim w.arbiter sequence
    generalize w.arbiter.claim sequence = result at hst hc
    cases hc with
    | refused e =>
      cases hst
      exact ⟨h, transition_nil id fun _ hn => hn⟩
    | taken hn hgr =>
      cases hst
      exact ⟨h.construct hfr fun _ ho hlv => h.arbiter.handOver hn hgr (by decide)
        (by decide) ho hlv, transition_handOver hn (by decide)⟩
  | abandon sequence clock =>
    cases hst
    obtain ⟨hsd, ht⟩ := abandon_spec h.arbiter sequence clock
    exact ⟨h.setArbiter hsd, ht⟩
  | moveConstruct address source =>
    rw [step] at hst
    split at hst
    · rename_i lease hfr hsrc
      cases hst
      have hne : address ≠ source := by
        rintro rfl
        rw [hfr] at hsrc
        cases hsrc
      refine ⟨h.moveFrom hsrc hne fun old hold => ?_, transition_nil id fun _ hn => hn⟩
      rw [hfr] at hold
      cases hold
    · cases hst
  | moveAssign address source clock =>
    rw [step] at hst
    split at hst
    · rename_i old lease hold hsrc
      split at hst
      · cases hst
        exact ⟨h, transition_nil id fun _ hn => hn⟩
      rename_i hne
      cases hst
      obtain ⟨hsd, ht⟩ := h.releaseLease hold clock
      obtain ⟨left, hl, hno⟩ := find?_releaseLease hold clock
      refine ⟨hsd.moveFrom ?_ hne fun old' hold' => ?_, ht⟩
      · rw [find?_releaseLease_of_ne (Ne.symm hne)]
        exact hsrc
      · rw [hl] at hold'
        cases hold'
        exact hno
    · cases hst
  | release address clock =>
    rw [step, map_eq_some_iff] at hst
    obtain ⟨lease, hls, hst⟩ := hst
    have hr := h.releaseLease hls clock
    rw [hst] at hr
    exact hr
  | destroy address clock =>
    rw [step, map_eq_some_iff] at hst
    obtain ⟨lease, hls, hst⟩ := hst
    cases hst
    obtain ⟨hsd, ht⟩ := h.releaseLease hls clock
    obtain ⟨left, hl, hno⟩ := find?_releaseLease hls clock
    exact ⟨hsd.erase hl hno, ht⟩
  | shutdown =>
    cases hst
    obtain ⟨hsd, hs, hgr⟩ := h.arbiter.shutdown
    exact ⟨h.setArbiter hsd, transition_nil (fun _ => hs) hgr⟩

/-! ## Every state that is reached -/

theorem sound_start : ({} : World).Sound where
  arbiter :=
    { known := fun n w hn => by cases hn
      counted := fun key r hr => by cases hr
      unused := fun key _ => ⟨rfl, rfl⟩
      queue := fun key r hr => by cases hr
      full := fun _ key r _ hr => by cases hr
      stopped := fun _ key r hr => by cases hr }
  numbered number := (if_neg (Nat.not_lt_zero number)).symm

theorem Reaches.sound (h : w.Reaches) : w.Sound := by
  induction h with
  | start => exact sound_start
  | step _ hs ih => exact (ih.step hs).1

/-- **Resources are never over-committed, leaked or left idle.** In every state
that is reached, the slots in use are those of live leases and of waiters that
were granted and have not claimed, never more than the capacity; a waiter is
queued only before shutdown, in the queue of its resource, and while every slot
is in use; and every lease that was handed out is held by one object or was
released, once. An operation grants slots to queued waiters of highest priority,
the earliest among equals, and no others become granted; after shutdown it
grants none. A waiter that is abandoned leaves the queue, or gives its slot
back. -/
theorem resources_safe (h : w.Reaches) :
    (∀ key, w.arbiter.active key = w.liveLeases key + w.arbiter.unclaimed key)
      ∧ (∀ key r, w.arbiter.resources.find? key = some r → r.active ≤ r.capacity
        ∧ r.waiters.Nodup ∧ ∀ n, n ∈ r.waiters ↔ w.arbiter.Queued key n)
      ∧ (∀ key n, w.arbiter.Queued key n → w.arbiter.stopping = false
        ∧ ∃ r, w.arbiter.resources.find? key = some r ∧ r.active = r.capacity)
      ∧ (∀ number, w.holders number + w.released.count number
        = if number < w.nextLease then 1 else 0)
      ∧ ∀ op w' grants, w.step op = some (w', grants) →
        (∀ g ∈ grants, g.Best)
        ∧ (∀ n, n ∈ grants.map Grant.sequence ↔
          w'.arbiter.stateOf n = some .granted ∧ w.arbiter.stateOf n ≠ some .granted)
        ∧ (w.arbiter.stopping = true → w'.arbiter.stopping = true ∧ grants = [])
        ∧ (op = .shutdown → w'.arbiter.stopping = true ∧ grants = [])
        ∧ ∀ n clock waiter, op = .abandon n clock → w.arbiter.heap.find? n = some waiter →
          (waiter.state = .queued → w'.arbiter.stateOf n = some .cancelled
            ∧ ∃ r, w'.arbiter.resources.find? waiter.resourceKey = some r ∧ n ∉ r.waiters)
          ∧ (waiter.state = .granted → ∀ r, w.arbiter.resources.find? waiter.resourceKey = some r →
            ∃ r', w'.arbiter.resources.find? waiter.resourceKey = some r'
              ∧ r'.active + 1 = r.active + grants.length) := by
  have hsd := h.sound
  have harb := hsd.arbiter
  refine ⟨fun key => ?_, fun key r hr => ⟨(harb.counted key r hr).2, harb.queue key r hr⟩,
    fun key n hqd => ?_, hsd.numbered, fun op w' grants hstp => ?_⟩
  · unfold active
    cases hr : w.arbiter.resources.find? key with
    | none =>
      obtain ⟨hlv, hunc⟩ := harb.unused key hr
      rw [elim_none, hlv, hunc]
    | some r => exact (harb.counted key r hr).1
  · obtain ⟨waiter, hn, hk, hst⟩ := hqd
    obtain ⟨r, hr⟩ := (harb.known n waiter hn).2
    rw [hk] at hr
    have hm : n ∈ r.waiters := ((harb.queue key r hr).2 n).mpr ⟨waiter, hn, hk, hst⟩
    have hs : w.arbiter.stopping = false := by
      refine eq_false_iff.mpr fun hs => ?_
      rw [harb.stopped hs key r hr] at hm
      cases hm
    exact ⟨hs, r, hr, harb.full hs key r (some_ne_none key) hr
      (ne_nil_of_mem hm)⟩
  · obtain ⟨-, ht⟩ := hsd.step hstp
    refine ⟨ht.best, ht.marked, ht.stopping, ?_, ?_⟩
    · rintro rfl
      cases hstp
      exact ⟨harb.shutdown.2.1, rfl⟩
    · rintro n clock waiter rfl hn
      cases hstp
      exact ⟨fun hqd => (abandon_queued harb hn hqd clock).2,
        fun hgr => (abandon_granted harb hn hgr clock).2⟩

/-- Two requests for one slot: the first is answered with the lease at address
zero and the second waits until that is destroyed. -/
def handedOver : Option (World × List Grant) := do
  let first ← ({} : World).step (.enqueue ⟨"tool", 1, 128, 60000, 0, 1⟩ 0 0)
  let second ← first.1.step (.enqueue ⟨"tool", 1, 128, 60000, 0, 1⟩ 5 1)
  second.1.step (.destroy 0 fun _ => 10)

theorem reaches_handedOver {w : World} {grants : List Grant} (h : handedOver = some (w, grants)) :
    w.Reaches := by
  unfold handedOver at h
  simp only [bind_eq_bind, bind_eq_some_iff] at h
  obtain ⟨⟨w₁, _⟩, h₁, ⟨w₂, _⟩, h₂, h₃⟩ := h
  exact .step (.step (.step .start h₁) h₂) h₃

theorem resources_safe_handedOver : ∃ w grants, handedOver = some (w, grants)
    ∧ w.arbiter.active "tool" = 1
    ∧ w.arbiter.active "tool" = w.liveLeases "tool" + w.arbiter.unclaimed "tool" := by
  have ha : (handedOver.any fun r => r.1.arbiter.active "tool" = 1) = true := by
    decide +kernel
  cases hw : handedOver with
  | none =>
    rw [hw] at ha
    cases ha
  | some result =>
    obtain ⟨w, grants⟩ := result
    rw [hw, any_some, decide_eq_true_eq] at ha
    exact ⟨w, grants, rfl, ha, (resources_safe (reaches_handedOver hw)).1 "tool"⟩

end NeoGraph.Tool.World
