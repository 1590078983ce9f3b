import NeoGraph.Tool.ResourceArbiter

/-!
# Resources are never over-committed, leaked or left idle

Every slot that is in use belongs to a live lease or to a waiter that was
granted and has not claimed, and while somebody waits every slot is in use
(`ResourceArbiter.Sound`). Operations change one resource at a time
(`ResourceArbiter.ChangesAt`), so that the invariant is proved for the resource
that changes.
-/

namespace NeoGraph.Tool

open Option List ResourceArbiter Grant Nat

/-- **The waiter that is granted** is queued, no queued waiter of the resource
has a higher priority at that moment, and those of the same priority are later
ones. -/
def Grant.Best (g : Grant) : Prop :=
  ∃ w, g.before.heap.find? g.sequence = some w ∧ w.resourceKey = g.resourceKey
    ∧ w.state = .queued
    ∧ ∀ m w', g.before.heap.find? m = some w' → w'.resourceKey = g.resourceKey →
      w'.state = .queued →
      effectivePriority w' g.now ≤ effectivePriority w g.now
        ∧ (effectivePriority w' g.now = effectivePriority w g.now →
          g.sequence ≤ m)

namespace ResourceArbiter

variable {a a' : ResourceArbiter} {key : String} {r r' : Resource} {n : ℕ} {w : Waiter}
variable {clock : ℕ → ℤ} {live live' : String → ℕ}

/-! ## What is counted -/

/-- A waiter is in the queue of a resource. -/
def Queued (a : ResourceArbiter) (key : String) (n : ℕ) : Prop :=
  ∃ w, a.heap.find? n = some w ∧ w.resourceKey = key ∧ w.state = .queued

/-- The waiters that were granted a slot and have not claimed it. -/
def unclaimed (a : ResourceArbiter) (key : String) : ℕ :=
  a.heap.sumBy fun _ w => if w.state = .granted ∧ w.resourceKey = key then 1 else 0

/-- The slots of a resource that are in use. -/
def active (a : ResourceArbiter) (key : String) : ℕ :=
  (a.resources.find? key).elim 0 Resource.active

/-- **What holds of an arbiter** while the callers hold a number of leases of
every resource. At one resource there may be room although somebody waits. -/
structure Sound (except : Option String) (live : String → ℕ) (a : ResourceArbiter) : Prop where
  known : ∀ n w, a.heap.find? n = some w →
    n < a.nextSequence ∧ ∃ r, a.resources.find? w.resourceKey = some r
  counted : ∀ key r, a.resources.find? key = some r →
    r.active = live key + a.unclaimed key ∧ r.active ≤ r.capacity
  unused : ∀ key, a.resources.find? key = none → live key = 0 ∧ a.unclaimed key = 0
  queue : ∀ key r, a.resources.find? key = some r →
    r.waiters.Nodup ∧ ∀ n, n ∈ r.waiters ↔ a.Queued key n
  full : a.stopping = false → ∀ key r, some key ≠ except → a.resources.find? key = some r →
    r.waiters ≠ [] → r.active = r.capacity
  stopped : a.stopping = true → ∀ key r, a.resources.find? key = some r → r.waiters = []

/-! ## Changes at one resource -/

/-- Everything that concerns other resources is unchanged. -/
structure ChangesAt (key : String) (a a' : ResourceArbiter) : Prop where
  stopping : a'.stopping = a.stopping
  resources : ∀ k, k ≠ key → a'.resources.find? k = a.resources.find? k
  unclaimed : ∀ k, k ≠ key → a'.unclaimed k = a.unclaimed k
  queued : ∀ k, k ≠ key → ∀ n, a'.Queued k n ↔ a.Queued k n

variable {b : ResourceArbiter}

theorem ChangesAt.trans (h : ChangesAt key a a') (h' : ChangesAt key a' b) : ChangesAt key a b where
  stopping := h'.stopping.trans h.stopping
  resources k hk := (h'.resources k hk).trans (h.resources k hk)
  unclaimed k hk := (h'.unclaimed k hk).trans (h.unclaimed k hk)
  queued k hk n := (h'.queued k hk n).trans (h.queued k hk n)

theorem changesAt_setResource (a : ResourceArbiter) (key : String) (r : Resource) :
    ChangesAt key a { a with resources := a.resources.insert key r } where
  stopping := rfl
  resources _ hk := a.resources.find?_insert_of_ne hk r
  unclaimed _ _ := rfl
  queued _ _ _ := Iff.rfl

variable {except : Option String}

/-- **The invariant is proved for the resource that changes.** -/
theorem Sound.change {except' : Option String} (h : a.Sound except live)
    (hchg : ChangesAt key a a') (hlv : ∀ k, k ≠ key → live' k = live k)
    (hexcept : ∀ k, k ≠ key → some k ≠ except' → some k ≠ except)
    (hkn : ∀ n w, a'.heap.find? n = some w → n < a'.nextSequence
      ∧ (w.resourceKey = key ∨ ∃ r, a.resources.find? w.resourceKey = some r))
    (hr : a'.resources.find? key = some r')
    (hc : r'.active = live' key + a'.unclaimed key ∧ r'.active ≤ r'.capacity)
    (hq : r'.waiters.Nodup ∧ ∀ n, n ∈ r'.waiters ↔ a'.Queued key n)
    (hf : a.stopping = false → some key ≠ except' → r'.waiters ≠ [] → r'.active = r'.capacity)
    (hstp : a.stopping = true → r'.waiters = []) : a'.Sound except' live' := by
  refine ⟨fun n w hn => ⟨(hkn n w hn).1, ?_⟩, fun k rk hk => ?_, fun k hk => ?_,
    fun k rk hk => ?_, fun hs k rk hne hk => ?_, fun hs k rk hk => ?_⟩
  · by_cases hkey : w.resourceKey = key
    · rw [hkey]
      exact ⟨r', hr⟩
    · rw [hchg.resources _ hkey]
      exact (hkn n w hn).2.resolve_left hkey
  · by_cases hkey : k = key
    · rw [hkey] at hk ⊢
      rw [hr] at hk
      cases hk
      exact hc
    · rw [hchg.resources k hkey] at hk
      rw [hlv k hkey, hchg.unclaimed k hkey]
      exact h.counted k rk hk
  · by_cases hkey : k = key
    · rw [hkey, hr] at hk
      cases hk
    · rw [hchg.resources k hkey] at hk
      rw [hlv k hkey, hchg.unclaimed k hkey]
      exact h.unused k hk
  · by_cases hkey : k = key
    · rw [hkey] at hk ⊢
      rw [hr] at hk
      cases hk
      exact hq
    · rw [hchg.resources k hkey] at hk
      obtain ⟨hnd, hm⟩ := h.queue k rk hk
      exact ⟨hnd, fun n => (hm n).trans (hchg.queued k hkey n).symm⟩
  · rw [hchg.stopping] at hs
    by_cases hkey : k = key
    · rw [hkey] at hk hne
      rw [hr] at hk
      cases hk
      exact hf hs hne
    · rw [hchg.resources k hkey] at hk
      exact h.full hs k rk (hexcept k hkey hne) hk
  · rw [hchg.stopping] at hs
    by_cases hkey : k = key
    · rw [hkey, hr] at hk
      cases hk
      exact hstp hs
    · rw [hchg.resources k hkey] at hk
      exact h.stopped hs k rk hk

/-! ## The state of a waiter -/

theorem find?_heap_setState (hn : a.heap.find? n = some w) (state : WaiterState) (m : ℕ) :
    (a.setState n state).heap.find? m
      = if m = n then some { w with state := state } else a.heap.find? m := by
  unfold setState
  rw [hn]
  exact a.heap.find?_insert n m _

theorem setState_resources (a : ResourceArbiter) (n : ℕ) (state : WaiterState) :
    (a.setState n state).resources = a.resources := by
  unfold setState
  split <;> rfl

theorem setState_stopping (a : ResourceArbiter) (n : ℕ) (state : WaiterState) :
    (a.setState n state).stopping = a.stopping := by
  unfold setState
  split <;> rfl

theorem setState_nextSequence (a : ResourceArbiter) (n : ℕ) (state : WaiterState) :
    (a.setState n state).nextSequence = a.nextSequence := by
  unfold setState
  split <;> rfl

theorem stateOf_setState (hn : a.heap.find? n = some w) (state : WaiterState) (m : ℕ) :
    (a.setState n state).stateOf m = if m = n then some state else a.stateOf m := by
  unfold stateOf
  rw [find?_heap_setState hn]
  split <;> rfl

variable {state : WaiterState}

/-- A waiter that is not queued any more leaves all others as they are. -/
theorem queued_setState (hn : a.heap.find? n = some w) (hst : state ≠ .queued) (k : String)
    (m : ℕ) : (a.setState n state).Queued k m ↔ m ≠ n ∧ a.Queued k m := by
  unfold Queued
  rw [find?_heap_setState hn]
  split_ifs with hm
  · constructor
    · rintro ⟨w', hw', -, hqd⟩
      cases hw'
      exact absurd hqd hst
    · rintro ⟨hne, -⟩
      exact absurd hm hne
  · exact (and_iff_right hm).symm

theorem unclaimed_setState (hn : a.heap.find? n = some w) (state : WaiterState) (k : String) :
    (a.setState n state).unclaimed k + (if w.state = .granted ∧ w.resourceKey = k then 1 else 0)
      = a.unclaimed k + (if state = .granted ∧ w.resourceKey = k then 1 else 0) := by
  have hsm := a.heap.sumBy_insert n { w with state := state }
    fun _ w => if w.state = .granted ∧ w.resourceKey = k then 1 else 0
  rw [hn, elim_some] at hsm
  unfold setState
  rw [hn]
  exact hsm

theorem changesAt_setState (hn : a.heap.find? n = some w) (hkey : w.resourceKey = key)
    (hst : state ≠ .queued) : ChangesAt key a (a.setState n state) where
  stopping := setState_stopping a n state
  resources k _ := by rw [setState_resources]
  unclaimed k hk := by
    have hsm := unclaimed_setState hn state k
    rw [if_neg (fun hgr => hk (hgr.2.symm.trans hkey)),
      if_neg (fun hgr => hk (hgr.2.symm.trans hkey))] at hsm
    exact hsm
  queued k hk m := by
    rw [queued_setState hn hst]
    refine and_iff_right_of_imp ?_
    rintro ⟨w', hw', hkey', -⟩ rfl
    rw [hn] at hw'
    cases hw'
    exact hk (hkey'.symm.trans hkey)

/-- A waiter is known after its state is set. -/
theorem Sound.known_setState (h : a.Sound except live) (hn : a.heap.find? n = some w)
    (state : WaiterState) {m : ℕ} {w' : Waiter} (hm : (a.setState n state).heap.find? m = some w') :
    m < a.nextSequence ∧ ∃ r, a.resources.find? w'.resourceKey = some r := by
  rw [find?_heap_setState hn] at hm
  split_ifs at hm with heq
  · cases hm
    rw [heq]
    exact h.known n w hn
  · exact h.known m w' hm

/-! ## Grants -/

theorem score_of_queued (hn : a.heap.find? n = some w) (hqd : w.state = .queued) (now : ℤ) :
    a.score now n = some (effectivePriority w now) := by
  unfold score
  rw [hn]
  exact if_pos hqd

variable {now : ℤ}

/-- Somebody is chosen as long as somebody waits. -/
theorem best_eq_none (h : a.Sound except live) (hr : a.resources.find? key = some r)
    (hb : a.best now r.waiters = none) : r.waiters = [] := by
  have hk := kept_foldl (a.score now) r.waiters
  unfold best at hb
  rw [hb] at hk
  rw [eq_nil_iff_forall_not_mem]
  intro m hm
  obtain ⟨w, hw, -, hqd⟩ := ((h.queue key r hr).2 m).mp hm
  have hn := hk m hm
  rw [score_of_queued hw hqd] at hn
  cases hn

theorem best_spec (h : a.Sound except live) (hr : a.resources.find? key = some r) {p : ℕ}
    (hb : a.best now r.waiters = some (n, p)) : n ∈ r.waiters ∧ Best ⟨key, n, now, a⟩ := by
  have hkp := kept_foldl (a.score now) r.waiters
  unfold best at hb
  rw [hb] at hkp
  obtain ⟨hm, hp, ha⟩ := hkp
  obtain ⟨w, hw, hk, hqd⟩ := ((h.queue key r hr).2 n).mp hm
  rw [score_of_queued hw hqd] at hp
  cases hp
  refine ⟨hm, w, hw, hk, hqd, fun m w' hw' hk' hqd' => ?_⟩
  exact ha m (((h.queue key r hr).2 m).mpr ⟨w', hw', hk', hqd'⟩) _
    (score_of_queued hw' hqd' now)

/-- The waiters that become granted are those of the grants. -/
structure Grants (a a' : ResourceArbiter) (grants : List Grant) : Prop where
  best : ∀ g ∈ grants, Best g
  queued : ∀ n ∈ grants.map sequence, a.stateOf n = some .queued
  state : ∀ n, a'.stateOf n
    = if n ∈ grants.map sequence then some .granted else a.stateOf n

theorem grants_nil (h : ∀ n, a'.stateOf n = a.stateOf n) : Grants a a' [] where
  best _ hg := absurd hg not_mem_nil
  queued _ hn := absurd hn not_mem_nil
  state n := by
    rw [map_nil, if_neg not_mem_nil]
    exact h n

/-- **A waiter that is granted** leaves the queue with a slot. -/
theorem Sound.grant (h : a.Sound (some key) live) (hr : a.resources.find? key = some r)
    (hrm : r.active < r.capacity) (hn : n ∈ r.waiters) :
    (a.grant key r n).Sound (some key) live := by
  obtain ⟨w, hw, hk, hqd⟩ := ((h.queue key r hr).2 n).mp hn
  obtain ⟨ha, -⟩ := h.counted key r hr
  obtain ⟨hnd, hmm⟩ := h.queue key r hr
  let a₁ : ResourceArbiter := { a with
    resources := a.resources.insert key
      { r with active := r.active + 1, waiters := r.waiters.erase n } }
  have hw₁ : a₁.heap.find? n = some w := hw
  have hc : ChangesAt key a (a₁.setState n .granted) :=
    (changesAt_setResource a key _).trans (changesAt_setState hw₁ hk (by decide))
  have hsm := unclaimed_setState hw₁ .granted key
  rw [if_neg (by rw [hqd]; rintro ⟨⟨⟩, -⟩), if_pos ⟨rfl, hk⟩] at hsm
  have hgr : a.grant key r n = a₁.setState n .granted := rfl
  have hr' : (a₁.setState n .granted).resources.find? key
      = some { r with active := r.active + 1, waiters := r.waiters.erase n } := by
    rw [setState_resources]
    exact a.resources.find?_insert_self key _
  rw [hgr]
  refine h.change hc (fun _ _ => rfl) (fun _ _ h => h) (fun m w' hm => ?_) hr' ⟨?_, hrm⟩
    ⟨hnd.erase n, fun m => ?_⟩ (fun _ hne => absurd rfl hne) fun hs => ?_
  · rw [setState_nextSequence]
    obtain ⟨hlt, hkn⟩ := h.known_setState hw .granted
      (show (a.setState n .granted).heap.find? m = some w' by
        rw [find?_heap_setState hw]
        rw [find?_heap_setState hw₁] at hm
        exact hm)
    exact ⟨hlt, .inr hkn⟩
  · have hold : a₁.unclaimed key = a.unclaimed key := rfl
    dsimp only
    omega
  · rw [queued_setState hw₁ (by decide), hnd.mem_erase_iff, hmm]
    rfl
  · rw [h.stopped hs key r hr] at hn
    cases hn

theorem find?_resources_grant (a : ResourceArbiter) (key : String) (r : Resource) (n : ℕ) :
    (a.grant key r n).resources.find? key
      = some { r with active := r.active + 1, waiters := r.waiters.erase n } := by
  unfold grant
  rw [setState_resources]
  exact a.resources.find?_insert_self key _

theorem stateOf_grant (hn : a.stateOf n = some .queued) (key : String) (r : Resource) (m : ℕ) :
    (a.grant key r n).stateOf m = if m = n then some .granted else a.stateOf m := by
  unfold stateOf at hn
  rw [map_eq_some_iff] at hn
  obtain ⟨w, hw, -⟩ := hn
  exact stateOf_setState (a := { a with resources := a.resources.insert key _ }) hw .granted m

/-- There is no room any more, or nobody waits. -/
theorem Sound.close (h : a.Sound (some key) live) (hr : a.resources.find? key = some r)
    (hf : r.waiters ≠ [] → r.active = r.capacity) : a.Sound none live where
  known := h.known
  counted := h.counted
  unused := h.unused
  queue := h.queue
  full hs k rk _ hk := by
    by_cases hkey : k = key
    · rw [hkey, hr] at hk
      cases hk
      exact hf
    · exact h.full hs k rk (fun heq => hkey (Option.some.inj heq)) hk
  stopped := h.stopped

/-- What a series of grants does to the arbiter. -/
structure Granted (live : String → ℕ) (key : String) (r : Resource) (a a' : ResourceArbiter)
    (grants : List Grant) : Prop where
  sound : a'.Sound none live
  marked : Grants a a' grants
  stopping : a'.stopping = a.stopping
  quiet : a.stopping = true → grants = []
  counted : ∃ r', a'.resources.find? key = some r' ∧ r'.active = r.active + grants.length

theorem granted_nil (h : a.Sound (some key) live) (hr : a.resources.find? key = some r)
    (hf : r.waiters ≠ [] → r.active = r.capacity) : Granted live key r a a [] where
  sound := h.close hr hf
  marked := grants_nil fun _ => rfl
  stopping := rfl
  quiet _ := rfl
  counted := ⟨r, hr, rfl⟩

/-- Waiters are granted until there is no room or nobody waits. -/
theorem granted_grantLoop (clock : ℕ → ℤ) (h : a.Sound (some key) live)
    (hr : a.resources.find? key = some r) {fuel : ℕ} (hfu : r.waiters.length ≤ fuel) :
    Granted live key r a (grantLoop key clock fuel a).1 (grantLoop key clock fuel a).2 := by
  induction fuel generalizing a r with
  | zero =>
    refine granted_nil h hr fun hne => absurd (length_eq_zero_iff.mp ?_) hne
    exact le_zero.mp hfu
  | succ fuel ih =>
    unfold grantLoop
    rw [hr]
    dsimp only
    split_ifs with hrm
    · cases hb : a.best (clock fuel) r.waiters with
      | none => exact granted_nil h hr fun hne => absurd (best_eq_none h hr hb) hne
      | some chosen =>
        obtain ⟨n, p⟩ := chosen
        obtain ⟨hn, hgd⟩ := best_spec h hr hb
        have hqd : a.stateOf n = some .queued := by
          obtain ⟨w, hw, -, hqd⟩ := ((h.queue key r hr).2 n).mp hn
          unfold stateOf
          rw [hw, map_some, hqd]
        have hst := stateOf_grant hqd key r
        have hl : (r.waiters.erase n).length ≤ fuel := by
          rw [length_erase_of_mem hn]
          omega
        obtain ⟨hsd, hgr, hstp, -, r', hr', ha⟩ :=
          ih (h.grant hr hrm hn) (find?_resources_grant a key r n) hl
        refine ⟨hsd, ⟨?_, ?_, ?_⟩, ?_, ?_, r', hr', ?_⟩
        · rintro g (_ | ⟨_, hg⟩)
          · exact hgd
          · exact hgr.best g hg
        · rintro m (_ | ⟨_, hm⟩)
          · exact hqd
          have hm' := hgr.queued m hm
          rw [hst] at hm'
          split at hm'
          · cases hm'
          · exact hm'
        · intro m
          rw [hgr.state m, hst m]
          by_cases hm : m = n
          · rw [if_pos hm, ite_self, hm]
            exact (if_pos mem_cons_self).symm
          · rw [if_neg hm]
            refine if_congr ?_ rfl rfl
            exact (mem_cons.trans (or_iff_right hm)).symm
        · rw [hstp]
          exact setState_stopping _ _ _
        · intro hs
          rw [h.stopped hs key r hr] at hn
          cases hn
        · rw [ha, length_cons]
          dsimp only
          omega
    · exact granted_nil h hr fun _ => le_antisymm (h.counted key r hr).2 (not_lt.mp hrm)

/-- **A slot is given back**, and the next waiter gets it. -/
theorem Sound.releaseOneLocked (h : a.Sound none live) (clock : ℕ → ℤ)
    (hr : a.resources.find? key = some r) (ho : live' key + 1 = live key)
    (hlv : ∀ k, k ≠ key → live' k = live k) :
    Granted live' key { r with active := r.active - 1 } a
      (a.releaseOneLocked key clock).1 (a.releaseOneLocked key clock).2 := by
  obtain ⟨ha, hc⟩ := h.counted key r hr
  let freed : ResourceArbiter := { a with
    resources := a.resources.insert key { r with active := r.active - 1 } }
  have hr' : freed.resources.find? key = some { r with active := r.active - 1 } :=
    a.resources.find?_insert_self key _
  have hfreed : freed.Sound (some key) live' := by
    refine h.change (changesAt_setResource a key _) hlv (fun k _ _ => some_ne_none k)
      (fun m w hm => ⟨(h.known m w hm).1, .inr (h.known m w hm).2⟩) hr' ⟨?_, ?_⟩
      (h.queue key r hr) (fun _ hne => absurd rfl hne) (fun hs => h.stopped hs key r hr)
    · have hold : freed.unclaimed key = a.unclaimed key := rfl
      dsimp only
      omega
    · dsimp only
      omega
  unfold ResourceArbiter.releaseOneLocked
  rw [hr]
  dsimp only
  rw [if_neg (by omega)]
  have hgr : ∀ {a' grants},
      Granted live' key { r with active := r.active - 1 } freed a' grants →
      Granted live' key { r with active := r.active - 1 } a a' grants :=
    fun g => ⟨g.sound, ⟨g.marked.best, g.marked.queued, g.marked.state⟩, g.stopping, g.quiet,
      g.counted⟩
  split_ifs with hs
  · exact hgr (granted_nil hfreed hr' fun hne => absurd (h.stopped hs key r hr) hne)
  · exact hgr (granted_grantLoop clock hfreed hr' le_rfl)

/-! ## Enqueue -/

/-- The resource that a request finds, or makes. -/
def Found (a : ResourceArbiter) (request : ResourceRequest) (found : Resource) : Prop :=
  a.resources.find? request.resourceKey = some found
    ∨ a.resources.find? request.resourceKey = none ∧ found.active = 0 ∧ found.waiters = []

/-- **What a request can do.** -/
inductive Enqueued (a : ResourceArbiter) (request : ResourceRequest) (now : ℤ) :
    ResourceArbiter × Except ArbiterError Registration → Prop
  | refused (e : ArbiterError) : Enqueued a request now (a, .error e)
  | made {found : Resource} (hfound : a.Found request found) (e : ArbiterError) :
    Enqueued a request now
      ({ a with resources := a.resources.insert request.resourceKey found }, .error e)
  | immediate {found : Resource} (hfound : a.Found request found)
    (hroom : found.active < found.capacity) (hempty : found.waiters = []) :
    Enqueued a request now
      ({ a with
          resources := a.resources.insert request.resourceKey
            { found with active := found.active + 1 } },
        .ok (.immediate request.resourceKey))
  | waits {found : Resource} (hfound : a.Found request found) (hs : a.stopping = false)
    (hfull : found.active < found.capacity → found.waiters ≠ []) :
    Enqueued a request now (a.push request found now, .ok (.waiter a.nextSequence))

/-- What a request changes. -/
theorem enqueued_enqueue (a : ResourceArbiter) (request : ResourceRequest) (now : ℤ) :
    Enqueued a request now (a.enqueue request now) := by
  have hf : a.Found request ((a.resources.find? request.resourceKey).getD
      { capacity := request.capacity.toNat }) := by
    unfold Found
    cases a.resources.find? request.resourceKey with
    | none => exact .inr ⟨rfl, rfl, rfl⟩
    | some found => exact .inl rfl
  unfold enqueue
  split
  · exact .refused _
  split_ifs with hs
  · exact .refused _
  dsimp only
  split
  · exact .made hf _
  split
  · rename_i hrm
    rw [Bool.and_eq_true, decide_eq_true_eq, List.isEmpty_iff] at hrm
    exact .immediate hf hrm.1 hrm.2
  · rename_i hfl
    rw [Bool.and_eq_true, decide_eq_true_eq, List.isEmpty_iff] at hfl
    split
    · exact .made hf _
    · exact .waits hf (Bool.eq_false_iff.mpr hs) fun hrm he => hfl ⟨hrm, he⟩

variable {request : ResourceRequest}

theorem Sound.found (h : a.Sound none live) {found : Resource} (hf : a.Found request found) :
    found.active = live request.resourceKey + a.unclaimed request.resourceKey
      ∧ (found.waiters.Nodup ∧ ∀ n, n ∈ found.waiters ↔ a.Queued request.resourceKey n)
      ∧ (a.stopping = false → found.waiters ≠ [] → found.active = found.capacity)
      ∧ (a.stopping = true → found.waiters = [])
      ∧ (found.active ≤ found.capacity) := by
  obtain hf | ⟨hno, ha, he⟩ := hf
  · obtain ⟨hc, hcap⟩ := h.counted _ _ hf
    exact ⟨hc, h.queue _ _ hf,
      fun hs => h.full hs _ _ (some_ne_none _) hf, fun hs => h.stopped hs _ _ hf,
      hcap⟩
  · obtain ⟨hlv, hunc⟩ := h.unused _ hno
    refine ⟨?_, ⟨?_, fun n => ⟨?_, ?_⟩⟩, fun _ hne => absurd he hne, fun _ => he, ?_⟩
    · rw [ha, hlv, hunc]
    · rw [he]
      exact nodup_nil
    · intro hn
      rw [he] at hn
      cases hn
    · rintro ⟨w, hw, hk, -⟩
      obtain ⟨r, hr⟩ := (h.known n w hw).2
      rw [hk, hno] at hr
      cases hr
    · rw [ha]
      exact zero_le _

/-- A request that fails keeps the invariant. -/
theorem Sound.made (h : a.Sound none live) {found : Resource} (hf : a.Found request found) :
    ({ a with resources := a.resources.insert request.resourceKey found } :
      ResourceArbiter).Sound none live := by
  obtain ⟨hc, hq, hfl, hstp, hcap⟩ := h.found hf
  exact h.change (changesAt_setResource a _ _) (fun _ _ => rfl) (fun _ _ hne => hne)
    (fun m w hm => ⟨(h.known m w hm).1, .inr (h.known m w hm).2⟩)
    (a.resources.find?_insert_self _ _) ⟨hc, hcap⟩ hq (fun hs _ => hfl hs) hstp

/-- A lease is handed out at once. -/
theorem Sound.immediate (h : a.Sound none live) {found : Resource} (hf : a.Found request found)
    (hrm : found.active < found.capacity) (he : found.waiters = [])
    (ho : live' request.resourceKey = live request.resourceKey + 1)
    (hlv : ∀ k, k ≠ request.resourceKey → live' k = live k) :
    (⟨a.resources.insert request.resourceKey { found with active := found.active + 1 },
      a.nextSequence, a.stopping, a.heap⟩ : ResourceArbiter).Sound none live' := by
  obtain ⟨hc, hq, -, -, -⟩ := h.found hf
  refine h.change (changesAt_setResource a _ _) hlv (fun _ _ hne => hne)
    (fun m w hm => ⟨(h.known m w hm).1, .inr (h.known m w hm).2⟩)
    (a.resources.find?_insert_self _ _) ⟨?_, hrm⟩ hq (fun _ _ hne => absurd he hne)
    fun _ => he
  have hold : (⟨a.resources.insert request.resourceKey { found with active := found.active + 1 },
    a.nextSequence, a.stopping, a.heap⟩ : ResourceArbiter).unclaimed request.resourceKey
      = a.unclaimed request.resourceKey := rfl
  dsimp only
  omega

theorem find?_heap_push (a : ResourceArbiter) (request : ResourceRequest) (found : Resource)
    (now : ℤ) (m : ℕ) : (a.push request found now).heap.find? m
      = if m = a.nextSequence then some
            { resourceKey := request.resourceKey
              priority := request.priority
              fairnessWeight := max 1 request.fairnessWeight.toNat
              submittedAt := now }
        else a.heap.find? m :=
  a.heap.find?_insert _ m _

theorem Sound.find?_nextSequence (h : a.Sound except live) :
    a.heap.find? a.nextSequence = none := by
  cases hnx : a.heap.find? a.nextSequence with
  | none => rfl
  | some w => exact absurd (h.known _ w hnx).1 (lt_irrefl _)

theorem Sound.unclaimed_push (h : a.Sound none live) (request : ResourceRequest) (found : Resource)
    (now : ℤ) (k : String) : (a.push request found now).unclaimed k = a.unclaimed k := by
  have hsm := a.heap.sumBy_insert a.nextSequence
    { resourceKey := request.resourceKey
      priority := request.priority
      fairnessWeight := max 1 request.fairnessWeight.toNat
      submittedAt := now }
    fun _ w => if w.state = .granted ∧ w.resourceKey = k then 1 else 0
  rw [h.find?_nextSequence, elim_none, if_neg (by rintro ⟨⟨⟩, -⟩)] at hsm
  exact hsm

/-- A queue with a waiter more. -/
theorem Sound.queued_push (h : a.Sound none live) (request : ResourceRequest) (found : Resource)
    (now : ℤ) (k : String) (m : ℕ) : (a.push request found now).Queued k m
      ↔ a.Queued k m ∨ m = a.nextSequence ∧ k = request.resourceKey := by
  unfold Queued
  rw [find?_heap_push]
  split_ifs with hm
  · constructor
    · rintro ⟨w, hw, hk, -⟩
      cases hw
      exact .inr ⟨hm, hk.symm⟩
    · rintro (⟨w, hw, -⟩ | ⟨-, hk⟩)
      · rw [hm, h.find?_nextSequence] at hw
        cases hw
      · exact ⟨_, rfl, hk.symm, rfl⟩
  · exact (or_iff_left fun heq => hm heq.1).symm

/-- **A request waits** only while every slot is in use. -/
theorem Sound.push (h : a.Sound none live) {found : Resource} (hf : a.Found request found)
    (hs : a.stopping = false) (hfl : found.active < found.capacity → found.waiters ≠ []) (now : ℤ) :
    (a.push request found now).Sound none live := by
  obtain ⟨hc, ⟨hnd, hmm⟩, hwait, -, hcap⟩ := h.found hf
  have hn : a.nextSequence ∉ found.waiters := by
    rw [hmm]
    rintro ⟨w, hw, -⟩
    rw [h.find?_nextSequence] at hw
    cases hw
  have hchg : ChangesAt request.resourceKey a (a.push request found now) :=
    ⟨rfl, fun k hk => a.resources.find?_insert_of_ne hk _,
      fun k _ => h.unclaimed_push request found now k,
      fun k hk m => (h.queued_push request found now k m).trans
        (or_iff_left fun heq => hk heq.2)⟩
  refine h.change hchg (fun _ _ => rfl) (fun _ _ hne => hne) (fun m w hm => ?_)
    (a.resources.find?_insert_self _ _) ⟨?_, hcap⟩ ⟨?_, fun m => ?_⟩ (fun _ _ _ => ?_)
    fun hs' => ?_
  · have hnx : (a.push request found now).nextSequence = a.nextSequence + 1 := rfl
    rw [hnx]
    rw [find?_heap_push] at hm
    split_ifs at hm with heq
    · cases hm
      exact ⟨by omega, .inl rfl⟩
    · obtain ⟨hlt, hkn⟩ := h.known m w hm
      exact ⟨by omega, .inr hkn⟩
  · rw [h.unclaimed_push]
    exact hc
  · exact nodup_append.mpr ⟨hnd, nodup_singleton _, fun m hm m' hm' heq =>
      hn ((mem_singleton.mp hm') ▸ heq ▸ hm)⟩
  · rw [h.queued_push, mem_append, mem_singleton, hmm]
    exact or_congr_right (and_iff_left rfl).symm
  · by_cases hrm : found.active < found.capacity
    · exact hwait hs (hfl hrm)
    · exact le_antisymm hcap (not_lt.mp hrm)
  · rw [hs] at hs'
    cases hs'

/-! ## Claim and abandon -/

/-- A waiter that was granted a slot hands it over. -/
theorem Sound.handOver (h : a.Sound none live) (hn : a.heap.find? n = some w)
    (hgr : w.state = .granted) (hqd : state ≠ .queued) (hst : state ≠ .granted)
    (ho : live' w.resourceKey = live w.resourceKey + 1)
    (hlv : ∀ k, k ≠ w.resourceKey → live' k = live k) :
    (a.setState n state).Sound none live' := by
  obtain ⟨r, hr⟩ := (h.known n w hn).2
  obtain ⟨ha, hc⟩ := h.counted _ r hr
  obtain ⟨hnd, hmm⟩ := h.queue _ r hr
  have hr' : (a.setState n state).resources.find? w.resourceKey = some r := by
    rw [setState_resources]
    exact hr
  have hsm := unclaimed_setState hn state w.resourceKey
  rw [if_pos ⟨hgr, rfl⟩, if_neg fun hs => hst hs.1] at hsm
  refine h.change (changesAt_setState hn rfl hqd) hlv (fun _ _ hne => hne)
    (fun m w' hm => ?_) hr' ⟨by omega, hc⟩ ⟨hnd, fun m => ?_⟩
    (fun hs hne => h.full hs _ r hne hr) fun hs => h.stopped hs _ r hr
  · rw [setState_nextSequence]
    obtain ⟨hlt, hkn⟩ := h.known_setState hn state hm
    exact ⟨hlt, .inr hkn⟩
  · rw [queued_setState hn hqd, hmm]
    refine (and_iff_right_of_imp ?_).symm
    rintro ⟨w', hw', -, hqd'⟩ rfl
    rw [hn] at hw'
    cases hw'
    rw [hgr] at hqd'
    cases hqd'

/-- **A waiter that is given up leaves the queue.** -/
theorem Sound.leaveQueue (h : a.Sound none live) (hn : a.heap.find? n = some w)
    (hqd : w.state = .queued) :
    ((a.leaveQueue w.resourceKey n).setState n .cancelled).Sound none live
      ∧ ∃ r, ((a.leaveQueue w.resourceKey n).setState n .cancelled).resources.find? w.resourceKey
          = some r ∧ n ∉ r.waiters := by
  obtain ⟨r, hr⟩ := (h.known n w hn).2
  obtain ⟨ha, hcap⟩ := h.counted _ r hr
  obtain ⟨hnd, hmm⟩ := h.queue _ r hr
  let a₁ : ResourceArbiter := { a with
    resources := a.resources.insert w.resourceKey { r with waiters := r.waiters.erase n } }
  have hlv : a.leaveQueue w.resourceKey n = a₁ := by
    unfold ResourceArbiter.leaveQueue
    rw [hr]
  have hn₁ : a₁.heap.find? n = some w := hn
  have hr' : (a₁.setState n .cancelled).resources.find? w.resourceKey
      = some { r with waiters := r.waiters.erase n } := by
    rw [setState_resources]
    exact a.resources.find?_insert_self _ _
  have hc : ChangesAt w.resourceKey a (a₁.setState n .cancelled) :=
    (changesAt_setResource a _ _).trans (changesAt_setState hn₁ rfl (by decide))
  have hsm := unclaimed_setState hn₁ .cancelled w.resourceKey
  rw [if_neg (by rw [hqd]; rintro ⟨⟨⟩, -⟩), if_neg (by rintro ⟨⟨⟩, -⟩)] at hsm
  rw [hlv]
  refine ⟨?_, _, hr', fun hmm => absurd hmm hnd.not_mem_erase⟩
  refine h.change hc (fun _ _ => rfl) (fun _ _ hne => hne) (fun m w' hm => ?_) hr'
    ⟨?_, hcap⟩ ⟨hnd.erase n, fun m => ?_⟩ (fun hs hne hnil => ?_) fun hs => ?_
  · rw [setState_nextSequence]
    rw [find?_heap_setState hn₁] at hm
    split_ifs at hm with heq
    · cases hm
      rw [heq]
      exact ⟨(h.known n w hn).1, .inl rfl⟩
    · exact ⟨(h.known m w' hm).1, .inr (h.known m w' hm).2⟩
  · have hold : a₁.unclaimed w.resourceKey = a.unclaimed w.resourceKey := rfl
    dsimp only
    omega
  · rw [queued_setState hn₁ (by decide), hnd.mem_erase_iff, hmm]
    rfl
  · refine h.full hs _ r hne hr fun he => hnil ?_
    rw [he, erase_nil]
  · dsimp only
    rw [h.stopped hs _ r hr, erase_nil]

/-! ## Shutdown -/

/-- Some waiters are cancelled, and nothing else happens to the waiters. -/
structure Cancels (a a' : ResourceArbiter) : Prop where
  heap : ∀ m w', a'.heap.find? m = some w' → ∃ w, a.heap.find? m = some w
    ∧ w.resourceKey = w'.resourceKey ∧ (w'.state = w.state ∨ w'.state = .cancelled)
  unclaimed : ∀ k, a'.unclaimed k = a.unclaimed k
  resources : a'.resources = a.resources
  nextSequence : a'.nextSequence = a.nextSequence

theorem cancels_refl (a : ResourceArbiter) : Cancels a a :=
  ⟨fun _ w hw => ⟨w, hw, rfl, .inl rfl⟩, fun _ => rfl, rfl, rfl⟩

theorem Cancels.trans (h : Cancels a a') (h' : Cancels a' b) : Cancels a b where
  heap m w₂ hw₂ := by
    obtain ⟨w₁, hw₁, hk₁, hst₁⟩ := h'.heap m w₂ hw₂
    obtain ⟨w, hw, hk, hst⟩ := h.heap m w₁ hw₁
    refine ⟨w, hw, hk.trans hk₁, ?_⟩
    obtain heq | hc := hst₁
    · rw [heq]
      exact hst
    · exact .inr hc
  unclaimed k := (h'.unclaimed k).trans (h.unclaimed k)
  resources := h'.resources.trans h.resources
  nextSequence := h'.nextSequence.trans h.nextSequence

/-- A waiter that is not queued is not queued later. -/
theorem Cancels.not_queued (h : Cancels a a')
    (hn : ∀ w, a.heap.find? n = some w → w.state ≠ .queued) {w : Waiter}
    (hw : a'.heap.find? n = some w) : w.state ≠ .queued := by
  obtain ⟨w₀, hw₀, -, hst⟩ := h.heap n w hw
  obtain heq | hc := hst
  · rw [heq]
    exact hn w₀ hw₀
  · rw [hc]
    decide

/-- A waiter that is given up leaves the queue. -/
theorem cancels_cancelQueued (a : ResourceArbiter) (n : ℕ) : Cancels a (a.cancelQueued n)
      ∧ ∀ w, (a.cancelQueued n).heap.find? n = some w → w.state ≠ .queued := by
  unfold cancelQueued
  cases hn : a.heap.find? n with
  | none =>
    refine ⟨cancels_refl a, fun w hw => ?_⟩
    rw [hn] at hw
    cases hw
  | some w =>
    dsimp only
    split_ifs with hqd
    · have hf := find?_heap_setState hn .cancelled
      refine ⟨⟨fun m w' hw' => ?_, fun k => ?_, setState_resources a n _,
        setState_nextSequence a n _⟩, fun w' hw' => ?_⟩
      · rw [hf] at hw'
        split_ifs at hw' with hm
        · cases hw'
          exact ⟨w, hm ▸ hn, rfl, .inr rfl⟩
        · exact ⟨w', hw', rfl, .inl rfl⟩
      · have hsm := unclaimed_setState hn .cancelled k
        rw [if_neg (by rw [hqd]; rintro ⟨⟨⟩, -⟩), if_neg (by rintro ⟨⟨⟩, -⟩)] at hsm
        exact hsm
      · rw [hf, if_pos rfl] at hw'
        cases hw'
        rintro ⟨⟩
    · refine ⟨cancels_refl a, fun w' hw' => ?_⟩
      rw [hn] at hw'
      cases hw'
      exact hqd

/-- No waiter of the list is queued any more. -/
theorem cancels_foldl (l : List ℕ) (a : ResourceArbiter) : Cancels a (l.foldl cancelQueued a)
      ∧ ∀ m ∈ l, ∀ w, (l.foldl cancelQueued a).heap.find? m = some w → w.state ≠ .queued := by
  induction l generalizing a with
  | nil => exact ⟨cancels_refl a, fun m hm => absurd hm not_mem_nil⟩
  | cons n l ih =>
    rw [foldl_cons]
    obtain ⟨hf, hn⟩ := cancels_cancelQueued a n
    obtain ⟨hr, hl⟩ := ih (a.cancelQueued n)
    refine ⟨hf.trans hr, fun m hm w hw => ?_⟩
    obtain rfl | hm := mem_cons.mp hm
    · exact hr.not_queued hn hw
    · exact hl m hm w hw

/-- **After shutdown** nobody waits. -/
theorem Sound.shutdown (h : a.Sound none live) :
    a.shutdown.Sound none live ∧ a.shutdown.stopping = true
      ∧ ∀ m, a.shutdown.stateOf m = some .granted → a.stateOf m = some .granted := by
  unfold ResourceArbiter.shutdown
  split_ifs with hs
  · exact ⟨h, hs, fun _ hm => hm⟩
  obtain ⟨hcn, hn⟩ :=
    cancels_foldl (a.resources.entries.flatMap fun e => e.2.waiters) a
  -- every waiter that was queued stands in some queue
  have hid : ∀ m w, ((a.resources.entries.flatMap fun e => e.2.waiters).foldl cancelQueued
      a).heap.find? m = some w → w.state ≠ .queued := by
    intro m w hw hqd
    obtain ⟨w₀, hw₀, hkey, hst⟩ := hcn.heap m w hw
    have hqd₀ : w₀.state = .queued := by
      obtain heq | hc := hst
      · rw [← heq]
        exact hqd
      · rw [hc] at hqd
        cases hqd
    obtain ⟨r, hr⟩ := (h.known m w₀ hw₀).2
    have hmm : m ∈ r.waiters := ((h.queue _ r hr).2 m).mpr ⟨w₀, hw₀, rfl, hqd₀⟩
    exact hn m (mem_flatMap.mpr
      ⟨(w₀.resourceKey, r), (a.resources.mem_entries_iff _ r).mpr hr, hmm⟩) w hw hqd
  have hf : ∀ k, (a.resources.filterMap fun _ r =>
      some { r with waiters := [] }).find? k
        = (a.resources.find? k).map fun r => { r with waiters := [] } := by
    intro k
    rw [SortedMap.find?_filterMap]
    cases a.resources.find? k <;> rfl
  refine ⟨⟨fun m w hw => ?_, fun k r hr => ?_, fun k hk => ?_, fun k r hr => ?_,
    fun hs => ?_, fun _ k r hr => ?_⟩, rfl, fun m hm => ?_⟩
  · obtain ⟨w₀, hw₀, hkey, -⟩ := hcn.heap m w hw
    obtain ⟨hlt, r, hr⟩ := h.known m w₀ hw₀
    refine ⟨?_, { r with waiters := [] }, ?_⟩
    · rw [hcn.nextSequence]
      exact hlt
    · rw [hf, ← hkey, hr, map_some]
  · rw [hf, map_eq_some_iff] at hr
    obtain ⟨r₀, hr₀, rfl⟩ := hr
    obtain ⟨ha, hcap⟩ := h.counted k r₀ hr₀
    exact ⟨ha.trans (congrArg _ (hcn.unclaimed k).symm), hcap⟩
  · rw [hf, map_eq_none_iff] at hk
    obtain ⟨hlv, hunc⟩ := h.unused k hk
    exact ⟨hlv, (hcn.unclaimed k).trans hunc⟩
  · rw [hf, map_eq_some_iff] at hr
    obtain ⟨r₀, hr₀, rfl⟩ := hr
    refine ⟨nodup_nil, fun m => ⟨fun hm => absurd hm not_mem_nil, ?_⟩⟩
    rintro ⟨w, hw, -, hqd⟩
    exact absurd hqd (hid m w hw)
  · cases hs
  · rw [hf, map_eq_some_iff] at hr
    obtain ⟨r₀, hr₀, rfl⟩ := hr
    rfl
  · unfold stateOf at hm ⊢
    rw [map_eq_some_iff] at hm ⊢
    obtain ⟨w, hw, hgr⟩ := hm
    obtain ⟨w₀, hw₀, -, hst⟩ := hcn.heap m w hw
    refine ⟨w₀, hw₀, ?_⟩
    obtain heq | hc := hst
    · rw [← heq]
      exact hgr
    · rw [hc] at hgr
      cases hgr

end ResourceArbiter

end NeoGraph.Tool
