import NeoGraph.Lib.Machine
import NeoGraph.Tool.SingleFlight

/-!
# Single flight

Whatever the calls of a controller do, the flight in the table under a key is
the one whose leader still runs, so a key has one execution at a time, and the
flight is gone when its leader has ended or is destroyed (`Sound`). A follower
that returns what a flight holds returns what its leader ended with.

A call is refused when as many calls as its policy admits have joined the
flight. A follower that leaves is not taken out of this count, so a call can be
refused while fewer calls wait. `single_flight_iff` says that this is the only
way.
-/

namespace NeoGraph.Tool.Controller

open List Call Bool Option Function Controller CallStage

variable {K : Type} {s s' : Controller K} {c : ℕ} {call call' : Call K} {f : ℕ}
  {flight : Flight K}

/-! ## What holds of every state -/

def follows (f : ℕ) (call : Call K) : Bool :=
  match call.stage with
  | .following g => g = f
  | _ => false

/-- How many calls wait for a flight. -/
def followers (s : Controller K) (f : ℕ) : ℕ := s.calls.countP (follows f)

/-- A call has left its execution and published an ending. -/
def LeftWith (call : Call K) (ending : Ending) : Prop :=
  call.stage = .ended ending none ∨ (call.stage = .destroyed ∧ ending = abandoned call)

/-- What a call knows of the flights. -/
structure CallFits (s : Controller K) (c : ℕ) (call : Call K) : Prop where
  leads : ∀ f, call.leads = some f →
    ∃ flight, s.flights[f]? = some flight ∧ flight.leader = c ∧ flight.key = call.spec.key
  /-- An execution under a single-flight policy is that of a leader. -/
  leading : call.stage.executing = true → call.spec.policy.concurrency = .singleFlight →
    ∃ f, call.leads = some f
  leadsNone : (call.stage = .entered ∨ ∃ f, call.stage = .following f) → call.leads = none
  following : ∀ f, call.stage = .following f → ∃ flight, s.flights[f]? = some flight
  shared : ∀ ending f, call.stage = .ended ending (some f) →
    ∃ flight, s.flights[f]? = some flight ∧ flight.completed = some ending

/-- What a flight knows of its leader and of its followers. -/
structure FlightFits (s : Controller K) (f : ℕ) (flight : Flight K) : Prop where
  /-- The leader of a flight that is not completed is running. -/
  opened : flight.completed = none → s.table flight.key = some f ∧ ∃ call,
    s.calls[flight.leader]? = some call ∧ call.leads = some f ∧ call.stage.executing = true
  /-- A flight is completed with what its leader left with. -/
  closed : ∀ ending, flight.completed = some ending → ∃ call,
    s.calls[flight.leader]? = some call ∧ call.leads = some f ∧ LeftWith call ending
  /-- The count of an open flight: those that wait, and those that left. -/
  counted : flight.completed = none → s.followers f + flight.departed = flight.waiters

/-- What holds of every state that is reached. -/
structure Sound (s : Controller K) : Prop where
  /-- The flights in the table are not completed. -/
  listed : ∀ (k : K) (f : ℕ), s.table k = some f →
    ∃ flight, s.flights[f]? = some flight ∧ flight.key = k ∧ flight.completed = none
  call : ∀ {c : ℕ} {call : Call K}, s.calls[c]? = some call → s.CallFits c call
  flight : ∀ {f : ℕ} {flight : Flight K}, s.flights[f]? = some flight → s.FlightFits f flight

theorem sound_empty (hostAdmission : Bool) : Sound ({ hostAdmission } : Controller K) where
  listed _ _ h := nomatch h
  call h := nomatch h
  flight h := nomatch h

/-! ## The calls after a step -/

variable {α : Type} {l : List α} {i : ℕ}

theorem lt_of_getElem? {a : α} (h : l[i]? = some a) :
    i < l.length := (List.getElem?_eq_some_iff.mp h).1

theorem getElem?_set_some {a : α} (h : l[i]? = some a) (a' : α)
    (j : ℕ) : (l.set i a')[j]? = if j = i then some a' else l[j]? := by
  rw [getElem?_set]
  by_cases heq : i = j
  · rw [if_pos heq, if_pos heq.symm, if_pos (lt_of_getElem? h)]
  · rw [if_neg heq, if_neg (Ne.symm heq)]

/-- The followers of a flight after one call changed. -/
theorem followers_set (hc : s.calls[c]? = some call) (hcs : s'.calls = s.calls.set c call')
    (g : ℕ) : s'.followers g + (if follows g call then 1 else 0)
      = s.followers g + if follows g call' then 1 else 0 := by
  obtain ⟨hlt, hg⟩ := List.getElem?_eq_some_iff.mp hc
  have hp : follows g call = true → 0 < s.calls.countP (follows g) := fun h =>
    countP_pos_iff.mpr ⟨call, mem_of_getElem? hc, h⟩
  unfold followers
  rw [hcs, countP_set hlt, hg]
  split
  · rename_i hf
    have := hp hf
    omega
  · omega

variable {ending : Ending}

theorem LeftWith.not_executing (h : LeftWith call ending) : call.stage.executing = false := by
  obtain h | ⟨h, -⟩ := h <;> rw [h] <;> rfl

theorem follows_eq_false (h : ∀ f, call.stage ≠ .following f) (f : ℕ) : follows f call = false := by
  unfold follows
  cases hs : call.stage with
  | following g => exact absurd hs (h g)
  | _ => rfl

theorem follows_of_following {g : ℕ} (h : call.stage = .following g) (f : ℕ) :
    follows f call = decide (g = f) := by
  unfold follows
  rw [h]

theorem not_following_of_executing (h : call.stage.executing = true) (f : ℕ) :
    call.stage ≠ .following f := by
  intro hs
  rw [hs] at h
  cases h

/-! ## One call changes -/

/-- The flights of a state are there in another, with their leaders and
endings. -/
def Keeps (s s' : Controller K) : Prop :=
  ∀ (f : ℕ) (flight : Flight K), s.flights[f]? = some flight →
    ∃ flight', s'.flights[f]? = some flight' ∧ flight'.key = flight.key
      ∧ flight'.leader = flight.leader
      ∧ ∀ ending, flight.completed = some ending → flight'.completed = some ending

theorem CallFits.mono (h : s.CallFits c call) (hkp : s.Keeps s') : s'.CallFits c call where
  leads f hld := by
    obtain ⟨flight, hf, hldr, hk⟩ := h.leads f hld
    obtain ⟨flight', hf', hk', hldr', -⟩ := hkp f flight hf
    exact ⟨flight', hf', hldr'.trans hldr, hk'.trans hk⟩
  leading := h.leading
  leadsNone := h.leadsNone
  following f hs := by
    obtain ⟨flight, hf⟩ := h.following f hs
    obtain ⟨flight', hf', -⟩ := hkp f flight hf
    exact ⟨flight', hf'⟩
  shared ending f hs := by
    obtain ⟨flight, hf, hc⟩ := h.shared ending f hs
    obtain ⟨flight', hf', -, -, hc'⟩ := hkp f flight hf
    exact ⟨flight', hf', hc' ending hc⟩

/-- **One call changes.** A flight that changes with it, or that it leads, is
shown to fit. -/
theorem Sound.change (h : s.Sound) (hc : s.calls[c]? = some call)
    (hcs : s'.calls = s.calls.set c call') (hkp : s.Keeps s')
    (hlisted : ∀ (k : K) (f : ℕ), s'.table k = some f →
      ∃ flight, s'.flights[f]? = some flight ∧ flight.key = k ∧ flight.completed = none)
    (hca : s'.CallFits c call')
    (hflt : ∀ (f : ℕ) (flight : Flight K), s'.flights[f]? = some flight →
      s'.FlightFits f flight ∨ s.flights[f]? = some flight ∧ flight.leader ≠ c
        ∧ (flight.completed = none → s'.table flight.key = s.table flight.key
          ∧ follows f call' = follows f call)) : s'.Sound where
  listed := hlisted
  call {c' call₁} hc' := by
    rw [hcs, getElem?_set_some hc] at hc'
    split_ifs at hc' with heq
    · obtain rfl := Option.some.inj hc'
      rwa [heq]
    · exact (h.call hc').mono hkp
  flight {f flight} hf := by
    obtain hft | ⟨hf, hldr, hop⟩ := hflt f flight hf
    · exact hft
    have hldr : s'.calls[flight.leader]? = s.calls[flight.leader]? := by
      rw [hcs, getElem?_set_some hc, if_neg hldr]
    have hfol := followers_set hc hcs f
    have hft := h.flight hf
    refine ⟨fun hn => ?_, fun ending hcl => ?_, fun hn => ?_⟩
    · rw [(hop hn).1, hldr]
      exact hft.opened hn
    · rw [hldr]
      exact hft.closed ending hcl
    · rw [(hop hn).2] at hfol
      rw [Nat.add_right_cancel hfol]
      exact hft.counted hn

theorem executing_afterLease (hostAdmission : Bool) :
    (afterLease hostAdmission).executing = true := by
  cases hostAdmission <;> rfl

theorem firstStage_executing (s : Controller K) (policy : ToolExecutionPolicy) :
    (s.firstStage policy).executing = true := by
  unfold firstStage
  split
  · exact executing_afterLease _
  · rfl

/-- The leader of a flight leads it. -/
theorem Sound.leads_of_leader (h : s.Sound) (hf : s.flights[f]? = some flight) :
    ∃ call, s.calls[flight.leader]? = some call ∧ call.leads = some f := by
  cases hcm : flight.completed with
  | none =>
    obtain ⟨-, call, hc, hld, -⟩ := (h.flight hf).opened hcm
    exact ⟨call, hc, hld⟩
  | some ending =>
    obtain ⟨call, hc, hld, -⟩ := (h.flight hf).closed ending hcm
    exact ⟨call, hc, hld⟩

theorem Sound.leader_ne (h : s.Sound) (hc : s.calls[c]? = some call)
    (hf : s.flights[f]? = some flight) (hne : call.leads ≠ some f) : flight.leader ≠ c := by
  rintro rfl
  obtain ⟨call₁, hc₁, hld⟩ := h.leads_of_leader hf
  rw [hc] at hc₁
  obtain rfl := Option.some.inj hc₁
  exact hne hld

/-- The flight of a leader that is running. -/
theorem Sound.flight_of_leads (h : s.Sound) (hc : s.calls[c]? = some call)
    (hld : call.leads = some f) (hr : call.stage.executing = true) :
    ∃ flight, s.flights[f]? = some flight ∧ flight.leader = c ∧ flight.key = call.spec.key
      ∧ flight.completed = none ∧ s.table flight.key = some f := by
  obtain ⟨flight, hf, hldr, hk⟩ := (h.call hc).leads f hld
  have hop : flight.completed = none := by
    cases hcm : flight.completed with
    | none => rfl
    | some ending =>
      obtain ⟨call₁, hc₁, -, hl⟩ := (h.flight hf).closed ending hcm
      rw [hldr, hc] at hc₁
      obtain rfl := Option.some.inj hc₁
      exact absurd hl.not_executing (ne_of_eq_of_ne hr nofun)
  exact ⟨flight, hf, hldr, hk, hop, ((h.flight hf).opened hop).1⟩

/-- A call changes, and neither begins nor ends to lead or to follow an open
flight. -/
theorem Sound.setCall (h : s.Sound) (hc : s.calls[c]? = some call)
    (hld : call'.leads = call.leads) (hsp : call'.spec = call.spec)
    (hbeg : call'.stage.executing = true →
      call.stage.executing = true ∨ call.spec.policy.concurrency ≠ .singleFlight)
    (hr : ∀ f, call.leads = some f → call.stage.executing = true ∧ call'.stage.executing = true)
    (hrl : (call'.stage = .entered ∨ ∃ f, call'.stage = .following f) → call'.stage = call.stage)
    (he : ∀ ending f, call'.stage = .ended ending (some f) →
      ∃ flight, s.flights[f]? = some flight ∧ flight.completed = some ending)
    (hcnt : ∀ f flight, s.flights[f]? = some flight → flight.completed = none →
      follows f call' = follows f call) : (s.setCall c call').Sound := by
  have hft := h.call hc
  refine h.change hc rfl (fun f flight hf => ⟨flight, hf, rfl, rfl, fun _ => id⟩) h.listed
    ⟨?_, ?_, ?_, ?_, he⟩ fun f flight hf => ?_
  · rw [hld, hsp]
    exact hft.leads
  · rw [hld, hsp]
    exact fun hr' hflt => (hbeg hr').elim (fun hr => hft.leading hr hflt)
      fun hne => absurd hflt hne
  · rw [hld]
    exact fun hs => hft.leadsNone (hrl hs ▸ hs)
  · exact fun f hs => hft.following f ((hrl (.inr ⟨f, hs⟩)).symm.trans hs)
  · by_cases hl : call.leads = some f
    · -- the call leads the flight before and after
      obtain ⟨hr, hr'⟩ := hr f hl
      obtain ⟨flight', hf', hldr, -, hop, htb⟩ := h.flight_of_leads hc hl hr
      obtain rfl := Option.some.inj (hf.symm.trans hf')
      have hfol := @followers_set K s (s.setCall c call') c call call' hc rfl f
      rw [hcnt f flight hf hop] at hfol
      refine .inl ⟨fun _ => ⟨htb, call', ?_, hld.trans hl, hr'⟩,
        fun ending hcl => (nomatch hop.symm.trans hcl), fun _ => ?_⟩
      · rw [hldr]
        exact (getElem?_set_some hc call' c).trans (if_pos rfl)
      · rw [Nat.add_right_cancel hfol]
        exact (h.flight hf).counted hop
    · exact .inr ⟨hf, h.leader_ne hc hf hl, fun hop => ⟨rfl, hcnt f flight hf hop⟩⟩

/-- A call is made. -/
theorem Sound.enter (h : s.Sound) (spec : CallSpec K) :
    ({ s with calls := s.calls ++ [{ spec }] } : Controller K).Sound := by
  have hold : ∀ {c : ℕ} {call : Call K}, s.calls[c]? = some call →
      (s.calls ++ [({ spec } : Call K)])[c]? = some call := fun hc => by
    rw [getElem?_append_left (lt_of_getElem? hc), hc]
  refine ⟨h.listed, fun {c call} hc => ?_, fun {f flight} hf => ?_⟩
  · by_cases hlt : c < s.calls.length
    · have hc : s.calls[c]? = some call := (getElem?_append_left hlt).symm.trans hc
      exact (h.call hc).mono fun f flight hf => ⟨flight, hf, rfl, rfl, fun _ => id⟩
    have hc := (getElem?_append_right (not_lt.mp hlt)).symm.trans hc
    obtain rfl := mem_singleton.mp (mem_of_getElem? hc)
    exact ⟨fun f hf => (by cases hf), fun hr => absurd hr false_ne_true, fun _ => rfl,
      fun f hf => (by cases hf), fun ending f hf => (by cases hf)⟩
  · have hft := h.flight hf
    refine ⟨fun hop => ?_, fun ending hcl => ?_, fun hop => ?_⟩
    · obtain ⟨htb, call, hca, hca'⟩ := hft.opened hop
      exact ⟨htb, call, hold hca, hca'⟩
    · obtain ⟨call, hca, hca'⟩ := hft.closed ending hcl
      exact ⟨call, hold hca, hca'⟩
    have hcnt := hft.counted hop
    unfold followers at hcnt ⊢
    rw [countP_append, countP_singleton]
    exact hcnt

/-! ## Steps that change a flight -/

/-- **A leader publishes.** -/
theorem Sound.publish [DecidableEq K] (h : s.Sound) (hc : s.calls[c]? = some call)
    (hld : call.leads = some f) (hr : call.stage.executing = true)
    (hld' : call'.leads = some f) (hsp : call'.spec = call.spec)
    (hl : LeftWith call' ending) : ((s.setCall c call').publishSingleflight f ending).Sound := by
  obtain ⟨flight, hf, hldr, hkd, hop, htb⟩ := h.flight_of_leads hc hld hr
  have hpub : (s.setCall c call').publishSingleflight f ending
      = { (s.setCall c call').setFlight f { flight with completed := some ending } with
          table := update s.table flight.key none } := by
    unfold publishSingleflight
    rw [show (s.setCall c call').flights[f]? = some flight from hf]
    exact if_pos htb
  have hfl := getElem?_set_some hf { flight with completed := some ending }
  have htables : ∀ k, update s.table flight.key none k
      = if k = flight.key then none else s.table k := fun k => update_apply _ _ _ k
  have hs : ∀ g, call'.stage ≠ .following g := by
    intro g hg
    obtain hl | ⟨hl, -⟩ := hl <;> rw [hg] at hl <;> cases hl
  rw [hpub]
  refine h.change hc rfl (fun g flight' hg => ?_) (fun k g hg => ?_) ⟨?_, ?_, ?_, ?_, ?_⟩
    fun g flight' hg => ?_
  · by_cases heq : g = f
    · rw [heq, hf] at hg
      obtain rfl := Option.some.inj hg
      exact ⟨_, (hfl g).trans (if_pos heq), rfl, rfl, fun ending' hcl =>
        nomatch hop.symm.trans hcl⟩
    · exact ⟨flight', (hfl g).trans ((if_neg heq).trans hg), rfl, rfl, fun _ => id⟩
  · have hg := (htables k).symm.trans hg
    split at hg
    · cases hg
    rename_i hne
    obtain ⟨flight', hflt', hk, hop'⟩ := h.listed k g hg
    refine ⟨flight', (hfl g).trans ((if_neg ?_).trans hflt'), hk, hop'⟩
    rintro rfl
    obtain rfl := Option.some.inj (hf.symm.trans hflt')
    exact hne hk.symm
  · intro g hg
    obtain rfl := Option.some.inj (hld'.symm.trans hg)
    exact ⟨_, (hfl f).trans (if_pos rfl), hldr, hkd.trans (by rw [hsp])⟩
  · exact fun _ _ => ⟨f, hld'⟩
  · rintro (hent | ⟨g, hg⟩)
    · obtain hl | ⟨hl, -⟩ := hl <;> rw [hent] at hl <;> cases hl
    · exact absurd hg (hs g)
  · exact fun g hg => absurd hg (hs g)
  · intro ending' g he
    obtain hl | ⟨hl, -⟩ := hl <;> rw [he] at hl <;> cases hl
  · have hg := (hfl g).symm.trans hg
    split at hg
    · rename_i heq
      obtain rfl := Option.some.inj hg
      refine .inl ⟨fun hn => (nomatch hn), fun ending' hcl => ?_,
        fun hn => (nomatch hn)⟩
      obtain rfl := Option.some.inj hcl
      refine ⟨call', ?_, hld'.trans (congrArg some heq.symm), hl⟩
      exact (getElem?_set_some hc call' _).trans (if_pos hldr)
    · rename_i hne
      refine .inr ⟨hg, h.leader_ne hc hg ?_, fun hop' => ⟨(htables _).trans (if_neg ?_), ?_⟩⟩
      · rw [hld]
        exact fun heq => hne (Option.some.inj heq).symm
      · intro hk
        have htb' := ((h.flight hg).opened hop').1
        rw [hk, htb] at htb'
        exact hne (Option.some.inj htb').symm
      · rw [follows_eq_false (not_following_of_executing hr), follows_eq_false hs]

/-- A call that leads no flight comes to follow a flight, or leaves it. -/
theorem Sound.setFollower (h : s.Sound) (hc : s.calls[c]? = some call)
    (hf : s.flights[f]? = some flight) {flight' : Flight K} (hk : flight'.key = flight.key)
    (hcm : flight'.completed = flight.completed) (hldr : flight'.leader = flight.leader)
    (hn : call.leads = none) (hn' : call'.leads = none)
    (hid : call'.stage.executing = false) (hs : ∀ g, call'.stage = .following g → g = f)
    (he : ∀ ending g, call'.stage ≠ .ended ending (some g))
    (hcnt : ∀ g, g ≠ f → follows g call' = follows g call) (hwtrs : flight.completed = none →
      (if follows f call' then 1 else 0) + flight'.departed + flight.waiters
        = (if follows f call then 1 else 0) + flight.departed + flight'.waiters) :
    ((s.setCall c call').setFlight f flight').Sound := by
  have hfl := getElem?_set_some hf flight'
  have hne : ∀ {g : ℕ} {flight₁ : Flight K}, s.flights[g]? = some flight₁ →
      flight₁.leader ≠ c := fun hg =>
    h.leader_ne hc hg fun hld => nomatch hn.symm.trans hld
  -- a flight is as it was, but for its counts
  have hforth : ∀ (g : ℕ) (flight₀ : Flight K), s.flights[g]? = some flight₀ →
      ∃ flight₁, (s.flights.set f flight')[g]? = some flight₁ ∧ flight₁.key = flight₀.key
        ∧ flight₁.leader = flight₀.leader ∧ flight₁.completed = flight₀.completed := by
    intro g flight₀ hg
    rw [hfl]
    split_ifs with heq
    · rw [heq, hf] at hg
      obtain rfl := Option.some.inj hg
      exact ⟨flight', rfl, hk, hldr, hcm⟩
    · exact ⟨flight₀, hg, rfl, rfl, rfl⟩
  refine h.change hc rfl (fun g flight₀ hg => ?_) (fun k g hg => ?_) ⟨?_, ?_, ?_, ?_, ?_⟩
    fun g flight₁ hg => ?_
  · obtain ⟨flight₁, hflt₁, hk₁, hldr₁, hcm₁⟩ := hforth g flight₀ hg
    exact ⟨flight₁, hflt₁, hk₁, hldr₁, fun ending hcl => hcm₁.trans hcl⟩
  · obtain ⟨flight₀, hflt₀, hk₀, hop₀⟩ := h.listed k g hg
    obtain ⟨flight₁, hflt₁, hk₁, -, hcm₁⟩ := hforth g flight₀ hflt₀
    exact ⟨flight₁, hflt₁, hk₁.trans hk₀, hcm₁.trans hop₀⟩
  · exact fun g hg => nomatch hn'.symm.trans hg
  · exact fun hr _ => absurd (hid.symm.trans hr) false_ne_true
  · exact fun _ => hn'
  · intro g hg
    rw [hs g hg]
    exact ⟨flight', (hfl f).trans (if_pos rfl)⟩
  · exact fun ending g hg => absurd hg (he ending g)
  · have hg := (hfl g).symm.trans hg
    split_ifs at hg with heq
    · obtain rfl := Option.some.inj hg
      have hldr' : (s.calls.set c call')[flight'.leader]? = s.calls[flight.leader]? := by
        rw [hldr, getElem?_set_some hc, if_neg (hne hf)]
      have hft := h.flight hf
      rw [heq]
      refine .inl ⟨fun hop => ?_, fun ending hcl => ?_, fun hop => ?_⟩
      · rw [hk]
        exact hldr' ▸ hft.opened (hcm.symm.trans hop)
      · exact hldr' ▸ hft.closed ending (hcm.symm.trans hcl)
      have hop := hcm.symm.trans hop
      have hfol := @followers_set K s (s.setCall c call') c call call' hc rfl f
      have hwtrs := hwtrs hop
      have hcounted := hft.counted hop
      show (s.setCall c call').followers f + _ = _
      omega
    · exact .inr ⟨hg, hne hg, fun _ => ⟨rfl, hcnt g heq⟩⟩

/-- **A call leads a new flight.** -/
theorem Sound.lead [DecidableEq K] (h : s.Sound) (hc : s.calls[c]? = some call)
    (he : call.stage = .entered) (hfr : s.table call.spec.key = none) :
    (s.lead c call).Sound := by
  have hn := (h.call hc).leadsNone (.inl he)
  have hr := firstStage_executing s call.spec.policy
  have htb : ∀ k, (s.lead c call).table k
      = if k = call.spec.key then some s.flights.length else s.table k := fun k =>
    update_apply s.table call.spec.key (some s.flights.length) k
  have hold : ∀ {g : ℕ} {flight₁ : Flight K}, s.flights[g]? = some flight₁ →
      (s.lead c call).flights[g]? = some flight₁ := fun hg => by
    unfold Controller.lead
    rw [getElem?_append_left (lt_of_getElem? hg), hg]
  have hnew : (s.lead c call).flights[s.flights.length]?
      = some { key := call.spec.key, leader := c } := by
    unfold Controller.lead
    rw [getElem?_concat_length]
  have hcs : (s.lead c call).calls = s.calls.set c { call with
      stage := s.firstStage call.spec.policy, leads := some s.flights.length } := rfl
  have hfl : ∀ g, s.firstStage call.spec.policy ≠ .following g := fun g hg => by
    rw [hg] at hr
    cases hr
  refine h.change hc hcs (fun g flight₁ hg => ⟨flight₁, hold hg, rfl, rfl, fun _ => id⟩)
    (fun k g hg => ?_) ⟨?_, ?_, ?_, ?_, ?_⟩ fun g flight₁ hg => ?_
  · rw [htb] at hg
    split_ifs at hg with hk
    · obtain rfl := Option.some.inj hg
      exact ⟨_, hnew, hk.symm, rfl⟩
    · obtain ⟨flight₁, hflt₁, hkey, hop⟩ := h.listed k g hg
      exact ⟨flight₁, hold hflt₁, hkey, hop⟩
  · intro g hg
    obtain rfl := Option.some.inj hg
    exact ⟨_, hnew, rfl, rfl⟩
  · exact fun _ _ => ⟨_, rfl⟩
  · rintro (hs | ⟨g, hs⟩)
    · exact absurd hr (ne_of_eq_of_ne (congrArg executing hs) nofun)
    · exact absurd hs (hfl g)
  · exact fun g hs => absurd hs (hfl g)
  · exact fun ending g hs =>
      absurd hr (ne_of_eq_of_ne (congrArg executing hs) nofun)
  · have hf : ∀ g, follows g call = false :=
      follows_eq_false fun f hs => nomatch he.symm.trans hs
    have hf' : ∀ g, follows g { call with
        stage := s.firstStage call.spec.policy, leads := some s.flights.length } = false :=
      follows_eq_false hfl
    by_cases hlt : g < s.flights.length
    · have hg : s.flights[g]? = some flight₁ := (getElem?_append_left hlt).symm.trans hg
      refine .inr ⟨hg, h.leader_ne hc hg fun hld => (nomatch hn.symm.trans hld),
        fun hop => ⟨(htb _).trans (if_neg fun hkey => ?_), (hf' g).trans
          (hf g).symm⟩⟩
      have hlisted := ((h.flight hg).opened hop).1
      rw [hkey, hfr] at hlisted
      cases hlisted
    · have hlt' : g < s.flights.length + 1 := by
        have := lt_of_getElem? hg
        rwa [show (s.lead c call).flights = s.flights ++ [_] from rfl, length_append,
          length_singleton] at this
      obtain rfl : g = s.flights.length := by omega
      obtain rfl := Option.some.inj (hnew.symm.trans hg)
      refine .inl ⟨fun _ => ⟨(htb _).trans (if_pos rfl), _,
        (getElem?_set_some hc _ c).trans (if_pos rfl), rfl, hr⟩, fun _ hcl => (nomatch hcl),
        fun _ => ?_⟩
      -- nobody follows a flight that was not there
      have hfollowers := followers_set hc hcs s.flights.length
      rw [hf, hf'] at hfollowers
      rw [Nat.add_right_cancel hfollowers]
      refine countP_eq_zero.mpr fun call₁ hm hf => ?_
      obtain ⟨c', hc'⟩ := mem_iff_getElem?.mp hm
      unfold follows at hf
      split at hf
      · rename_i g hs
        obtain ⟨flight₁, hflt₁⟩ := (h.call hc').following g hs
        exact absurd (of_decide_eq_true hf) (lt_of_getElem? hflt₁).ne
      · cases hf

/-! ## A step of an execution -/

/-- What a step of an execution does to its call. -/
structure Advanced (call : Call K) (move : Move K) : Prop where
  executing : call.stage.executing = true
  moved : move.call.stage.executing = true
  leads : move.call.leads = call.leads
  spec : move.call.spec = call.spec
  cancelled : move.call.cancelled = call.cancelled
  deadlinePassed : move.call.deadlinePassed = call.deadlinePassed
  toolCancels : move.call.toolCancels = false → call.toolCancels = false

variable {move : Move K}

theorem Advanced.throwIfCancelled (h : Advanced call move) (what : String) :
    Advanced call (call.throwIfCancelled what move) := by
  unfold Call.throwIfCancelled
  split
  · exact ⟨h.executing, h.executing, rfl, rfl, rfl, rfl, id⟩
  · exact h

theorem advanced_of_stage (stage : CallStage) (h : call.stage.executing = true)
    (hs : stage.executing = true) (outcome : Except ToolException String) :
    Advanced call (.go { call with stage := stage }) ∧ Advanced call (.finish call outcome) :=
  ⟨⟨h, hs, rfl, rfl, rfl, rfl, id⟩, ⟨h, h, rfl, rfl, rfl, rfl, id⟩⟩

theorem advanced_onArbiter (h : call.stage.executing = true) (answer : ArbiterAnswer) :
    Advanced call (call.onArbiter answer) := by
  have hf := fun outcome => (advanced_of_stage call.stage h h outcome).2
  have hgo := (advanced_of_stage .leased h rfl (.ok "")).1
  cases answer with
  | granted => exact hgo.throwIfCancelled _
  | full | timedOut | failed what => exact (hf _).throwIfCancelled _

theorem advanced_onHost (h : call.stage.executing = true) (answer : HostAnswer) :
    Advanced call (call.onHost answer) := by
  have hf := fun outcome => (advanced_of_stage call.stage h h outcome).2
  have hgo := (advanced_of_stage .admitted h rfl (.ok "")).1
  cases answer with
  | granted => exact hgo.throwIfCancelled _
  | refused failure what => exact (hf _).throwIfCancelled _
  | timedOut => exact hf _

theorem advanced_onTool (h : call.stage.executing = true) {attempt : ℕ}
    {outcome : Except ToolException String} (hmv : call.onTool attempt outcome = some move) :
    Advanced call move := by
  unfold onTool at hmv
  dsimp only at hmv
  split at hmv
  · cases hmv
    exact ⟨h, h, rfl, rfl, rfl, rfl, fun h => (or_eq_false_iff.mp h).1⟩
  · cases hmv
  · split at hmv <;> cases hmv
    · exact ⟨h, rfl, rfl, rfl, rfl, rfl, fun h => (or_eq_false_iff.mp h).1⟩
    · exact ⟨h, h, rfl, rfl, rfl, rfl, fun h => (or_eq_false_iff.mp h).1⟩

/-- **What an execution can do.** -/
inductive Advances (call : Call K) (hostAdmission : Bool) : ExecutionEvent → Move K → Prop
  | late : call.stage = .requesting → call.deadlinePassed = true →
      Advances call hostAdmission .request (.finish call (.error .runDeadlineElapsed))
  | request (what : String) : call.stage = .requesting → Advances call hostAdmission .request
      (call.throwIfCancelled what (.go { call with stage := .queued }))
  | arbiter (answer : ArbiterAnswer) : call.stage = .queued →
      Advances call hostAdmission (.arbiter answer) (call.onArbiter answer)
  | host (answer : HostAnswer) : call.stage = .admitting →
      Advances call hostAdmission (.host answer) (call.onHost answer)
  | leased (what : String) : call.stage = .leased → Advances call hostAdmission .proceed
      (call.throwIfCancelled what (.go { call with stage := afterLease hostAdmission }))
  | admitted (what : String) : call.stage = .admitted → Advances call hostAdmission .proceed
      (call.throwIfCancelled what (.go { call with stage := .attempting 0 none }))
  | expired {attempt lastError} (e : ToolException) : call.stage = .attempting attempt lastError →
      call.deadlinePassed = true → Advances call hostAdmission .attempt (.finish call (.error e))
  | attempt {attempt lastError} (what : String) : call.stage = .attempting attempt lastError →
      Advances call hostAdmission .attempt
        (call.throwIfCancelled what (.go { call with stage := .running attempt, started := true }))
  | toolEnds {attempt outcome move} : call.stage = .running attempt →
      call.onTool attempt outcome = some move →
      Advances call hostAdmission (.toolEnds outcome) move
  | abort (what : String) : call.waitCancelled = true → call.stage.suspended = true →
      Advances call hostAdmission (.abort what)
        (.finish call (.error (.system .operationAborted what)))

theorem executing_of_suspended {stage : CallStage} (h : stage.suspended = true) :
    stage.executing = true := by
  cases stage <;> first | rfl | cases h

variable {hostAdmission : Bool} {e : ExecutionEvent}

theorem Advances.executing (h : Advances call hostAdmission e move) :
    call.stage.executing = true := by
  cases h with
  | abort what _ hsusp => exact executing_of_suspended hsusp
  | _ =>
    rw [‹call.stage = _›]
    rfl

theorem advances (hmv : call.advance hostAdmission e = some move) :
    Advances call hostAdmission e move := by
  cases e
  all_goals
    dsimp only [advance] at hmv
    split at hmv
    all_goals try cases hmv
  · split_ifs at hmv with hl <;> cases hmv
    · exact .late ‹_› hl
    · exact .request _ ‹_›
  · exact .arbiter _ ‹_›
  · exact .host _ ‹_›
  · exact .leased _ ‹_›
  · exact .admitted _ ‹_›
  · split_ifs at hmv with hl <;> cases hmv
    · exact .expired _ ‹_› hl
    · exact .attempt _ ‹_›
  · exact .toolEnds ‹_› hmv
  · rename_i hgv
    rw [Bool.and_eq_true] at hgv
    exact .abort _ hgv.1 hgv.2

/-- **A step of an execution** changes its stage, and ends it with an
outcome. -/
theorem advanced_of_advance (hmv : call.advance hostAdmission e = some move) :
    Advanced call move := by
  have hadvances := advances hmv
  have h := hadvances.executing
  cases hadvances with
  | late | expired | abort => exact (advanced_of_stage call.stage h h _).2
  | request | admitted => exact (advanced_of_stage _ h rfl (.ok "")).1.throwIfCancelled _
  | leased => exact (advanced_of_stage _ h (executing_afterLease _) (.ok "")).1.throwIfCancelled _
  | attempt => exact Advanced.throwIfCancelled ⟨h, rfl, rfl, rfl, rfl, rfl, id⟩ _
  | arbiter answer => exact advanced_onArbiter h answer
  | host answer => exact advanced_onHost h answer
  | toolEnds _ hmv => exact advanced_onTool h hmv

/-! ## Every step -/

/-- At this stage a call neither waits to begin, nor follows a flight, nor has
returned what one holds. -/
def alone : CallStage → Bool
  | .entered | .following _ | .ended _ (some _) => false
  | _ => true

theorem alone_of_executing {stage : CallStage} (h : stage.executing = true) :
    alone stage = true := by
  cases stage <;> first | rfl | cases h

theorem LeftWith.alone (h : LeftWith call ending) : alone call.stage = true := by
  obtain h | ⟨h, -⟩ := h <;> rw [h] <;> rfl

theorem not_following_of_alone (h : alone call.stage = true) (f : ℕ) :
    call.stage ≠ .following f := by
  intro hs
  rw [hs] at h
  cases h

theorem not_role_of_alone (h : alone call.stage = true) :
    ¬(call.stage = .entered ∨ ∃ f, call.stage = .following f) := by
  rintro (hs | ⟨f, hs⟩) <;> rw [hs] at h <;> cases h

theorem not_shared_of_alone (h : alone call.stage = true) (ending : Ending) (f : ℕ) :
    call.stage ≠ .ended ending (some f) := by
  intro hs
  rw [hs] at h
  cases h

/-- A call that leads nothing changes its stage, to one where it is alone. -/
theorem Sound.setAlone (h : s.Sound) (hc : s.calls[c]? = some call) (hn : call.leads = none)
    (hfol : ∀ f, call.stage ≠ .following f) (hld : call'.leads = none)
    (hs : call'.spec = call.spec) (hbeg : call'.stage.executing = true →
      call.stage.executing = true ∨ call.spec.policy.concurrency ≠ .singleFlight)
    (ha : alone call'.stage = true) : (s.setCall c call').Sound := by
  refine h.setCall hc (hld.trans hn.symm) hs hbeg
    (fun f hf => nomatch hn.symm.trans hf)
    (fun hr => absurd hr (not_role_of_alone ha))
    (fun ending f hf => absurd hf (not_shared_of_alone ha ending f)) fun f _ _ _ => ?_
  rw [follows_eq_false (not_following_of_alone ha), follows_eq_false hfol]

section Step

variable [DecidableEq K]

/-- **A call closes its execution**: it returns, or it is destroyed. -/
theorem Sound.close (h : s.Sound) (hc : s.calls[c]? = some call) (call' : Call K)
    (hr : call.stage.executing = true) (hld : call'.leads = call.leads)
    (hs : call'.spec = call.spec) {ending : Ending} (hl : LeftWith call' ending) :
    (s.close c call' ending).Sound := by
  unfold Controller.close
  cases hle : call'.leads with
  | some f => exact h.publish hc (hld.symm.trans hle) hr hle hs hl
  | none =>
    exact h.setAlone hc (hld.symm.trans hle) (not_following_of_executing hr) hle hs
      (fun _ => .inl hr) hl.alone

/-- A call goes on. -/
theorem Sound.apply (h : s.Sound) (hc : s.calls[c]? = some call) {move : Move K}
    (hmv : Advanced call move) : (s.apply c move).Sound := by
  cases move with
  | go call' =>
    have hm : call'.stage.executing = true := hmv.moved
    have ha := alone_of_executing hm
    refine h.setCall hc hmv.leads hmv.spec (fun _ => .inl hmv.executing)
      (fun f _ => ⟨hmv.executing, hm⟩)
      (fun hr => absurd hr (not_role_of_alone ha))
      (fun ending f hf => absurd hf (not_shared_of_alone ha ending f)) fun f _ _ _ => ?_
    rw [follows_eq_false (not_following_of_executing hm),
      follows_eq_false (not_following_of_executing hmv.executing)]
  | finish call' outcome =>
    have hld : call'.leads = call.leads := hmv.leads
    have hs : call'.spec = call.spec := hmv.spec
    exact h.close hc { call' with stage := .ended (call'.endingWith outcome) none }
      hmv.executing hld hs (.inl rfl)

end Step

/-- A follower leaves. -/
theorem Sound.depart (h : s.Sound) (hc : s.calls[c]? = some call)
    (hfl : call.stage = .following f) (hld : call'.leads = call.leads)
    (hid : call'.stage.executing = false) (ha : alone call'.stage = true) :
    (s.depart c call' f).Sound := by
  have hn := (h.call hc).leadsNone (.inr ⟨f, hfl⟩)
  obtain ⟨flight, hf⟩ := (h.call hc).following f hfl
  have hfol : ∀ g, follows g call' = false :=
    follows_eq_false (not_following_of_alone ha)
  unfold Controller.depart
  rw [hf]
  refine h.setFollower hc hf rfl rfl rfl hn (hld.trans hn) hid
    (fun g hg => absurd hg (not_following_of_alone ha g))
    (not_shared_of_alone ha) (fun g hne => ?_) fun _ => ?_
  · rw [hfol, follows_of_following hfl, decide_eq_false (Ne.symm hne)]
  · rw [hfol, follows_of_following hfl, decide_eq_true rfl, if_pos rfl,
      if_neg Bool.false_ne_true]
    dsimp only
    omega

/-- **A call follows a flight.** -/
theorem Sound.follow (h : s.Sound) (hc : s.calls[c]? = some call) (he : call.stage = .entered)
    (hf : s.flights[f]? = some flight) : (s.follow c call f flight).Sound := by
  have hn := (h.call hc).leadsNone (.inl he)
  have hfol : ∀ g, call.stage ≠ .following g := fun g hg => nomatch he.symm.trans hg
  unfold Controller.follow
  split
  · exact h.setAlone hc hn hfol hn rfl nofun rfl
  have hc' : ({ call with stage := .following f } : Call K).stage = .following f := rfl
  refine h.setFollower hc hf rfl rfl rfl hn hn rfl
    (fun g hg => following.inj (hg.symm.trans hc'))
    (fun ending g hg => nomatch hc'.symm.trans hg) (fun g hne => ?_) fun _ => ?_
  · rw [follows_eq_false hfol, follows_of_following hc', decide_eq_false (Ne.symm hne)]
  · rw [follows_eq_false hfol, follows_of_following hc', decide_eq_true rfl, if_pos rfl,
      if_neg Bool.false_ne_true]
    dsimp only
    omega

/-- Only a note about a call that is not ended changes. -/
theorem Sound.note (h : s.Sound) (hc : s.calls[c]? = some call) (hlv : call.stage.live = true)
    (hs : call'.stage = call.stage) (hld : call'.leads = call.leads)
    (hsp : call'.spec = call.spec) : (s.setCall c call').Sound := by
  refine h.setCall hc hld hsp (fun hr => .inl (hs ▸ hr)) (fun f hf => ?_)
    (fun _ => hs) ?_ fun f _ _ _ => ?_
  · rw [hs]
    have hexecuting : call.stage.executing = true := by
      cases hcs : call.stage with
      | entered => exact nomatch ((h.call hc).leadsNone (.inl hcs)).symm.trans hf
      | following g => exact nomatch ((h.call hc).leadsNone (.inr ⟨g, hcs⟩)).symm.trans hf
      | ended ending shared | destroyed =>
        rw [hcs] at hlv
        cases hlv
      | _ => rfl
    exact ⟨hexecuting, hexecuting⟩
  · intro ending f he
    rw [← hs, he] at hlv
    cases hlv
  · unfold follows
    rw [hs]

/-- A follower returns what its flight holds. -/
theorem Sound.observe (h : s.Sound) (hc : s.calls[c]? = some call)
    (ho : s.observe c call = some s') : s'.Sound := by
  unfold Controller.observe at ho
  split at ho
  · rename_i f hfl
    obtain ⟨ending, hb, ho⟩ := map_eq_some_iff.mp ho
    obtain ⟨flight, hf, hcm⟩ := bind_eq_some_iff.mp hb
    have hn := (h.call hc).leadsNone (.inr ⟨f, hfl⟩)
    have hs : ({ call with stage := .ended ending (some f) } : Call K).stage
        = .ended ending (some f) := rfl
    have hfol : ∀ g, ({ call with stage := .ended ending (some f) } : Call K).stage
        ≠ .following g := fun g hg => nomatch hs.symm.trans hg
    rw [← ho]
    refine h.setCall hc rfl rfl nofun (fun g hg => nomatch hn.symm.trans hg) ?_ ?_ ?_
    · rintro (hent | ⟨g, hg⟩)
      · exact nomatch hs.symm.trans hent
      · exact absurd hg (hfol g)
    · intro ending' g he
      obtain ⟨rfl, hg⟩ := ended.inj (hs.symm.trans he)
      obtain rfl := Option.some.inj hg
      exact ⟨flight, hf, hcm⟩
    · -- the flight that the call followed is completed
      intro g flight' hg hop
      have hne : f ≠ g := by
        rintro rfl
        rw [hf] at hg
        obtain rfl := Option.some.inj hg
        exact nomatch hop.symm.trans hcm
      rw [follows_eq_false hfol, follows_of_following hfl, decide_eq_false hne]
  · cases ho

/-- A call is destroyed. -/
theorem Sound.destroy [DecidableEq K] (h : s.Sound) (hc : s.calls[c]? = some call)
    (hdes : s.destroy c call = some s') : s'.Sound := by
  unfold Controller.destroy at hdes
  split at hdes
  · rename_i f hf
    cases hdes
    exact h.depart hc hf rfl rfl rfl
  · rename_i hf
    split at hdes <;> cases hdes
    rename_i hlv
    have hl : LeftWith ({ call with stage := .destroyed } : Call K) (abandoned call) :=
      .inr ⟨rfl, rfl⟩
    by_cases hr : call.stage.executing = true
    · exact h.close hc { call with stage := .destroyed } hr rfl rfl hl
    -- it has not begun
    have he : call.stage = .entered := by
      cases hs : call.stage with
      | entered => rfl
      | following f => exact absurd hs (hf f)
      | ended ending shared | destroyed =>
        exact absurd hlv (by rw [hs]; exact false_ne_true)
      | _ => exact absurd (by rw [hs]; rfl) hr
    have hn := (h.call hc).leadsNone (.inl he)
    have hcl : s.close c { call with stage := .destroyed } (abandoned call)
        = s.setCall c { call with stage := .destroyed } := by
      unfold Controller.close
      rw [show ({ call with stage := .destroyed } : Call K).leads = none from hn]
    rw [hcl]
    exact h.setAlone hc hn hf hn rfl nofun hl.alone

section Step

variable [DecidableEq K]

/-- A call joins a flight, or leads one. -/
theorem Sound.join (h : s.Sound) (hc : s.calls[c]? = some call) (he : call.stage = .entered)
    (hj : s.join c call = some s') : s'.Sound := by
  have hn := (h.call hc).leadsNone (.inl he)
  unfold Controller.join at hj
  split at hj
  · cases hj
    exact h.setAlone hc hn (fun g hg => nomatch he.symm.trans hg) hn rfl nofun rfl
  split at hj
  · rename_i hne
    cases hj
    exact h.setAlone hc hn (fun g hg => nomatch he.symm.trans hg) hn rfl
      (fun _ => .inr hne) (alone_of_executing (firstStage_executing s call.spec.policy))
  · split at hj
    · rename_i f htb
      obtain ⟨flight, hf, hj⟩ := map_eq_some_iff.mp hj
      rw [← hj]
      exact h.follow hc he hf
    · rename_i htb
      cases hj
      exact h.lead hc he htb

theorem step_join (hc : s.calls[c]? = some call) (he : call.stage = .entered) :
    s.step (.join c) = s.join c call := by
  dsimp only [step]
  rw [hc, bind_eq_bind, bind_some, he]

variable {e : CallEvent K}

/-- **Every step is sound.** -/
theorem Sound.step (h : s.Sound) (hs : s.step e = some s') : s'.Sound := by
  cases e with
  | enter spec =>
    cases hs
    exact h.enter spec
  | fail c what =>
    obtain ⟨call, hc, hs⟩ := bind_eq_some_iff.mp hs
    split at hs
    · rename_i he
      cases hs
      have hn := (h.call hc).leadsNone (.inl he)
      exact h.setAlone hc hn (fun g hg => nomatch he.symm.trans hg) hn rfl nofun rfl
    · cases hs
  | join c =>
    obtain ⟨call, hc, hs⟩ := bind_eq_some_iff.mp hs
    split at hs
    · rename_i he
      exact h.join hc he hs
    · cases hs
  | execute c e =>
    obtain ⟨call, hc, hs⟩ := bind_eq_some_iff.mp hs
    obtain ⟨move, hmv, hs⟩ := bind_eq_some_iff.mp hs
    cases hs
    exact h.apply hc (advanced_of_advance hmv)
  | observe c =>
    obtain ⟨call, hc, hs⟩ := bind_eq_some_iff.mp hs
    exact h.observe hc hs
  | leave c why =>
    obtain ⟨call, hc, hs⟩ := bind_eq_some_iff.mp hs
    unfold leave at hs
    split at hs
    · rename_i f hf
      obtain ⟨outcome, -, hs⟩ := map_eq_some_iff.mp hs
      rw [← hs]
      exact h.depart hc hf rfl rfl rfl
    · cases hs
  | destroy c =>
    obtain ⟨call, hc, hs⟩ := bind_eq_some_iff.mp hs
    exact h.destroy hc hs
  | cancel c | cancelWait c | passDeadline c =>
    obtain ⟨call, hc, hs⟩ := bind_eq_some_iff.mp hs
    split at hs <;> cases hs
    rename_i hlv
    exact h.note hc hlv rfl rfl rfl

theorem Sound.run (h : s.Sound) {events : List (CallEvent K)} (hr : s.run events = some s') :
    s'.Sound := by
  induction events generalizing s with
  | nil =>
    cases hr
    exact h
  | cons e events ih =>
    obtain ⟨s₁, hs, hr⟩ := bind_eq_some_iff.mp hr
    exact ih (h.step hs) hr

/-! ## One execution for a key -/

/-- What calls of one key share. -/
structure SharesOneExecution (s : Controller K) : Prop where
  /-- A key has one execution at a time. -/
  one : ∀ (c₁ c₂ : ℕ) (call₁ call₂ : Call K), s.calls[c₁]? = some call₁ →
    s.calls[c₂]? = some call₂ → call₁.spec.policy.concurrency = .singleFlight →
    call₂.spec.policy.concurrency = .singleFlight → call₁.stage.executing = true →
    call₂.stage.executing = true → call₁.spec.key = call₂.spec.key → c₁ = c₂
  /-- A follower returns what the leader of its flight left with. -/
  returned : ∀ (c : ℕ) (call : Call K) (ending : Ending) (f : ℕ), s.calls[c]? = some call →
    call.stage = .ended ending (some f) → ∃ flight leader, s.flights[f]? = some flight
      ∧ s.calls[flight.leader]? = some leader ∧ leader.leads = some f ∧ LeftWith leader ending
  /-- A leader that runs no more has left the table. -/
  gone : ∀ (c : ℕ) (call : Call K) (f : ℕ), s.calls[c]? = some call → call.leads = some f →
    call.stage.executing = false → ∀ k, s.table k ≠ some f
  /-- A call whose key nobody leads begins a new execution. -/
  begins : ∀ (c : ℕ) (call : Call K), s.calls[c]? = some call → call.stage = .entered →
    call.spec.policy.validate call.spec.maxPending = .ok () →
    call.spec.policy.concurrency = .singleFlight →
    (∀ (c' : ℕ) (leader : Call K), s.calls[c']? = some leader → leader.leads.isSome = true →
      leader.spec.key = call.spec.key → leader.stage.executing = false) →
    ∃ s' call', s.step (.join c) = some s' ∧ s'.calls[c]? = some call'
      ∧ call'.stage.executing = true ∧ call'.leads = some s.flights.length

omit [DecidableEq K] in
/-- The flight in the table under a key is led by a call that runs. -/
theorem Sound.leader_of_table (h : s.Sound) {k : K} (htb : s.table k = some f) :
    ∃ flight leader, s.flights[f]? = some flight ∧ s.calls[flight.leader]? = some leader
      ∧ leader.leads = some f ∧ leader.spec.key = k ∧ leader.stage.executing = true := by
  obtain ⟨flight, hf, hk, hop⟩ := h.listed k f htb
  obtain ⟨-, leader, hldr, hld, hr⟩ := (h.flight hf).opened hop
  obtain ⟨flight', hf', -, hkd⟩ := (h.call hldr).leads f hld
  rw [hf] at hf'
  obtain rfl := Option.some.inj hf'
  exact ⟨flight, leader, hf, hldr, hld, hkd.symm.trans hk, hr⟩

/-- Calls of one flight share one execution. -/
theorem Sound.sharesOneExecution (h : s.Sound) : s.SharesOneExecution where
  one c₁ c₂ call₁ call₂ hc₁ hc₂ hflt₁ hflt₂ hr₁ hr₂ hk := by
    obtain ⟨f₁, hld₁⟩ := (h.call hc₁).leading hr₁ hflt₁
    obtain ⟨f₂, hld₂⟩ := (h.call hc₂).leading hr₂ hflt₂
    obtain ⟨flight₁, hf₁, hldr₁, hk₁, -, htb₁⟩ := h.flight_of_leads hc₁ hld₁ hr₁
    obtain ⟨flight₂, hf₂, hldr₂, hk₂, -, htb₂⟩ := h.flight_of_leads hc₂ hld₂ hr₂
    -- both flights are the one in the table
    rw [hk₁, hk, ← hk₂, htb₂] at htb₁
    obtain rfl := Option.some.inj htb₁
    rw [hf₁] at hf₂
    obtain rfl := Option.some.inj hf₂
    exact hldr₁.symm.trans hldr₂
  returned c call ending f hc he := by
    obtain ⟨flight, hf, hcm⟩ := (h.call hc).shared ending f he
    obtain ⟨leader, hldr, hld, hl⟩ := (h.flight hf).closed ending hcm
    exact ⟨flight, leader, hf, hldr, hld, hl⟩
  gone c call f hc hld hr k htb := by
    obtain ⟨flight, leader, hf, hldr, -, -, hr'⟩ := h.leader_of_table htb
    obtain ⟨flight', hf', hldr', -⟩ := (h.call hc).leads f hld
    rw [hf] at hf'
    obtain rfl := Option.some.inj hf'
    rw [hldr', hc] at hldr
    obtain rfl := Option.some.inj hldr
    exact absurd (hr.symm.trans hr') false_ne_true
  begins c call hc hent hv hflt hnobody := by
    have hfr : s.table call.spec.key = none := by
      refine eq_none_iff_forall_ne_some.mpr fun f htb => ?_
      obtain ⟨flight, leader, -, hldr, hld, hk, hr⟩ := h.leader_of_table htb
      have hr' := hnobody flight.leader leader hldr (by rw [hld]; rfl) hk
      exact absurd (hr'.symm.trans hr) false_ne_true
    have hs : s.step (.join c) = some (s.lead c call) := by
      rw [step_join hc hent]
      unfold Controller.join
      rw [hv]
      dsimp only
      rw [if_neg (not_not_intro hflt), hfr]
    exact ⟨s.lead c call, _, hs, (getElem?_set_some hc _ c).trans (if_pos rfl),
      firstStage_executing s call.spec.policy, rfl⟩

/-! ## Refusals -/

/-- A call was refused because of the calls that share its flight. -/
def Refused (call : Call K) : Prop :=
  ∃ ending what, call.stage = .ended ending none
    ∧ ending.outcome = .error (.system .noBufferSpace what)

/-- A call that comes to a flight is refused only when as many calls as it
admits wait for the leader. -/
def RefusesOnlyWhenFull (s : Controller K) (e : CallEvent K) : Prop :=
  ∀ (c f : ℕ) (call call' : Call K) (s' : Controller K), e = .join c → s.calls[c]? = some call →
    call.spec.policy.concurrency = .singleFlight → s.table call.spec.key = some f →
    s.step e = some s' → s'.calls[c]? = some call' → Refused call' →
    call.spec.maxPending ≤ s.followers f

/-- Of the calls that have joined a flight, as many as an arriving call admits
did not leave it, or fewer have joined. -/
def NonePlacedByLeavers (s : Controller K) (e : CallEvent K) : Prop :=
  ∀ (c f : ℕ) (call : Call K) (flight : Flight K), e = .join c → s.calls[c]? = some call →
    call.stage = .entered → call.spec.policy.validate call.spec.maxPending = .ok () →
    call.spec.policy.concurrency = .singleFlight →
    s.table call.spec.key = some f → s.flights[f]? = some flight →
    flight.waiters < call.spec.maxPending
      ∨ call.spec.maxPending + flight.departed ≤ flight.waiters

/-- A call that comes to a flight follows it or is refused. -/
theorem step_join_of_table (hc : s.calls[c]? = some call) (he : call.stage = .entered)
    (hv : call.spec.policy.validate call.spec.maxPending = .ok ())
    (hflt : call.spec.policy.concurrency = .singleFlight)
    (htb : s.table call.spec.key = some f) (hf : s.flights[f]? = some flight) :
    s.step (.join c) = some (s.follow c call f flight) := by
  rw [step_join hc he]
  unfold join
  rw [hv]
  dsimp only
  rw [if_neg (not_not_intro hflt), htb]
  dsimp only
  rw [hf, map_some]

theorem entered_of_step_join (hc : s.calls[c]? = some call) (hs : s.step (.join c) = some s') :
    call.stage = .entered := by
  dsimp only [step] at hs
  rw [hc, bind_eq_bind, bind_some] at hs
  split at hs
  · assumption
  · cases hs

/-- A call with an invalid policy is refused for that. -/
theorem valid_of_refused (hc : s.calls[c]? = some call) (he : call.stage = .entered)
    (hs : s.step (.join c) = some s') (hc' : s'.calls[c]? = some call')
    (href : Refused call') : call.spec.policy.validate call.spec.maxPending = .ok () := by
  cases hv : call.spec.policy.validate call.spec.maxPending with
  | ok => rfl
  | error what =>
    rw [step_join hc he] at hs
    unfold join at hs
    rw [hv] at hs
    cases hs
    obtain rfl := Option.some.inj (((getElem?_set_some hc _ c).trans (if_pos rfl)).symm.trans hc')
    obtain ⟨ending, what', hstg, houtcome⟩ := href
    obtain ⟨rfl, -⟩ := ended.inj hstg
    cases houtcome

/-- What the next call finds at a flight tells whether it is refused as it
should be. -/
theorem refusesOnlyWhenFull_iff (h : s.Sound) (e : CallEvent K) :
    s.RefusesOnlyWhenFull e ↔ s.NonePlacedByLeavers e := by
  constructor
  · intro hr c f call flight he hc hent hv hflt htb hf
    by_cases hfl : call.spec.maxPending ≤ flight.waiters
    · have hs := step_join_of_table hc hent hv hflt htb hf
      unfold follow at hs
      rw [if_pos hfl] at hs
      have hw := hr c f call _ _ he hc hflt htb (he ▸ hs)
        ((getElem?_set_some hc _ c).trans (if_pos rfl)) ⟨_, _, rfl, rfl⟩
      obtain ⟨flight', hf', -, hop⟩ := h.listed call.spec.key f htb
      rw [hf] at hf'
      obtain rfl := Option.some.inj hf'
      have hcnt := (h.flight hf).counted hop
      exact .inr (by omega)
    · exact .inl (not_le.mp hfl)
  · intro hrm c f call call' s' he hc hflt htb hs hc' href
    obtain rfl := he
    have hent := entered_of_step_join hc hs
    have hv := valid_of_refused hc hent hs hc' href
    obtain ⟨flight, hf, -, hop⟩ := h.listed call.spec.key f htb
    rw [step_join_of_table hc hent hv hflt htb hf] at hs
    obtain rfl := Option.some.inj hs
    by_cases hfl : call.spec.maxPending ≤ flight.waiters
    · have hcnt := (h.flight hf).counted hop
      obtain hlt | hrm := hrm c f call flight rfl hc hent hv hflt htb hf
      · exact absurd hfl (not_le.mpr hlt)
      · omega
    · -- the call follows the flight
      unfold follow at hc'
      rw [if_neg hfl] at hc'
      have hcl' := (getElem?_set_some hc _ c).symm.trans hc'
      rw [if_pos rfl] at hcl'
      obtain rfl := Option.some.inj hcl'
      obtain ⟨ending, what, hstg, -⟩ := href
      cases hstg

/-- What holds throughout a run holds of a step after a part of it. -/
theorem of_throughout {P : Controller K → CallEvent K → Prop} {events rest : List (CallEvent K)}
    (h : Throughout step P s (events ++ e :: rest)) (hr : s.run events = some s') : P s' e := by
  induction events generalizing s with
  | nil =>
    cases hr
    exact h.1
  | cons e' events ih =>
    obtain ⟨s₁, hs, hr⟩ := bind_eq_some_iff.mp hr
    exact ih (h.2 s₁ hs) hr

/-- **Calls of one key share one execution, and a flight refuses a call only when
enough calls wait, if and only if no follower that left keeps a place** that a
call comes for. The first part holds of every state of every run. -/
theorem single_flight_iff {hostAdmission : Bool} {events : List (CallEvent K)}
    (hr : ({ hostAdmission } : Controller K).run events = some s) :
    (s.SharesOneExecution ∧ Throughout step RefusesOnlyWhenFull { hostAdmission } events)
      ↔ Throughout step NonePlacedByLeavers { hostAdmission } events := by
  have hshares := ((sound_empty hostAdmission).run hr).sharesOneExecution
  have hrf : Throughout step RefusesOnlyWhenFull ({ hostAdmission } : Controller K) events
      ↔ Throughout step NonePlacedByLeavers { hostAdmission } events :=
    @throughout_congr _ _ step Sound _ _ (fun _ _ _ hs => hs.step)
      (fun _ e hs => refusesOnlyWhenFull_iff hs e) _ (sound_empty hostAdmission) events
  exact ⟨fun h => hrf.mp h.2, fun h => ⟨hshares, hrf.mpr h⟩⟩

end Step

/-- One call may wait for the leader of a search. -/
def searchCall : CallSpec String :=
  { policy := { concurrency := .singleFlight, effect := .readOnly, idempotency := .idempotent }
    key := "search"
    maxPending := 1
    deadlineBoundsQueue := false }

/-- A call follows the leader of a search, is cancelled and leaves. -/
def leavesAPlace : List (CallEvent String) :=
  [.enter searchCall, .enter searchCall, .enter searchCall, .join 0, .join 1, .cancel 1,
    .leave 1 .cancelled]

/-- A third call is refused, and nobody waits. -/
theorem refused_leavesAPlace :
    ∃ s, ({} : Controller String).run (leavesAPlace ++ [.join 2]) = some s
      ∧ ¬Throughout step RefusesOnlyWhenFull ({} : Controller String)
        (leavesAPlace ++ [.join 2]) := by
  refine ⟨_, rfl, fun h => ?_⟩
  have hl := of_throughout h (show _ = some _ from rfl) 2 0 _ _ _ rfl rfl rfl rfl rfl rfl
    ⟨_, _, rfl, rfl⟩
  exact absurd hl (by decide)

/-- A leader and a follower that returns what the leader is given. -/
def sharesASearch : List (CallEvent String) :=
  [.enter searchCall, .enter searchCall, .join 0, .join 1, .execute 0 .request,
    .execute 0 (.arbiter .granted), .execute 0 .proceed, .execute 0 .proceed,
    .execute 0 .attempt, .execute 0 (.toolEnds (.ok "found")), .observe 1]

theorem single_flight_iff_sharesASearch :
    ∃ s, ({} : Controller String).run sharesASearch = some s
      ∧ ((s.SharesOneExecution
          ∧ Throughout step RefusesOnlyWhenFull ({} : Controller String) sharesASearch)
        ↔ Throughout step NonePlacedByLeavers ({} : Controller String) sharesASearch) :=
  ⟨_, rfl, single_flight_iff rfl⟩

end NeoGraph.Tool.Controller
