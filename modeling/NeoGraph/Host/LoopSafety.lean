import NeoGraph.Host.LoopHandoff
import NeoGraph.Host.LoopWake

/-!
# A loop loses no wake-up

Work that no host post was refused for is covered: some wake will still ask, or
a turn will poll (`Covered`). The note that a wake leaves makes the wake whose
post was refused ask again, unless that was its last ask, which marks the work.

For every interleaving: at most one turn is in the host's queue; when all is
quiet, work that nobody polled is work that the host refused a turn for; and
every continuation is posted or destroyed by the host's thread, once.

A wake whose post was refused for the last time does not take the note of
another. So work that comes between that refusal and the handing back of the
flag waits for the next wake, although no later post was refused.
-/

namespace NeoGraph.Host

open SortedMap

namespace Wake

/-- **A wake that will still ask the host**, or marks the work, unless the loop
is closed. -/
def asks (scheduled relied : Bool) (wake : Wake) : Bool :=
  match wake.point with
  | .entered | .asking | .claiming | .noting | .claimed | .posting => true
  | .rechecking => !scheduled
  | .refused => wake.asked + 1 = maxAsks || relied
  | .handedBack => relied
  | .withdrawing | .returned => false

end Wake

/-- Work that saw a refusal, or the end of a last ask. -/
def Item.excused (item : Item) : Bool := item.refused || item.lastAsk

namespace HostLoopCore

variable {s : HostLoopCore}

/-- **Work is covered**: a wake will still ask, or a turn is to come, or the
turn that runs will poll. -/
inductive Covered (s : HostLoopCore) : Prop
  | wake (w : ℕ) (wake : Wake) (hfind : s.wakes.find? w = some wake)
      (hasks : wake.asks s.scheduled s.relied = true)
  | turn (hturns : s.turns ≠ 0)
  | prologue (hprologue : s.prologue ≠ none)
  | phase (phase : TurnPhase) (hphase : s.phase = some phase) (hpolls : phase.polls = true)

/-- While the loop is open, work that saw no refusal is covered. -/
def Attended (s : HostLoopCore) : Prop :=
  s.isClosed = false → (∃ item ∈ s.queue, item.excused = false) → Covered s

variable {w : ℕ} {s' : HostLoopCore} {wake : Wake}

/-- A wake that is set asks. -/
theorem Covered.of_setWake (hwk : s'.wakes = s.wakes.insert w wake)
    (ha : wake.asks s'.scheduled s'.relied = true) : Covered s' :=
  .wake w wake (by rw [hwk, find?_insert_self]) ha

/-- A wake that does not ask may take a step, if those that ask still do. -/
theorem Covered.setWake (h : Covered s) {wake' : Wake} (hf : s.wakes.find? w = some wake)
    (hq : wake.asks s.scheduled s.relied = false) (hwk : s'.wakes = s.wakes.insert w wake')
    (ht : s'.turns = s.turns) (hpro : s'.prologue = s.prologue)
    (hph : s'.phase = s.phase)
    (ha : ∀ other : Wake, other.asks s.scheduled s.relied = true →
      other.asks s'.scheduled s'.relied = true) :
    Covered s' := by
  cases h with
  | wake w' other hf' hot =>
    refine .wake w' other ?_ (ha other hot)
    rw [hwk, find?_insert_of_ne]
    · exact hf'
    rintro rfl
    rw [hf] at hf'
    cases hf'
    rw [hq] at hot
    cases hot
  | turn h => exact .turn (ht ▸ h)
  | prologue h => exact .prologue (hpro ▸ h)
  | phase phase h hp => exact .phase phase (hph ▸ h) hp

/-- What leaves the wakes and the turns as they are. -/
theorem Covered.frame (h : Covered s) (hwk : s'.wakes = s.wakes)
    (hs : s'.scheduled = s.scheduled) (hr : s'.relied = s.relied)
    (ht : s'.turns = s.turns) (hpro : s'.prologue = s.prologue)
    (hp : ∀ phase, s.phase = some phase → phase.polls = true →
      ∃ phase', s'.phase = some phase' ∧ phase'.polls = true) :
    Covered s' := by
  cases h with
  | wake w wake hf ha =>
    exact .wake w wake (hwk ▸ hf) (by rw [hs, hr]; exact ha)
  | turn h => exact .turn (ht ▸ h)
  | prologue h => exact .prologue (hpro ▸ h)
  | phase phase h hph =>
    obtain ⟨phase', hph', hp'⟩ := hp phase h hph
    exact .phase phase' hph' hp'

/-- Calls of `wake` leave nothing unattended. -/
theorem Attended.calls (h : Attended s) (hc : CallEvent s s') : Attended s' := by
  cases hc with
  | nothing => exact h
  | @calls _ w inside hc =>
    intro hop _
    obtain ⟨handoff, hwk⟩ | ⟨hcl, -⟩ := hc.wakes
    · cases inside with
      | false => exact Covered.of_setWake hwk rfl
      | true =>
        have hown := hc.own rfl
        unfold inOwnTurn at hown
        simp only [Bool.and_eq_true, Bool.or_eq_true, decide_eq_true_eq] at hown
        obtain ⟨-, (hph | hph) | hph⟩ := hown
        · exact .phase .preparing (hc.phase.trans hph) rfl
        · exact .phase .handling (hc.phase.trans hph) rfl
        · exact .phase (.dry true) (hc.phase.trans hph) rfl
    · unfold isClosed at hop hcl
      rw [hc.stage, hcl] at hop
      cases hop

/-- Where a wake that left its note finds the flag set, somebody answers for
it, and whoever is refused sees the note. -/
theorem OneTurn.covered_of_note (h : OneTurn s) (hop : s.isClosed = false)
    (hf : s.wakes.find? w = some wake) (hpt : wake.point = .noting)
    (hs : s.scheduled = true) (hwk : s'.wakes = s.wakes.insert w (wake.goto .rechecking))
    (hr' : s'.relied = true) (htr : s'.turns = s.turns) (hpro : s'.prologue = s.prologue) :
    Covered s' := by
  have how := h.owners
  rw [hs, Bool.toNat_true] at how
  by_cases ht : s.turns = 0
  · by_cases hb : s.prologue = none
    · have hz : s.begun = 0 := by
        unfold begun
        rw [hb]
        rfl
      -- the owner is a wake
      have hholder : ∃ w' ho, s.wakes.find? w' = some ho ∧ ho.holding ≠ 0 := by
        by_contra hno
        push Not at hno
        have hsm : s.wakes.sumBy (fun _ wake => wake.holding) = 0 := by
          refine List.sum_eq_zero fun n hn => ?_
          obtain ⟨e, he, rfl⟩ := List.mem_map.mp hn
          exact hno e.1 e.2 ((s.wakes.mem_entries_iff e.1 e.2).mp he)
        omega
      obtain ⟨w', ho, hf', hhd⟩ := hholder
      have hne : w' ≠ w := by
        rintro rfl
        rw [hf] at hf'
        cases hf'
        unfold Wake.holding at hhd
        rw [hpt] at hhd
        exact hhd rfl
      refine .wake w' ho ?_ ?_
      · rw [hwk, find?_insert_of_ne _ hne, hf']
      have hwithdrawing := h.withdrawing w' ho hf'
      rw [hop] at hwithdrawing
      unfold Wake.asks
      unfold Wake.holding at hhd
      cases hpt' : ho.point with
      | refused =>
        rw [hr', Bool.or_true]
      | withdrawing => exact absurd (hwithdrawing hpt') nofun
      | rechecking | handedBack | returned =>
        rw [hpt'] at hhd
        exact absurd rfl hhd
      | _ => rfl
    · exact .prologue (hpro ▸ hb)
  · exact .turn (htr ▸ ht)

theorem Wake.asks_clear {scheduled relied : Bool} (h : wake.asks scheduled relied = true) :
    wake.asks false relied = true := by
  unfold Wake.asks at h ⊢
  cases hpt : wake.point with
  | refused | handedBack | withdrawing | returned =>
    rw [hpt] at h
    exact h
  | _ => rfl

/-- Work that was marked needs nobody. -/
theorem not_exists_excused {queue : List Item} {f : Item → Item}
    (hf : ∀ item, (f item).excused = true) : ¬ ∃ item ∈ queue.map f, item.excused = false := by
  rintro ⟨item, hm, he⟩
  obtain ⟨item', -, rfl⟩ := List.mem_map.mp hm
  rw [hf] at he
  cases he

/-- **A step of a wake** leaves no work uncovered. -/
theorem Attended.wakeStep (h : Attended s) (ht : OneTurn s) (hf : s.wakes.find? w = some wake)
    (accepted : Bool) : Attended (s.wakeStep w wake accepted) := by
  obtain ⟨point, asked, handoff⟩ := wake
  unfold HostLoopCore.wakeStep
  cases point with
  | entered | asking | claimed =>
    intro hop _
    have hop : s.isClosed = false := hop
    rw [hop]
    exact Covered.of_setWake rfl rfl
  | claiming =>
    intro _ _
    dsimp only
    split <;> exact Covered.of_setWake rfl rfl
  | noting =>
    intro hop _
    cases hs : s.scheduled with
    | false =>
      refine Covered.of_setWake rfl ?_
      show (!s.scheduled) = true
      rw [hs]
      rfl
    | true => exact ht.covered_of_note hop hf rfl hs rfl rfl rfl rfl
  | rechecking =>
    intro hop hi
    cases hs : s.scheduled with
    | false => exact Covered.of_setWake rfl rfl
    | true =>
      have hq : Wake.asks s.scheduled s.relied ⟨.rechecking, asked, handoff⟩ = false := by
        rw [hs]
        rfl
      exact (h hop hi).setWake hf hq rfl rfl rfl rfl fun _ => id
  | withdrawing =>
    intro hop _
    have hop : s.isClosed = false := hop
    rw [ht.withdrawing w _ hf rfl] at hop
    cases hop
  | posting =>
    intro _ hi
    dsimp only at hi ⊢
    split_ifs with href
    · exact .turn (Nat.succ_ne_zero _)
    · rw [if_neg href] at hi
      exact absurd hi (not_exists_excused fun _ => rfl)
  | refused =>
    intro hop hi
    dsimp only at hi ⊢
    split_ifs with hl
    · rw [if_pos hl] at hi
      exact absurd hi (not_exists_excused fun item => Bool.or_true _)
    rw [if_neg hl] at hop hi
    cases hr : s.relied with
    | true => exact Covered.of_setWake rfl hr
    | false =>
      have hq : Wake.asks s.scheduled s.relied ⟨.refused, asked, handoff⟩ = false := by
        unfold Wake.asks
        rw [hr, Bool.or_false]
        exact decide_eq_false hl
      exact (h hop hi).setWake hf hq rfl rfl rfl rfl fun _ => Wake.asks_clear
  | handedBack =>
    intro hop hi
    dsimp only at hop hi ⊢
    split_ifs with hr
    · exact Covered.of_setWake rfl rfl
    rw [if_neg hr] at hop hi
    have hq : Wake.asks s.scheduled s.relied ⟨.handedBack, asked, handoff⟩ = false :=
      Bool.eq_false_of_not_eq_true hr
    exact (h hop hi).setWake hf hq rfl rfl rfl rfl fun _ => id
  | returned => exact h

theorem Attended.wakeReturn (h : Attended s) (hf : s.wakes.find? w = some wake) :
    Attended (s.wakeReturn w wake) := by
  unfold HostLoopCore.wakeReturn
  split
  · rename_i hret
    intro hop hi
    cases h hop hi with
    | wake w' other hf' ha =>
      refine .wake w' other ?_ ha
      rw [find?_erase, if_neg]
      · exact hf'
      rintro rfl
      rw [hf] at hf'
      cases hf'
      unfold Wake.asks at ha
      rw [hret] at ha
      cases ha
    | turn h => exact .turn h
    | prologue h => exact .prologue h
    | phase phase h hp => exact .phase phase h hp
  · exact h

/-- A turn that is nested in a turn leaves it to poll. -/
theorem OneTurn.polls_of_prologue (h : OneTurn s) (hpro : s.prologue ≠ none)
    {phase : TurnPhase} (hph : s.phase = some phase) : phase.polls = true := by
  obtain ⟨hpolling, hstp, hdry⟩ := h.nested hpro
  cases phase with
  | polling stopped =>
    cases stopped with
    | false => exact absurd hph hpolling
    | true => exact absurd hph hstp
  | dry worked =>
    cases worked with
    | false => exact absurd hph hdry
    | true => rfl
  | _ => rfl

/-- **Every event** leaves the work covered. -/
theorem Attended.step (h : Attended s) (ht : OneTurn s) (e : Event) : Attended (s.step e) := by
  have hpl : ∀ phase : TurnPhase, phase.polls = true → Attended { s with phase := some phase } :=
    fun phase hph _ _ => .phase phase rfl hph
  cases e with rw [HostLoopCore.step]
  | queueWork task w inside => exact h.calls (s.step_queueWork task w inside)
  | callWake w inside => exact h.calls (s.step_callWake w inside)
  | postHandoff handoff w posted inside =>
    exact h.calls (s.step_postHandoff handoff w posted inside)
  | releaseHandoff handoff w inside => exact h.calls (s.step_releaseHandoff handoff w inside)
  | wakeStep w accepted =>
    split
    · rename_i hf
      exact h.wakeStep ht hf accepted
    · exact h
  | wakeReturn w =>
    split
    · rename_i hf
      exact h.wakeReturn hf
    · exact h
  | track handoff =>
    split
    · exact h
    · exact fun hop hi =>
        (h hop hi).frame rfl rfl rfl rfl rfl fun phase hph hp => ⟨phase, hph, hp⟩
  | beginTurn | clearTurn =>
    split
    · exact fun _ _ => .prologue (Option.some_ne_none _)
    · exact h
  | enterTurn =>
    split
    · rename_i hpro
      intro hop _
      have hop : s.isClosed = false := hop
      cases hph : s.phase with
      | none =>
        refine .phase .draining ?_ rfl
        rw [if_neg (by rw [hop]; simp)]
      | some phase =>
        refine .phase phase ?_ (ht.polls_of_prologue ?_ hph)
        · exact if_pos (.inr (Option.some_ne_none _))
        · rw [hpro]
          exact Option.some_ne_none _
    · exact h
  | drainHandoffs =>
    split
    · have hdr := s.drainHandoffs_drained
      intro hop hi
      rw [hdr.closed] at hop
      rw [hdr.queue] at hi
      exact (h hop hi).frame hdr.wakes hdr.scheduled hdr.relied
        hdr.turns hdr.prologue (hdr.polls hop)
    · exact h
  | destroyBatch =>
    exact fun hop hi =>
      (h hop hi).frame rfl rfl rfl rfl rfl fun phase hph hp => ⟨phase, hph, hp⟩
  | startPolling | endHandler | completeDue =>
    split
    · exact hpl _ rfl
    · exact h
  | runOut =>
    split
    · rename_i hdry
      rintro - ⟨item, hm, -⟩
      have hm : item ∈ s.queue := hm
      rw [hdry.2.2] at hm
      cases hm
    · exact h
  | poll =>
    split
    · exact fun _ _ => .phase .handling rfl rfl
    · exact h
  | findDry =>
    split
    · rename_i hdry
      intro hop hi
      obtain hstp | ⟨-, he⟩ := hdry.2
      · refine (h hop hi).frame rfl rfl rfl rfl rfl fun phase hph hp => ?_
        rw [hstp] at hph
        cases hph
        cases hp
      · obtain ⟨item, hm, -⟩ := hi
        have hm : item ∈ s.queue := hm
        rw [he] at hm
        cases hm
    · exact h
  | stopTurn w =>
    split
    · exact fun _ _ => .wake w ⟨.entered, 0, false⟩ (find?_insert_self _ _ _) rfl
    · exact h
  | beginClose =>
    split
    · exact h
    · intro hop _
      cases hop
  | resetContext | awaitWakes =>
    split
    · intro hop _
      cases hop
    · exact h

end HostLoopCore

end NeoGraph.Host

namespace NeoGraph.Host.HostLoopCore

variable {s : HostLoopCore}

/-- No wake is in progress, and no turn is queued or running. -/
def Quiet (s : HostLoopCore) : Prop :=
  s.wakes.entries = [] ∧ s.turns = 0 ∧ s.prologue = none ∧ s.phase = none

instance : DecidablePred Quiet := fun s => by
  unfold Quiet
  infer_instance

/-! ## Runs -/

/-- What holds of every state that is reached. -/
structure Safe (s : HostLoopCore) : Prop where
  oneTurn : OneTurn s
  attended : Attended s
  handoffs : HandoffsKept s

theorem safe_default : Safe {} where
  oneTurn := ⟨rfl, fun h => absurd rfl h, nofun⟩
  attended := by
    rintro - ⟨item, hm, -⟩
    cases hm
  handoffs := ⟨fun _ => rfl, fun _ => rfl, rfl, rfl, nofun, nofun, nofun⟩

theorem Safe.step (h : Safe s) (e : Event) : Safe (s.step e) :=
  ⟨h.oneTurn.step e, h.attended.step h.oneTurn e, h.handoffs.step e⟩

/-- **Every state that is reached** is safe. -/
theorem Safe.run (h : Safe s) (events : List Event) : Safe (s.run events) := by
  induction events generalizing s with
  | nil => exact h
  | cons e events ih => exact ih (h.step e)

/-! ## Refusals -/

/-- The event is the end of a host post that was refused. -/
def refuses (s : HostLoopCore) : Event → Bool
  | .wakeStep w accepted =>
    match s.wakes.find? w with
    | some wake => !accepted && wake.point = .posting
    | none => false
  | _ => false

/-- The number of host posts that were refused. -/
def refusals : HostLoopCore → List Event → ℕ
  | _, [] => 0
  | s, e :: events => (if s.refuses e then 1 else 0) + refusals (s.step e) events

/-- Nothing was refused. -/
structure Unrefused (s : HostLoopCore) : Prop where
  items : ∀ item ∈ s.queue, item.excused = false
  wakes : ∀ w wake, s.wakes.find? w = some wake → wake.point ≠ .refused

theorem Unrefused.frame (h : Unrefused s) {s' : HostLoopCore}
    (his : ∀ item ∈ s'.queue, item ∈ s.queue ∨ item.excused = false)
    (hwk : ∀ w wake, s'.wakes.find? w = some wake →
      s.wakes.find? w = some wake ∨ wake.point ≠ .refused) : Unrefused s' where
  items item hm := (his item hm).elim (h.items item) id
  wakes w wake hf := (hwk w wake hf).elim (h.wakes w wake) id

/-- Wakes after one of them was set. -/
theorem point_of_insert {w w' : ℕ} {wake wake' : Wake} (hpt : wake.point ≠ .refused)
    (hf : (s.wakes.insert w wake).find? w' = some wake') :
    s.wakes.find? w' = some wake' ∨ wake'.point ≠ .refused := by
  obtain ⟨-, rfl⟩ | hf := SortedMap.find?_insert_cases hf
  · exact .inr hpt
  · exact .inl hf

/-- A wake whose post is not refused. -/
theorem Unrefused.wakeStep (h : Unrefused s) {w : ℕ} {wake : Wake}
    (hf : s.wakes.find? w = some wake) {accepted : Bool}
    (ha : wake.point = .posting → accepted = true) :
    Unrefused (s.wakeStep w wake accepted) := by
  have hs : ∀ {s' : HostLoopCore} {wake' : Wake}, s'.queue = s.queue →
      s'.wakes = s.wakes.insert w wake' → wake'.point ≠ .refused → Unrefused s' := by
    intro s' wake' hq hwk hpt
    refine h.frame (fun item hm => .inl (hq ▸ hm)) fun w' wake'' hf' => ?_
    exact point_of_insert hpt (hwk ▸ hf')
  obtain ⟨point, asked, handoff⟩ := wake
  unfold HostLoopCore.wakeStep
  cases point with
  | entered | asking | rechecking | claimed =>
    refine hs rfl rfl ?_
    dsimp only [Wake.goto]
    split <;> nofun
  | claiming | handedBack =>
    dsimp only
    split <;> exact hs rfl rfl nofun
  | noting | withdrawing => exact hs rfl rfl nofun
  | posting =>
    dsimp only
    rw [if_pos (ha rfl)]
    exact hs rfl rfl nofun
  | refused => exact absurd rfl (h.wakes w _ hf)
  | returned => exact h

theorem Unrefused.wakeForHandoff (h : Unrefused s) (w : ℕ) (inside : Bool) :
    Unrefused (s.wakeForHandoff w inside) := by
  unfold HostLoopCore.wakeForHandoff
  split
  · exact h
  · refine h.frame (fun _ => .inl) fun w' wake hf => point_of_insert ?_ hf
    cases inside <;> nofun

theorem Unrefused.drainHandoffs (h : Unrefused s) : Unrefused s.drainHandoffs := by
  have hdr := s.drainHandoffs_drained
  exact h.frame (fun _ hm => .inl (hdr.queue ▸ hm))
    fun _ _ hf => .inl (hdr.wakes ▸ hf)

/-- **An event that refuses nothing** leaves nothing refused. -/
theorem Unrefused.step (h : Unrefused s) {e : Event} (he : s.refuses e = false) :
    Unrefused (s.step e) := by
  have hsm : ∀ {s' : HostLoopCore}, s'.queue = s.queue → s'.wakes = s.wakes → Unrefused s' :=
    fun hq hwk => h.frame (fun _ hm => .inl (hq ▸ hm))
      fun _ _ hf => .inl (hwk ▸ hf)
  have happ : ∀ {work : Work} (item : Item),
      item ∈ s.queue ++ [{ work := work }] → item ∈ s.queue ∨ item.excused = false := by
    intro work item hm
    obtain hm | hm := List.mem_append.mp hm
    · exact .inl hm
    · rw [List.mem_singleton.mp hm]
      exact .inr rfl
  have hc : ∀ {w : ℕ} {handoff inside : Bool} (w' : ℕ) (wake : Wake),
      (s.callWake w handoff inside).wakes.find? w' = some wake →
        s.wakes.find? w' = some wake ∨ wake.point ≠ .refused := by
    intro w handoff inside w' wake hf
    refine point_of_insert ?_ hf
    cases inside <;> (intro href; cases href)
  cases e with rw [HostLoopCore.step]
  | queueWork task w inside =>
    split
    · exact h.frame happ hc
    · exact h
  | callWake w inside | stopTurn w =>
    split
    · exact h.frame (fun _ => .inl) hc
    · exact h
  | postHandoff handoff w posted inside =>
    split
    · unfold HostLoopCore.postHandoff
      split
      · exact h
      split
      · refine Unrefused.wakeForHandoff ?_ w inside
        exact h.frame happ fun _ _ => .inl
      · refine Unrefused.wakeForHandoff ?_ w inside
        exact hsm rfl rfl
    · exact h
  | releaseHandoff handoff w inside =>
    split
    · unfold HostLoopCore.releaseHandoff
      split
      · exact h
      · refine Unrefused.wakeForHandoff ?_ w inside
        exact hsm rfl rfl
    · exact h
  | wakeStep w accepted =>
    unfold refuses at he
    split
    · rename_i wake hf
      dsimp only at he
      rw [hf] at he
      refine h.wakeStep hf fun hpt => ?_
      dsimp only at he
      rw [hpt] at he
      cases accepted with
      | true => rfl
      | false => cases he
    · exact h
  | wakeReturn w =>
    split
    · unfold HostLoopCore.wakeReturn
      split
      · refine h.frame (fun _ => .inl) fun w' wake hf => .inl ?_
        dsimp only at hf
        rw [SortedMap.find?_erase] at hf
        split at hf
        · cases hf
        · exact hf
      · exact h
    · exact h
  | track handoff | beginClose =>
    split
    · exact h
    · exact hsm rfl rfl
  | drainHandoffs =>
    split
    · exact h.drainHandoffs
    · exact h
  | destroyBatch => exact hsm rfl rfl
  | poll =>
    split
    · rename_i hq
      refine h.frame (fun item hm => .inl ?_) fun _ _ => .inl
      rw [hq]
      exact List.mem_cons_of_mem _ hm
    · exact h
  | resetContext =>
    split
    · exact h.frame (fun _ hm => absurd hm List.not_mem_nil) fun _ _ => .inl
    · exact h
  | _ =>
    split
    · exact hsm rfl rfl
    · exact h

theorem unrefused_default : Unrefused {} where
  items _ hm := by cases hm
  wakes _ _ hf := by cases hf

theorem Unrefused.run (h : Unrefused s) {events : List Event} (he : s.refusals events = 0) :
    Unrefused (s.run events) := by
  induction events generalizing s with
  | nil => exact h
  | cons e events ih =>
    rw [refusals] at he
    have hr : s.refuses e = false := by
      cases hr : s.refuses e with
      | false => rfl
      | true =>
        rw [hr, if_pos rfl] at he
        omega
    exact ih (h.step hr) (Nat.eq_zero_of_add_eq_zero_left he)

/-! ## What a loop guarantees -/

/-- A continuation is posted or set aside, one of the two and once, as soon as
its handoff is not open any more. -/
def HandedOnce (s : HostLoopCore) : Prop :=
  ∀ h state, s.handoffs.find? h = some state →
    if state = .opened then s.posts.count h = 0 ∧ s.handed.count h = 0
    else s.posts.count h + s.handed.count h = 1

theorem HandoffsKept.handedOnce (k : HandoffsKept s) : HandedOnce s := by
  intro h state hst
  rw [k.posts, k.handed, hst]
  cases state <;> simp

/-- The work of a handoff ends its being open. -/
theorem not_opened_of_step (s : HostLoopCore) {h w : ℕ} {inside : Bool}
    (hc : s.mayCall w inside = true) (posted : Bool) :
    (s.step (.postHandoff h w posted inside)).handoffs.find? h ≠ some .opened
      ∧ (s.step (.releaseHandoff h w inside)).handoffs.find? h ≠ some .opened := by
  have hw : ∀ s : HostLoopCore, (s.wakeForHandoff w inside).handoffs = s.handoffs := by
    intro s
    unfold HostLoopCore.wakeForHandoff
    split <;> rfl
  have haside : (s.setAside h).handoffs.find? h ≠ some .opened := by
    unfold HostLoopCore.setAside
    rw [SortedMap.find?_insert_self]
    intro hop
    cases hop
  constructor
  · rw [HostLoopCore.step, if_pos hc]
    unfold HostLoopCore.postHandoff
    split
    · rename_i hop
      exact hop
    split
    · rw [hw, SortedMap.find?_insert_self]
      intro hop
      cases hop
    · rw [hw]
      exact haside
  · rw [HostLoopCore.step, if_pos hc]
    unfold HostLoopCore.releaseHandoff
    split
    · rename_i hop
      exact hop
    · rw [hw]
      exact haside

/-- After `close` no continuation waits, what was set aside is destroyed, and
no wake of a handoff is in progress. -/
def ClosedSafely (s : HostLoopCore) : Prop :=
  s.stage = .closed → (∀ h, s.handoffs.find? h ≠ some .opened) ∧ s.destroyed = s.handed
    ∧ ∀ w wake, s.wakes.find? w = some wake → wake.handoff = false

theorem HandoffsKept.closedSafely (k : HandoffsKept s) : ClosedSafely s := by
  intro hcl
  obtain ⟨hab, hbat⟩ := k.ended hcl
  refine ⟨k.taken (by rw [hcl]; rfl), ?_, fun w wake hf => ?_⟩
  · rw [k.destroyed, hab, hbat, List.append_nil, List.append_nil]
  have hsm := s.wakes.sumBy_erase w fun _ wake => if wake.handoff then 1 else 0
  have hw := k.waking
  rw [k.awaited (by rw [hcl]; rfl)] at hw
  unfold handoffWakes at hw
  rw [hf, Option.elim_some, ← hw] at hsm
  cases hh : wake.handoff with
  | false => rfl
  | true =>
    rw [hh, if_pos rfl] at hsm
    omega

/-- When all is quiet and the loop is open, work that waits is excused; if no
post was refused, no work waits. -/
theorem Safe.excused (h : Safe s) (hq : Quiet s) (hop : s.isClosed = false) :
    ∀ item ∈ s.queue, item.excused = true := by
  obtain ⟨hwk, ht, hpro, hph⟩ := hq
  intro item hm
  by_contra he
  cases h.attended hop ⟨item, hm, Bool.eq_false_of_not_eq_true he⟩ with
  | wake w wake hf ha =>
    have hm := (s.wakes.mem_entries_iff w wake).mpr hf
    rw [hwk] at hm
    cases hm
  | turn h => exact h ht
  | prologue h => exact h hpro
  | phase phase h =>
    rw [hph] at h
    cases h

/-- **The loop loses no wake-up.** For every interleaving: at most one turn is
queued on the host; when all is quiet and the loop is open, a host post was
refused since any work that waits was queued, or a wake that was refused for
the last time had not handed the flag back yet when it was queued; every
continuation is posted or set aside, once; and after `close` none waits and no
handoff calls the host. -/
theorem loses_no_wake_up (events : List Event) :
    (run {} events).turns ≤ 1
    ∧ (Quiet (run {} events) → (run {} events).isClosed = false →
      (∀ item ∈ (run {} events).queue, item.refused = true ∨ item.lastAsk = true)
        ∧ (refusals {} events = 0 → (run {} events).queue = []))
    ∧ HandedOnce (run {} events)
    ∧ (∀ h w posted inside, (run {} events).mayCall w inside = true →
      ((run {} events).step (.postHandoff h w posted inside)).handoffs.find? h ≠ some .opened
        ∧ ((run {} events).step (.releaseHandoff h w inside)).handoffs.find? h ≠ some .opened)
    ∧ ClosedSafely (run {} events) := by
  have hs := safe_default.run events
  have how := hs.oneTurn.owners
  have hle := Bool.toNat_le (run {} events).scheduled
  refine ⟨by omega, fun hq hop => ⟨fun item hm => ?_, fun hrefusals => ?_⟩,
    hs.handoffs.handedOnce, fun h w posted inside hc => not_opened_of_step _ hc posted,
    hs.handoffs.closedSafely⟩
  · exact Bool.or_eq_true_iff.mp (hs.excused hq hop item hm)
  · have hunrefused := unrefused_default.run hrefusals
    refine List.eq_nil_iff_forall_not_mem.mpr fun item hm => ?_
    have he := hs.excused hq hop item hm
    rw [hunrefused.items item hm] at he
    cases he

/-- A wake that finds a turn scheduled: it leaves a note and returns. -/
def reliantWake (task w : ℕ) : List Event :=
  [.queueWork task w false, .wakeStep w true, .wakeStep w true, .wakeStep w true, .wakeStep w true,
    .wakeStep w true, .wakeReturn w]

/-- The first wake is refused three times; another relies on it each time. -/
def lastAskEvents : List Event :=
  [.queueWork 1 1 false, .wakeStep 1 true, .wakeStep 1 true, .wakeStep 1 true, .wakeStep 1 true]
    ++ reliantWake 2 2
    ++ [.wakeStep 1 false, .wakeStep 1 true, .wakeStep 1 true, .wakeStep 1 true, .wakeStep 1 true,
      .wakeStep 1 true]
    ++ reliantWake 3 3
    ++ [.wakeStep 1 false, .wakeStep 1 true, .wakeStep 1 true, .wakeStep 1 true, .wakeStep 1 true,
      .wakeStep 1 true]
    ++ [.wakeStep 1 false] ++ reliantWake 4 4
    ++ [.wakeStep 1 true, .wakeReturn 1]

/-- **Work that comes after the last refusal** is left without a turn and
without a post that was refused since. -/
theorem left_without_a_refusal :
    ¬ ∀ events : List Event, Quiet (run {} events) → (run {} events).isClosed = false →
      ∀ item ∈ (run {} events).queue, item.refused = true := by
  intro h
  have href := h lastAskEvents (by decide +kernel) (by decide +kernel)
    ⟨.task 4, false, true⟩ (by decide +kernel)
  cases href

end NeoGraph.Host.HostLoopCore
