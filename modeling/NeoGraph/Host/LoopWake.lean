import NeoGraph.Host.Loop

/-!
# The flag of a loop

The flag says that somebody will bring a turn: a wake that claimed it, a turn
in the host's queue, or a turn that has not cleared it yet; there is never more
than one of them (`OneTurn`).

Two numbers that every step changes alike carry this: the turns and owners
there are, and the flag read as zero or one. A wake that finds the flag set
leaves a note, which the owner of the flag looks for when the host refuses its
post.
-/

namespace NeoGraph.Host

namespace Wake

/-- Whether a wake answers for the flag. -/
def holding (wake : Wake) : ℕ :=
  match wake.point with
  | .claimed | .withdrawing | .posting | .refused => 1
  | _ => 0

end Wake

/-- A turn that will poll, or wake the loop. -/
def TurnPhase.polls : TurnPhase → Bool
  | .polling stopped => !stopped
  | .dry worked => worked
  | .draining | .preparing | .handling => true

namespace HostLoopCore

variable {s : HostLoopCore}

/-! ## Calls -/

/-- **A call of `wake` begins**, outside or inside the loop's own turn. -/
structure Calls (s : HostLoopCore) (w : ℕ) (inside : Bool) (s' : HostLoopCore) : Prop where
  fresh : s.wakes.find? w = none
  own : inside = true → s.inOwnTurn = true
  scheduled : s'.scheduled = s.scheduled
  relied : s'.relied = s.relied
  turns : s'.turns = s.turns
  prologue : s'.prologue = s.prologue
  phase : s'.phase = s.phase
  stage : s'.stage = s.stage
  wakes : (∃ handoff, s'.wakes = s.wakes.insert w
      { point := if inside then .returned else .entered, handoff := handoff })
    ∨ s.isClosed = true ∧ s'.wakes = s.wakes

variable {w : ℕ} {inside : Bool}

theorem calls_of_mayCall (h : s.mayCall w inside = true) :
    s.wakes.find? w = none ∧ (inside = true → s.inOwnTurn = true) := by
  unfold mayCall isFresh at h
  obtain ⟨hfr, hown⟩ := Bool.and_eq_true_iff.mp h
  refine ⟨Option.isNone_iff_eq_none.mp hfr, fun hi => ?_⟩
  rw [hi] at hown
  exact hown

theorem wakeForHandoff_calls (h : s.mayCall w inside = true) {s₁ : HostLoopCore}
    (hwk : s₁.wakes = s.wakes) (hsc : s₁.scheduled = s.scheduled)
    (hr : s₁.relied = s.relied) (ht : s₁.turns = s.turns)
    (hpro : s₁.prologue = s.prologue) (hph : s₁.phase = s.phase)
    (hs : s₁.stage = s.stage) : Calls s w inside (s₁.wakeForHandoff w inside) := by
  obtain ⟨hfr, hown⟩ := calls_of_mayCall h
  unfold wakeForHandoff
  split_ifs with hcl
  · refine ⟨hfr, hown, hsc, hr, ht, hpro, hph, hs, .inr ⟨?_, hwk⟩⟩
    unfold isClosed at hcl ⊢
    rw [← hs]
    exact hcl
  · refine ⟨hfr, hown, hsc, hr, ht, hpro, hph, hs, .inl ⟨true, ?_⟩⟩
    rw [← hwk]
    rfl

/-- What an event of another thread does: nothing, or it calls `wake`. -/
inductive CallEvent (s : HostLoopCore) : HostLoopCore → Prop
  | nothing : CallEvent s s
  | calls {s' : HostLoopCore} {w : ℕ} {inside : Bool} (h : Calls s w inside s') : CallEvent s s'

theorem step_queueWork (s : HostLoopCore) (task w : ℕ) (inside : Bool) :
    CallEvent s (s.step (.queueWork task w inside)) := by
  rw [step]
  split_ifs with h
  · obtain ⟨hfr, hown⟩ := calls_of_mayCall h
    exact .calls ⟨hfr, hown, rfl, rfl, rfl, rfl, rfl, rfl, .inl ⟨false, rfl⟩⟩
  · exact .nothing

theorem step_callWake (s : HostLoopCore) (w : ℕ) (inside : Bool) :
    CallEvent s (s.step (.callWake w inside)) := by
  rw [step]
  split_ifs with h
  · obtain ⟨hfr, hown⟩ := calls_of_mayCall h
    exact .calls ⟨hfr, hown, rfl, rfl, rfl, rfl, rfl, rfl, .inl ⟨false, rfl⟩⟩
  · exact .nothing

/-- A handoff that is posted is a call of `wake`. -/
theorem step_postHandoff (s : HostLoopCore) (h w : ℕ) (posted inside : Bool) :
    CallEvent s (s.step (.postHandoff h w posted inside)) := by
  rw [step]
  split_ifs with hc
  · unfold postHandoff
    split
    · exact .nothing
    · split <;> exact .calls (wakeForHandoff_calls hc rfl rfl rfl rfl rfl rfl rfl)
  · exact .nothing

theorem step_releaseHandoff (s : HostLoopCore) (h w : ℕ) (inside : Bool) :
    CallEvent s (s.step (.releaseHandoff h w inside)) := by
  rw [step]
  split_ifs with hc
  · unfold releaseHandoff
    split
    · exact .nothing
    · exact .calls (wakeForHandoff_calls hc rfl rfl rfl rfl rfl rfl rfl)
  · exact .nothing

/-! ## One turn -/

/-- A turn that has not cleared the flag. -/
def begun (s : HostLoopCore) : ℕ := if s.prologue = some .begun then 1 else 0

/-- **At most one turn is scheduled**: the flag is set if and only if exactly one
wake, turn in the queue or turn that has begun answers for it. -/
structure OneTurn (s : HostLoopCore) : Prop where
  owners : s.wakes.sumBy (fun _ wake => wake.holding) + s.turns + s.begun = s.scheduled.toNat
  nested : s.prologue ≠ none → s.phase ≠ some (.polling false) ∧ s.phase ≠ some (.polling true)
    ∧ s.phase ≠ some (.dry false)
  withdrawing : ∀ w wake, s.wakes.find? w = some wake → wake.point = .withdrawing →
    s.isClosed = true

variable {s' : HostLoopCore}

/-- What a call leaves as it is. -/
theorem OneTurn.calls (h : OneTurn s) (hc : CallEvent s s') : OneTurn s' := by
  cases hc with
  | nothing => exact h
  | @calls _ w inside hc =>
    have hb : s'.begun = s.begun := by
      unfold begun
      rw [hc.prologue]
    have hcl : s'.isClosed = s.isClosed := by
      unfold isClosed
      rw [hc.stage]
    refine ⟨?_, by rw [hc.prologue, hc.phase]; exact h.nested, fun w' wake hw hpt => ?_⟩
    · rw [hc.turns, hb, hc.scheduled, ← h.owners]
      obtain ⟨handoff, hwk⟩ | ⟨-, hwk⟩ := hc.wakes
      · have hsm := s.wakes.sumBy_insert w
          { point := if inside then .returned else .entered, handoff := handoff }
          fun _ wake => wake.holding
        rw [hc.fresh, Option.elim_none] at hsm
        have hz : Wake.holding
            { point := if inside then .returned else .entered, handoff := handoff } = 0 := by
          cases inside with
          | true | false => rfl
        rw [hwk]
        omega
      · rw [hwk]
    · rw [hcl]
      obtain ⟨handoff, hwk⟩ | ⟨-, hwk⟩ := hc.wakes
      · rw [hwk] at hw
        obtain ⟨-, rfl⟩ | hw := SortedMap.find?_insert_cases hw
        · cases inside with
          | true | false => cases hpt
        · exact h.withdrawing w' wake hw hpt
      · rw [hwk] at hw
        exact h.withdrawing w' wake hw hpt

variable {wake : Wake}

/-- One wake takes a step. -/
theorem OneTurn.setWake (h : OneTurn s) {wake' : Wake} (hf : s.wakes.find? w = some wake)
    (hwk : s'.wakes = s.wakes.insert w wake') (hpro : s'.prologue = s.prologue)
    (hph : s'.phase = s.phase) (hs : s'.stage = s.stage)
    (hc : wake'.holding + s'.turns + s.scheduled.toNat
      = wake.holding + s.turns + s'.scheduled.toNat)
    (hpt : wake'.point = .withdrawing → s.isClosed = true) : OneTurn s' := by
  have hcl : s'.isClosed = s.isClosed := by
    unfold isClosed
    rw [hs]
  refine ⟨?_, by rw [hpro, hph]; exact h.nested, fun w' wake'' hw hpt' => ?_⟩
  · have hsm := s.wakes.sumBy_insert w wake' fun _ wake => wake.holding
    have how := h.owners
    rw [hf, Option.elim_some] at hsm
    unfold begun at how ⊢
    rw [hwk, hpro]
    omega
  · rw [hcl]
    rw [hwk] at hw
    obtain ⟨-, rfl⟩ | hw := SortedMap.find?_insert_cases hw
    · exact hpt hpt'
    · exact h.withdrawing w' wake'' hw hpt'

/-- A wake that answers for the flag finds it set. -/
theorem OneTurn.scheduled_of_holding (h : OneTurn s) (hf : s.wakes.find? w = some wake)
    (hhd : wake.holding = 1) : s.scheduled = true := by
  have hsm := s.wakes.sumBy_erase w fun _ wake => wake.holding
  have how := h.owners
  rw [hf, Option.elim_some, hhd] at hsm
  cases hs : s.scheduled with
  | true => rfl
  | false =>
    rw [hs, Bool.toNat_false] at how
    omega

/-- A step of a call of `wake`. -/
theorem OneTurn.wakeStep (h : OneTurn s) (hf : s.wakes.find? w = some wake) (accepted : Bool) :
    OneTurn (s.wakeStep w wake accepted) := by
  obtain ⟨point, asked, handoff⟩ := wake
  unfold HostLoopCore.wakeStep
  cases point with
  | entered | asking | rechecking =>
    refine h.setWake hf rfl rfl rfl rfl ?_ ?_
    · split <;> rfl
    · split <;> nofun
  | claiming =>
    dsimp only
    split_ifs with hs
    · exact h.setWake hf rfl rfl rfl rfl rfl nofun
    refine h.setWake hf rfl rfl rfl rfl ?_ nofun
    rw [Bool.eq_false_of_not_eq_true hs]
    show 1 + s.turns + 0 = 0 + s.turns + 1
    omega
  | noting => exact h.setWake hf rfl rfl rfl rfl rfl nofun
  | claimed =>
    refine h.setWake hf rfl rfl rfl rfl ?_ ?_
    · split <;> rfl
    · split_ifs with hcl
      · exact fun _ => hcl
      · nofun
  | withdrawing =>
    refine h.setWake hf rfl rfl rfl rfl ?_ nofun
    rw [h.scheduled_of_holding hf rfl]
    show 0 + s.turns + 1 = 1 + s.turns + 0
    omega
  | posting =>
    dsimp only
    split
    · refine h.setWake hf rfl rfl rfl rfl ?_ nofun
      show 0 + (s.turns + 1) + s.scheduled.toNat = 1 + s.turns + s.scheduled.toNat
      omega
    · exact h.setWake hf rfl rfl rfl rfl rfl nofun
  | refused =>
    have hs := h.scheduled_of_holding hf rfl
    dsimp only
    split
    all_goals
      refine h.setWake hf rfl rfl rfl rfl ?_ nofun
      rw [hs]
      show 0 + s.turns + 1 = 1 + s.turns + 0
      omega
  | handedBack =>
    dsimp only
    split <;> exact h.setWake hf rfl rfl rfl rfl rfl nofun
  | returned => exact h

theorem OneTurn.wakeReturn (h : OneTurn s) (hf : s.wakes.find? w = some wake) :
    OneTurn (s.wakeReturn w wake) := by
  unfold HostLoopCore.wakeReturn
  split
  · rename_i hret
    have hsm := s.wakes.sumBy_erase w fun _ wake => wake.holding
    have hz : wake.holding = 0 := by
      unfold Wake.holding
      rw [hret]
    have how := h.owners
    rw [hf, Option.elim_some, hz] at hsm
    refine ⟨?_, h.nested, fun w' wake' hw hpt => ?_⟩
    · unfold begun at how ⊢
      dsimp only
      omega
    · rw [SortedMap.find?_erase] at hw
      split at hw
      · cases hw
      · exact h.withdrawing w' wake' hw hpt
  · exact h

/-- What leaves the flag and its owners as they are. -/
theorem OneTurn.frame (h : OneTurn s) (hwk : s'.wakes = s.wakes)
    (hs : s'.scheduled = s.scheduled) (ht : s'.turns = s.turns)
    (hb : s'.begun = s.begun) (hcl : s.isClosed = true → s'.isClosed = true)
    (hnested : s'.prologue ≠ none → s'.phase = s.phase ∧ s.prologue ≠ none) : OneTurn s' where
  owners := by rw [hwk, hs, ht, hb, h.owners]
  nested hpro := by
    rw [(hnested hpro).1]
    exact h.nested (hnested hpro).2
  withdrawing w wake hw hpt := hcl (h.withdrawing w wake (hwk ▸ hw) hpt)

/-- What `drain_handoffs` leaves as it is. -/
structure Drained (s s' : HostLoopCore) : Prop where
  wakes : s'.wakes = s.wakes
  scheduled : s'.scheduled = s.scheduled
  relied : s'.relied = s.relied
  turns : s'.turns = s.turns
  prologue : s'.prologue = s.prologue
  queue : s'.queue = s.queue
  closed : s'.isClosed = s.isClosed
  polls : s.isClosed = false → ∀ phase, s.phase = some phase → phase.polls = true →
    ∃ phase', s'.phase = some phase' ∧ phase'.polls = true

theorem drainHandoffs_drained (s : HostLoopCore) : Drained s s.drainHandoffs := by
  unfold HostLoopCore.drainHandoffs
  have hsm : ∀ s : HostLoopCore, Drained s s := fun s =>
    ⟨rfl, rfl, rfl, rfl, rfl, rfl, rfl, fun _ phase hph hp => ⟨phase, hph, hp⟩⟩
  have hclosing : ∀ stage, s.stage = stage → stage ≠ .opened → s.isClosed = true := by
    rintro stage rfl hne
    exact decide_eq_true hne
  split
  · rename_i hs
    have hcl := hclosing _ hs nofun
    split
    · exact ⟨rfl, rfl, rfl, rfl, rfl, rfl, hcl.symm, fun h => by rw [hcl] at h; cases h⟩
    · exact ⟨rfl, rfl, rfl, rfl, rfl, rfl, rfl, fun h => by rw [hcl] at h; cases h⟩
  · rename_i hs
    have hcl := hclosing _ hs nofun
    split
    · exact ⟨rfl, rfl, rfl, rfl, rfl, rfl, hcl.symm, fun h => by rw [hcl] at h; cases h⟩
    · exact ⟨rfl, rfl, rfl, rfl, rfl, rfl, rfl, fun h => by rw [hcl] at h; cases h⟩
  · split
    · exact ⟨rfl, rfl, rfl, rfl, rfl, rfl, rfl, fun _ _ _ _ => ⟨_, rfl, rfl⟩⟩
    · exact ⟨rfl, rfl, rfl, rfl, rfl, rfl, rfl, fun _ phase hph hp =>
        ⟨phase, hph, hp⟩⟩
  · rename_i worked _ hph
    split
    · refine ⟨rfl, rfl, rfl, rfl, rfl, rfl, rfl, fun _ phase hph' hp => ?_⟩
      rw [hph] at hph'
      cases hph'
      have hworked : worked = true := hp
      exact ⟨.polling false, if_pos hworked, rfl⟩
    · exact ⟨rfl, rfl, rfl, rfl, rfl, rfl, rfl, fun _ _ _ _ => ⟨_, rfl, rfl⟩⟩
  · exact hsm s

/-- **Every event** keeps the flag and its owners in step. -/
theorem OneTurn.step (h : OneTurn s) (e : Event) : OneTurn (s.step e) := by
  have hnx : ∀ phase, s.prologue = none → OneTurn { s with phase := phase } :=
    fun phase hpro => h.frame rfl rfl rfl rfl id fun hne => absurd hpro hne
  cases e with rw [HostLoopCore.step]
  | queueWork task w inside => exact h.calls (s.step_queueWork task w inside)
  | callWake w inside => exact h.calls (s.step_callWake w inside)
  | postHandoff handoff w posted inside =>
    exact h.calls (s.step_postHandoff handoff w posted inside)
  | releaseHandoff handoff w inside => exact h.calls (s.step_releaseHandoff handoff w inside)
  | wakeStep w accepted =>
    split
    · rename_i hf
      exact h.wakeStep hf accepted
    · exact h
  | wakeReturn w =>
    split
    · rename_i hf
      exact h.wakeReturn hf
    · exact h
  | track handoff =>
    split
    · exact h
    · exact h.frame rfl rfl rfl rfl id fun hne => ⟨rfl, hne⟩
  | beginTurn =>
    split
    · rename_i ht
      obtain ⟨htr, hnest⟩ := ht
      unfold mayNest at hnest
      obtain ⟨hpro, hph⟩ := Bool.and_eq_true_iff.mp hnest
      have hpro := of_decide_eq_true hpro
      refine ⟨?_, fun _ => ?_, h.withdrawing⟩
      · have how := h.owners
        unfold begun at how ⊢
        rw [hpro] at how
        have hz : (if (none : Option Prologue) = some .begun then 1 else 0) = 0 := rfl
        rw [hz] at how
        rw [if_pos rfl]
        dsimp only
        omega
      · refine ⟨?_, ?_, ?_⟩ <;> intro heq <;> rw [heq] at hph <;> cases hph
    · exact h
  | clearTurn =>
    split
    · rename_i hpro
      have how := h.owners
      have hle := Bool.toNat_le s.scheduled
      refine ⟨?_, fun _ => h.nested (by rw [hpro]; nofun), h.withdrawing⟩
      unfold begun at how ⊢
      rw [if_pos hpro] at how
      show s.wakes.sumBy (fun _ wake => wake.holding) + s.turns + 0 = 0
      omega
    · exact h
  | enterTurn =>
    split
    · rename_i hpro
      refine h.frame rfl rfl rfl ?_ id fun hne => absurd rfl hne
      unfold begun
      rw [hpro]
      rfl
    · exact h
  | drainHandoffs =>
    split
    · rename_i hpro
      have hdr := s.drainHandoffs_drained
      refine h.frame hdr.wakes hdr.scheduled hdr.turns ?_ ?_ fun hne =>
        absurd (hdr.prologue.trans hpro.1) hne
      · unfold begun
        rw [hdr.prologue]
      · rw [hdr.closed]
        exact id
    · exact h
  | destroyBatch => exact h.frame rfl rfl rfl rfl id fun hne => ⟨rfl, hne⟩
  | startPolling | runOut | endHandler | findDry =>
    split
    · rename_i ht
      exact hnx _ ht.1
    · exact h
  | poll =>
    split
    · rename_i hpro _ _
      exact h.frame rfl rfl rfl rfl id fun hne => absurd hpro hne
    · exact h
  | completeDue =>
    split
    · rename_i hpro _
      exact hnx _ hpro
    · exact h
  | stopTurn w =>
    split
    · rename_i ht
      obtain ⟨hfr, hpro, -⟩ := ht
      have hc : Calls s w false (s.callWake w false false) :=
        ⟨Option.isNone_iff_eq_none.mp hfr, nofun, rfl, rfl, rfl, rfl, rfl, rfl,
          .inl ⟨false, rfl⟩⟩
      exact (h.calls (.calls hc)).frame rfl rfl rfl rfl id fun hne => absurd hpro hne
    · exact h
  | beginClose =>
    split
    · exact h
    · exact h.frame rfl rfl rfl rfl (fun _ => rfl) fun hne => ⟨rfl, hne⟩
  | resetContext | awaitWakes =>
    split
    · exact h.frame rfl rfl rfl rfl (fun _ => rfl) fun hne => ⟨rfl, hne⟩
    · exact h

end HostLoopCore

end NeoGraph.Host
