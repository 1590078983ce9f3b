import NeoGraph.Host.Loop

/-!
# Continuations of a loop

A continuation that is tracked is posted to the loop, or set aside for the
host's thread to destroy, and never both (`HandoffsKept`). Closing the loop
takes over those that wait, and waits for the wakes that handoffs have begun.
-/

namespace NeoGraph.Host

open List SortedMap

namespace CloseStage

/-- No continuation waits any more. -/
def tookOpen : CloseStage → Bool
  | .opened | .draining => false
  | .resetting | .waiting | .releasing | .closed => true

/-- The wakes of handoffs have ended. -/
def awaited : CloseStage → Bool
  | .releasing | .closed => true
  | _ => false

end CloseStage

namespace HostLoopCore

variable {s : HostLoopCore}

/-- The wakes that handoffs have begun. -/
def handoffWakes (s : HostLoopCore) : ℕ :=
  s.wakes.sumBy fun _ wake => if wake.handoff then 1 else 0

/-- **Every tracked continuation** is posted or set aside, one of the two and
once, as its handoff says. -/
structure HandoffsKept (s : HostLoopCore) : Prop where
  posts : ∀ h, s.posts.count h = if s.handoffs.find? h = some .posted then 1 else 0
  handed : ∀ h, s.handed.count h = if s.handoffs.find? h = some .taken then 1 else 0
  destroyed : s.handed = s.destroyed ++ s.batch ++ s.abandoned
  waking : s.waking = s.handoffWakes
  taken : s.stage.tookOpen = true → ∀ h, s.handoffs.find? h ≠ some .opened
  awaited : s.stage.awaited = true → s.waking = 0
  ended : s.stage = .closed → s.abandoned = [] ∧ s.batch = []

/-! ## Wakes -/

variable {s' : HostLoopCore}

/-- What leaves the handoffs as they are. -/
theorem HandoffsKept.frame (k : HandoffsKept s)
    (hhandoffs : s'.handoffs = s.handoffs) (hposts : s'.posts = s.posts)
    (hhanded : s'.handed = s.handed) (hab : s'.abandoned = s.abandoned)
    (hbat : s'.batch = s.batch) (hd : s'.destroyed = s.destroyed)
    (hs : s'.stage = s.stage) (hw : s'.waking = s'.handoffWakes)
    (hc : s.stage.awaited = true → s'.waking = s.waking) : HandoffsKept s' where
  posts h := by rw [hposts, hhandoffs, k.posts]
  handed h := by rw [hhanded, hhandoffs, k.handed]
  destroyed := by rw [hhanded, hd, hbat, hab, k.destroyed]
  waking := hw
  taken h := by
    rw [hhandoffs]
    exact k.taken (hs ▸ h)
  awaited h := by
    rw [hc (hs ▸ h)]
    exact k.awaited (hs ▸ h)
  ended h := by
    rw [hab, hbat]
    exact k.ended (hs ▸ h)

variable {w h : ℕ} {wake : Wake}

theorem handoffWakes_insert {wake' : Wake} (hf : s.wakes.find? w = some wake)
    (hh : wake'.handoff = wake.handoff)
    (hwk : s'.wakes = s.wakes.insert w wake') : s'.handoffWakes = s.handoffWakes := by
  have hsm := s.wakes.sumBy_insert w wake' fun _ wake => if wake.handoff then 1 else 0
  rw [hf, Option.elim_some, hh] at hsm
  unfold handoffWakes
  rw [hwk]
  exact Nat.add_right_cancel hsm

theorem handoffWakes_call (hfr : s.isFresh w = true) (handoff inside : Bool) :
    (s.callWake w handoff inside).handoffWakes
      = s.handoffWakes + if handoff then 1 else 0 := by
  have hsm := s.wakes.sumBy_insert w
    { point := if inside then .returned else .entered, handoff := handoff }
    fun _ wake => if wake.handoff then 1 else 0
  rw [Option.isNone_iff_eq_none.mp hfr, Option.elim_none] at hsm
  exact hsm

theorem HandoffsKept.wakeStep (k : HandoffsKept s) (hf : s.wakes.find? w = some wake)
    (accepted : Bool) : HandoffsKept (s.wakeStep w wake accepted) := by
  have hs : ∀ (s' : HostLoopCore) (wake' : Wake), s'.wakes = s.wakes.insert w wake' →
      wake'.handoff = wake.handoff → s'.waking = s.waking → s'.waking = s'.handoffWakes := by
    intro s' wake' hwk hh hw
    rw [hw, k.waking, handoffWakes_insert hf hh hwk]
  obtain ⟨point, asked, handoff⟩ := wake
  unfold HostLoopCore.wakeStep
  cases point with
  | claiming | posting | refused | handedBack =>
    dsimp only
    split <;> exact k.frame rfl rfl rfl rfl rfl rfl rfl (hs _ _ rfl rfl rfl) fun _ => rfl
  | returned => exact k
  | _ => exact k.frame rfl rfl rfl rfl rfl rfl rfl (hs _ _ rfl rfl rfl) fun _ => rfl

theorem HandoffsKept.wakeReturn (k : HandoffsKept s)
    (hf : s.wakes.find? w = some wake) : HandoffsKept (s.wakeReturn w wake) := by
  unfold HostLoopCore.wakeReturn
  split
  · have hsm := s.wakes.sumBy_erase w fun _ wake => if wake.handoff then 1 else 0
    rw [hf, Option.elim_some] at hsm
    have hw := k.waking
    unfold handoffWakes at hw
    refine k.frame rfl rfl rfl rfl rfl rfl rfl ?_ fun ha => ?_
    · unfold handoffWakes
      dsimp only
      split_ifs with hh
      · rw [if_pos hh] at hsm
        omega
      · rw [if_neg hh] at hsm
        omega
    · rw [k.awaited ha]
      split <;> rfl
  · exact k

/-! ## Continuations -/

/-- A continuation is posted. -/
theorem HandoffsKept.posted (k : HandoffsKept s)
    (hop : s.handoffs.find? h = some .opened) : HandoffsKept { s with
        handoffs := s.handoffs.insert h .posted
        posts := s.posts ++ [h]
        queue := s.queue ++ [{ work := .resume h }] } where
  posts h' := by
    rw [count_append, k.posts, find?_insert, count_singleton]
    by_cases heq : h' = h
    · rw [heq, hop, if_pos rfl]
      simp
    · rw [if_neg heq]
      simp [Ne.symm heq]
  handed h' := by
    rw [k.handed, find?_insert]
    by_cases heq : h' = h
    · rw [heq, hop, if_pos rfl]
      rfl
    · rw [if_neg heq]
  destroyed := k.destroyed
  waking := k.waking
  taken htk := absurd hop (k.taken htk h)
  awaited := k.awaited
  ended := k.ended

/-- A continuation is set aside. -/
theorem HandoffsKept.setAside (k : HandoffsKept s)
    (hop : s.handoffs.find? h = some .opened) : HandoffsKept (s.setAside h) where
  posts h' := by
    unfold HostLoopCore.setAside
    rw [k.posts, find?_insert]
    by_cases heq : h' = h
    · rw [heq, hop, if_pos rfl]
      rfl
    · rw [if_neg heq]
  handed h' := by
    unfold HostLoopCore.setAside
    rw [count_append, k.handed, find?_insert, count_singleton]
    by_cases heq : h' = h
    · rw [heq, hop, if_pos rfl]
      simp
    · rw [if_neg heq]
      simp [Ne.symm heq]
  destroyed := by
    show s.handed ++ [h] = s.destroyed ++ s.batch ++ (s.abandoned ++ [h])
    rw [k.destroyed, append_assoc]
  waking := k.waking
  taken htk := absurd hop (k.taken htk h)
  awaited := k.awaited
  ended hcl := by
    have htk : s.stage.tookOpen = true := by
      have hcl : s.stage = .closed := hcl
      rw [hcl]
      rfl
    exact absurd hop (k.taken htk h)

theorem HandoffsKept.wakeForHandoff (k : HandoffsKept s) (hfr : s.isFresh w = true)
    (inside : Bool) : HandoffsKept (s.wakeForHandoff w inside) := by
  unfold HostLoopCore.wakeForHandoff
  split_ifs with hop
  · exact k
  refine k.frame rfl rfl rfl rfl rfl rfl rfl ?_ fun ha => absurd ?_ hop
  · have hc := handoffWakes_call hfr true inside
    rw [if_pos rfl, ← k.waking] at hc
    exact hc.symm
  · unfold isClosed
    refine decide_eq_true fun heq => ?_
    rw [heq] at ha
    cases ha

/-- A handoff is open at most once. -/
theorem count_openHandoffs (s : HostLoopCore) (h : ℕ) :
    s.openHandoffs.count h = if s.handoffs.find? h = some .opened then 1 else 0 := by
  have hnd : s.openHandoffs.Nodup := by
    refine List.Nodup.sublist (filter_sublist.map _) ?_
    exact (pairwise_map.mpr s.handoffs.sorted).imp fun hlt => hlt.ne
  rw [hnd.count]
  refine if_congr ?_ rfl rfl
  unfold openHandoffs
  rw [mem_map]
  constructor
  · rintro ⟨⟨h', state⟩, hm, rfl⟩
    obtain ⟨hm, hst⟩ := mem_filter.mp hm
    obtain rfl : state = .opened := of_decide_eq_true hst
    exact (s.handoffs.mem_entries_iff h' _).mp hm
  · intro hf
    exact ⟨(h, .opened), mem_filter.mpr ⟨(s.handoffs.mem_entries_iff h _).mpr hf,
      decide_eq_true rfl⟩, rfl⟩

theorem find?_takeOpen (s : HostLoopCore) (h : ℕ) : s.takeOpen.handoffs.find? h
      = (s.handoffs.find? h).map fun state => if state = .opened then .taken else state := by
  unfold takeOpen
  rw [SortedMap.find?_filterMap]
  cases s.handoffs.find? h with
  | none | some state => rfl

/-- All continuations that wait are set aside. -/
theorem HandoffsKept.takeOpen (k : HandoffsKept s) (hcl : s.stage ≠ .closed) :
    HandoffsKept s.takeOpen where
  posts h := by
    rw [find?_takeOpen]
    show s.posts.count h = _
    rw [k.posts]
    rcases s.handoffs.find? h with _ | (_ | _ | _) <;> rfl
  handed h := by
    rw [find?_takeOpen]
    show (s.handed ++ s.openHandoffs).count h = _
    rw [count_append, k.handed, count_openHandoffs]
    rcases s.handoffs.find? h with _ | (_ | _ | _) <;> rfl
  destroyed := by
    show s.handed ++ s.openHandoffs = s.destroyed ++ s.batch ++ (s.abandoned ++ s.openHandoffs)
    rw [k.destroyed, append_assoc]
  waking := k.waking
  taken _ h := by
    rw [find?_takeOpen]
    rcases s.handoffs.find? h with _ | (_ | _ | _) <;> nofun
  awaited := k.awaited
  ended h := absurd h hcl

/-- A batch is taken. -/
theorem HandoffsKept.swapBatch (k : HandoffsKept s) (hbat : s.batch = [])
    (hcl : s.stage ≠ .closed) : HandoffsKept s.swapBatch where
  posts := k.posts
  handed := k.handed
  destroyed := by
    show s.handed = s.destroyed ++ s.abandoned ++ []
    rw [k.destroyed, hbat, append_nil, append_nil]
  waking := k.waking
  taken := k.taken
  awaited := k.awaited
  ended h := absurd h hcl

/-- Draining loses no handoff. -/
theorem HandoffsKept.drainHandoffs (k : HandoffsKept s) (hbat : s.batch = []) :
    HandoffsKept s.drainHandoffs := by
  unfold HostLoopCore.drainHandoffs
  split
  · rename_i hs
    have hcl : s.stage ≠ .closed := by rw [hs]; nofun
    have htk := k.takeOpen hcl
    split
    · exact ⟨htk.posts, htk.handed, htk.destroyed, htk.waking, fun _ h => by
          show s.takeOpen.handoffs.find? h ≠ _
          rw [find?_takeOpen]
          rcases s.handoffs.find? h with _ | (_ | _ | _) <;> nofun,
        nofun, nofun⟩
    · exact htk.swapBatch hbat hcl
  · rename_i hs
    have hcl : s.stage ≠ .closed := by rw [hs]; nofun
    have htk := k.takeOpen hcl
    have ha := k.awaited (by rw [hs]; rfl)
    split_ifs with hab
    · exact ⟨htk.posts, htk.handed, htk.destroyed, htk.waking,
        fun _ => htk.taken (by show s.stage.tookOpen = true; rw [hs]; rfl),
        fun _ => ha, fun _ => ⟨hab, hbat⟩⟩
    · exact htk.swapBatch hbat hcl
  · rename_i hs _
    have hcl : s.stage ≠ .closed := by rw [hs]; nofun
    split
    · exact k.frame rfl rfl rfl rfl rfl rfl rfl k.waking fun _ => rfl
    · exact k.swapBatch hbat hcl
  · rename_i hs _
    have hcl : s.stage ≠ .closed := by rw [hs]; nofun
    split
    · exact k.frame rfl rfl rfl rfl rfl rfl rfl k.waking fun _ => rfl
    · exact (k.swapBatch hbat hcl).frame rfl rfl rfl rfl rfl rfl rfl k.waking fun _ => rfl
  · exact k

/-- **Every event** keeps the continuations. -/
theorem HandoffsKept.step (k : HandoffsKept s) (e : Event) : HandoffsKept (s.step e) := by
  have hcs : ∀ {w : ℕ} {inside : Bool}, s.mayCall w inside = true → s.isFresh w = true :=
    fun h => (Bool.and_eq_true_iff.mp h).1
  have hcalled : ∀ {w : ℕ}, s.isFresh w = true → ∀ inside,
      (s.callWake w false inside).handoffWakes = s.waking := by
    intro w hfr inside
    rw [handoffWakes_call hfr, k.waking]
    rfl
  have hframe : ∀ phase prologue turns scheduled queue, HandoffsKept
      { s with
        phase := phase, prologue := prologue, turns := turns, scheduled := scheduled
        queue := queue } :=
    fun _ _ _ _ _ => k.frame rfl rfl rfl rfl rfl rfl rfl k.waking fun _ => rfl
  cases e with rw [HostLoopCore.step]
  | queueWork task w inside | callWake w inside =>
    split
    · rename_i hc
      exact k.frame rfl rfl rfl rfl rfl rfl rfl (hcalled (hcs hc) inside).symm fun _ => rfl
    · exact k
  | postHandoff h w posted inside =>
    split
    · rename_i hc
      unfold HostLoopCore.postHandoff
      split
      · exact k
      rename_i hopened
      split
      · exact (k.posted (not_not.mp hopened)).wakeForHandoff (hcs hc) inside
      · exact (k.setAside (not_not.mp hopened)).wakeForHandoff (hcs hc) inside
    · exact k
  | releaseHandoff h w inside =>
    split
    · rename_i hc
      unfold HostLoopCore.releaseHandoff
      split
      · exact k
      · rename_i hopened
        exact (k.setAside (not_not.mp hopened)).wakeForHandoff (hcs hc) inside
    · exact k
  | wakeStep w accepted =>
    split
    · rename_i hf
      exact k.wakeStep hf accepted
    · exact k
  | wakeReturn w =>
    split
    · rename_i hf
      exact k.wakeReturn hf
    · exact k
  | track h =>
    split
    · exact k
    rename_i hnew
    push Not at hnew
    obtain ⟨hop, htracked⟩ := hnew
    have hn : s.handoffs.find? h = none := Option.not_isSome_iff_eq_none.mp htracked
    have hcnt : ∀ state : HandoffState, state ≠ .opened → ∀ h',
        (s.handoffs.insert h .opened).find? h' = some state
          ↔ s.handoffs.find? h' = some state := by
      intro state hst h'
      rw [find?_insert]
      split
      · rename_i heq
        rw [heq, hn]
        exact ⟨fun h => absurd (Option.some.inj h).symm hst, nofun⟩
      · exact Iff.rfl
    refine ⟨fun h' => ?_, fun h' => ?_, k.destroyed, k.waking, fun htk => absurd ?_ hop,
      k.awaited, k.ended⟩
    · rw [if_congr (hcnt .posted nofun h') rfl rfl]
      exact k.posts h'
    · rw [if_congr (hcnt .taken nofun h') rfl rfl]
      exact k.handed h'
    · unfold isClosed
      refine decide_eq_true fun heq => ?_
      have htk : s.stage.tookOpen = true := htk
      rw [heq] at htk
      cases htk
  | beginTurn | clearTurn | enterTurn | startPolling | runOut | endHandler | findDry
  | completeDue =>
    split
    · exact hframe _ _ _ _ _
    · exact k
  | drainHandoffs =>
    split
    · rename_i hd
      exact k.drainHandoffs hd.2
    · exact k
  | destroyBatch =>
    refine ⟨k.posts, k.handed, ?_, k.waking, k.taken, k.awaited, fun hcl =>
      ⟨(k.ended hcl).1, rfl⟩⟩
    show s.handed = s.destroyed ++ s.batch ++ [] ++ s.abandoned
    rw [k.destroyed, append_nil]
  | poll =>
    split
    · exact k.frame rfl rfl rfl rfl rfl rfl rfl k.waking fun _ => rfl
    · exact k
  | stopTurn w =>
    split
    · rename_i ht
      exact k.frame rfl rfl rfl rfl rfl rfl rfl (hcalled ht.1 false).symm fun _ => rfl
    · exact k
  | beginClose =>
    split
    · exact k
    · exact ⟨k.posts, k.handed, k.destroyed, k.waking, nofun, nofun, nofun⟩
  | resetContext =>
    split
    · rename_i hs
      exact ⟨k.posts, k.handed, k.destroyed, k.waking,
        fun _ => k.taken (by rw [hs]; rfl), nofun, nofun⟩
    · exact k
  | awaitWakes =>
    split
    · rename_i hw
      exact ⟨k.posts, k.handed, k.destroyed, k.waking,
        fun _ => k.taken (by rw [hw.1]; rfl), fun _ => hw.2, nofun⟩
    · exact k

end HostLoopCore

end NeoGraph.Host
