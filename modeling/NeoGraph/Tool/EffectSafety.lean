import NeoGraph.Tool.EffectBroker

/-!
# A tool effect starts at most once per slot

A call that has put its marker, or has started its tool, owns the row of its
slot (`EffectWorld.Sound`), so no other call of the slot gets past the lookup.
This holds as long as a call that was started does not end like one that was
refused by host admission; otherwise its marker is withdrawn, and the tool is
started again (`EffectWorld.started_twice`).
-/

namespace NeoGraph.Tool.EffectWorld

open CanonicalJson Receipt Option List EffectCall

variable {lib : DocumentLibrary} {w w' : EffectWorld} {e : EffectEvent} {id : ℕ} {c : EffectCall}
variable {transaction : Transaction} {result : ToolExecutionResult}

/-! ## The invariant -/

/-- A call whose marker is in the journal and that is not over. -/
def Active (c : EffectCall) : Prop := c.phase = .marked ∨ ∃ result, c.phase = .returned result

/-- A call that no other call of its slot may join. -/
def Holds (c : EffectCall) : Prop := Active c ∨ c.started = true

/-- A completion that can be read back. -/
def Confirmed (result : ToolExecutionResult) : Prop :=
  result.succeeded = true ∧ result.effectUncertain = false ∧ result.refused = false

/-- **What holds of every state.** -/
structure Sound (lib : DocumentLibrary) (w : EffectWorld) : Prop where
  holds : ∀ id c, w.calls id = some c → Holds c → bindsSlot c.slot = true
    ∧ ∃ receipt, w.rows c.slot = some ⟨c.binding, id, receipt⟩ ∧ (Active c → receipt = none)
  starts : w.starts.Nodup ∧ ∀ id, id ∈ w.starts ↔ ∃ c, w.calls id = some c ∧ c.started = true
  keeps : ∀ id c result, w.calls id = some c → c.phase = .returned result → c.started = true →
    frees result = false
  plain : ∀ id c result, w.calls id = some c → c.phase = .returned result →
    result.succeeded = true → result.refused = false
  receipts : ∀ slot row receipt, w.rows slot = some row → row.receipt = some receipt →
    ∃ result, receipt = lib.dump (encode result) ∧ Confirmed result

/-- The condition on a step: a call that was started does not end with host
admission refusing, neither on its own account nor for those who share it. -/
def Regular (w : EffectWorld) : EffectEvent → Prop
  | .finish id _ ending => ∀ c, w.calls id = some c → c.started = true →
    refusesAdmission ending = false
  | .follow _ _ started _ ending => started = true → refusesAdmission ending = false
  | _ => True

theorem calls_setCall (w : EffectWorld) (id : ℕ) (c : EffectCall) (id' : ℕ) :
    (w.setCall id c).calls id' = if id' = id then some c else w.calls id' :=
  Function.update_apply _ _ _ _

theorem calls_setPhase (w : EffectWorld) (id : ℕ) (c : EffectCall) (phase : CallPhase) (id' : ℕ) :
    (w.setPhase id c phase).calls id'
      = if id' = id then some { c with phase := phase } else w.calls id' :=
  calls_setCall w id _ id'

theorem calls_startTool (w : EffectWorld) (id : ℕ) (c : EffectCall) (id' : ℕ) :
    (w.startTool id c).calls id'
      = if id' = id then some { c with started := true } else w.calls id' :=
  calls_setCall w id _ id'

theorem rows_setRow (w : EffectWorld) (slot : Slot) (row : Option Row) (slot' : Slot) :
    (w.setRow slot row).rows slot' = if slot' = slot then row else w.rows slot' :=
  Function.update_apply _ _ _ _

theorem Sound.starts_setPhase (h : w.Sound lib) (hc : w.calls id = some c) (phase : CallPhase) :
    w.starts.Nodup ∧ ∀ i, i ∈ w.starts
      ↔ ∃ c', (w.setPhase id c phase).calls i = some c' ∧ c'.started = true := by
  refine ⟨h.starts.1, fun i => (h.starts.2 i).trans ?_⟩
  rw [calls_setPhase]
  split_ifs with hi
  · rw [hi, hc]
    constructor
    · rintro ⟨c', hc', hst⟩
      cases hc'
      exact ⟨_, rfl, hst⟩
    · rintro ⟨c', hc', hst⟩
      cases hc'
      exact ⟨c, rfl, hst⟩
  · exact Iff.rfl

variable {phase : CallPhase}

/-- A call that is over does not hold its row against what changes it. -/
theorem Sound.setPhase (h : w.Sound lib) (hc : w.calls id = some c)
    (ha : phase = .marked ∨ (∃ r, phase = .returned r) → Active c)
    (hkp : ∀ r, phase = .returned r → c.started = true → frees r = false)
    (hpl : ∀ r, phase = .returned r → r.succeeded = true → r.refused = false) :
    (w.setPhase id c phase).Sound lib where
  holds i c' hc' hh := by
    rw [calls_setPhase] at hc'
    split_ifs at hc' with hi
    · cases hc'
      have hold : Holds c := by
        obtain hph | hst := hh
        · exact .inl (ha hph)
        · exact .inr hst
      obtain ⟨hb, receipt, hr, hn⟩ := h.holds id c hc hold
      exact ⟨hb, receipt, hi ▸ hr, fun hph => hn (ha hph)⟩
    · exact h.holds i c' hc' hh
  starts := h.starts_setPhase hc phase
  keeps i c' r hc' hph hst := by
    rw [calls_setPhase] at hc'
    split at hc'
    · cases hc'
      exact hkp r hph hst
    · exact h.keeps i c' r hc' hph hst
  plain i c' r hc' hph hs := by
    rw [calls_setPhase] at hc'
    split at hc'
    · cases hc'
      exact hpl r hph hs
    · exact h.plain i c' r hc' hph hs
  receipts := h.receipts

/-- A call that is over has any phase but those of a running one. -/
theorem Sound.end (h : w.Sound lib) (hc : w.calls id = some c) (hph : phase ≠ .marked)
    (hret : ∀ r, phase ≠ .returned r) : (w.setPhase id c phase).Sound lib := by
  refine h.setPhase hc ?_ (fun r hr => absurd hr (hret r)) fun r hr => absurd hr (hret r)
  rintro (hmk | ⟨r, hr⟩)
  · exact absurd hmk hph
  · exact absurd hr (hret r)

/-- The row of a call changes, and no other call holds it. -/
theorem Sound.setRow (h : w.Sound lib) (hc : w.calls id = some c)
    (hot : ∀ i c', w.calls i = some c' → Holds c' → c'.slot = c.slot → i = id)
    {row : Option Row} (hph : ∀ r, phase ≠ .returned r)
    (hown : phase = .marked ∨ c.started = true → bindsSlot c.slot = true
      ∧ ∃ receipt, row = some ⟨c.binding, id, receipt⟩ ∧ (phase = .marked → receipt = none))
    (hreceipts : ∀ row' receipt, row = some row' → row'.receipt = some receipt →
      ∃ result, receipt = lib.dump (encode result) ∧ Confirmed result) :
    ((w.setRow c.slot row).setPhase id c phase).Sound lib where
  holds i c' hc' hh := by
    have hrs : ((w.setRow c.slot row).setPhase id c phase).rows
      = (w.setRow c.slot row).rows := rfl
    rw [calls_setPhase] at hc'
    rw [hrs, rows_setRow]
    split_ifs at hc' with hi
    · cases hc'
      have hmk : phase = .marked ∨ c.started = true := by
        obtain (hmk | ⟨r, hr⟩) | hst := hh
        · exact .inl hmk
        · exact absurd hr (hph r)
        · exact .inr hst
      obtain ⟨hb, receipt, hrow, hn⟩ := hown hmk
      refine ⟨hb, receipt, ?_, ?_⟩
      · refine (if_pos rfl).trans ?_
        rw [hrow, hi]
      · rintro (hmk | ⟨r, hr⟩)
        · exact hn hmk
        · exact absurd hr (hph r)
    · rw [if_neg fun heq => hi (hot i c' hc' hh heq)]
      exact h.holds i c' hc' hh
  starts := h.starts_setPhase hc phase
  keeps i c' r hc' hr hst := by
    rw [calls_setPhase] at hc'
    split at hc'
    · cases hc'
      exact absurd hr (hph r)
    · exact h.keeps i c' r hc' hr hst
  plain i c' r hc' hr hs := by
    rw [calls_setPhase] at hc'
    split at hc'
    · cases hc'
      exact absurd hr (hph r)
    · exact h.plain i c' r hc' hr hs
  receipts slot row' receipt hrow := by
    have hrs : ((w.setRow c.slot row).setPhase id c phase).rows
      = (w.setRow c.slot row).rows := rfl
    rw [hrs, rows_setRow] at hrow
    split at hrow
    · exact hreceipts row' receipt hrow
    · exact h.receipts slot row' receipt hrow

variable {i : ℕ} {c' : EffectCall}

/-- Nobody holds a slot without a row. -/
theorem Sound.no_holder (h : w.Sound lib) {slot : Slot} (hn : w.rows slot = none)
    (hc' : w.calls i = some c') (hh : Holds c') : c'.slot ≠ slot := by
  intro hsl
  obtain ⟨-, receipt, hr, -⟩ := h.holds i c' hc' hh
  rw [hsl, hn] at hr
  cases hr

/-- **One call holds a slot.** -/
theorem Sound.unique (h : w.Sound lib) (hc : w.calls id = some c) (hh : Holds c)
    (hc' : w.calls i = some c') (hh' : Holds c') (hsl : c'.slot = c.slot) : i = id := by
  obtain ⟨-, receipt, hr, -⟩ := h.holds id c hc hh
  obtain ⟨-, receipt', hr', -⟩ := h.holds i c' hc' hh'
  rw [hsl, hr] at hr'
  exact (Row.mk.inj (Option.some.inj hr')).2.1.symm

/-- A marker is put. -/
theorem Sound.put (h : w.Sound lib) (hc : w.calls id = some c) (hb : bindsSlot c.slot = true)
    (hn : w.rows c.slot = none) (hph : ∀ r, phase ≠ .returned r) :
    ((w.setRow c.slot (some { binding := c.binding, writer := id })).setPhase id c phase).Sound
      lib := by
  refine h.setRow hc
    (fun i c' hc' hh hsl => absurd hsl (h.no_holder hn hc' hh)) hph
    (fun _ => ⟨hb, none, rfl, fun _ => rfl⟩) fun row receipt hr hrc => ?_
  cases hr
  cases hrc

/-! ## One lemma for each step -/

/-- A call enters the broker. -/
theorem Sound.enter (h : w.Sound lib) (hfr : w.calls id = none)
    (hph : c.phase ≠ .marked) (hret : ∀ r, c.phase ≠ .returned r)
    (hst : c.started = false) : (w.setCall id c).Sound lib where
  holds i c' hc' hh := by
    rw [calls_setCall] at hc'
    split at hc'
    · cases hc'
      obtain (hmk | ⟨r, hr⟩) | hsts := hh
      · exact absurd hmk hph
      · exact absurd hr (hret r)
      · rw [hst] at hsts
        cases hsts
    · exact h.holds i c' hc' hh
  starts := by
    refine ⟨h.starts.1, fun i => (h.starts.2 i).trans ?_⟩
    rw [calls_setCall]
    split_ifs with hi
    · rw [hi, hfr]
      constructor
      · rintro ⟨c', hc', -⟩
        cases hc'
      rintro ⟨c', hc', hsts⟩
      cases hc'
      rw [hst] at hsts
      cases hsts
    · exact Iff.rfl
  keeps i c' r hc' hr hsts := by
    rw [calls_setCall] at hc'
    split at hc'
    · cases hc'
      exact absurd hr (hret r)
    · exact h.keeps i c' r hc' hr hsts
  plain i c' r hc' hr hs := by
    rw [calls_setCall] at hc'
    split at hc'
    · cases hc'
      exact absurd hr (hret r)
    · exact h.plain i c' r hc' hr hs
  receipts := h.receipts

/-- A call that has just been made. -/
theorem enter_phase (appendFloat : UInt64 → Except Exn Bytes) (broker : Broker)
    (identity : ToolEffectIdentity) (tool : ToolObject) (arguments : Json String)
    (policy : ToolExecutionPolicy) :
    (enter appendFloat broker identity tool arguments policy).started = false
      ∧ ((enter appendFloat broker identity tool arguments policy).phase = .entered
        ∨ (∃ result, (enter appendFloat broker identity tool arguments policy).phase = .ended result
          ∧ result.status = .rejected)
        ∨ (enter appendFloat broker identity tool arguments policy).phase = .threw
          ∧ ∃ e, documentBytes appendFloat arguments = .error e) := by
  unfold NeoGraph.Tool.enter
  split
  · exact ⟨rfl, .inr (.inl ⟨_, rfl, rfl⟩)⟩
  split
  · exact ⟨rfl, .inr (.inl ⟨_, rfl, rfl⟩)⟩
  split
  · exact ⟨rfl, .inr (.inl ⟨_, rfl, rfl⟩)⟩
  split
  · exact ⟨rfl, .inr (.inl ⟨_, rfl, rfl⟩)⟩
  split
  · exact ⟨rfl, .inr (.inl ⟨_, rfl, rfl⟩)⟩
  split
  · rename_i e he
    exact ⟨rfl, .inr (.inr ⟨rfl, e, he⟩)⟩
  · exact ⟨rfl, .inl rfl⟩

theorem Sound.lookup (h : w.Sound lib) (hc : w.calls id = some c) (transaction : Transaction) :
    (w.lookup lib id c transaction).Sound lib := by
  unfold EffectWorld.lookup
  cases transaction with
  | committed =>
    dsimp only
    split
    · exact h.end hc (by rintro ⟨⟩) (by rintro r ⟨⟩)
    rename_i hb
    rw [Bool.not_eq_true', Bool.not_eq_false] at hb
    split
    · exact h.end hc (by rintro ⟨⟩) (by rintro r ⟨⟩)
    rename_i hn
    split
    · exact h.end hc (by rintro ⟨⟩) (by rintro r ⟨⟩)
    · exact h.put hc hb hn (by rintro r ⟨⟩)
  | failed what applied =>
    dsimp only
    split
    · rename_i happ
      simp only [Bool.and_eq_true, isNone_iff_eq_none] at happ
      exact h.put hc happ.1.1.2 happ.1.2 (by rintro r ⟨⟩)
    · exact h.end hc (by rintro ⟨⟩) (by rintro r ⟨⟩)

/-- A tool is started. -/
theorem Sound.start (h : w.Sound lib) (hc : w.calls id = some c) (hmk : c.phase = .marked)
    (hf : c.started = false) : (w.startTool id c).Sound lib where
  holds i c' hc' hh := by
    rw [calls_startTool] at hc'
    split_ifs at hc' with hi
    · cases hc'
      obtain ⟨hb, receipt, hrow, hn⟩ := h.holds id c hc (.inl (.inl hmk))
      exact ⟨hb, receipt, hi ▸ hrow, fun _ => hn (.inl hmk)⟩
    · exact h.holds i c' hc' hh
  starts := by
    have hnew : id ∉ w.starts := by
      rw [h.starts.2]
      rintro ⟨c', hc', hst⟩
      rw [hc] at hc'
      cases hc'
      rw [hf] at hst
      cases hst
    refine ⟨nodup_append.mpr ⟨h.starts.1, nodup_singleton id, ?_⟩, fun i => ?_⟩
    · rintro i hi j hj rfl
      exact hnew ((mem_singleton.mp hj) ▸ hi)
    have hsts : (w.startTool id c).starts = w.starts ++ [id] := rfl
    rw [hsts, calls_startTool, mem_append, mem_singleton, h.starts.2]
    split_ifs with hi
    · exact iff_of_true (.inr hi) ⟨_, rfl, rfl⟩
    · exact or_iff_left hi
  keeps i c' r hc' hr hst := by
    rw [calls_startTool] at hc'
    split at hc'
    · cases hc'
      rw [hmk] at hr
      cases hr
    · exact h.keeps i c' r hc' hr hst
  plain i c' r hc' hr hs := by
    rw [calls_startTool] at hc'
    split at hc'
    · cases hc'
      rw [hmk] at hr
      cases hr
    · exact h.plain i c' r hc' hr hs
  receipts := h.receipts

/-- The controller answers a call. -/
theorem Sound.return (h : w.Sound lib) (hc : w.calls id = some c) (hmk : c.phase = .marked)
    (hkp : c.started = true → frees result = false)
    (hpl : result.succeeded = true → result.refused = false) :
    (w.setPhase id c (.returned result)).Sound lib := by
  refine h.setPhase hc (fun _ => .inl hmk) (fun r hr => ?_) fun r hr => ?_
  · cases hr
    exact hkp
  · cases hr
    exact hpl

/-- **What settling a call does to its row**: nothing, or the marker of a call
that was not started is withdrawn, or a receipt is stored. -/
inductive Settled (lib : DocumentLibrary) (w : EffectWorld) (id : ℕ) (c : EffectCall)
    (result : ToolExecutionResult) (w' : EffectWorld) : Prop
  | keep (answer : ToolExecutionResult) (hanswer : answer.succeeded = false)
    (hw : w' = w.setPhase id c (.ended answer))
  | withdraw (hfrees : frees result = true)
    (hw : w' = (w.setRow c.slot none).setPhase id c (.ended result))
  | store (answer : ToolExecutionResult) (hsucceeded : result.succeeded = true)
    (hcertain : result.effectUncertain = false)
    (hanswer : answer = result ∨ answer.succeeded = false)
    (hw : w' = (w.setRow c.slot
      (some ⟨c.binding, id, some (lib.dump (encode result))⟩)).setPhase id c (.ended answer))

theorem succeeded_of_frees (h : frees result = true) : result.succeeded = false := by
  obtain ⟨status⟩ := result
  cases status <;> first | rfl | cases h

theorem settled_settle (hr : w.rows c.slot = some ⟨c.binding, id, none⟩)
    (transaction : Transaction) :
    Settled lib w id c result (w.settle lib id c result transaction) := by
  have hwithdrawn : withdrawn (w.rows c.slot) = none := by
    rw [hr]
    rfl
  unfold EffectWorld.settle
  split
  · rename_i hf
    rw [hwithdrawn]
    obtain _ | ⟨what, _ | _⟩ := transaction
    · exact .withdraw hf rfl
    · exact .keep _ (succeeded_of_frees hf) rfl
    · exact .withdraw hf rfl
  · split
    · exact .keep _ rfl rfl
    rename_i hc
    rw [Bool.or_eq_true, not_or, Bool.not_eq_true', Bool.not_eq_false, Bool.not_eq_true]
      at hc
    rw [hr]
    dsimp only
    split
    · exact .keep _ rfl rfl
    obtain _ | ⟨what, _ | _⟩ := transaction
    · exact .store _ hc.1 hc.2 (.inl rfl) rfl
    · exact .keep _ rfl rfl
    · exact .store _ hc.1 hc.2 (.inr rfl) rfl

/-- The row of a call that the controller answered. -/
theorem Sound.row_returned (h : w.Sound lib) (hc : w.calls id = some c)
    (hph : c.phase = .returned result) :
    bindsSlot c.slot = true ∧ w.rows c.slot = some ⟨c.binding, id, none⟩ := by
  obtain ⟨hb, receipt, hr, hn⟩ := h.holds id c hc (.inl (.inr ⟨result, hph⟩))
  cases hn (.inr ⟨result, hph⟩)
  exact ⟨hb, hr⟩

/-- A call settles its effect. -/
theorem Sound.settle (h : w.Sound lib) (hc : w.calls id = some c)
    (hph : c.phase = .returned result) (transaction : Transaction) :
    (w.settle lib id c result transaction).Sound lib := by
  obtain ⟨hb, hr⟩ := h.row_returned hc hph
  have hot : ∀ i c', w.calls i = some c' → Holds c' → c'.slot = c.slot → i = id :=
    fun i c' hc' hh' hsl => h.unique hc (.inl (.inr ⟨result, hph⟩)) hc' hh' hsl
  have hs : Settled lib w id c result (w.settle lib id c result transaction) :=
    settled_settle hr transaction
  cases hs with
  | keep answer _ hw =>
    rw [hw]
    exact h.end hc (by rintro ⟨⟩) (by rintro r ⟨⟩)
  | withdraw hf hw =>
    rw [hw]
    refine h.setRow hc hot (by rintro r ⟨⟩) ?_ fun row' receipt hr' => by cases hr'
    rintro (⟨⟨⟩⟩ | hst)
    rw [h.keeps id c result hc hph hst] at hf
    cases hf
  | store answer hsc hcr _ hw =>
    rw [hw]
    refine h.setRow hc hot (by rintro r ⟨⟩) (fun _ => ⟨hb, _, rfl, by rintro ⟨⟩⟩) ?_
    intro row' receipt hr' hrc
    cases hr'
    cases hrc
    exact ⟨result, rfl, hsc, hcr, h.plain id c result hc hph hsc⟩

/-- **What a step can do.** -/
inductive Stepped (lib : DocumentLibrary) (w : EffectWorld) : EffectEvent → EffectWorld → Prop
  | enter {n broker identity tool arguments policy} : w.calls n = none →
      Stepped lib w (.enter n broker identity tool arguments policy)
        (w.setCall n (enter lib.appendFloat broker identity tool arguments policy))
  | lookup {n d t} : w.calls n = some d → Stepped lib w (.lookup n t) (w.lookup lib n d t)
  | start {n d} : w.calls n = some d → d.phase = .marked → d.started = false →
      Stepped lib w (.start n) (w.startTool n d)
  | threw {n d hit ending} : w.calls n = some d →
      Stepped lib w (.finish n hit ending) (w.setPhase n d .threw)
  | finish {n d hit ending} : w.calls n = some d → d.phase = .marked →
      (d.started && elapsedBeforeStart ending) = false → Stepped lib w (.finish n hit ending)
        (w.setPhase n d (.returned (executeResult d.policy d.started hit ending)))
  | follow {n d leader started hit ending} : w.calls n = some d → d.phase = .marked →
      d.started = false → Stepped lib w (.follow n leader started hit ending)
        (w.setPhase n d (.returned (executeResult leader started hit ending)))
  | settle {n d t r} : w.calls n = some d → d.phase = .returned r →
      Stepped lib w (.settle n t) (w.settle lib n d r t)
  | crash {n d} : w.calls n = some d → Stepped lib w (.crash n) (w.setPhase n d .crashed)

/-- What a step can do. -/
theorem stepped (hs : w.step lib e = some w') : Stepped lib w e w' := by
  cases e
  all_goals
    rw [EffectWorld.step] at hs
    split at hs
    all_goals try cases hs
    rename_i hc
  · exact .enter hc
  · split_ifs at hs
    cases hs
    exact .lookup hc
  · split_ifs at hs with hr
    rw [Bool.and_eq_true, decide_eq_true_eq, Bool.not_eq_true'] at hr
    cases hs
    exact .start hc hr.1 hr.2
  · split_ifs at hs with hr
    all_goals cases hs
    · exact .threw hc
    · simp only [Bool.and_eq_true, decide_eq_true_eq, Bool.not_eq_true'] at hr
      exact .finish hc hr.1.1 hr.2
  · split_ifs at hs with hr
    simp only [Bool.and_eq_true, decide_eq_true_eq, Bool.not_eq_true'] at hr
    cases hs
    exact .follow hc hr.1.1.1.1 hr.1.1.1.2
  · split at hs
    all_goals cases hs
    rename_i hph
    exact .settle hc hph
  · split at hs
    all_goals cases hs
    all_goals exact .crash hc

/-- **Every regular step keeps the invariant.** -/
theorem Sound.step (h : w.Sound lib) (hregular : w.Regular e) (hs : w.step lib e = some w') :
    w'.Sound lib := by
  cases stepped hs with
  | @enter id broker identity tool arguments policy hfr =>
    obtain ⟨hst, hent | ⟨result, he, -⟩ | ⟨hthrew, -⟩⟩ :=
      enter_phase lib.appendFloat broker identity tool arguments policy
    · exact h.enter hfr (by rw [hent]; rintro ⟨⟩) (by rw [hent]; rintro r ⟨⟩) hst
    · exact h.enter hfr (by rw [he]; rintro ⟨⟩) (by rw [he]; rintro r ⟨⟩) hst
    · exact h.enter hfr (by rw [hthrew]; rintro ⟨⟩) (by rw [hthrew]; rintro r ⟨⟩) hst
  | lookup hc => exact h.lookup hc _
  | start hc hmk hf => exact h.start hc hmk hf
  | threw hc | crash hc => exact h.end hc (by rintro ⟨⟩) (by rintro r ⟨⟩)
  | @finish id c _ _ hc hmk helapsed =>
    refine h.return hc hmk (fun hst => ?_) (refused_executeResult _ _ _)
    rw [hst, Bool.true_and] at helapsed
    rw [hst, frees_executeResult _ _ helapsed]
    exact hregular c hc hst
  | follow hc hmk hf =>
    refine h.return hc hmk (fun hst => ?_) (refused_executeResult _ _ _)
    cases hf.symm.trans hst
  | settle hc hph => exact h.settle hc hph _

/-! ## Runs -/

/-- The states of runs whose steps are all regular. -/
inductive Reaches (lib : DocumentLibrary) : EffectWorld → Prop
  | start : Reaches lib {}
  | step {w w' : EffectWorld} {e : EffectEvent} (h : Reaches lib w) (hregular : w.Regular e)
      (hstep : w.step lib e = some w') : Reaches lib w'

theorem sound_start : ({} : EffectWorld).Sound lib where
  holds id c hc := by cases hc
  starts := ⟨nodup_nil, fun id => ⟨fun hid => absurd hid not_mem_nil,
    by rintro ⟨c, hc, -⟩; cases hc⟩⟩
  keeps id c result hc := by cases hc
  plain id c result hc := by cases hc
  receipts slot row receipt hr := by cases hr

theorem Reaches.sound (h : Reaches lib w) : w.Sound lib := by
  induction h with
  | start => exact sound_start
  | step _ hregular hs ih => exact ih.step hregular hs

/-- The starts of tools in a slot. -/
def startsOf (w : EffectWorld) (slot : Slot) : List ℕ :=
  w.starts.filter fun id => (w.calls id).map EffectCall.slot = some slot

/-- **A slot sees one start.** -/
theorem Sound.startsOf_le (h : w.Sound lib) (slot : Slot) : (w.startsOf slot).length ≤ 1 := by
  have hnd : (w.startsOf slot).Nodup := h.starts.1.filter _
  have hsm : ∀ i ∈ w.startsOf slot, ∀ j ∈ w.startsOf slot, i = j := by
    intro i hi j hj
    obtain ⟨hi, hislot⟩ := mem_filter.mp hi
    obtain ⟨hj, hjslot⟩ := mem_filter.mp hj
    obtain ⟨c, hc, hst⟩ := (h.starts.2 i).mp hi
    obtain ⟨c', hc', hst'⟩ := (h.starts.2 j).mp hj
    rw [hc, decide_eq_true_eq, map_some, some_inj] at hislot
    rw [hc', decide_eq_true_eq, map_some, some_inj] at hjslot
    exact h.unique hc' (.inr hst') hc (.inr hst) (hislot.trans hjslot.symm)
  match hl : w.startsOf slot with
  | [] => exact Nat.zero_le 1
  | [_] => exact le_rfl
  | i :: j :: l =>
    rw [hl] at hnd hsm
    have heq := hsm i mem_cons_self j (mem_cons_of_mem i mem_cons_self)
    rw [heq] at hnd
    exact absurd mem_cons_self (nodup_cons.mp hnd).1

/-- **What a later call is told** whose slot has seen a start. -/
theorem Sound.replayed (h : w.Sound lib) {id₀ : ℕ} {c₀ : EffectCall} (hc₀ : w.calls id₀ = some c₀)
    (hst : c₀.started = true) (hsl : c₀.slot = c.slot) (id : ℕ) :
    ∃ answer, w.lookup lib id c .committed = w.setPhase id c (.ended answer)
      ∧ (c.binding ≠ c₀.binding → answer = changedCall)
      ∧ (c.binding = c₀.binding → ∃ row, w.rows c.slot = some row
        ∧ (row.receipt = none → answer = noReceipt)
        ∧ ∀ receipt, row.receipt = some receipt →
          (∃ result, Confirmed result ∧ receipt = lib.dump (encode result))
          ∧ ∀ result, Confirmed result → lib.parse receipt = some (encode result) →
            answer = result) := by
  obtain ⟨hb, receipt, hr, -⟩ := h.holds id₀ c₀ hc₀ (.inr hst)
  rw [hsl] at hb hr
  refine ⟨replay lib ⟨c₀.binding, id₀, receipt⟩ c.binding, ?_, fun hne => ?_, fun heq => ?_⟩
  · unfold EffectWorld.lookup
    rw [hb, hr]
    rfl
  · exact if_pos (Ne.symm hne)
  · have hsm : ¬ c₀.binding ≠ c.binding := not_not_intro heq.symm
    refine ⟨_, hr, ?_, ?_⟩
    · rintro rfl
      exact if_neg hsm
    rintro text rfl
    obtain ⟨result, ht, hcn⟩ := h.receipts _ _ text hr rfl
    refine ⟨⟨result, hcn, ht⟩, ?_⟩
    rintro result ⟨hs, hc, href⟩ hp
    unfold replay
    rw [if_neg hsm]
    dsimp only
    rw [hp, bind_some, decode_encode lib.truncate hs hc href]

/-- What a step does to the rows: it may put one, or settle a call. -/
theorem Sound.rows_step (h : w.Sound lib) (hs : w.step lib e = some w') (slot : Slot) :
    w'.rows slot = w.rows slot ∨ w.rows slot = none
      ∨ ∃ id c result transaction, e = .settle id transaction ∧ w.calls id = some c
        ∧ c.slot = slot ∧ c.phase = .returned result
        ∧ Settled lib w id c result w' := by
  cases stepped hs with
  | @lookup id c transaction hc =>
    have hput : ∀ (row : Row) (phase : CallPhase), w.rows c.slot = none →
        ((w.setRow c.slot (some row)).setPhase id c phase).rows slot = w.rows slot
          ∨ w.rows slot = none := by
      intro row phase hn
      by_cases hsl : slot = c.slot
      · exact .inr (hsl ▸ hn)
      · exact .inl ((rows_setRow w c.slot (some row) slot).trans (if_neg hsl))
    unfold EffectWorld.lookup
    cases transaction with
    | committed =>
      dsimp only
      split
      · exact .inl rfl
      split
      · exact .inl rfl
      rename_i hn
      split
      · exact .inl rfl
      · exact or_assoc.mp (.inl (hput _ _ hn))
    | failed what applied =>
      dsimp only
      split
      · rename_i happ
        simp only [Bool.and_eq_true, isNone_iff_eq_none] at happ
        exact or_assoc.mp (.inl (hput _ _ happ.1.2))
      · exact .inl rfl
  | @settle id c transaction result hc hph =>
    obtain ⟨-, hr⟩ := h.row_returned hc hph
    have hsettled : Settled lib w id c result (w.settle lib id c result transaction) :=
      settled_settle hr transaction
    by_cases hsl : c.slot = slot
    · exact .inr (.inr ⟨id, c, result, transaction, rfl, hc, hsl, hph, hsettled⟩)
    refine .inl ?_
    have hset : ∀ row phase, ((w.setRow c.slot row).setPhase id c phase).rows slot = w.rows slot :=
      fun row phase => (rows_setRow w c.slot row slot).trans (if_neg (Ne.symm hsl))
    cases hsettled with
    | keep answer _ hw =>
      rw [hw]
      rfl
    | withdraw _ hw | store answer _ _ _ hw =>
      rw [hw]
      exact hset _ _
  | _ => exact .inl rfl

/-- A call is answered with a success only when its receipt is stored. -/
theorem Sound.settled_success (h : w.Sound lib) (hc : w.calls id = some c)
    (hph : c.phase = .returned result) {answer : ToolExecutionResult}
    (ha : (w.settle lib id c result transaction).calls id
      = some { c with phase := .ended answer }) (hsc : answer.succeeded = true) :
    answer = result ∧ (w.settle lib id c result transaction).rows c.slot
      = some ⟨c.binding, id, some (lib.dump (encode result))⟩ := by
  obtain ⟨-, hr⟩ := h.row_returned hc hph
  have han : ∀ {w₀ : EffectWorld} {given : ToolExecutionResult},
      (w₀.setPhase id c (.ended given)).calls id = some { c with phase := .ended answer } →
      given = answer := by
    intro w₀ given hgv
    rw [calls_setPhase, if_pos rfl] at hgv
    exact CallPhase.ended.inj (EffectCall.mk.inj (Option.some.inj hgv)).2.2.2.1
  have hs : Settled lib w id c result (w.settle lib id c result transaction) :=
    settled_settle hr transaction
  cases hs with
  | keep given hf hw =>
    rw [hw] at ha
    rw [han ha, hsc] at hf
    cases hf
  | withdraw hfr hw =>
    rw [hw] at ha
    have hf := succeeded_of_frees hfr
    rw [han ha, hsc] at hf
    cases hf
  | store given _ _ hgv hw =>
    rw [hw] at ha ⊢
    have heq := han ha
    refine ⟨?_, (rows_setRow _ _ _ _).trans (if_pos rfl)⟩
    obtain hgv | hf := hgv
    · exact heq.symm.trans hgv
    · rw [heq, hsc] at hf
      cases hf

/-- **A tool effect starts at most once per slot**, in runs in which no call that
was started ends with host admission refusing. Once a tool was started, a later
call that reads the journal is rejected if anything about it is different;
otherwise it is answered with the result that was recorded, or asked to
reconcile if none was. A receipt stays, a success is answered only with its
receipt stored, and a marker is withdrawn only by the call that put it, and only
if its tool was not started. -/
theorem effects_start_once (h : Reaches lib w) :
    (∀ slot, (w.startsOf slot).length ≤ 1)
      ∧ (∀ id₀ c₀ id c, w.calls id₀ = some c₀ → c₀.started = true → w.calls id = some c →
        c.phase = .entered → c₀.slot = c.slot →
        ∃ answer, w.step lib (.lookup id .committed) = some (w.setPhase id c (.ended answer))
          ∧ (c.binding ≠ c₀.binding → answer.status = .rejected)
          ∧ (c.binding = c₀.binding → ∃ row, w.rows c.slot = some row
            ∧ (row.receipt = none → answer.status = .reconciliationRequired)
            ∧ ∀ receipt, row.receipt = some receipt →
              (∃ result, Confirmed result ∧ receipt = lib.dump (encode result))
              ∧ ∀ result, Confirmed result → lib.parse receipt = some (encode result) →
                answer = result))
      ∧ ∀ e w', w.step lib e = some w' →
        (∀ slot row receipt, w.rows slot = some row → row.receipt = some receipt →
          w'.rows slot = some row)
        ∧ (∀ slot row, w.rows slot = some row → w'.rows slot = none →
          row.receipt = none ∧ ∃ transaction c, e = .settle row.writer transaction
            ∧ w.calls row.writer = some c ∧ c.slot = slot ∧ c.started = false)
        ∧ (∀ id transaction c result answer, e = .settle id transaction → w.calls id = some c →
          c.phase = .returned result → w'.calls id = some { c with phase := .ended answer } →
          answer.succeeded = true → answer = result
            ∧ w'.rows c.slot = some ⟨c.binding, id, some (lib.dump (encode result))⟩)
        ∧ ∀ id broker identity tool arguments policy,
          e = .enter id broker identity tool arguments policy → w'.rows = w.rows
            ∧ w'.starts = w.starts ∧ ∃ c, w'.calls id = some c
              ∧ (c.phase = .entered
                ∨ (∃ answer, c.phase = .ended answer ∧ answer.status = .rejected)
                ∨ c.phase = .threw ∧ ∃ e, documentBytes lib.appendFloat arguments = .error e) := by
  have hsd := h.sound
  refine ⟨hsd.startsOf_le, ?_, fun e w' hs => ⟨?_, ?_, ?_, ?_⟩⟩
  · intro id₀ c₀ id c hc₀ hst hc hent hsl
    obtain ⟨answer, hlk, hchd, hsm⟩ := hsd.replayed hc₀ hst hsl id
    refine ⟨answer, ?_, fun hne => ?_, fun heq => ?_⟩
    · rw [EffectWorld.step, hc]
      dsimp only
      rw [if_pos hent, hlk]
    · rw [hchd hne]
      rfl
    · obtain ⟨row, hr, hn, hrc⟩ := hsm heq
      refine ⟨row, hr, fun hemp => ?_, hrc⟩
      rw [hn hemp]
      rfl
  · intro slot row receipt hr hrc
    obtain hkp | hn | ⟨id, c, result, transaction, -, hc, rfl, hph, -⟩ :=
      hsd.rows_step hs slot
    · exact hkp.trans hr
    · rw [hn] at hr
      cases hr
    · obtain ⟨-, hown⟩ := hsd.row_returned hc hph
      rw [hown] at hr
      cases hr
      cases hrc
  · intro slot row hr hg
    obtain hkp | hn | ⟨id, c, result, transaction, he, hc, rfl, hph, hset⟩ :=
      hsd.rows_step hs slot
    · rw [hkp, hr] at hg
      cases hg
    · rw [hn] at hr
      cases hr
    · obtain ⟨-, hown⟩ := hsd.row_returned hc hph
      rw [hown] at hr
      cases hr
      refine ⟨rfl, transaction, c, he, hc, rfl, ?_⟩
      cases hset with
      | keep answer _ hw =>
        rw [hw] at hg
        exact absurd (hown.symm.trans hg) (by rintro ⟨⟩)
      | withdraw hf hw =>
        refine Bool.eq_false_iff.mpr fun hst => ?_
        rw [hsd.keeps _ c result hc hph hst] at hf
        cases hf
      | store answer _ _ _ hw =>
        rw [hw] at hg
        exact absurd (((rows_setRow _ _ _ _).trans (if_pos rfl)).symm.trans hg) (by rintro ⟨⟩)
  · rintro id transaction c result answer rfl hc hph
    rw [EffectWorld.step, hc] at hs
    dsimp only at hs
    rw [hph] at hs
    cases hs
    exact hsd.settled_success hc hph
  · rintro id broker identity tool arguments policy rfl
    cases stepped hs
    refine ⟨rfl, rfl, _, (calls_setCall _ _ _ _).trans (if_pos rfl), ?_⟩
    exact (enter_phase lib.appendFloat broker identity tool arguments policy).2

/-- The state after a sequence of steps. -/
def runEvents (lib : DocumentLibrary) : EffectWorld → List EffectEvent → Option EffectWorld
  | w, [] => some w
  | w, e :: events => (w.step lib e).bind fun w' => runEvents lib w' events

/-- No end of a call is that of host admission refusing. -/
def admits : EffectEvent → Bool
  | .finish _ _ ending => !refusesAdmission ending
  | .follow _ _ _ _ ending => !refusesAdmission ending
  | _ => true

theorem regular_of_admits (w : EffectWorld) (h : admits e = true) : w.Regular e := by
  cases e with
  | finish id deadlineHit ending => exact fun _ _ _ => (Bool.not_eq_true' _).mp h
  | follow id leader started deadlineHit ending => exact fun _ => (Bool.not_eq_true' _).mp h
  | _ => exact trivial

theorem Reaches.runEvents (h : Reaches lib w) {events : List EffectEvent}
    (hadm : ∀ e ∈ events, admits e = true) (hr : runEvents lib w events = some w') :
    Reaches lib w' := by
  induction events generalizing w with
  | nil =>
    cases hr
    exact h
  | cons e events ih =>
    rw [EffectWorld.runEvents, bind_eq_some_iff] at hr
    obtain ⟨w₁, hs, hr⟩ := hr
    exact ih (h.step (regular_of_admits w (hadm e mem_cons_self)) hs)
      (fun e he => hadm e (mem_cons_of_mem _ he)) hr

/-! ## Two runs of one slot -/

namespace Sample

/-- The receipt of a tool that answered "done". -/
def doneReceipt : String :=
  "\x7b\"status\":\"succeeded\",\"output\":\"done\",\"error\":\"\",\"retryable\":false,"
    ++ "\"effect_uncertain\":false,\"exit_code\":null,\"signal_number\":null,"
    ++ "\"output_truncated\":false\x7d"

def done : ToolExecutionResult := { status := .succeeded, output := "done" }

/-- A document library, as far as the runs use it. -/
def library : DocumentLibrary where
  dump _ := doneReceipt
  parse text := if text = doneReceipt then some (encode done) else none
  appendFloat := refuseFloat
  truncate _ := 0

theorem parse_doneReceipt : library.parse doneReceipt = some (encode done) := by
  simp [library]

def broker : Broker := fun address => if address = 1 then some ⟨"deploy@1", "deploy"⟩ else none

def identity : ToolEffectIdentity :=
  { ownerScope := "owner", runId := "run", operationId := "operation", grantId := "grant"
    threadId := "thread", taskId := "task" }

/-- A call of the slot up to the start of its tool. -/
def untilStart (id : ℕ) : List EffectEvent :=
  [.enter id broker identity ⟨1, "deploy"⟩ (.obj []) {}, .lookup id .committed, .start id]

/-- The tool itself asks for host resources while the host shuts down. -/
def refusedTwice : List EffectEvent :=
  untilStart 0
    ++ [.finish 0 false (.error (.hostAdmission .shutdown "controller is shut down")),
      .settle 0 .committed]
    ++ untilStart 1

/-- The tool answers, and another call of the slot has entered. -/
def answered : List EffectEvent :=
  untilStart 0 ++ [.finish 0 false (.ok "done"), .settle 0 .committed,
    .enter 1 broker identity ⟨1, "deploy"⟩ (.obj []) {}]

end Sample

/-- **A tool is started twice in one slot** if it fails with a refusal of host
admission: its marker is withdrawn although it was started. -/
theorem started_twice : ∃ w, runEvents Sample.library {} Sample.refusedTwice = some w
    ∧ (w.startsOf Sample.identity.slot).length = 2 := by
  have hc : ((runEvents Sample.library {} Sample.refusedTwice).any fun w =>
      (w.startsOf Sample.identity.slot).length = 2) = true := by
    decide +kernel
  cases hw : runEvents Sample.library {} Sample.refusedTwice with
  | none =>
    rw [hw] at hc
    cases hc
  | some w =>
    rw [hw, any_some, decide_eq_true_eq] at hc
    exact ⟨w, rfl, hc⟩

theorem effects_start_once_answered : ∃ w c, runEvents Sample.library {} Sample.answered = some w
    ∧ (w.startsOf Sample.identity.slot).length ≤ 1 ∧ w.calls 1 = some c
    ∧ w.step Sample.library (.lookup 1 .committed)
      = some (w.setPhase 1 c (.ended Sample.done)) := by
  have hchk : ((runEvents Sample.library {} Sample.answered).any fun w =>
      decide ((w.calls 0).map (fun c => (c.started, c.slot, c.binding.executable)) =
        some (true, Sample.identity.slot, "deploy@1"))
      && decide ((w.calls 1).map (fun c => (c.phase, c.slot)) =
        some (.entered, Sample.identity.slot))
      && decide ((w.calls 0).map binding = (w.calls 1).map binding)
      && decide ((w.rows Sample.identity.slot).bind Row.receipt = some Sample.doneReceipt))
        = true := by
    decide +kernel
  cases hw : runEvents Sample.library {} Sample.answered with
  | none =>
    rw [hw] at hchk
    cases hchk
  | some w =>
    rw [hw, any_some] at hchk
    simp only [Bool.and_eq_true, decide_eq_true_eq, map_eq_some_iff, Prod.mk.injEq] at hchk
    obtain ⟨⟨⟨⟨c₀, hc₀, hst, hsl₀, -⟩, c, hc, he, hsl⟩, hbinding⟩,
      hrc⟩ := hchk
    have hrch : Reaches Sample.library w :=
      Reaches.start.runEvents (by decide) hw
    obtain ⟨hsts, hlt, -⟩ := effects_start_once hrch
    obtain ⟨answer, hs, -, hsm⟩ :=
      hlt 0 c₀ 1 c hc₀ hst hc he (hsl₀.trans hsl.symm)
    rw [hc₀, hc, map_some, map_some, some_inj] at hbinding
    obtain ⟨row, hr, -, hrd⟩ := hsm hbinding.symm
    rw [← hsl, hr, bind_some] at hrc
    have ha : answer = Sample.done :=
      (hrd _ hrc).2 Sample.done ⟨rfl, rfl, rfl⟩ Sample.parse_doneReceipt
    exact ⟨w, c, rfl, hsts _, hc, ha ▸ hs⟩

end NeoGraph.Tool.EffectWorld
