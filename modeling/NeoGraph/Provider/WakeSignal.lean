import Mathlib

/-!
# The wake-up of a provider call

Callbacks of a provider publish what they have, and then notify the call that
reads it. The call waits on a channel that holds one message, and a
notification sends to it only while the call waits; a flag remembers a
notification that comes while it does not.

A list of events is any interleaving of the callbacks, of the call, of its
cancellation and of the end of its executor; an event that is not possible
changes nothing. `WakeReader.misses_no_notification` says that a call which waits
has nothing to read, or will be notified, or has a message.
-/

namespace NeoGraph.Provider

open List

variable {D : Type}

/-- Where the call that reads is. -/
inductive ReaderPhase where
  | running
  /-- It has consumed the notifications, and reads next. -/
  | consumed
  /-- It has read what there was, and waits next. -/
  | drained
  | waiting
deriving DecidableEq

/-- A call and the callbacks it waits for. -/
structure WakeReader (D : Type) where
  /-- Published and not read. -/
  data : List D := []
  /-- How many callbacks have published and will notify. -/
  announced : ℕ := 0
  /-- The executor of the channel is there. -/
  channel : Bool := true
  /-- The messages in the channel. -/
  messages : ℕ := 0
  pending : Bool := false
  armed : Bool := false
  phase : ReaderPhase := .running
  /-- All that was published, and all that was read. -/
  published : List D := []
  read : List D := []

namespace WakeReader

/-- The channel has room for one message. -/
def trySend (r : WakeReader D) : WakeReader D :=
  if r.messages = 0 then { r with messages := 1 } else r

/-- A reader that is armed is sent a byte; any other will see the mark. -/
def notify (r : WakeReader D) : WakeReader D :=
  if r.channel = false then r
  else if r.armed = false then { r with pending := true }
  else trySend { r with pending := true, armed := false }

def stop (r : WakeReader D) : WakeReader D := { r with channel := false, armed := false }

/-- The reader takes what was sent, and will ask again. -/
def consume (r : WakeReader D) : WakeReader D :=
  { r with pending := false, armed := false, messages := 0, phase := .consumed }

/-- With a notification pending the call goes on at once. -/
def prepareWait (r : WakeReader D) : WakeReader D :=
  if r.pending then { r with phase := .running }
  else { r with armed := true, phase := .waiting }

/-- A step of the writer or of the reader. -/
inductive WakeEvent (D : Type) where
  | publish (d : D)
  | notify
  | consume
  | read
  | wait
  /-- The wait ends with a message. -/
  | receive
  /-- The wait is cancelled. -/
  | abort
  | stop

/-- An event that cannot happen changes nothing. -/
def perform (r : WakeReader D) : WakeEvent D → WakeReader D
  | .publish d =>
    { r with data := r.data ++ [d], published := r.published ++ [d], announced := r.announced + 1 }
  | .notify => if r.announced = 0 then r else notify { r with announced := r.announced - 1 }
  | .consume => if r.phase = .running then r.consume else r
  | .read =>
    if r.phase = .consumed then { r with data := [], read := r.read ++ r.data, phase := .drained }
    else r
  | .wait => if r.phase = .drained then r.prepareWait else r
  | .receive =>
    if r.phase = .waiting ∧ 0 < r.messages then
      { r with messages := r.messages - 1, phase := .running }
    else r
  | .abort => if r.phase = .waiting then { r with phase := .running } else r
  | .stop => r.stop

/-- What holds at every moment. -/
structure Inv (r : WakeReader D) : Prop where
  order : r.published = r.read ++ r.data
  /-- What is not read is or will be announced. -/
  announced : r.data ≠ [] → 0 < r.announced ∨ r.pending = true ∨ r.phase = .consumed
    ∨ r.channel = false
  /-- A call that waits is armed, or has its message. -/
  waiting : r.phase = .waiting → r.channel = true →
    r.armed = true ∧ r.pending = false ∨ r.messages = 1
  armed : r.armed = true → r.messages = 0
  /-- Between a consumption and a wait nothing is sent. -/
  reading : r.phase = .consumed ∨ r.phase = .drained → r.armed = false ∧ r.messages = 0
  messages : r.messages ≤ 1

variable {r : WakeReader D}

theorem Inv.notify (h : r.Inv) :
    (WakeReader.notify { r with announced := r.announced - 1 }).Inv := by
  obtain ⟨ho, hannounced, hw, har, hrdg, hms⟩ := h
  unfold WakeReader.notify
  split_ifs with hc hunarmed
  · exact ⟨ho, fun _ => .inr (.inr (.inr hc)), hw, har, hrdg, hms⟩
  · refine ⟨ho, fun _ => .inr (.inl rfl), fun hph hc => ?_, har, hrdg, hms⟩
    obtain ⟨ha, -⟩ | hm := hw hph hc
    · exact absurd (hunarmed.symm.trans ha) Bool.false_ne_true
    · exact .inr hm
  · have ha : r.armed = true := eq_true_of_ne_false hunarmed
    unfold trySend
    rw [if_pos (har ha)]
    exact ⟨ho, fun _ => .inr (.inl rfl), fun _ _ => .inr rfl, nofun,
      fun hph => absurd (hrdg hph).1 hunarmed, Nat.le_refl _⟩

/-- A wait that ends leaves what is not read announced. -/
theorem Inv.announced_of_waiting (h : r.Inv) (hph : r.phase = .waiting) (hd : r.data ≠ []) :
    0 < r.announced ∨ r.pending = true ∨ r.channel = false := by
  obtain ha | hp | hc | hs := h.announced hd
  · exact .inl ha
  · exact .inr (.inl hp)
  · cases hph.symm.trans hc
  · exact .inr (.inr hs)

theorem Inv.prepareWait (h : r.Inv) (hph : r.phase = .drained) : r.prepareWait.Inv := by
  obtain ⟨ho, hannounced, hw, har, hrdg, hm⟩ := h
  obtain ⟨hunarmed, he⟩ := hrdg (.inr hph)
  unfold WakeReader.prepareWait
  split_ifs with hpn
  · exact ⟨ho, fun _ => .inr (.inl hpn), nofun, har, nofun, hm⟩
  · refine ⟨ho, fun hd => ?_, fun _ _ => .inl ⟨rfl, eq_false_of_ne_true hpn⟩,
      fun _ => he, nofun, hm⟩
    obtain ha | hp | hc | hs := hannounced hd
    · exact .inl ha
    · exact absurd hp hpn
    · cases hph.symm.trans hc
    · exact .inr (.inr (.inr hs))

/-- Every step keeps the invariant. -/
theorem Inv.perform (h : r.Inv) (event : WakeEvent D) : (r.perform event).Inv := by
  have h' := h
  obtain ⟨ho, hannounced, hw, har, hrdg, hm⟩ := h'
  cases event <;> dsimp only [WakeReader.perform]
  case publish d =>
    refine ⟨?_, fun _ => .inl (Nat.succ_pos _), hw, har, hrdg, hm⟩
    show r.published ++ [d] = r.read ++ (r.data ++ [d])
    rw [ho, append_assoc]
  case notify =>
    split_ifs
    · exact h
    · exact h.notify
  case consume =>
    split_ifs
    · exact ⟨ho, fun _ => .inr (.inr (.inl rfl)), nofun, nofun, fun _ => ⟨rfl, rfl⟩,
        Nat.zero_le _⟩
    · exact h
  case read =>
    split_ifs with hph
    · refine ⟨?_, fun hd => absurd rfl hd, nofun, har, fun _ => hrdg (.inl hph),
        hm⟩
      rw [ho]
      exact (append_nil _).symm
    · exact h
  case wait =>
    split_ifs with hph
    · exact h.prepareWait hph
    · exact h
  case receive =>
    split_ifs with hph
    · obtain ⟨hph, hp⟩ := hph
      exact ⟨ho, fun hd => (h.announced_of_waiting hph hd).imp_right (.imp_right .inr),
        nofun, fun ha => absurd (har ha) (Nat.ne_of_gt hp), nofun,
        Nat.le_trans (Nat.sub_le _ _) hm⟩
    · exact h
  case abort =>
    split_ifs with hph
    · exact ⟨ho, fun hd => (h.announced_of_waiting hph hd).imp_right (.imp_right .inr),
        nofun, har, nofun, hm⟩
    · exact h
  case stop =>
    exact ⟨ho, fun _ => .inr (.inr (.inr rfl)), nofun, nofun, fun hph =>
      ⟨rfl, (hrdg hph).2⟩, hm⟩

/-- **No wake-up is lost.** At every moment of every interleaving the call has
read what was published, in order, up to what it has not read; when it waits
with something to read while the executor is there, a callback will notify it
or its message is in the channel, which never holds two. -/
theorem misses_no_notification (events : List (WakeEvent D)) :
    let r := events.foldl perform {}
    r.published = r.read ++ r.data
      ∧ (r.phase = .waiting ∧ r.channel = true → r.data = [] ∨ 0 < r.announced ∨ r.messages = 1)
      ∧ r.messages ≤ 1 := by
  have hst : ({} : WakeReader D).Inv :=
    ⟨rfl, fun h => absurd rfl h, nofun, nofun, by simp, Nat.zero_le _⟩
  have h := foldlRecOn events perform hst fun r hr event _ => hr.perform event
  refine ⟨h.order, fun ⟨hph, hc⟩ => ?_, h.messages⟩
  obtain ⟨-, hpn⟩ | hm := h.waiting hph hc
  · refine Classical.or_iff_not_imp_left.mpr fun hd => .inl ?_
    obtain ha | hp | hs := h.announced_of_waiting hph hd
    · exact ha
    · exact absurd (hpn.symm.trans hp) Bool.false_ne_true
    · exact absurd (hs.symm.trans hc) Bool.false_ne_true
  · exact .inr (.inr hm)

end WakeReader

end NeoGraph.Provider
