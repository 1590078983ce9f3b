import Mathlib
import NeoGraph.Program.Budget

/-!
# The command log of a run

A run keeps a log of the commands it issued. A command has an ordinal, and
its coordinate is what it asks for. It enters the log pending; further
pending entries may record settled members or when an await started, and one
entry completes it. A new command is admitted once the last entry is
complete.

An append is checked either against the whole log
(`validCommandHistoryAppend`) or against its last entry alone
(`validCommandHistoryAppendAfter`). `LogInv` is what holds of every log that
was built by checked appends, and with it both checks are the same.
-/

namespace NeoGraph.Program

open List Nat Program Option

/-! ## Entries -/

/-- An entry of the command log. Commands are compared by their canonical
bytes, of type `C`; recorded values, of type `J`, only by presence. -/
structure CommandEntry (C J : Type) where
  sequence : BitVec 64
  bundleId : String
  commandOrdinal : BitVec 64
  command : C
  effectIdentity : Option String
  coordinateId : String
  terminalResult : Option J
  settledMembers : Option J
  awaitStartedAt : Option J
  sequence_ne_zero : sequence ≠ 0
  ordinal_ne_zero : commandOrdinal ≠ 0
  settled_pending : settledMembers.isSome = true → terminalResult = none
  await_pending : awaitStartedAt.isSome = true → terminalResult = none

variable {C J : Type} [DecidableEq C]

namespace CommandEntry

def pending (e : CommandEntry C J) : Bool := e.terminalResult.isNone

def completed (e : CommandEntry C J) : Bool := e.terminalResult.isSome

omit [DecidableEq C] in
theorem completed_eq (e : CommandEntry C J) : e.completed = !e.pending := by
  unfold completed pending
  cases e.terminalResult with
  | none | some r => rfl

/-- The entry says more than that its command was issued. -/
def followsUp (e : CommandEntry C J) : Bool :=
  !e.pending || e.settledMembers.isSome || e.awaitStartedAt.isSome

end CommandEntry

/-- Two entries are about the same command. -/
def sameCommandCoordinate (lhs rhs : CommandEntry C J) : Bool :=
  lhs.bundleId = rhs.bundleId && lhs.commandOrdinal = rhs.commandOrdinal
    && lhs.coordinateId = rhs.coordinateId && lhs.command = rhs.command
    && lhs.effectIdentity = rhs.effectIdentity

/-! ## Checking against the whole log -/

/-- The sequence and the highest ordinal of a log of one bundle. -/
def scanLog (bundle : String) :
    BitVec 64 → BitVec 64 → List (CommandEntry C J) → Option (BitVec 64 × BitVec 64)
  | expected, highest, [] => some (expected, highest)
  | expected, highest, e :: rest =>
    if e.bundleId ≠ bundle ∨ e.sequence ≠ expected + 1 then none
    else
      scanLog bundle (expected + 1)
        (if highest < e.commandOrdinal then e.commandOrdinal else highest)
        rest

/-- A new command is not admitted here. -/
def rejectsNew (highest : BitVec 64) (last : Option (CommandEntry C J))
    (e : CommandEntry C J) : Bool :=
  e.commandOrdinal ≠ highest + 1 || !e.pending || e.settledMembers.isSome
    || e.awaitStartedAt.isSome || last.any CommandEntry.pending

/-- A further entry of a command is not admitted after `found`. -/
def rejectsFurther (found e : CommandEntry C J) : Bool :=
  !found.pending || !sameCommandCoordinate found e
    || (!e.completed && !e.settledMembers.isSome && !e.awaitStartedAt.isSome)

/-- Entries are appended to a log one by one. -/
def appendLoop (bundle : String) :
    List (CommandEntry C J) → BitVec 64 → BitVec 64 → List (CommandEntry C J) → Bool
  | _, _, _, [] => true
  | prior, expected, highest, e :: rest =>
    if e.bundleId ≠ bundle ∨ e.sequence ≠ expected + 1 then false
    else
      match prior.reverse.find? fun p => p.commandOrdinal = e.commandOrdinal with
      | none =>
        if rejectsNew highest prior.getLast? e then false
        else appendLoop bundle (prior ++ [e]) (expected + 1) e.commandOrdinal rest
      | some found =>
        if rejectsFurther found e then false
        else appendLoop bundle (prior ++ [e]) (expected + 1) highest rest

/-- New entries are checked against the whole log. -/
def validCommandHistoryAppend (bundle : String) (old new : List (CommandEntry C J)) : Bool :=
  new.isEmpty
    || match scanLog bundle 0 0 old with
      | none => false
      | some (expected, highest) => appendLoop bundle old expected highest new

/-! ## Checking against the last entry -/

/-- What the last entry of a log must look like. -/
def plausibleLast (bundle : String) (last : CommandEntry C J) : Bool :=
  !(last.bundleId ≠ bundle || last.sequence < last.commandOrdinal
    || last.sequence - last.commandOrdinal < last.commandOrdinal - (if last.followsUp then 0 else 1)
    || (last.commandOrdinal = 1 && !last.followsUp && last.sequence ≠ 1))

/-- Entries are appended after a last entry. -/
def afterLoop (bundle : String) :
    Option (CommandEntry C J) → BitVec 64 → BitVec 64 → List (CommandEntry C J) → Bool
  | _, _, _, [] => true
  | last, expected, highest, e :: rest =>
    if e.bundleId ≠ bundle ∨ expected = BitVec.allOnes 64 ∨ e.sequence ≠ expected + 1 then false
    else
      match last.filter fun l => e.commandOrdinal = l.commandOrdinal with
      | none =>
        if rejectsNew highest last e then false
        else afterLoop bundle (some e) (expected + 1) e.commandOrdinal rest
      | some l =>
        if rejectsFurther l e then false
        else afterLoop bundle (some e) (expected + 1) highest rest

/-- New entries are checked against the last entry. -/
def validCommandHistoryAppendAfter (bundle : String) (last : Option (CommandEntry C J))
    (new : List (CommandEntry C J)) : Bool :=
  new.isEmpty
    || (last.all (plausibleLast bundle)
      && afterLoop bundle last ((last.map CommandEntry.sequence).getD 0)
        ((last.map CommandEntry.commandOrdinal).getD 0) new)

/-! ## Logs built by checked appends -/

/-- A log of a run, built by appends that were checked. -/
inductive Built (bundle : String) : List (CommandEntry C J) → Prop
  | empty : Built bundle []
  | append {log batch : List (CommandEntry C J)} (h : Built bundle log)
      (hbatch : validCommandHistoryAppend bundle log batch = true) : Built bundle (log ++ batch)

/-- The ordinal of the last entry. -/
def lastOrdinal (log : List (CommandEntry C J)) : ℕ :=
  (log.getLast?.map fun e => e.commandOrdinal.toNat).getD 0

/-- What holds of a log that was built by checked appends. -/
structure LogInv (bundle : String) (log : List (CommandEntry C J)) : Prop where
  bundle : ∀ e ∈ log, e.bundleId = bundle
  sequence : log.map (fun e => e.sequence.toNat) = range' 1 log.length
  /-- Ordinals never decrease and never skip. -/
  steps : log.IsChain fun e e' => e'.commandOrdinal.toNat = e.commandOrdinal.toNat
    ∨ e'.commandOrdinal.toNat = e.commandOrdinal.toNat + 1
  first : ∀ e ∈ log.head?, e.commandOrdinal = 1
  le_last : ∀ e ∈ log, e.commandOrdinal.toNat ≤ lastOrdinal log
  /-- Nothing follows the completion of a coordinate. -/
  open_before : log.Pairwise fun e e' => e.commandOrdinal = e'.commandOrdinal →
    e.pending = true ∧ sameCommandCoordinate e e' = true
  /-- Coordinates before the last one are complete. -/
  closed : ∀ e ∈ log, e.commandOrdinal.toNat ≠ lastOrdinal log →
    ∃ e' ∈ log, e'.commandOrdinal = e.commandOrdinal ∧ e'.completed = true
  /-- Completed coordinates have two entries or more. -/
  count : ∀ last ∈ log.getLast?,
    2 * last.commandOrdinal.toNat ≤ log.length + if last.followsUp then 0 else 1
  alone : ∀ last ∈ log.getLast?, last.commandOrdinal = 1 → last.followsUp = false →
    log.length = 1

/-! ## One more entry -/

variable {bundle : String} {log : List (CommandEntry C J)} {e : CommandEntry C J}

omit [DecidableEq C] in
theorem lastOrdinal_append (log : List (CommandEntry C J)) (e : CommandEntry C J) :
    lastOrdinal (log ++ [e]) = e.commandOrdinal.toNat := by
  unfold lastOrdinal
  rw [getLast?_append, getLast?_singleton]
  rfl

variable {l : CommandEntry C J}

omit [DecidableEq C] in
theorem lastOrdinal_of_mem_getLast? (h : l ∈ log.getLast?) :
    lastOrdinal log = l.commandOrdinal.toNat := by
  unfold lastOrdinal
  rw [mem_def.mp h]
  rfl

omit [DecidableEq C] in
theorem ordinal_pos (e : CommandEntry C J) : 0 < e.commandOrdinal.toNat :=
  Nat.pos_of_ne_zero fun h => e.ordinal_ne_zero (BitVec.eq_of_toNat_eq h)

theorem sameCommandCoordinate_iff {lhs rhs : CommandEntry C J} :
    sameCommandCoordinate lhs rhs = true
      ↔ lhs.bundleId = rhs.bundleId ∧ lhs.commandOrdinal = rhs.commandOrdinal
        ∧ lhs.coordinateId = rhs.coordinateId ∧ lhs.command = rhs.command
        ∧ lhs.effectIdentity = rhs.effectIdentity := by
  unfold sameCommandCoordinate
  simp only [Bool.and_eq_true, decide_eq_true_eq, and_assoc]

theorem sameCommandCoordinate_trans {a b c : CommandEntry C J}
    (h : sameCommandCoordinate a b = true) (h' : sameCommandCoordinate b c = true) :
    sameCommandCoordinate a c = true := by
  rw [sameCommandCoordinate_iff] at h h' ⊢
  exact ⟨h.1.trans h'.1, h.2.1.trans h'.2.1, h.2.2.1.trans h'.2.2.1,
    h.2.2.2.1.trans h'.2.2.2.1, h.2.2.2.2.trans h'.2.2.2.2⟩

/-- A new command may follow a log. -/
structure IsNew (log : List (CommandEntry C J)) (e : CommandEntry C J) : Prop where
  ordinal : e.commandOrdinal.toNat = lastOrdinal log + 1
  followsUp : e.followsUp = false
  last : ∀ l ∈ log.getLast?, l.pending = false

/-- A further entry of the last command may follow a log. -/
structure IsFurther (log : List (CommandEntry C J)) (e l : CommandEntry C J) : Prop where
  last : l ∈ log.getLast?
  ordinal : e.commandOrdinal = l.commandOrdinal
  pending : l.pending = true
  same : sameCommandCoordinate l e = true
  followsUp : e.followsUp = true

theorem logInv_nil : LogInv bundle ([] : List (CommandEntry C J)) where
  bundle := nofun
  sequence := rfl
  steps := isChain_nil
  first := nofun
  le_last := nofun
  open_before := List.Pairwise.nil
  closed := nofun
  count := nofun
  alone := nofun

omit [DecidableEq C] in
theorem mem_of_mem_getLast? (h : l ∈ log.getLast?) : l ∈ log :=
  mem_of_getLast? h

omit [DecidableEq C] in
theorem followsUp_of_not_pending (h : e.pending = false) : e.followsUp = true := by
  unfold CommandEntry.followsUp
  rw [h]
  rfl

theorem LogInv.sequence_append (h : LogInv bundle log)
    (hs : e.sequence.toNat = log.length + 1) :
    (log ++ [e]).map (fun e => e.sequence.toNat) = range' 1 (log ++ [e]).length := by
  rw [map_append, h.sequence, length_append, length_singleton,
    range'_concat, map_singleton, hs, Nat.one_mul, Nat.add_comm]

/-- A new command is appended. -/
theorem LogInv.append_new (h : LogInv bundle log) (hbun : e.bundleId = bundle)
    (hs : e.sequence.toNat = log.length + 1) (hn : IsNew log e) :
    LogInv bundle (log ++ [e]) := by
  have hlt : ∀ a ∈ log, a.commandOrdinal.toNat < e.commandOrdinal.toNat := by
    intro a ha
    rw [hn.ordinal]
    exact lt_succ_of_le (h.le_last a ha)
  refine ⟨?_, h.sequence_append hs, ?_, ?_, ?_, ?_, ?_, ?_, ?_⟩
  · exact forall_mem_append.mpr ⟨h.bundle, forall_mem_singleton.mpr hbun⟩
  · refine isChain_append.mpr ⟨h.steps, isChain_singleton _, ?_⟩
    rintro l hl _ ⟨⟩
    right
    rw [hn.ordinal, lastOrdinal_of_mem_getLast? hl]
  · cases log with
    | nil =>
      rintro _ ⟨⟩
      exact BitVec.eq_of_toNat_eq hn.ordinal
    | cons a log => exact h.first
  · rw [lastOrdinal_append]
    exact forall_mem_append.mpr ⟨fun a ha => (hlt a ha).le, forall_mem_singleton.mpr le_rfl⟩
  · refine pairwise_append.mpr ⟨h.open_before, pairwise_singleton _ _, ?_⟩
    intro a ha b hb heq
    rw [mem_singleton.mp hb] at heq
    have := hlt a ha
    rw [heq] at this
    exact absurd this (lt_irrefl _)
  · rw [lastOrdinal_append]
    intro a ha hne
    obtain ha | ha := mem_append.mp ha
    · by_cases hls : a.commandOrdinal.toNat = lastOrdinal log
      · obtain ⟨l, hl⟩ : ∃ l, log.getLast? = some l :=
          isSome_iff_exists.mp (getLast?_isSome.mpr (ne_nil_of_mem ha))
        refine ⟨l, mem_append_left _ (mem_of_mem_getLast? hl), ?_, ?_⟩
        · refine BitVec.eq_of_toNat_eq ?_
          rw [hls, lastOrdinal_of_mem_getLast? hl]
        · rw [CommandEntry.completed_eq, hn.last l hl]
          rfl
      · obtain ⟨e', he', ho, hcm⟩ := h.closed a ha hls
        exact ⟨e', mem_append_left _ he', ho, hcm⟩
    · rw [mem_singleton.mp ha] at hne
      exact absurd rfl hne
  · intro last hls
    rw [getLast?_append, getLast?_singleton] at hls
    cases hls
    rw [hn.followsUp, hn.ordinal, length_append, length_singleton]
    cases hl : log.getLast? with
    | none =>
      rw [getLast?_eq_none_iff.mp hl]
      exact le_refl 2
    | some l =>
      have hc := h.count l hl
      rw [followsUp_of_not_pending (hn.last l hl)] at hc
      rw [lastOrdinal_of_mem_getLast? hl]
      simp only [if_true, Bool.false_eq_true, if_false] at hc ⊢
      omega
  · intro last hls hone _
    rw [getLast?_append, getLast?_singleton] at hls
    cases hls
    cases hl : log.getLast? with
    | none =>
      rw [getLast?_eq_none_iff.mp hl]
      rfl
    | some l =>
      have ho := hn.ordinal
      rw [hone, lastOrdinal_of_mem_getLast? hl] at ho
      have := ordinal_pos l
      simp at ho
      omega

/-- A command goes on from an entry that is pending. -/
theorem LogInv.append_further (h : LogInv bundle log) (hbun : e.bundleId = bundle)
    (hs : e.sequence.toNat = log.length + 1) (hfur : IsFurther log e l) :
    LogInv bundle (log ++ [e]) := by
  have hl : lastOrdinal log = e.commandOrdinal.toNat := by
    rw [lastOrdinal_of_mem_getLast? hfur.last, hfur.ordinal]
  obtain ⟨before, hlog⟩ := getLast?_eq_some_iff.mp hfur.last
  refine ⟨?_, h.sequence_append hs, ?_, ?_, ?_, ?_, ?_, ?_, ?_⟩
  · exact forall_mem_append.mpr ⟨h.bundle, forall_mem_singleton.mpr hbun⟩
  · refine isChain_append.mpr ⟨h.steps, isChain_singleton _, ?_⟩
    rintro a ha _ ⟨⟩
    left
    rw [hfur.ordinal, ← lastOrdinal_of_mem_getLast? ha,
      lastOrdinal_of_mem_getLast? hfur.last]
  · cases log with
    | nil => exact absurd hfur.last (by simp)
    | cons a log => exact h.first
  · rw [lastOrdinal_append]
    exact forall_mem_append.mpr
      ⟨fun a ha => hl ▸ h.le_last a ha, forall_mem_singleton.mpr le_rfl⟩
  · refine pairwise_append.mpr ⟨h.open_before, pairwise_singleton _ _, ?_⟩
    intro a ha b hb heq
    obtain rfl := mem_singleton.mp hb
    have hop := h.open_before
    rw [hlog, pairwise_append] at hop
    rw [hlog, mem_append, mem_singleton] at ha
    obtain ha | rfl := ha
    · obtain ⟨hp, hsm⟩ := hop.2.2 a ha l (mem_singleton_self l)
        (heq.trans hfur.ordinal)
      exact ⟨hp, sameCommandCoordinate_trans hsm hfur.same⟩
    · exact ⟨hfur.pending, hfur.same⟩
  · rw [lastOrdinal_append, ← hl]
    intro a ha hne
    obtain ha | ha := mem_append.mp ha
    · obtain ⟨e', he', ho, hcm⟩ := h.closed a ha hne
      exact ⟨e', mem_append_left _ he', ho, hcm⟩
    · rw [mem_singleton.mp ha, hl] at hne
      exact absurd rfl hne
  · intro last hm
    rw [getLast?_append, getLast?_singleton] at hm
    cases hm
    have hc := h.count l hfur.last
    rw [hfur.followsUp, hfur.ordinal, length_append, length_singleton]
    simp only [if_true]
    split at hc <;> omega
  · intro last hm _ hf
    rw [getLast?_append, getLast?_singleton] at hm
    cases hm
    rw [hfur.followsUp] at hf
    cases hf

/-! ## The two checks of an entry -/

variable {highest expected : BitVec 64}

omit [DecidableEq C] in
/-- A new command has the next ordinal, and nothing before it is pending. -/
theorem rejectsNew_eq_false_iff {last : Option (CommandEntry C J)} :
    rejectsNew highest last e = false
      ↔ e.commandOrdinal = highest + 1 ∧ e.followsUp = false ∧ ∀ l ∈ last, l.pending = false := by
  unfold rejectsNew CommandEntry.followsUp
  simp only [Bool.or_eq_false_iff, decide_eq_false_iff_not, not_not, and_assoc]
  refine and_congr_right fun _ => and_congr_right fun _ => and_congr_right fun _ =>
    and_congr_right fun _ => ?_
  cases last with
  | none => exact iff_of_true rfl nofun
  | some l => exact ⟨fun h _ hl => some.inj hl ▸ h, fun h => h l rfl⟩

variable {found : CommandEntry C J}

theorem rejectsFurther_eq_false_iff : rejectsFurther found e = false
      ↔ found.pending = true ∧ sameCommandCoordinate found e = true ∧ e.followsUp = true := by
  unfold rejectsFurther CommandEntry.followsUp
  rw [CommandEntry.completed_eq]
  cases found.pending with
  | false => simp
  | true =>
    cases sameCommandCoordinate found e with
    | false => simp
    | true =>
      cases e.pending with
      | false => simp
      | true =>
        cases e.settledMembers.isSome with
        | false =>
          cases e.awaitStartedAt.isSome with
          | false | true => simp
        | true => simp

omit [DecidableEq C] in
/-- The last entry of a log is the last one of its ordinal. -/
theorem find?_of_last (hl : l ∈ log.getLast?) (h : e.commandOrdinal = l.commandOrdinal) :
    (log.reverse.find? fun p => p.commandOrdinal = e.commandOrdinal) = some l := by
  obtain ⟨before, rfl⟩ := List.getLast?_eq_some_iff.mp hl
  rw [List.reverse_append, List.reverse_singleton, List.singleton_append, List.find?_cons_of_pos]
  exact decide_eq_true h.symm

/-- The last entry of an earlier ordinal is complete. -/
theorem LogInv.not_pending_of_find? (h : LogInv bundle log)
    (hf : (log.reverse.find? fun p => p.commandOrdinal = e.commandOrdinal) = some found)
    (hne : e.commandOrdinal.toNat ≠ lastOrdinal log) : found.pending = false := by
  obtain ⟨ho, after, before, hlog, haft⟩ := find?_eq_some_iff_append.mp hf
  have ho := of_decide_eq_true ho
  have hspl : log = before.reverse ++ found :: after.reverse := by
    rw [← List.reverse_reverse log, hlog, List.reverse_append, List.reverse_cons,
      List.append_assoc, List.singleton_append]
  have hm : found ∈ log := hspl ▸ mem_append_right _ mem_cons_self
  obtain ⟨e', he', heq, hc⟩ := h.closed found hm (by rwa [ho])
  rw [CommandEntry.completed_eq, Bool.not_eq_true'] at hc
  rw [hspl, mem_append, mem_cons] at he'
  obtain he' | rfl | he' := he'
  · -- an earlier entry of the ordinal would still be pending
    have hop := h.open_before
    rw [hspl, pairwise_append] at hop
    have := hop.2.2 e' he' found mem_cons_self heq
    rw [hc] at this
    cases this.1
  · exact hc
  · have := haft e' (mem_reverse.mp he')
    rw [heq, ho] at this
    simp at this

omit [DecidableEq C] in
/-- The sequence of the next entry. -/
theorem toNat_sequence (h : e.sequence = expected + 1) :
    e.sequence.toNat = expected.toNat + 1 ∧ expected ≠ BitVec.allOnes 64 := by
  have hne : expected ≠ BitVec.allOnes 64 := by
    rintro rfl
    exact e.sequence_ne_zero h
  have hlt : expected.toNat + 1 < 2 ^ 64 := by
    have hnat : expected.toNat ≠ 2 ^ 64 - 1 := fun heq => hne (BitVec.eq_of_toNat_eq heq)
    have := expected.isLt
    omega
  exact ⟨by rw [h]; exact toNat_add_of_lt hlt, hne⟩

/-- The loops' counters are those of the log. -/
structure Counters (log : List (CommandEntry C J)) (expected highest : BitVec 64) : Prop where
  expected : expected.toNat = log.length
  highest : highest.toNat = lastOrdinal log

/-- **One entry**: both loops accept it or neither does, and it keeps the
invariant. -/
theorem LogInv.entry (h : LogInv bundle log) (hctr : Counters log expected highest)
    (hbun : e.bundleId = bundle) (hs : e.sequence = expected + 1) :
    (IsNew log e ∧ rejectsNew highest log.getLast? e = false
        ∧ (log.reverse.find? fun p => p.commandOrdinal = e.commandOrdinal) = none
        ∧ (log.getLast?.filter fun l => e.commandOrdinal = l.commandOrdinal) = none)
      ∨ (∃ l, IsFurther log e l ∧ rejectsFurther l e = false
        ∧ (log.reverse.find? fun p => p.commandOrdinal = e.commandOrdinal) = some l
        ∧ (log.getLast?.filter fun l => e.commandOrdinal = l.commandOrdinal) = some l)
      ∨ ∀ rest, appendLoop bundle log expected highest (e :: rest) = false
        ∧ afterLoop bundle log.getLast? expected highest (e :: rest) = false := by
  obtain ⟨-, hmax⟩ := toNat_sequence hs
  have hg : ¬(e.bundleId ≠ bundle ∨ e.sequence ≠ expected + 1) := by
    rintro (h | h)
    · exact h hbun
    · exact h hs
  have hg' : ¬(e.bundleId ≠ bundle ∨ expected = BitVec.allOnes 64
      ∨ e.sequence ≠ expected + 1) := by
    rintro (h | h | h)
    · exact h hbun
    · exact hmax h
    · exact h hs
  simp only [appendLoop, afterLoop, if_neg hg, if_neg hg']
  by_cases hsm : ∃ l ∈ log.getLast?, e.commandOrdinal = l.commandOrdinal
  · obtain ⟨l, hl, ho⟩ := hsm
    have hf := find?_of_last hl ho
    have hflt : (log.getLast?.filter fun l => e.commandOrdinal = l.commandOrdinal)
        = some l := by
      rw [mem_def.mp hl, filter_some, if_pos (decide_eq_true ho)]
    rw [hf, hflt]
    right
    by_cases hrej : rejectsFurther l e = true
    · exact .inr fun rest => ⟨if_pos hrej, if_pos hrej⟩
    · rw [Bool.not_eq_true] at hrej
      obtain ⟨hp, hc, hfol⟩ := rejectsFurther_eq_false_iff.mp hrej
      exact .inl ⟨l, ⟨hl, ho, hp, hc, hfol⟩, hrej, rfl, rfl⟩
  · have hflt : (log.getLast?.filter fun l => e.commandOrdinal = l.commandOrdinal)
        = none := by
      rw [filter_eq_none_iff]
      intro l hl
      rw [decide_eq_true_iff]
      exact fun heq => hsm ⟨l, hl, heq⟩
    have hne : e.commandOrdinal.toNat ≠ lastOrdinal log := by
      cases hls : log.getLast? with
      | none =>
        unfold lastOrdinal
        rw [hls]
        exact (ordinal_pos e).ne'
      | some l =>
        rw [lastOrdinal_of_mem_getLast? hls]
        exact fun heq => hsm ⟨l, hls, BitVec.eq_of_toNat_eq heq⟩
    rw [hflt]
    cases hf : log.reverse.find? fun p => p.commandOrdinal = e.commandOrdinal with
    | none =>
      by_cases hrej : rejectsNew highest log.getLast? e = true
      · exact .inr (.inr fun rest => ⟨if_pos hrej, if_pos hrej⟩)
      rw [Bool.not_eq_true] at hrej
      obtain ⟨ho, hfol, hls⟩ := rejectsNew_eq_false_iff.mp hrej
      refine .inl ⟨⟨?_, hfol, hls⟩, hrej, rfl, rfl⟩
      have hhi : highest ≠ BitVec.allOnes 64 := by
        rintro rfl
        exact e.ordinal_ne_zero ho
      have hnat : highest.toNat ≠ 2 ^ 64 - 1 := fun heq =>
        hhi (BitVec.eq_of_toNat_eq heq)
      have hlt := highest.isLt
      rw [ho, ← hctr.highest]
      exact toNat_add_of_lt (by
        show highest.toNat + 1 < 2 ^ 64
        omega)
    | some found =>
      have hp := h.not_pending_of_find? hf hne
      have hfur : rejectsFurther found e = true := by
        unfold rejectsFurther
        rw [hp]
        rfl
      have hn : rejectsNew highest log.getLast? e = true := by
        -- the ordinal was used before
        by_contra hrej
        rw [Bool.not_eq_true, rejectsNew_eq_false_iff] at hrej
        have hm : found ∈ log := mem_reverse.mp (mem_of_find?_eq_some hf)
        have heq : found.commandOrdinal = e.commandOrdinal :=
          of_decide_eq_true (find?_eq_some_iff_append.mp hf).1
        have hle := h.le_last found hm
        rw [heq, ← hctr.highest, hrej.1] at hle
        have hpos := ordinal_pos e
        rw [hrej.1] at hpos
        have hlt := highest.isLt
        by_cases hwrap : highest.toNat + 1 < 2 ^ 64
        · have : (highest + 1).toNat = highest.toNat + 1 := toNat_add_of_lt hwrap
          omega
        · have : (highest + 1).toNat = highest.toNat + 1 - 2 ^ 64 :=
            toNat_add_of_le (Nat.le_of_not_lt hwrap)
          omega
      exact .inr (.inr fun rest => ⟨if_pos hfur, if_pos hn⟩)

/-! ## Whole batches -/

theorem appendLoop_guard (log rest : List (CommandEntry C J))
    (highest : BitVec 64) (h : e.bundleId ≠ bundle ∨ e.sequence ≠ expected + 1) :
    appendLoop bundle log expected highest (e :: rest) = false
      ∧ afterLoop bundle log.getLast? expected highest (e :: rest) = false := by
  refine ⟨if_pos h, if_pos ?_⟩
  exact h.imp_right .inr

/-- **A batch**: both loops decide alike, and an accepted batch keeps the
invariant. -/
theorem LogInv.loops (h : LogInv bundle log)
    (hctr : Counters log expected highest) (batch : List (CommandEntry C J)) :
    appendLoop bundle log expected highest batch
        = afterLoop bundle log.getLast? expected highest batch
      ∧ (appendLoop bundle log expected highest batch = true → LogInv bundle (log ++ batch)) := by
  induction batch generalizing log expected highest with
  | nil => exact ⟨rfl, fun _ => by rwa [List.append_nil]⟩
  | cons e rest ih =>
    by_cases hg : e.bundleId ≠ bundle ∨ e.sequence ≠ expected + 1
    · obtain ⟨happ, haft⟩ := appendLoop_guard log rest highest hg
      rw [happ, haft]
      exact ⟨rfl, nofun⟩
    · obtain ⟨hbun, hs⟩ := not_or.mp hg
      rw [not_not] at hbun hs
      obtain ⟨hnat, hm⟩ := toNat_sequence hs
      rw [hctr.expected] at hnat
      have hg' : ¬(e.bundleId ≠ bundle ∨ expected = BitVec.allOnes 64
          ∨ e.sequence ≠ expected + 1) := by
        rintro (h | h | h)
        · exact h hbun
        · exact hm h
        · exact h hs
      have hl : (log ++ [e]).getLast? = some e := by
        rw [List.getLast?_append, List.getLast?_singleton]
        rfl
      have he : (expected + 1).toNat = (log ++ [e]).length := by
        rw [← hs, hnat, List.length_append, List.length_singleton]
      have happ : log ++ e :: rest = log ++ [e] ++ rest := by
        rw [List.append_assoc, List.singleton_append]
      rw [happ]
      obtain ⟨hn, hreject, hf, hflt⟩ | ⟨l, hfur, hreject, hf, hflt⟩ | hrej :=
        h.entry hctr hbun hs
      · have hi := h.append_new hbun hnat hn
        have hctr' : Counters (log ++ [e]) (expected + 1) e.commandOrdinal :=
          ⟨he, (lastOrdinal_append log e).symm⟩
        rw [appendLoop, afterLoop, if_neg hg, if_neg hg', hf, hflt]
        simp only [hreject, Bool.false_eq_true, if_false]
        rw [← hl]
        exact ih hi hctr'
      · have hi := h.append_further hbun hnat hfur
        have hhi : highest.toNat = lastOrdinal (log ++ [e]) := by
          rw [lastOrdinal_append, hctr.highest, lastOrdinal_of_mem_getLast? hfur.last,
            hfur.ordinal]
        rw [appendLoop, afterLoop, if_neg hg, if_neg hg', hf, hflt]
        simp only [hreject, Bool.false_eq_true, if_false]
        rw [← hl]
        exact ih hi ⟨he, hhi⟩
      · rw [(hrej rest).1, (hrej rest).2]
        exact ⟨rfl, nofun⟩

omit [DecidableEq C] in
/-- The scan of a log counts its entries and finds its highest ordinal. -/
theorem scanLog_eq (l : List (CommandEntry C J)) {expected highest : BitVec 64}
    (hbun : ∀ e ∈ l, e.bundleId = bundle)
    (hs : l.map (fun e => e.sequence.toNat) = range' (expected.toNat + 1) l.length) :
    ∃ expected' highest', scanLog bundle expected highest l = some (expected', highest')
      ∧ expected'.toNat = expected.toNat + l.length
      ∧ (∀ e ∈ l, e.commandOrdinal.toNat ≤ highest'.toNat)
      ∧ highest.toNat ≤ highest'.toNat
      ∧ (highest' = highest ∨ ∃ e ∈ l, highest' = e.commandOrdinal) := by
  induction l generalizing expected highest with
  | nil => exact ⟨expected, highest, rfl, rfl, nofun, le_rfl, .inl rfl⟩
  | cons e l ih =>
    rw [map_cons, length_cons, range'_succ, List.cons.injEq] at hs
    rw [forall_mem_cons] at hbun
    have hlt : expected.toNat + 1 < 2 ^ 64 := hs.1 ▸ e.sequence.isLt
    have hnx : (expected + 1).toNat = expected.toNat + 1 := toNat_add_of_lt hlt
    have heq : e.sequence = expected + 1 :=
      BitVec.eq_of_toNat_eq (by rw [hs.1, hnx])
    have hg : ¬(e.bundleId ≠ bundle ∨ e.sequence ≠ expected + 1) := by
      rintro (h | h)
      · exact h hbun.1
      · exact h heq
    rw [scanLog, if_neg hg]
    obtain ⟨expected', highest', hsc, he, hle, hhi, hm⟩ :=
      @ih (expected + 1) (if highest < e.commandOrdinal then e.commandOrdinal else highest)
        hbun.2 (by rw [hnx]; exact hs.2)
    refine ⟨expected', highest', hsc, by rw [he, hnx, length_cons]; omega, ?_⟩
    by_cases hlt : highest < e.commandOrdinal
    · rw [if_pos hlt] at hhi hm
      refine ⟨forall_mem_cons.mpr ⟨hhi, hle⟩,
        (BitVec.le_def.mp (BitVec.le_of_lt hlt)).trans hhi, .inr ?_⟩
      obtain rfl | ⟨e', he', rfl⟩ := hm
      · exact ⟨e, mem_cons_self, rfl⟩
      · exact ⟨e', mem_cons_of_mem _ he', rfl⟩
    · rw [if_neg hlt] at hhi hm
      refine ⟨forall_mem_cons.mpr ⟨?_, hle⟩, hhi, ?_⟩
      · exact (BitVec.le_def.mp (BitVec.not_lt.mp hlt)).trans hhi
      · exact hm.imp_right fun ⟨e', he', heq⟩ => ⟨e', mem_cons_of_mem _ he', heq⟩

/-- A log that was built is scanned to its end. -/
theorem LogInv.scanLog (h : LogInv bundle log) :
    ∃ expected highest, scanLog bundle 0 0 log = some (expected, highest)
      ∧ Counters log expected highest := by
  obtain ⟨expected, highest, hs, hexp, hle, -, hm⟩ :=
    @scanLog_eq _ _ bundle log 0 0 h.bundle h.sequence
  refine ⟨expected, highest, hs, by simpa using hexp, ?_⟩
  refine le_antisymm ?_ ?_
  · obtain rfl | ⟨e, he, rfl⟩ := hm
    · exact zero_le _
    · exact h.le_last e he
  · cases hl : log.getLast? with
    | none =>
      unfold lastOrdinal
      rw [hl]
      exact zero_le _
    | some l =>
      rw [lastOrdinal_of_mem_getLast? hl]
      exact hle l (mem_of_mem_getLast? hl)

/-- A log that was built by checked appends satisfies the invariant. -/
theorem Built.logInv (h : Built bundle log) : LogInv bundle log := by
  induction h with
  | empty => exact logInv_nil
  | @append log batch _ hbat ih =>
    unfold validCommandHistoryAppend at hbat
    obtain ⟨expected, highest, hs, hctr⟩ := ih.scanLog
    rw [hs, Bool.or_eq_true] at hbat
    obtain he | hl := hbat
    · rwa [isEmpty_iff.mp he, append_nil]
    · exact (ih.loops hctr batch).2 hl

/-- The sequence of the last entry is the length of the log. -/
theorem LogInv.sequence_last (h : LogInv bundle log) (hl : l ∈ log.getLast?) :
    l.sequence.toNat = log.length := by
  have hls := congrArg getLast? h.sequence
  rw [getLast?_map, mem_def.mp hl, getLast?_range'] at hls
  have hlen : log.length ≠ 0 := by
    rw [Ne, length_eq_zero_iff]
    exact ne_nil_of_mem (mem_of_mem_getLast? hl)
  simp only [map_some, if_neg hlen, some.injEq] at hls
  omega

/-- The last entry of a log looks like one. -/
theorem LogInv.plausibleLast (h : LogInv bundle log) (hl : l ∈ log.getLast?) :
    plausibleLast bundle l = true := by
  have hbun := h.bundle l (mem_of_mem_getLast? hl)
  have hseq := h.sequence_last hl
  have hc := h.count l hl
  have hp := ordinal_pos l
  have hle : l.commandOrdinal.toNat ≤ l.sequence.toNat := by
    rw [hseq]
    split at hc <;> omega
  have hs : (l.sequence - l.commandOrdinal).toNat
      = l.sequence.toNat - l.commandOrdinal.toNat := BitVec.toNat_sub_of_le (BitVec.le_def.mpr hle)
  unfold Program.plausibleLast
  simp only [Bool.not_eq_true', Bool.or_eq_false_iff]
  refine ⟨⟨⟨?_, ?_⟩, ?_⟩, ?_⟩
  · exact decide_eq_false (not_not.mpr hbun)
  · rw [decide_eq_false_iff_not, BitVec.lt_def]
    omega
  · rw [decide_eq_false_iff_not, BitVec.lt_def, hs, hseq]
    cases hf : l.followsUp with
    | true =>
      rw [hf, if_pos rfl] at hc
      have hz : l.commandOrdinal - 0 = l.commandOrdinal := BitVec.sub_zero _
      rw [if_pos rfl, hz]
      omega
    | false =>
      rw [hf, if_neg Bool.false_ne_true] at hc
      have ho : (l.commandOrdinal - 1).toNat = l.commandOrdinal.toNat - 1 :=
        BitVec.toNat_sub_of_le (BitVec.le_def.mpr hp)
      rw [if_neg Bool.false_ne_true, ho]
      omega
  · rw [Bool.and_eq_false_iff, Bool.and_eq_false_iff]
    by_cases ho : l.commandOrdinal = 1
    · cases hf : l.followsUp with
      | true => exact .inl (.inr rfl)
      | false =>
        refine .inr (decide_eq_false (not_not.mpr (BitVec.eq_of_toNat_eq ?_)))
        rw [hseq, h.alone l hl ho hf]
        rfl
    · exact .inl (.inl (decide_eq_false ho))

/-- **The last entry is enough.** For every log that was built by checked
appends, checking a batch against the last entry decides like checking it
against the whole log. In such a log ordinals start at 1 and neither decrease
nor skip, nothing follows the completion of a coordinate, and only the
coordinate of the last entry may be pending. -/
theorem last_command_suffices (h : Built bundle log) :
    (∀ batch, validCommandHistoryAppendAfter bundle log.getLast? batch
        = validCommandHistoryAppend bundle log batch)
      ∧ (∀ e ∈ log.head?, e.commandOrdinal = 1)
      ∧ (log.IsChain fun e e' => e'.commandOrdinal.toNat = e.commandOrdinal.toNat
        ∨ e'.commandOrdinal.toNat = e.commandOrdinal.toNat + 1)
      ∧ (log.Pairwise fun e e' => e.commandOrdinal = e'.commandOrdinal →
        e.pending = true ∧ sameCommandCoordinate e e' = true)
      ∧ ∀ e ∈ log, ∀ last ∈ log.getLast?, e.commandOrdinal ≠ last.commandOrdinal →
        ∃ e' ∈ log, e'.commandOrdinal = e.commandOrdinal ∧ e'.completed = true := by
  have hi := h.logInv
  refine ⟨fun batch => ?_, hi.first, hi.steps, hi.open_before, ?_⟩
  · obtain ⟨expected, highest, hs, hctr⟩ := hi.scanLog
    have hloops := (hi.loops hctr batch).1
    have hplausibleLast : log.getLast?.all (plausibleLast bundle) = true := by
      cases hl : log.getLast? with
      | none => rfl
      | some l => exact hi.plausibleLast hl
    have hexp : (log.getLast?.map CommandEntry.sequence).getD 0 = expected := by
      refine BitVec.eq_of_toNat_eq ?_
      rw [hctr.expected]
      cases hl : log.getLast? with
      | none =>
        rw [getLast?_eq_none_iff.mp hl]
        rfl
      | some l => exact hi.sequence_last hl
    have hhi : (log.getLast?.map CommandEntry.commandOrdinal).getD 0 = highest := by
      refine BitVec.eq_of_toNat_eq ?_
      rw [hctr.highest]
      unfold lastOrdinal
      cases log.getLast? with
      | none | some l => rfl
    unfold validCommandHistoryAppendAfter validCommandHistoryAppend
    rw [hplausibleLast, hexp, hhi, hs, Bool.true_and, ← hloops]
  · intro e he last hl hne
    refine hi.closed e he fun heq => hne (BitVec.eq_of_toNat_eq ?_)
    rw [heq, lastOrdinal_of_mem_getLast? hl]

/-- A pending entry of the first command. -/
def sampleIssued : CommandEntry String Unit where
  sequence := 1
  bundleId := "b"
  commandOrdinal := 1
  command := "join"
  effectIdentity := none
  coordinateId := "c1"
  terminalResult := none
  settledMembers := none
  awaitStartedAt := none
  sequence_ne_zero := by decide
  ordinal_ne_zero := by decide
  settled_pending := nofun
  await_pending := nofun

/-- Its completion. -/
def sampleCompleted : CommandEntry String Unit :=
  { sampleIssued with
    sequence := 2
    terminalResult := some ()
    sequence_ne_zero := by decide
    settled_pending := nofun
    await_pending := nofun }

theorem last_command_suffices_completed :
    validCommandHistoryAppendAfter "b" (some sampleIssued) [sampleCompleted]
        = validCommandHistoryAppend "b" [sampleIssued] [sampleCompleted]
      ∧ validCommandHistoryAppend "b" [sampleIssued] [sampleCompleted] = true := by
  have hb : Built "b" [sampleIssued] :=
    Built.append Built.empty (by decide)
  exact ⟨(last_command_suffices hb).1 [sampleCompleted], by decide⟩

end NeoGraph.Program
