import NeoGraph.Hook.JournalSteps

/-!
# When the two journals behave alike

Only two things tell the journals apart. A time that is not a whole
millisecond is read back from the database as an earlier one, and an attempt
that is not started because its lease would end at the epoch has failed in
memory while the database keeps it.

`HookOp.Recordable` is the condition that neither happens, and
`journals_behave_alike_iff` says that it is the right one.
-/

namespace NeoGraph.Hook

open SortedMap HookOutboxEntry InMemoryHookJournal SqliteHookJournal List
open HookEffect HookOp HookReply

variable {I : Type} [DecidableEq I] {digest : HookEntryBody → I} {parsers : HookParsers}

/-! ## Journals with the same entries -/

/-- The rows that the entries of a journal are written to. -/
def InMemoryHookJournal.rows (digest : HookEntryBody → I) (journal : InMemoryHookJournal) :
    SqliteHookJournal I :=
  journal.filterMap fun _ e => some (e.row digest)

omit [DecidableEq I] in
theorem InMemoryHookJournal.find?_rows (journal : InMemoryHookJournal) (id : String) :
    find? (journal.rows digest) id
      = (find? journal id).map (row digest) := by
  unfold rows
  rw [SortedMap.find?_filterMap]
  cases find? journal id with
  | none | some e => rfl

omit [DecidableEq I] in
theorem InMemoryHookJournal.rows_insert (journal : InMemoryHookJournal) (id : String)
    (e : HookOutboxEntry) : rows digest (insert journal id e)
      = insert (journal.rows digest) id (e.row digest) := by
  refine ext_find? fun id' => ?_
  rw [find?_rows, find?_insert, find?_insert, find?_rows]
  split <;> rfl

/-- The entries of a journal are where they belong, and their rows give them
back. -/
structure Mirrored (parsers : HookParsers) (journal : InMemoryHookJournal) : Prop where
  key : ∀ {id e}, find? journal id = some e → e.data.invocation.id = id
  readable : ∀ {id e}, find? journal id = some e → Readable parsers e

theorem mirrored_empty : Mirrored parsers (∅ : InMemoryHookJournal) where
  key := nofun
  readable := nofun

variable {journal : InMemoryHookJournal} {e : HookOutboxEntry} {id : String}

theorem Mirrored.insert (h : Mirrored parsers journal) (hk : e.data.invocation.id = id)
    (hrd : Readable parsers e) : Mirrored parsers (insert journal id e) where
  key := by
    intro id' e' hf
    obtain ⟨heq, rfl⟩ | hf := find?_insert_cases hf
    · exact hk.trans heq.symm
    · exact h.key hf
  readable := by
    intro id' e' hf
    obtain ⟨-, rfl⟩ | hf := find?_insert_cases hf
    · exact hrd
    · exact h.readable hf

/-- An entry that is kept is read from its row. -/
theorem Mirrored.hook (h : Mirrored parsers journal) (id : String) :
    hook digest parsers (journal.rows digest) id
      = .ok (find? journal id) := by
  unfold SqliteHookJournal.hook
  rw [find?_rows]
  cases hf : find? journal id with
  | none => rfl
  | some e =>
    show (checkedHook digest parsers id (e.row digest)).map some = _
    have hrd := h.readable hf
    rw [← h.key hf, (checkedHook_row_iff hrd.parsed).mpr hrd]
    rfl

/-- The rows are read as the entries. -/
theorem Mirrored.values (h : Mirrored parsers journal) :
    values digest parsers (journal.rows digest) = .ok journal.values := by
  have key : ∀ l : List (String × HookOutboxEntry), (∀ r ∈ l, r ∈ journal.entries) →
      (l.filterMap fun r => some (r.1, r.2.row digest)).mapM
        (fun r => checkedHook digest parsers r.1 r.2)
        = .ok (l.map Prod.snd) := by
    intro l hl
    rw [show (l.filterMap fun r => some (r.1, r.2.row digest))
      = l.map fun r => (r.1, r.2.row digest) from congrFun filterMap_eq_map' l, mapM_eq_ok,
      forall₂_map_left_iff, forall₂_map_right_iff, forall₂_same]
    rintro ⟨id, e⟩ hm
    have hf := (mem_entries_iff journal id e).mp (hl _ hm)
    have hrd := h.readable hf
    dsimp only
    rw [← h.key hf]
    exact (checkedHook_row_iff hrd.parsed).mpr hrd
  exact key journal.entries fun _ hr => hr

/-! ## Operations on both -/

variable {op : HookOp I}

omit [DecidableEq I] in
theorem HookOutboxEntry.Effects.follows {f : HookEffect} (h : Effects e op f)
    {e' : HookOutboxEntry} (hm : e' ∈ f.stored) : e.Follows e' := by
  cases h with
  | leaves => cases hm
  | moves op e₁ reply hf | loses e₁ x hsts hst hf =>
    rw [mem_singleton.mp hm]
    exact hf
  | starts before e₁ reply hsts hf hb =>
    obtain hm | hm := mem_append.mp hm
    · exact hb e' hm
    · rw [mem_singleton.mp hm]
      exact hf

namespace HookOp

/-- Without an entry, only an enqueue writes. -/
theorem effect_none (digest : HookEntryBody → I) (op : HookOp I) :
    (op.effect digest none).stored = []
      ∨ ∃ invocation event maxAttempts deadline e,
        op = enqueue invocation event maxAttempts deadline
          ∧ e.data = candidate invocation event maxAttempts deadline
          ∧ op.effect digest none = { stored := [e], reply := .ok (.entry e) } := by
  cases op with
  | enqueue invocation event maxAttempts deadline =>
    obtain ⟨x, -, hst⟩ | ⟨e, heq, hst⟩ := store_cases
      (candidate invocation event maxAttempts deadline) .entry
    · left
      show (store _ _).stored = []
      rw [hst]
    · exact .inr ⟨invocation, event, maxAttempts, deadline, e, rfl, heq, hst⟩
  | _ => exact .inl rfl

theorem id_of_mem_stored (h : Mirrored parsers journal) (op : HookOp I) {e : HookOutboxEntry}
    (hm : e ∈ (op.effect digest (find? journal op.id)).stored) :
    e.data.invocation.id = op.id := by
  cases hf : find? journal op.id with
  | none =>
    rw [hf] at hm
    obtain hn | ⟨invocation, event, maxAttempts, deadline, e', rfl, heq, heff⟩ :=
      effect_none digest op
    · rw [hn] at hm
      cases hm
    · rw [heff, mem_singleton] at hm
      rw [hm, heq]
      rfl
  | some e' =>
    rw [hf] at hm
    rw [((effects_of_some digest e' op).follows hm).invocation]
    exact h.key hf

/-- The operation makes a row, or writes over one. -/
def Writes (rows : SqliteHookJournal I) (op : HookOp I) : Prop :=
  (∃ invocation event maxAttempts deadline, op = enqueue invocation event maxAttempts deadline)
    ∨ (find? rows op.id).isSome = true

variable {rows : SqliteHookJournal I}

omit [DecidableEq I] in
/-- A row that may be written is written. -/
theorem write_eq_ok {op : HookOp I} (h : op.Writes rows)
    {e : HookOutboxEntry} (hid : e.data.invocation.id = op.id) : write digest rows op e
      = .ok (insert rows op.id (e.row digest)) := by
  obtain ⟨invocation, event, maxAttempts, deadline, rfl⟩ | hs := h
  · show Except.ok _ = _
    rw [hid]
  have hsv : saveHook digest rows e
      = .ok (insert rows op.id (e.row digest)) := by
    unfold saveHook
    rw [hid, if_pos hs]
  cases op with
  | enqueue invocation event maxAttempts deadline =>
    show Except.ok _ = _
    rw [hid]
  | _ => exact hsv

omit [DecidableEq I] in
/-- Of all that a transaction writes the last is kept. -/
theorem foldlM_write {op : HookOp I} (stored : List HookOutboxEntry)
    (h : stored = [] ∨ op.Writes rows) (hid : ∀ e ∈ stored, e.data.invocation.id = op.id) :
    stored.foldlM (fun rows e => write digest rows op e) rows
      = .ok (match stored.getLast? with
        | none => rows
        | some e => insert rows op.id (e.row digest)) := by
  induction stored generalizing rows with
  | nil => rfl
  | cons e stored ih =>
    have hws : op.Writes rows := h.resolve_left (cons_ne_nil e stored)
    rw [foldlM_cons, write_eq_ok hws (hid e mem_cons_self)]
    show stored.foldlM _ (insert rows op.id (e.row digest)) = _
    rw [ih (.inr (hws.imp_right fun _ => by rw [find?_insert_self]; rfl))
      fun e' he' => hid e' (mem_cons_of_mem e he')]
    cases hl : stored.getLast? with
    | none =>
      rw [getLast?_eq_none_iff] at hl
      rw [hl]
      rfl
    | some e' =>
      have hco : (e :: stored).getLast? = some e' := by
        rw [getLast?_cons, hl]
        rfl
      rw [hco]
      refine congrArg Except.ok (ext_find? fun k => ?_)
      rw [find?_insert, find?_insert, find?_insert]
      split <;> rfl

end HookOp

/-- A transaction does what the operation in memory does, but nothing where
that ends with an exception. -/
theorem Mirrored.perform (h : Mirrored parsers journal) (op : HookOp I) :
    perform digest parsers (journal.rows digest) op
      = match (journal.perform digest op).1 with
        | .error x => (.error x, journal.rows digest)
        | .ok reply => (.ok reply, (journal.perform digest op).2.rows digest) := by
  unfold SqliteHookJournal.perform SqliteHookJournal.transaction InMemoryHookJournal.perform
  cases hc : op.checked with
  | error x => rfl
  | ok u =>
    dsimp only [bind, Except.bind]
    rw [h.hook]
    dsimp only
    have hws : (op.effect digest (find? journal op.id)).stored = []
        ∨ op.Writes (journal.rows digest) := by
      cases hf : find? journal op.id with
      | none =>
        exact (effect_none digest op).imp_right fun ⟨i, v, m, d, _, hop, _⟩ =>
          .inl ⟨i, v, m, d, hop⟩
      | some e =>
        right
        right
        rw [find?_rows, hf]
        rfl
    rw [foldlM_write _ hws fun e he => id_of_mem_stored h op he]
    cases (op.effect digest (find? journal op.id)).reply with
    | error x => rfl
    | ok reply =>
      cases (op.effect digest (find? journal op.id)).stored.getLast? with
      | none => rfl
      | some e =>
        rw [rows_insert]

/-! ## What a document can hold -/

namespace HookOp

/-- The texts of an invocation and an event that are enqueued are read back. -/
def Parses (parsers : HookParsers) : HookOp I → Prop
  | enqueue invocation event _ _ =>
    parsers.invocation invocation.canonical = .ok invocation
      ∧ parsers.event event.canonical = .ok event
  | _ => True

/-- **What an operation may be asked.** An entry that is made has a deadline
without a fraction of a millisecond, and so has the lease of an attempt that is
started; and an attempt that is started in place of an expired one has a lease
that does not end at the epoch. -/
def Recordable (op : HookOp I) (entry : Option HookOutboxEntry) : Prop :=
  match op, entry with
  | enqueue invocation event maxAttempts deadline, none =>
    (candidate invocation event maxAttempts deadline).valid = true → WholeMilliseconds deadline
  | claim _ worker now duration, some e =>
    worker ≠ "" → 0 < duration → e.startsAttempt now = true →
      WholeMilliseconds (e.leaseEnd now duration)
        ∧ (e.data.state = .dispatched → e.leaseEnd now duration ≠ 0)
  | _, _ => True

end HookOp

omit [DecidableEq I] in
/-- What is checked first of a claim that goes on. -/
theorem claim_checked_iff {worker : String} {now duration : ℤ} :
    (claim id worker now duration : HookOp I).checked = .ok ()
      ↔ worker ≠ "" ∧ 0 < duration := by
  unfold checked
  dsimp only
  split_ifs with h
  · simp only [Bool.or_eq_true, decide_eq_true_eq] at h
    constructor
    · intro hok
      cases hok
    · rintro ⟨hwk, hdur⟩
      exact absurd hdur (h.resolve_left hwk).not_gt
  · rw [Bool.or_eq_true, decide_eq_true_eq, decide_eq_true_eq, not_or, not_le] at h
    exact ⟨fun _ => h, fun _ => rfl⟩

/-- What an operation that may be asked writes is read back. -/
theorem readable_of_recordable (h : Mirrored parsers journal) (hc : op.checked = .ok ())
    (hp : op.Parses parsers) (hr : op.Recordable (find? journal op.id))
    (hl : (op.effect digest (find? journal op.id)).stored.getLast? = some e) :
    Readable parsers e := by
  have hm := mem_of_getLast? hl
  cases hf : find? journal op.id with
  | none =>
    rw [hf] at hm hr
    obtain hn | ⟨invocation, event, maxAttempts, deadline, e', rfl, heq, heff⟩ :=
      effect_none digest op
    · rw [hn] at hm
      cases hm
    · rw [heff, mem_singleton] at hm
      rw [hm]
      refine ⟨⟨?_, ?_⟩, ?_, ?_⟩
      · rw [heq]
        exact hp.1
      · rw [heq]
        exact hp.2
      · rw [heq]
        exact hr (by rw [← heq]; exact e'.valid)
      · rw [heq]
        exact Int.dvd_zero _
  | some e₀ =>
    have he := effects_of_some digest e₀ op
    rw [hf] at hm hr hl
    generalize op.effect digest (some e₀) = f at hm hl he
    have hfol := he.follows hm
    have hrd := h.readable hf
    refine ⟨hrd.parsed.follows hfol, ?_, ?_⟩
    · rw [hfol.deadline]
      exact hrd.deadline
    cases he with
    | leaves => cases hl
    | moves op e₁ reply hfol hls =>
      have heq : e₁ = e := Option.some.inj hl
      rw [← heq]
      obtain hz | hsm := hls
      · rw [hz]
        exact Int.dvd_zero _
      · rw [hsm]
        exact hrd.lease
    | starts before e₁ reply hsts hfol hb hls =>
      rw [getLast?_concat] at hl
      have heq : e₁ = e := Option.some.inj hl
      rw [claim_checked_iff] at hc
      rw [← heq, hls]
      exact (hr hc.1 hc.2 hsts).1
    | loses e₁ x hsts hst hfol hfl hz =>
      rw [claim_checked_iff] at hc
      exact absurd hz ((hr hc.1 hc.2 hsts).2 hst)

theorem Mirrored.step (h : Mirrored parsers journal) (hp : op.Parses parsers)
    (hr : op.Recordable (find? journal op.id)) :
    Mirrored parsers (journal.perform digest op).2 := by
  unfold InMemoryHookJournal.perform
  cases hc : op.checked with
  | error x => exact h
  | ok u =>
    dsimp only
    split
    · exact h
    · rename_i e hl
      exact h.insert (id_of_mem_stored h op (List.mem_of_getLast? hl))
        (readable_of_recordable h hc hp hr hl)

/-- An exception leaves the journal in memory as it was, where the operation
may be asked. -/
theorem perform_error (hr : op.Recordable (find? journal op.id))
    {x : Exn} (herr : (journal.perform digest op).1 = .error x) :
    (journal.perform digest op).2 = journal := by
  unfold InMemoryHookJournal.perform at herr ⊢
  cases hc : op.checked with
  | error y => rfl
  | ok u =>
    rw [hc] at herr
    dsimp only at herr ⊢
    cases hfd : find? journal op.id with
    | none =>
      rw [hfd] at herr
      obtain hn | ⟨_, _, _, _, e', rfl, -, heff⟩ := effect_none digest op
      · rw [hn]
        rfl
      · rw [heff] at herr
        cases herr
    | some e =>
      rw [hfd] at herr hr
      have he := effects_of_some digest e op
      cases hf : op.effect digest (some e) with
      | mk stored reply =>
        rw [hf] at herr he
        cases he with
        | leaves => rfl
        | moves | starts => cases herr
        | loses e₁ x hsts hst hfol hfl hz =>
          rw [claim_checked_iff] at hc
          exact absurd hz ((hr hc.1 hc.2 hsts).2 hst)

/-- **One operation.** Where it may be asked, both journals answer the same and
have the same entries afterwards. -/
theorem Mirrored.perform_eq (h : Mirrored parsers journal)
    (hr : op.Recordable (find? journal op.id)) :
    SqliteHookJournal.perform digest parsers (journal.rows digest) op
      = ((journal.perform digest op).1, (journal.perform digest op).2.rows digest) := by
  rw [h.perform op]
  cases hrep : (journal.perform digest op).1 with
  | error x => rw [perform_error hr hrep]
  | ok reply => rfl

/-! ## Runs -/

/-- Both answered the same, or both raised an exception. -/
def SameAnswer : Except Exn HookReply → Except Exn HookReply → Prop
  | .ok reply, .ok reply' => reply = reply'
  | .error _, .error _ => True
  | _, _ => False

theorem sameAnswer_refl (answer : Except Exn HookReply) : SameAnswer answer answer := by
  cases answer with
  | error x => exact True.intro
  | ok reply => exact rfl

/-- The entry of every invocation is the same in both. -/
def SameEntries (digest : HookEntryBody → I) (parsers : HookParsers)
    (journal : InMemoryHookJournal) (rows : SqliteHookJournal I) : Prop :=
  ∀ id, SameAnswer (rows.call digest parsers (.get id)).1 (journal.call digest (.get id)).1

/-- **The journals behave alike** over a sequence of calls: they answer every
call the same, and before and after each of them the entries that the database
gives back are those in memory. -/
def BehaveAlike (digest : HookEntryBody → I) (parsers : HookParsers) :
    InMemoryHookJournal → SqliteHookJournal I → List (HookCall I) → Prop
  | journal, rows, [] => SameEntries digest parsers journal rows
  | journal, rows, c :: calls =>
    SameEntries digest parsers journal rows
      ∧ SameAnswer (rows.call digest parsers c).1 (journal.call digest c).1
      ∧ BehaveAlike digest parsers (journal.call digest c).2 (rows.call digest parsers c).2 calls

/-- A call is one of an operation that may be asked, or none of an operation. -/
def HookCall.Recordable (journal : InMemoryHookJournal) : HookCall I → Prop
  | .op o => o.Recordable (find? journal o.id)
  | _ => True

/-- Every call of a sequence may be made when it is made. -/
def AllRecordable (digest : HookEntryBody → I) : InMemoryHookJournal → List (HookCall I) → Prop
  | _, [] => True
  | journal, c :: calls =>
    c.Recordable journal ∧ AllRecordable digest (journal.call digest c).2 calls

theorem Mirrored.sameEntries (h : Mirrored parsers journal) :
    SameEntries digest parsers journal (journal.rows digest) := by
  intro id
  show SameAnswer ((SqliteHookJournal.hook digest parsers _ id).map _) _
  rw [h.hook]
  exact sameAnswer_refl _

variable {c : HookCall I}

/-- **One call**, where it may be made. -/
theorem Mirrored.call_eq (digest : HookEntryBody → I) (h : Mirrored parsers journal)
    (hr : c.Recordable journal) : (journal.rows digest).call digest parsers c
      = ((journal.call digest c).1, (journal.call digest c).2.rows digest) := by
  cases c with
  | op op => exact h.perform_eq hr
  | get id =>
    show ((SqliteHookJournal.hook digest parsers _ id).map _, _) = _
    rw [h.hook]
    rfl
  | pending | reconciliationRequired =>
    show ((SqliteHookJournal.values digest parsers _).map _, _) = _
    rw [h.values]
    rfl
  | reopen => rfl

theorem Mirrored.call (digest : HookEntryBody → I) (h : Mirrored parsers journal)
    (hp : ∀ op, c = .op op → op.Parses parsers) (hr : c.Recordable journal) :
    Mirrored parsers (journal.call digest c).2 := by
  cases c with
  | op op => exact h.step (hp op rfl) hr
  | _ => exact h

/-! ## Where the journals differ -/

theorem SameEntries.entry {rows : SqliteHookJournal I} (h : SameEntries digest parsers journal rows)
    (id : String) :
    SameAnswer ((hook digest parsers rows id).map fun
        | some e => .entry e
        | none => .nothing)
      (.ok (match find? journal id with
        | some e => .entry e
        | none => .nothing)) :=
  h id

/-- An entry whose row gives the same answer is one that a row can hold. -/
theorem readable_of_sameEntries (hsm : SameEntries digest parsers journal (journal.rows digest))
    (hf : find? journal id = some e) (hk : e.data.invocation.id = id)
    (hparsed : Parsed parsers e) : Readable parsers e := by
  have ha := hsm.entry id
  unfold hook at ha
  rw [find?_rows, hf, ← hk] at ha
  dsimp only [Option.map] at ha
  have hchecks : checkedHook digest parsers e.data.invocation.id (e.row digest)
      = .ok e ↔ Readable parsers e := checkedHook_row_iff hparsed
  rw [← hchecks]
  cases hc : checkedHook digest parsers e.data.invocation.id (e.row digest) with
  | error x =>
    rw [hc] at ha
    exact ha.elim
  | ok e' =>
    rw [hc] at ha
    have heq : entry e' = entry e := ha
    cases heq
    rfl

theorem perform_claim (digest : HookEntryBody → I) {worker : String} {now duration : ℤ}
    (hf : find? journal id = some e)
    (hc : (HookOp.claim id worker now duration : HookOp I).checked = .ok ()) :
    journal.perform digest (.claim id worker now duration)
      = ((e.claiming now duration).reply,
          match (e.claiming now duration).stored.getLast? with
          | none => journal
          | some e' => SortedMap.insert journal id e') := by
  unfold InMemoryHookJournal.perform HookOp.effect
  rw [hc, HookOp.id, hf] <;> rfl

/-- **One operation that a document cannot hold** leaves different entries. -/
theorem Mirrored.not_sameEntries (h : Mirrored parsers journal) (hp : op.Parses parsers)
    (hr : ¬op.Recordable (SortedMap.find? journal op.id)) :
    ¬SameEntries digest parsers (journal.perform digest op).2
      (SqliteHookJournal.perform digest parsers (journal.rows digest) op).2 := by
  intro hsm
  rw [h.perform op] at hsm
  cases op with
  | enqueue invocation event maxAttempts deadline =>
    cases hf : SortedMap.find? journal invocation.id with
    | some e =>
      rw [HookOp.id, hf] at hr
      exact hr True.intro
    | none =>
      rw [HookOp.id, hf] at hr
      obtain ⟨hv, hw⟩ := Classical.not_imp.mp hr
      have hperform : journal.perform digest (.enqueue invocation event maxAttempts deadline)
          = (.ok (.entry ⟨_, hv⟩), SortedMap.insert journal invocation.id ⟨_, hv⟩) := by
        unfold InMemoryHookJournal.perform HookOp.checked HookOp.effect HookEffect.store
        rw [HookOp.id, hf]
        dsimp only
        rw [HookOutboxEntry.tryCreate_of_valid hv]
        rfl
      rw [hperform] at hsm
      exact hw (readable_of_sameEntries hsm (SortedMap.find?_insert_self _ _ _) rfl
        ⟨hp.1, hp.2⟩).deadline
  | claim id worker now duration =>
    cases hf : SortedMap.find? journal id with
    | none =>
      rw [HookOp.id, hf] at hr
      exact hr True.intro
    | some e =>
      rw [HookOp.id, hf] at hr
      obtain ⟨hwk, hr⟩ := Classical.not_imp.mp hr
      obtain ⟨hdur, hr⟩ := Classical.not_imp.mp hr
      obtain ⟨hsts, hr⟩ := Classical.not_imp.mp hr
      have hc : (HookOp.claim id worker now duration : HookOp I).checked = .ok () :=
        claim_checked_iff.mpr ⟨hwk, hdur⟩
      have hperform := perform_claim digest hf hc
      obtain ⟨hstd, hlo⟩ :=
        HookOutboxEntry.claiming_of_startsAttempt duration hsts
      have hparsed := (h.readable hf).parsed
      by_cases hz : e.leaseEnd now duration = 0
      · have hst : e.data.state = .dispatched := by
          by_contra hst
          rw [hz] at hr
          exact hr ⟨Int.dvd_zero _, fun hd => absurd hd hst⟩
        obtain ⟨e₁, x, hfl, hcl⟩ := hlo hst hz
        rw [hperform, hcl] at hsm
        have hstr : SameEntries digest parsers (SortedMap.insert journal id e₁)
            (journal.rows digest) := hsm
        have ha := hstr.entry id
        rw [h.hook, hf, SortedMap.find?_insert_self] at ha
        have heq : HookReply.entry e = HookReply.entry e₁ := ha
        cases heq
        rw [hst] at hfl
        cases hfl
      · obtain ⟨before, e', reply, hfol, hls, hcl⟩ := hstd hz
        have hl : (before ++ [e']).getLast? = some e' := List.getLast?_concat
        rw [hperform, hcl] at hsm
        dsimp only at hsm
        rw [hl] at hsm
        have hrd := readable_of_sameEntries hsm (SortedMap.find?_insert_self _ _ _)
          (by rw [hfol.invocation]; exact h.key hf) (hparsed.follows hfol)
        rw [← hls] at hr hz
        exact hr ⟨hrd.lease, fun _ => hz⟩
  | publish id | settle id fence receipt now | reconcile id expected head fence known =>
    exact hr True.intro

variable {calls : List (HookCall I)}

theorem BehaveAlike.sameEntries {rows : SqliteHookJournal I}
    (h : BehaveAlike digest parsers journal rows calls) :
    SameEntries digest parsers journal rows := by
  cases calls with
  | nil => exact h
  | cons c calls => exact h.1

/-- Over a run from journals with the same entries. -/
theorem Mirrored.behaveAlike_iff (h : Mirrored parsers journal)
    (hp : ∀ op, .op op ∈ calls → op.Parses parsers) :
    BehaveAlike digest parsers journal (journal.rows digest) calls
      ↔ AllRecordable digest journal calls := by
  induction calls generalizing journal with
  | nil => exact ⟨fun _ => True.intro, fun _ => h.sameEntries⟩
  | cons c calls ih =>
    have hhd : ∀ op, c = .op op → op.Parses parsers := by
      rintro op rfl
      exact hp op mem_cons_self
    have ht : ∀ op, .op op ∈ calls → op.Parses parsers := fun op hop =>
      hp op (mem_cons_of_mem c hop)
    by_cases hr : c.Recordable journal
    · have hc := h.call_eq digest hr
      have hiff := ih (h.call digest hhd hr) ht
      unfold BehaveAlike AllRecordable
      rw [hc, hiff]
      exact ⟨fun ha => ⟨hr, ha.2.2⟩, fun ha => ⟨h.sameEntries, sameAnswer_refl _, ha.2⟩⟩
    · refine ⟨fun ha => ?_, fun ha => absurd ha.1 hr⟩
      cases c with
      | op op => exact absurd ha.2.2.sameEntries (h.not_sameEntries (hhd op rfl) hr)
      | _ => exact absurd True.intro hr

/-- **The journals behave alike exactly if no time has a fraction of a
millisecond** that a document would have to hold, and no attempt is lost
because its lease would end at the epoch. -/
theorem journals_behave_alike_iff (digest : HookEntryBody → I) (parsers : HookParsers)
    (calls : List (HookCall I)) (hp : ∀ op, .op op ∈ calls → op.Parses parsers) :
    BehaveAlike digest parsers ∅ ∅ calls ↔ AllRecordable digest ∅ calls :=
  mirrored_empty.behaveAlike_iff hp

/-- The texts of the sample invocation and its event. -/
def sampleParsers : HookParsers where
  invocation text :=
    if text = "invocation" then .ok sampleInvocation
    else .error (.invalidArgument text)
  event text :=
    if text = "event" then .ok { id := "event", phase := .runFailed, canonical := "event" }
    else .error (.invalidArgument text)

/-- An invocation with a deadline is enqueued, published and claimed a
millisecond after the epoch. -/
def callsBy (deadline : ℤ) : List (HookCall HookEntryBody) :=
  [.op (.enqueue sampleInvocation
      { id := "event", phase := .runFailed, canonical := "event" } 1 deadline),
    .op (.publish sampleInvocation.id),
    .op (.claim sampleInvocation.id "worker" 1000000 1000000)]

theorem callsBy_parse (deadline : ℤ) (op : HookOp HookEntryBody)
    (h : .op op ∈ callsBy deadline) : op.Parses sampleParsers := by
  unfold callsBy at h
  simp only [mem_cons, HookCall.op.injEq, not_mem_nil, or_false] at h
  obtain rfl | rfl | rfl := h
  · exact ⟨rfl, rfl⟩
  · exact True.intro
  · exact True.intro

/-- A pending entry is claimed until its deadline, two milliseconds after the
epoch. -/
theorem recordable_of_pending {journal : InMemoryHookJournal}
    (h : (SortedMap.find? journal sampleInvocation.id).map
      (fun e => (e.data.deadline, e.data.state)) = some (2000000, .pending)) :
    HookCall.Recordable journal
      (.op (.claim sampleInvocation.id "worker" 1000000 1000000) : HookCall HookEntryBody) := by
  obtain ⟨e, hf, hd⟩ := Option.map_eq_some_iff.mp h
  rw [Prod.mk.injEq] at hd
  unfold HookCall.Recordable HookOp.Recordable HookOp.id
  dsimp only
  rw [hf]
  intro _ _ _
  refine ⟨?_, fun hdisp => ?_⟩
  · rw [HookOutboxEntry.leaseEnd, hd.1]
    exact ⟨2, rfl⟩
  · cases hd.2.symm.trans hdisp

theorem journals_behave_alike_iff_claimed :
    BehaveAlike (fun body => body) sampleParsers ∅ ∅ (callsBy 2000000) :=
  (journals_behave_alike_iff (fun body => body) sampleParsers (callsBy 2000000)
    (callsBy_parse 2000000)).mpr ⟨fun _ => ⟨2, rfl⟩, True.intro,
      recordable_of_pending (by decide +kernel), True.intro⟩

/-- Half a millisecond before the deadline the journal in memory gives a lease,
and for the database the deadline is over. -/
theorem fractional_deadline_differs :
    (∀ op, .op op ∈ callsBy 1500000 → op.Parses sampleParsers)
      ∧ ¬BehaveAlike (fun body => body) sampleParsers ∅ ∅ (callsBy 1500000) := by
  refine ⟨callsBy_parse 1500000, fun halike => ?_⟩
  have hr := (mirrored_empty.behaveAlike_iff (callsBy_parse 1500000)).mp halike
  -- the document of the first entry cannot hold its deadline
  obtain ⟨k, hk⟩ : WholeMilliseconds 1500000 := hr.1 rfl
  omega

end NeoGraph.Hook
