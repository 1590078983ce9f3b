import NeoGraph.Context.MemoryHistories
import NeoGraph.Context.SqliteStore

/-!
# The store in SQLite keeps histories

The rows of a feed are the records of one list, in sequence, since every row is
inserted behind the last one (`SQLiteContextStore.Refines`). Read from the
tables, a record is parsed to itself; so the queries – the row of a sequence,
the rows of a message, the last row, the rows of a range – find what the
histories hold, and every call is answered, or refused, as they answer it.

Both stores keep the histories of their calls, hence they agree
(`stores_agree`).
-/

namespace NeoGraph.Context

open List Option RuntimeHistoryRecord ContextHistories SqliteFormat Nat Function

open Program (isSha256Identity)
open InMemoryContextStore (Hydration inChain)

variable {M : Type} {fmt : SqliteFormat M} {made : RuntimeHistoryRecord M → Prop}

/-- **What the store relies on** for the records of a set: a record is parsed
from its bytes, `json_extract` reads its message id, and it has no native part.
Range digests have the shape of a content identity. -/
structure SqliteFormat.Reads (fmt : SqliteFormat M) (made : RuntimeHistoryRecord M → Prop) :
    Prop where
  identified : Identified made
  parse : ∀ {r}, made r → fmt.parseRecord r.canonical = .ok r
  extract : ∀ {r}, made r → fmt.extractMessageId r.canonical = some r.messageId
  plain : ∀ {r}, made r → fmt.native r.message = false
  digest : ∀ text, isSha256Identity (fmt.rangeDigest text) = true

/-- A record that the store may be asked to append: its sequence fits a column,
and an archive, if the store has one, belongs to the owner of the feed. -/
structure SqliteFormat.Admits (fmt : SqliteFormat M) (made : RuntimeHistoryRecord M → Prop)
    (feed : ContextStoreFeed) (r : RuntimeHistoryRecord M) : Prop where
  made : made r
  sequence_lt : r.sequence < 2 ^ 63
  archive : fmt.archiveOwner.all (· = feed.ownerId) = true

/-- The row of a record. -/
def HistoryRow.of (feed : ContextStoreFeed) (r : RuntimeHistoryRecord M) : HistoryRow where
  ownerId := feed.ownerId
  feedId := feed.feedId
  sequence := r.sequence
  recordId := r.id
  canonical := r.canonical

namespace SqliteFormat

variable {feed : ContextStoreFeed}

theorem archive_not_any (h : fmt.archiveOwner.all (· = feed.ownerId) = true) :
    fmt.archiveOwner.any (· ≠ feed.ownerId) = false := by
  cases how : fmt.archiveOwner with
  | none => rfl
  | some owner =>
    rw [how] at h
    have heq : owner = feed.ownerId := of_decide_eq_true h
    rw [heq]
    exact decide_eq_false (not_not.mpr rfl)

variable {r : RuntimeHistoryRecord M}

theorem Reads.decode (hrd : fmt.Reads made)
    (hadm : fmt.Admits made feed r) : fmt.decode r.canonical feed.ownerId = .ok r := by
  unfold SqliteFormat.decode
  rw [archive_not_any hadm.archive]
  exact hrd.parse hadm.made

theorem Reads.readRow (hrd : fmt.Reads made)
    (hadm : fmt.Admits made feed r) (hf : r.feedId = feed.feedId) (corrupt : String) :
    fmt.readRow feed (HistoryRow.of feed r) corrupt = .ok r := by
  unfold SqliteFormat.readRow HistoryRow.of
  dsimp only
  rw [hrd.decode hadm]
  dsimp only [bind, Except.bind]
  rw [hf, if_neg]
  have := r.sequence_pos
  simp only [ne_eq, not_true_eq_false, decide_false, Bool.or_false, decide_eq_true_eq]
  omega

end SqliteFormat

namespace SQLiteContextStore

variable {h : ContextHistories M} {store : SQLiteContextStore}

/-- **The tables keep these histories.** -/
structure Refines (h : ContextHistories M) (store : SQLiteContextStore) : Prop where
  rows : ∀ feed, store.rows feed = (h.history feed).map (HistoryRow.of feed)
  artifact : ∀ ownerId id, store.artifactRow ownerId id
    = (h.artifact ownerId id).map fun canonical => ⟨ownerId, id, canonical⟩

theorem refines_empty : Refines ({} : ContextHistories M) {} :=
  ⟨fun _ => rfl, fun _ _ => rfl⟩

/-! ## Queries -/

theorem Refines.rowOfSequence (hr : Refines h store) (feed : ContextStoreFeed) (n : ℕ) :
    store.rowOfSequence feed n
      = ((h.history feed).find? fun r => r.sequence = n).map (HistoryRow.of feed) := by
  unfold SQLiteContextStore.rowOfSequence
  rw [hr.rows, find?_map]
  rfl

theorem Refines.rowsOfMessage (hr : Refines h store) (hrd : fmt.Reads made)
    (hc : h.Chained (fmt.Admits made)) (feed : ContextStoreFeed) (messageId : String) :
    store.rowsOfMessage fmt feed messageId
      = ((h.history feed).filter fun r => r.messageId = messageId).map (HistoryRow.of feed) := by
  unfold SQLiteContextStore.rowsOfMessage
  rw [hr.rows, List.filter_map]
  refine congrArg _ (List.filter_congr fun r hm => ?_)
  show decide (fmt.extractMessageId r.canonical = some messageId) = _
  rw [hrd.extract (hc.admitted feed r hm).made]
  exact decide_eq_decide.mpr (Option.some_inj)

variable {rs : List (RuntimeHistoryRecord M)} {feed : ContextStoreFeed}

/-- A part of a chain is in the order of the sequences. -/
theorem orderBySequence_eq {feedId : String} {part : List (RuntimeHistoryRecord M)}
    (hc : IsChain feedId rs) (hp : part.Sublist rs) :
    orderBySequence (part.map (HistoryRow.of feed)) = part.map (HistoryRow.of feed) := by
  unfold orderBySequence
  refine List.Pairwise.insertionSort_eq ?_
  have hlt : (rs.map sequence).Pairwise (· < ·) := by
    rw [hc.map_sequence]
    exact pairwise_lt_range'
  exact pairwise_map.mpr (((pairwise_map.mp hlt).sublist hp).imp le_of_lt)

theorem Refines.lastRow (hr : Refines h store) {admits} (hc : h.Chained admits)
    (feed : ContextStoreFeed) :
    store.lastRow feed = (h.history feed).getLast?.map (HistoryRow.of feed) := by
  unfold SQLiteContextStore.lastRow
  rw [hr.rows, orderBySequence_eq (hc.chain feed) (List.Sublist.refl _), getLast?_map]

theorem Refines.rowsOfRange (hr : Refines h store) {admits} (hc : h.Chained admits)
    (feed : ContextStoreFeed) (first last : ℕ) : store.rowsOfRange feed first last
      = (slice (h.history feed) first last).map (HistoryRow.of feed) := by
  unfold SQLiteContextStore.rowsOfRange
  rw [hr.rows, List.filter_map]
  exact orderBySequence_eq (hc.chain feed) List.filter_sublist

/-! ## Answers -/

theorem toOption_validateOwner (owner : String) :
    (validateOwner owner).toOption = (validateOwnerId owner).toOption := by
  unfold validateOwner validateOwnerId
  split
  · rfl
  · split <;> rfl

/-- A feed is refused here if it is refused by the store in memory. -/
theorem toOption_validateFeed (feed : ContextStoreFeed) :
    (validateFeed feed).toOption = (Context.validateFeed feed).toOption := by
  unfold validateFeed Context.validateFeed
  have how := toOption_validateOwner feed.ownerId
  cases hsql : validateOwner feed.ownerId with
  | error x =>
    rw [hsql] at how
    cases hmm : validateOwnerId feed.ownerId with
    | error y => rfl
    | ok =>
      rw [hmm] at how
      cases how
  | ok =>
    rw [hsql] at how
    rw [toOption_eq_some.mp how.symm]
    dsimp only [bind, Except.bind]
    split <;> rfl

theorem Refines.historyHead (hr : Refines h store) (hrd : fmt.Reads made)
    (hc : h.Chained (fmt.Admits made)) (feed : ContextStoreFeed) :
    (store.historyHead fmt feed).toOption = h.historyHead feed := by
  unfold ContextHistories.historyHead
  rw [← toOption_validateFeed]
  unfold SQLiteContextStore.historyHead
  cases validateFeed feed with
  | error x => rfl
  | ok =>
    dsimp only [bind, Except.bind]
    rw [hr.lastRow hc]
    cases hl : (h.history feed).getLast? with
    | none =>
      rw [getLast?_eq_none_iff.mp hl]
      rfl
    | some r =>
      have hm := mem_of_getLast? hl
      have hs : r.sequence = (h.history feed).length := by
        rw [getLast?_eq_getElem?] at hl
        have hlt := (List.getElem?_eq_some_iff.mp hl).1
        rw [(hc.chain feed).sequence_eq hl]
        omega
      dsimp only [map_some]
      rw [hrd.readRow (hc.admitted feed r hm) ((hc.chain feed).feedId_eq r hm), ← hs]
      rfl

theorem Refines.historyRecordByMessageId (hr : Refines h store) (hrd : fmt.Reads made)
    (hc : h.Chained (fmt.Admits made)) (feed : ContextStoreFeed) (messageId : String) :
    (store.historyRecordByMessageId fmt feed messageId).toOption
      = h.historyRecordByMessageId feed messageId := by
  unfold ContextHistories.historyRecordByMessageId
  rw [← toOption_validateFeed]
  unfold SQLiteContextStore.historyRecordByMessageId
  cases validateFeed feed with
  | error x => rfl
  | ok =>
    cases validateMessageId messageId with
    | error x => rfl
    | ok =>
      dsimp only [bind, Except.bind]
      show _ = some ((h.history feed).find? fun r => r.messageId = messageId)
      rw [hr.rowsOfMessage hrd hc]
      cases hf : (h.history feed).find? fun r => r.messageId = messageId with
      | none =>
        rw [filter_eq_nil_iff.mpr fun r hm => find?_eq_none.mp hf r hm]
        rfl
      | some r =>
        have hm := mem_of_find?_eq_some hf
        have hmsg := find?_some hf
        rw [decide_eq_true_eq] at hmsg
        subst hmsg
        rw [filter_of_nodup_map (hc.chain feed).messages_nodup hm]
        rw [map_singleton]
        dsimp only
        rw [hrd.readRow (hc.admitted feed r hm) ((hc.chain feed).feedId_eq r hm)]
        dsimp only
        rw [if_neg (not_not.mpr rfl), if_neg (not_not.mpr rfl)]
        rfl

/-! ## Ranges -/

variable {first : ℕ}

/-- The rows of consecutive records are taken into the text of a snapshot. -/
theorem foldlM_snapshotRow (hrd : fmt.Reads made) (hadm : ∀ r ∈ rs, fmt.Admits made feed r)
    (hfd : ∀ r ∈ rs, r.feedId = feed.feedId)
    (hsequences : rs.map sequence = range' first rs.length) (text : String) :
    ((rs.map (HistoryRow.of feed)).foldlM (snapshotRow fmt feed) (first, text)).toOption
      = ((rs.map canonical).foldlM addLine text).toOption.map
          fun jsonl => (first + rs.length, jsonl) := by
  induction rs generalizing first text with
  | nil => rfl
  | cons r rs ih =>
    rw [map_cons, length_cons, range'_succ, List.cons.injEq] at hsequences
    obtain ⟨hf, hrs⟩ := hsequences
    have ho : snapshotRow fmt feed (first, text) (HistoryRow.of feed r)
        = (addLine text r.canonical).map fun jsonl => (first + 1, jsonl) := by
      unfold snapshotRow
      rw [hrd.readRow (hadm r mem_cons_self) (hfd r mem_cons_self), ← hf]
      dsimp only [bind, Except.bind]
      rw [if_neg (show ¬(HistoryRow.of feed r).sequence ≠ r.sequence from not_not.mpr rfl)]
      rw [show (HistoryRow.of feed r).canonical = r.canonical from rfl]
      cases addLine text r.canonical with
      | error x | ok jsonl => rfl
    rw [map_cons, foldlM_cons, map_cons, foldlM_cons, ho]
    cases had : addLine text r.canonical with
    | error x => rfl
    | ok jsonl =>
      refine (ih (fun r hr => hadm r (mem_cons_of_mem _ hr))
        (fun r hr => hfd r (mem_cons_of_mem _ hr)) hrs jsonl).trans ?_
      rw [length_cons, add_comm rs.length 1, ← add_assoc]
      rfl

variable {r : RuntimeHistoryRecord M}

/-- The row of a record that continues a chain is read. -/
theorem hydrateRow_eq (hrd : fmt.Reads made)
    (hadm : fmt.Admits made feed r) (todo : List (RuntimeHistoryRecord M)) (s : Hydration M)
    (hch : inChain feed.feedId r.sequence s.predecessor r = true) :
    hydrateRow fmt feed ((r :: todo).map (HistoryRow.of feed), s) r.sequence
      = (addLine s.jsonl r.canonical).map fun jsonl => (todo.map (HistoryRow.of feed),
        { jsonl := jsonl, records := s.records ++ [r], predecessor := some r.id }) := by
  unfold hydrateRow
  rw [map_cons]
  dsimp only [HistoryRow.of]
  rw [if_neg (not_not.mpr rfl), hrd.decode hadm]
  dsimp only [bind, Except.bind]
  rw [hch]
  cases addLine s.jsonl r.canonical with
  | error x | ok jsonl => rfl

theorem bindInt64_of_lt {value : ℕ} (h : value < 2 ^ 63) : bindInt64 value = .ok () :=
  if_neg (not_le.mpr h)

/-- A feed is not longer than a column can say. -/
theorem length_lt (hc : h.Chained (fmt.Admits made)) (feed : ContextStoreFeed) :
    (h.history feed).length < 2 ^ 63 := by
  cases hl : (h.history feed).getLast? with
  | none =>
    rw [getLast?_eq_none_iff.mp hl]
    exact Nat.two_pow_pos 63
  | some r =>
    have hlt := (hc.admitted feed r (mem_of_getLast? hl)).sequence_lt
    rw [getLast?_eq_getElem?] at hl
    rw [(hc.chain feed).sequence_eq hl] at hlt
    omega

variable {last : ℕ}

theorem mem_of_mem_slice (hm : r ∈ slice rs first last) : r ∈ rs :=
  mem_of_mem_filter hm

/-- The rows of a range are taken into its text, up to the end of the feed. -/
theorem Refines.foldlM_rowsOfRange (hr : Refines h store) (hrd : fmt.Reads made)
    (hc : h.Chained (fmt.Admits made)) (feed : ContextStoreFeed) (hf : 0 < first)
    (hle : first ≤ last) :
    ((store.rowsOfRange feed first last).foldlM (snapshotRow fmt feed) (first, "")).toOption
      = (textOf (slice (h.history feed) first last)).toOption.map fun jsonl =>
          (first + min (last + 1 - first) ((h.history feed).length - (first - 1)), jsonl) := by
  have hch := hc.chain feed
  rw [hr.rowsOfRange hc, ← hch.length_slice hf hle]
  exact foldlM_snapshotRow hrd (fun r hm => hc.admitted feed r (mem_of_mem_slice hm))
    (fun r hm => hch.feedId_eq r (mem_of_mem_slice hm))
    (hch.sequences_slice hf hle) ""

theorem Refines.snapshotHistory (hr : Refines h store) (hrd : fmt.Reads made)
    (hc : h.Chained (fmt.Admits made)) (feed : ContextStoreFeed) (first last : ℕ) :
    (store.snapshotHistory fmt feed first last).toOption
      = h.snapshotHistory fmt.toContextFormat feed first last := by
  unfold ContextHistories.snapshotHistory
  rw [← toOption_validateFeed]
  have hch := hc.chain feed
  have hlen := length_lt hc feed
  unfold SQLiteContextStore.snapshotHistory snapshot
  cases validateFeed feed with
  | error x => rfl
  | ok =>
    dsimp only [bind, Except.bind]
    show _ = if 0 < first ∧ first ≤ last ∧ last - first < maxRangeRecords
        ∧ last ≤ (h.history feed).length then _ else _
    by_cases hbds : 0 < first ∧ first ≤ last ∧ last - first < maxRangeRecords
    · obtain ⟨hf, hle, hcnt⟩ := hbds
      have hre := hr.foldlM_rowsOfRange hrd hc feed hf hle
      rw [if_neg]
      · by_cases hl : last ≤ (h.history feed).length
        · rw [bindInt64_of_lt (by omega), bindInt64_of_lt (by omega),
            if_pos ⟨hf, hle, hcnt, hl⟩]
          dsimp only
          rw [min_eq_left (by omega)] at hre
          cases hrun : (store.rowsOfRange feed first last).foldlM (snapshotRow fmt feed)
              (first, "") with
          | error x =>
            rw [hrun] at hre
            rw [map_eq_none_iff.mp hre.symm]
            rfl
          | ok state =>
            rw [hrun] at hre
            obtain ⟨jsonl, ht, hst⟩ := map_eq_some_iff.mp hre.symm
            rw [ht, ← hst]
            dsimp only
            rw [if_neg (by omega)]
            rfl
        · rw [if_neg fun hb => hl hb.2.2.2]
          cases bindInt64 first with
          | error x => rfl
          | ok =>
            cases bindInt64 last with
            | error x => rfl
            | ok =>
              cases hrun : (store.rowsOfRange feed first last).foldlM (snapshotRow fmt feed)
                  (first, "") with
              | error x => rfl
              | ok state =>
                -- the chain has ended before the range does
                rw [hrun] at hre
                obtain ⟨jsonl, -, hst⟩ := map_eq_some_iff.mp hre.symm
                rw [← hst]
                dsimp only
                rw [if_pos (by omega)]
                rfl
      · simp only [Bool.or_eq_true, decide_eq_true_eq]
        omega
    · rw [if_pos, if_neg fun hb => hbds ⟨hb.1, hb.2.1, hb.2.2.1⟩]
      · rfl
      · simp only [Bool.or_eq_true, decide_eq_true_eq]
        omega

/-- A reference is refused here if it is refused by the store in memory, which
asks for the number of its records apart. -/
theorem toOption_validateRange (range : ContextHistoryRange) : (validateRange fmt range).toOption
      = if range.throughSequence - range.fromSequence < maxRangeRecords then
          (fmt.toContextFormat.validateRange range).toOption
        else none := by
  unfold validateRange ContextFormat.validateRange
  have hf := toOption_validateFeed { ownerId := range.ownerId, feedId := range.feedId }
  cases hmm : Context.validateFeed { ownerId := range.ownerId, feedId := range.feedId } with
  | error y =>
    rw [hmm] at hf
    cases hsql : validateFeed { ownerId := range.ownerId, feedId := range.feedId } with
    | error x => exact (ite_self _).symm
    | ok =>
      rw [hsql] at hf
      cases hf
  | ok =>
    rw [hmm] at hf
    rw [toOption_eq_some.mp hf]
    dsimp only [bind, Except.bind]
    by_cases hc : range.throughSequence - range.fromSequence < maxRangeRecords
    · rw [if_pos hc, decide_eq_false (Nat.not_le.mpr hc), Bool.or_false]
      split <;> rfl
    · rw [if_neg hc, if_pos]
      · rfl
      · rw [decide_eq_true (Nat.le_of_not_lt hc), Bool.or_true, Bool.true_or, Bool.true_or]

/-- The id in front of a range of a chain. -/
theorem Refines.predecessorOf (hr : Refines h store) (hrd : fmt.Reads made)
    (hc : h.Chained (fmt.Admits made)) (feed : ContextStoreFeed)
    (hf : first - 1 ≤ (h.history feed).length) : store.predecessorOf fmt feed first
      = .ok (((h.history feed).take (first - 1)).getLast?.map RuntimeHistoryRecord.id) := by
  have hlen := length_lt hc feed
  unfold SQLiteContextStore.predecessorOf
  by_cases ho : first ≤ 1
  · rw [if_pos ho, show first - 1 = 0 by omega]
    rfl
  obtain ⟨r, hm, hs, hl⟩ := (hc.chain feed).exists_getLast?_take ho hf
  rw [if_neg ho, bindInt64_of_lt (by omega), hl, hr.rowOfSequence, ← hs,
    (hc.chain feed).find?_sequence hm]
  dsimp only [map_some, bind, Except.bind]
  rw [show (HistoryRow.of feed r).canonical = r.canonical from rfl,
    hrd.decode (hc.admitted feed r hm)]
  dsimp only
  rw [(hc.chain feed).feedId_eq r hm, if_neg]
  simp

/-- A row is used for every sequence. -/
theorem length_le_of_foldlM_hydrateRow {sequences : List ℕ}
    {state state' : List HistoryRow × Hydration M}
    (hrun : sequences.foldlM (hydrateRow fmt feed) state = .ok state') :
    sequences.length ≤ state.1.length := by
  induction sequences generalizing state with
  | nil => exact zero_le _
  | cons n sequences ih =>
    rw [foldlM_cons, bind_eq_ok] at hrun
    obtain ⟨middle, ho, hr⟩ := hrun
    obtain ⟨rows, hydration⟩ := state
    cases rows with
    | nil => cases ho
    | cons row rows =>
      have hrs : middle.1 = rows := by
        unfold hydrateRow at ho
        simp only [raise_eq_ok, bind_eq_ok] at ho
        obtain ⟨-, record, -, -, jsonl, -, hmiddle⟩ := ho
        cases hmiddle
        rfl
      have hle := ih hr
      rw [hrs] at hle
      exact succ_le_succ hle

/-- The rows of a range are read as its text is built. -/
theorem Refines.foldlM_hydrateRow (hr : Refines h store) (hrd : fmt.Reads made)
    (hc : h.Chained (fmt.Admits made)) (feed : ContextStoreFeed) (hf : 0 < first)
    (hle : first ≤ last) (hl : last ≤ (h.history feed).length) :
    ((List.range' first (last + 1 - first)).foldlM (hydrateRow fmt feed)
        (store.rowsOfRange feed first last,
          { predecessor := ((h.history feed).take (first - 1)).getLast?.map
              RuntimeHistoryRecord.id })).toOption.map (fun s => (s.2.jsonl, s.2.records))
      = (textOf (slice (h.history feed) first last)).toOption.map
          fun jsonl => (jsonl, slice (h.history feed) first last) := by
  rw [← (hc.chain feed).map_sequence_slice hf hle hl, hr.rowsOfRange hc]
  rw [(hc.chain feed).foldlM_read (fun todo s => (todo.map (HistoryRow.of feed), s))
    (fun r hr todo s => hydrateRow_eq hrd (hc.admitted feed r hr) todo s)
    ((hc.chain feed).eq_append_slice hf hle).2 rfl, Option.map_map]
  rfl

/-- Each call answers as the histories do. -/
theorem Refines.hydrateRecords (hr : Refines h store) (hrd : fmt.Reads made)
    (hc : h.Chained (fmt.Admits made)) (range : ContextHistoryRange) :
    (store.hydrateRecords fmt range).toOption = h.hydrateRange fmt.toContextFormat range := by
  unfold SQLiteContextStore.hydrateRecords ContextHistories.hydrateRange ContextHistories.hydrate
  set feed : ContextStoreFeed := { ownerId := range.ownerId, feedId := range.feedId } with hfd
  have hch := hc.chain feed
  have hlen := length_lt hc feed
  have hvld : (validateRange fmt range).toOption
      = if range.throughSequence - range.fromSequence < maxRangeRecords then
          (fmt.toContextFormat.validateRange range).toOption
        else none := toOption_validateRange range
  by_cases hcnt : range.throughSequence - range.fromSequence < maxRangeRecords
  · rw [if_pos hcnt] at hvld
    cases hv : fmt.toContextFormat.validateRange range with
    | error x =>
      rw [hv] at hvld
      cases hsql : validateRange fmt range with
      | error y => rfl
      | ok =>
        rw [hsql] at hvld
        cases hvld
    | ok =>
      rw [hv] at hvld
      rw [toOption_eq_some.mp hvld]
      obtain ⟨hf, hle⟩ := InMemoryContextStore.validateRange_bounds hv
      dsimp only [bind, Except.bind]
      show _ = if range.throughSequence - range.fromSequence < maxRangeRecords
          ∧ range.throughSequence ≤ (h.history feed).length ∧ _ then _ else _
      by_cases hl : range.throughSequence ≤ (h.history feed).length
      · have hre := hr.foldlM_hydrateRow hrd hc feed hf hle hl
        rw [hr.predecessorOf hrd hc feed (by omega), bindInt64_of_lt (by omega),
          bindInt64_of_lt (by omega)]
        refine (ContextHistories.toOption_checkDigest hre range.digest _).trans ?_
        exact if_congr (by simp only [hcnt, hl, true_and]) rfl rfl
      · rw [if_neg fun hb => hl hb.2.1]
        cases store.predecessorOf fmt feed range.fromSequence with
        | error x => rfl
        | ok predecessor =>
          cases bindInt64 range.fromSequence with
          | error x => rfl
          | ok =>
            cases bindInt64 range.throughSequence with
            | error x => rfl
            | ok =>
              dsimp only
              cases hrun : (List.range' range.fromSequence
                  (range.throughSequence + 1 - range.fromSequence)).foldlM (hydrateRow fmt feed)
                    (store.rowsOfRange feed range.fromSequence range.throughSequence,
                      { predecessor := predecessor }) with
              | error x => rfl
              | ok state =>
                -- there is a row for every sequence, but the feed is shorter
                have hrs := length_le_of_foldlM_hydrateRow hrun
                dsimp only at hrs
                rw [List.length_range', hr.rowsOfRange hc, List.length_map,
                  hch.length_slice hf hle] at hrs
                omega
  · rw [if_neg hcnt] at hvld
    cases hsql : validateRange fmt range with
    | error x =>
      cases fmt.toContextFormat.validateRange range with
      | error y => rfl
      | ok => exact (if_neg fun hb => hcnt hb.1).symm
    | ok =>
      rw [hsql] at hvld
      cases hvld

/-! ## Appends -/

variable {record : RuntimeHistoryRecord M}

theorem toOption_checkAppend (hadm : fmt.Admits made feed record)
    (expectedHeadId : Option String) : (checkAppend fmt feed record expectedHeadId).toOption
      = (Context.checkAppend feed record expectedHeadId).toOption := by
  unfold checkAppend Context.checkAppend
  have hf := toOption_validateFeed feed
  rw [archive_not_any hadm.archive]
  cases hmm : Context.validateFeed feed with
  | error y =>
    rw [hmm] at hf
    cases hsql : validateFeed feed with
    | error x => rfl
    | ok =>
      rw [hsql] at hf
      cases hf
  | ok =>
    rw [hmm] at hf
    rw [toOption_eq_some.mp hf]
    dsimp only [bind, Except.bind]
    split
    · rfl
    split
    · rfl
    · rw [if_neg Bool.false_ne_true]
      split <;> rfl

/-- The row of a record of a new sequence, a new id and a new message is put
behind the others. -/
theorem Refines.insertRow (hr : Refines h store) (hrd : fmt.Reads made)
    (hc : h.Chained (fmt.Admits made)) (hadm : fmt.Admits made feed record)
    (hs : ((h.history feed).find? fun r => r.sequence = record.sequence) = none)
    (hmsg : record.messageId ∉ (h.history feed).map messageId) :
    store.insertRow fmt (HistoryRow.of feed record)
      = .ok { store with history := store.history ++ [HistoryRow.of feed record] } := by
  have hfr : (store.history.any fun old => violates fmt old (HistoryRow.of feed record))
      = false := by
    rw [List.any_eq_false]
    intro old hold hviolates
    unfold violates at hviolates
    simp only [Bool.and_eq_true, Bool.or_eq_true, decide_eq_true_eq] at hviolates
    obtain ⟨⟨how, hf⟩, hk⟩ := hviolates
    have hrow : old ∈ store.rows feed := by
      unfold SQLiteContextStore.rows
      simp only [mem_filter, Bool.and_eq_true, decide_eq_true_eq]
      exact ⟨hold, how, hf⟩
    rw [hr.rows, List.mem_map] at hrow
    obtain ⟨r, hm, rfl⟩ := hrow
    have hn := find?_eq_none.mp hs r hm
    rw [decide_eq_true_eq] at hn
    obtain (hsm | hsm) | ⟨-, hsm⟩ := hk
    · exact hn hsm
    · rw [hrd.identified.id_injective (hc.admitted feed r hm).made hadm.made hsm] at hn
      exact hn rfl
    rw [show (HistoryRow.of feed r).canonical = r.canonical from rfl,
      show (HistoryRow.of feed record).canonical = record.canonical from rfl,
      hrd.extract (hc.admitted feed r hm).made, hrd.extract hadm.made,
      some_inj] at hsm
    exact hmsg (mem_map.mpr ⟨r, hm, hsm⟩)
  unfold SQLiteContextStore.insertRow
  rw [hfr]
  rfl

theorem Refines.append (hr : Refines h store) (feed : ContextStoreFeed)
    (record : RuntimeHistoryRecord M) :
    Refines { h with history := update h.history feed (h.history feed ++ [record]) }
      { store with history := store.history ++ [HistoryRow.of feed record] } := by
  refine ⟨fun feed' => ?_, hr.artifact⟩
  have hrs := hr.rows feed'
  unfold SQLiteContextStore.rows at hrs ⊢
  dsimp only
  rw [filter_append, hrs]
  by_cases hf : feed' = feed
  · rw [hf, update_self, map_append, filter_cons, if_pos]
    · rfl
    · rw [Bool.and_eq_true]
      exact ⟨decide_eq_true rfl, decide_eq_true rfl⟩
  · rw [update_of_ne hf, filter_cons, if_neg, filter_nil, append_nil]
    simp only [Bool.and_eq_true, decide_eq_true_eq]
    rintro ⟨how, hid⟩
    exact hf (ContextStoreFeed.key_injective (congrArg toLex (Prod.ext how.symm hid.symm)))

/-- A row that is inserted is a record that is appended. -/
theorem Refines.appendNew (hr : Refines h store) (hrd : fmt.Reads made)
    (hc : h.Chained (fmt.Admits made)) (hf : Context.validateFeed feed = .ok ())
    (hadm : fmt.Admits made feed record) (hsz : record.canonical.utf8ByteSize ≤ maxRecordBytes)
    (hs : ((h.history feed).find? fun r => r.sequence = record.sequence) = none)
    (hmsg : record.messageId ∉ (h.history feed).map messageId)
    (expectedHeadId : Option String) : store.appendNew fmt feed record expectedHeadId
      = .ok (if followsHead record expectedHeadId (h.history feed).length
            (headIdOf (h.history feed)) then
          (.appended, { store with history := store.history ++ [HistoryRow.of feed record] })
        else (.conflict, store)) := by
  have hhd := hr.historyHead hrd hc feed
  unfold ContextHistories.historyHead at hhd
  rw [hf] at hhd
  unfold SQLiteContextStore.appendNew
  rw [toOption_eq_some.mp hhd]
  dsimp only [bind, Except.bind]
  rw [show ((h.history feed).getLast?.map RuntimeHistoryRecord.id).getD ""
    = headIdOf (h.history feed) from rfl]
  by_cases hfol : followsHead record expectedHeadId (h.history feed).length
      (headIdOf (h.history feed)) = true
  · have hcan : fmt.serializeCanonical record feed.ownerId = .ok record.canonical := by
      unfold serializeCanonical
      rw [hrd.plain hadm.made]
      rfl
    rw [if_pos hfol, if_pos hfol, hcan]
    dsimp only
    rw [if_neg (not_lt.mpr hsz), bindInt64_of_lt hadm.sequence_lt]
    dsimp only
    rw [show (⟨feed.ownerId, feed.feedId, record.sequence, record.id, record.canonical⟩
        : HistoryRow) = HistoryRow.of feed record from rfl,
      hr.insertRow hrd hc hadm hs hmsg]
  · rw [if_neg hfol, if_neg hfol]

/-- **What an append answers**, once its arguments are checked. -/
theorem Refines.appendHistory_eq (hr : Refines h store) (hrd : fmt.Reads made)
    (hc : h.Chained (fmt.Admits made)) (hadm : fmt.Admits made feed record)
    {expectedHeadId : Option String}
    (hchk : Context.checkAppend feed record expectedHeadId = .ok ()) :
    ∃ store', store.appendHistory fmt feed record expectedHeadId
        = .ok (appendResult (h.history feed) record expectedHeadId, store')
      ∧ store' = if appendResult (h.history feed) record expectedHeadId
            = .appended then
          { store with history := store.history ++ [HistoryRow.of feed record] }
        else store := by
  obtain ⟨hfd, -, -, hsz⟩ := checkAppend_eq_ok.mp hchk
  have hsql := toOption_checkAppend hadm expectedHeadId
  rw [hchk] at hsql
  unfold SQLiteContextStore.appendHistory
  rw [toOption_eq_some.mp hsql]
  dsimp only [bind, Except.bind]
  rw [bindInt64_of_lt hadm.sequence_lt, hr.rowOfSequence]
  dsimp only
  cases hf : (h.history feed).find? fun r => r.sequence = record.sequence with
  | some r =>
    have hm := mem_of_find?_eq_some hf
    have hs := find?_some hf
    rw [decide_eq_true_eq] at hs
    have hres : appendResult (h.history feed) record expectedHeadId
        = if r.id = record.id then .alreadyPresent else .conflict := by
      unfold appendResult
      rw [hf]
    dsimp only [map_some]
    rw [show (HistoryRow.of feed r).canonical = r.canonical from rfl,
      hrd.decode (hc.admitted feed r hm)]
    dsimp only
    rw [(hc.chain feed).feedId_eq r hm, hs, hres]
    simp only [ne_eq, not_true_eq_false, decide_false, Bool.or_self, Bool.false_eq_true, if_false]
    refine ⟨store, rfl, (if_neg ?_).symm⟩
    split <;> nofun
  | none =>
    rw [hr.rowsOfMessage hrd hc]
    by_cases hmsg : record.messageId ∈ (h.history feed).map messageId
    · have hres : appendResult (h.history feed) record expectedHeadId
          = .conflict := by
        unfold appendResult
        rw [hf]
        exact if_pos hmsg
      obtain ⟨r, hm, hsm⟩ := mem_map.mp hmsg
      rw [← hsm, filter_of_nodup_map (hc.chain feed).messages_nodup hm, map_singleton, hres]
      dsimp only
      rw [hrd.readRow (hc.admitted feed r hm) ((hc.chain feed).feedId_eq r hm)]
      dsimp only
      rw [if_neg (not_not.mpr rfl)]
      exact ⟨store, rfl, rfl⟩
    · have he : (h.history feed).filter (fun r => r.messageId = record.messageId) = [] := by
        rw [filter_eq_nil_iff]
        exact find?_eq_none.mp (find?_key_eq_none_iff.mpr hmsg)
      have hres : appendResult (h.history feed) record expectedHeadId
          = if followsHead record expectedHeadId (h.history feed).length
              (headIdOf (h.history feed)) then .appended else .conflict := by
        unfold appendResult
        rw [hf]
        exact if_neg hmsg
      rw [he, map_nil, hres]
      rw [hr.appendNew hrd hc hfd hadm hsz hf hmsg]
      by_cases hfol : followsHead record expectedHeadId (h.history feed).length
          (headIdOf (h.history feed)) = true
      · rw [if_pos hfol, if_pos hfol]
        exact ⟨_, rfl, rfl⟩
      · rw [if_neg hfol, if_neg hfol]
        exact ⟨_, rfl, rfl⟩

theorem Refines.appendHistory (hr : Refines h store) (hrd : fmt.Reads made)
    (hc : h.Chained (fmt.Admits made)) (hadm : fmt.Admits made feed record)
    (expectedHeadId : Option String) :
    (store.call fmt (.appendHistory feed record expectedHeadId)).1.toOption
        = (h.step fmt.toContextFormat (.appendHistory feed record expectedHeadId)).1
      ∧ Refines (h.step fmt.toContextFormat (.appendHistory feed record expectedHeadId)).2
        (store.call fmt (.appendHistory feed record expectedHeadId)).2 := by
  unfold call step
  dsimp only
  cases hchk : Context.checkAppend feed record expectedHeadId with
  | error y =>
    have hsql := toOption_checkAppend hadm expectedHeadId
    rw [hchk] at hsql
    unfold SQLiteContextStore.appendHistory
    cases hfl : checkAppend fmt feed record expectedHeadId with
    | error x => exact ⟨rfl, hr⟩
    | ok =>
      rw [hfl] at hsql
      cases hsql
  | ok =>
    obtain ⟨store', happ, rfl⟩ := hr.appendHistory_eq hrd hc hadm hchk
    rw [happ]
    dsimp only
    refine ⟨rfl, ?_⟩
    split
    · exact hr.append feed record
    · exact hr

/-! ## Artifacts -/

/-- A new artifact is put behind the others. -/
theorem Refines.putNew (hr : Refines h store) {ownerId : String} {artifact : ContextArtifact}
    (hf : h.artifact ownerId artifact.id = none) : Refines { h with
        artifact := fun o i =>
          if o = ownerId ∧ i = artifact.id then some artifact.canonical else h.artifact o i }
      { store with
        artifacts := store.artifacts ++ [⟨ownerId, artifact.id, artifact.canonical⟩] } := by
  refine ⟨hr.rows, fun ownerId' id => ?_⟩
  have hold := hr.artifact ownerId' id
  unfold artifactRow at hold ⊢
  dsimp only
  rw [find?_append, hold]
  by_cases hk : ownerId' = ownerId ∧ id = artifact.id
  · obtain ⟨rfl, rfl⟩ := hk
    rw [if_pos ⟨rfl, rfl⟩, hf, map_none, none_or, find?_singleton, if_pos]
    · rfl
    · rw [Bool.and_eq_true]
      exact ⟨decide_eq_true rfl, decide_eq_true rfl⟩
  · rw [if_neg hk, find?_singleton, if_neg, or_none]
    simp only [Bool.and_eq_true, decide_eq_true_eq]
    exact fun heq => hk ⟨heq.1.symm, heq.2.symm⟩

theorem Refines.putArtifact (hr : Refines h store) (ownerId : String) (artifact : ContextArtifact) :
    (store.call fmt (.putArtifact ownerId artifact)).1.toOption
        = (h.step fmt.toContextFormat (.putArtifact ownerId artifact)).1
      ∧ Refines (h.step fmt.toContextFormat (.putArtifact ownerId artifact)).2
        (store.call fmt (.putArtifact ownerId artifact)).2 := by
  have how := toOption_validateOwner ownerId
  unfold call step SQLiteContextStore.putArtifact
  dsimp only
  cases hmm : validateOwnerId ownerId with
  | error y =>
    rw [hmm] at how
    cases hsql : validateOwner ownerId with
    | error x => exact ⟨rfl, hr⟩
    | ok =>
      rw [hsql] at how
      cases how
  | ok =>
    rw [hmm] at how
    rw [toOption_eq_some.mp how]
    dsimp only [bind, Except.bind]
    by_cases hsz : maxArtifactBytes < artifact.canonical.utf8ByteSize
    · rw [if_pos hsz, if_pos hsz]
      exact ⟨rfl, hr⟩
    rw [if_neg hsz, if_neg hsz, hr.artifact]
    cases hf : h.artifact ownerId artifact.id with
    | none =>
      have hput := putResult_of_none hf
      rw [if_pos hput]
      exact ⟨congrArg (fun result => some (StoreReply.put result)) hput.symm, hr.putNew hf⟩
    | some canonical =>
      obtain ⟨hput, hs⟩ := putResult_of_some hf
      rw [if_neg hs]
      exact ⟨congrArg (fun result => some (StoreReply.put result)) hput.symm, hr⟩

theorem Refines.getArtifact (hr : Refines h store) (ownerId artifactId : String) :
    (store.getArtifact fmt ownerId artifactId).toOption
      = h.getArtifact fmt.toContextFormat ownerId artifactId := by
  unfold ContextHistories.getArtifact
  rw [← toOption_validateOwner]
  unfold SQLiteContextStore.getArtifact
  rw [hr.artifact]
  cases validateOwner ownerId with
  | error x => rfl
  | ok =>
    dsimp only [bind, Except.bind]
    show _ = if isSha256Identity artifactId then _ else none
    by_cases hid : isSha256Identity artifactId = true
    · rw [hid, if_neg nofun, if_pos rfl]
      cases h.artifact ownerId artifactId with
      | none => rfl
      | some canonical => exact toOption_map some _
    · rw [if_neg hid, if_pos (by rw [Bool.eq_false_of_not_eq_true hid]; rfl)]
      rfl

/-! ## Calls -/

/-- **A call of the store is a call of its histories.** -/
theorem Refines.call (hr : Refines h store) (hrd : fmt.Reads made)
    (hc : h.Chained (fmt.Admits made)) {c : StoreCall M} (hwi : c.Within (fmt.Admits made)) :
    (store.call fmt c).1.toOption = (h.step fmt.toContextFormat c).1
      ∧ Refines (h.step fmt.toContextFormat c).2 (store.call fmt c).2 := by
  cases c with
  | appendHistory feed record expectedHeadId =>
    exact hr.appendHistory hrd hc hwi expectedHeadId
  | historyHead feed => exact ⟨toOption_map_eq (hr.historyHead hrd hc feed), hr⟩
  | historyRecordByMessageId feed messageId =>
    exact ⟨toOption_map_eq (hr.historyRecordByMessageId hrd hc feed messageId), hr⟩
  | snapshotHistory feed first last =>
    exact ⟨toOption_map_eq (hr.snapshotHistory hrd hc feed first last), hr⟩
  | hydrateRecords range => exact ⟨toOption_map_eq (hr.hydrateRecords hrd hc range), hr⟩
  | hydrateHistory range =>
    refine ⟨(toOption_map_eq (toOption_map_eq (hr.hydrateRecords hrd hc range))).trans ?_, hr⟩
    rw [Option.map_map]
    rfl
  | putArtifact ownerId artifact => exact hr.putArtifact ownerId artifact
  | getArtifact ownerId artifactId =>
    exact ⟨toOption_map_eq (hr.getArtifact ownerId artifactId), hr⟩

theorem after_concat (calls : List (StoreCall M)) (c : StoreCall M) :
    after fmt (calls ++ [c]) = ((after fmt calls).call fmt c).2 := by
  unfold after
  rw [foldl_append]
  rfl

/-- **The store keeps the histories of its calls.** -/
theorem refines_after {calls : List (StoreCall M)} (hrd : fmt.Reads made)
    (hwi : ∀ c ∈ calls, c.Within (fmt.Admits made)) :
    Refines (ContextHistories.after fmt.toContextFormat calls) (after fmt calls) := by
  induction calls using reverseRecOn with
  | nil => exact refines_empty
  | append_singleton calls c ih =>
    have hb : ∀ c ∈ calls, c.Within (fmt.Admits made) := fun c hc =>
      hwi c (mem_append_left _ hc)
    rw [ContextHistories.after_concat, after_concat]
    exact ((ih hb).call hrd (chained_after hb)
      (hwi c (mem_append_right _ mem_cons_self))).2

end SQLiteContextStore

end NeoGraph.Context
