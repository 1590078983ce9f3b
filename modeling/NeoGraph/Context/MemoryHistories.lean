import NeoGraph.Context.Histories

/-!
# The store in memory keeps histories

The store in memory keeps every feed in three maps and the id of its head. The
maps hold the records of one list under their sequences, their bytes under the
same, and the sequences under the ids of the messages
(`HistoryFeed.Represents`). So every call is answered, or refused, as the
histories do (`InMemoryContextStore.Refines.call`).
-/

namespace NeoGraph.Context

open RuntimeHistoryRecord SortedMap List Option ContextHistories InMemoryContextStore

open Program (isSha256Identity)

variable {M : Type} {fmt : ContextFormat}

/-- **Identities tell records apart**: the records of this set have an id that
no other one has, and bytes that no other one has. -/
structure Identified (made : RuntimeHistoryRecord M → Prop) : Prop where
  id_ne : ∀ {r}, made r → r.id ≠ ""
  id_injective : ∀ {r r'}, made r → made r' → r.id = r'.id → r = r'
  canonical_injective : ∀ {r r'}, made r → made r' → r.canonical = r'.canonical → r = r'

theorem ContextStoreFeed.key_injective {feed feed' : ContextStoreFeed}
    (h : feed.key = feed'.key) : feed = feed' := by
  unfold ContextStoreFeed.key at h
  rw [toLex_inj, Prod.mk.injEq] at h
  obtain ⟨ownerId, feedId⟩ := feed
  obtain ⟨rfl, rfl⟩ := h
  rfl

/-- A feed holds these records. -/
structure HistoryFeed.Represents (rs : List (RuntimeHistoryRecord M)) (f : HistoryFeed M) :
    Prop where
  records : ∀ n, f.records.find? n = rs.find? fun r => r.sequence = n
  canonical : ∀ n, f.canonicalRecords.find? n
    = (rs.find? fun r => r.sequence = n).map canonical
  messages : ∀ m, f.messageSequences.find? m
    = (rs.find? fun r => r.messageId = m).map sequence
  head : f.headId = headIdOf rs
  size : f.size = rs.length

namespace HistoryFeed.Represents

variable {rs : List (RuntimeHistoryRecord M)} {f : HistoryFeed M}

theorem empty : Represents ([] : List (RuntimeHistoryRecord M)) {} :=
  ⟨fun _ => rfl, fun _ => rfl, fun _ => rfl, rfl, rfl⟩

/-- A record of a new sequence and a new message is held too. -/
theorem append (h : Represents rs f) {record : RuntimeHistoryRecord M}
    (hs : (rs.find? fun r => r.sequence = record.sequence) = none)
    (hmsg : record.messageId ∉ rs.map messageId) :
    Represents (rs ++ [record]) (f.append record) where
  records n := by
    show (f.records.insert record.sequence record).find? n = _
    rw [find?_insert, find?_concat_key hs, h.records]
  canonical n := by
    show (f.canonicalRecords.insert record.sequence record.canonical).find? n = _
    rw [find?_insert, find?_concat_key hs, h.canonical]
    split <;> rfl
  messages m := by
    show (f.messageSequences.insert record.messageId record.sequence).find? m = _
    rw [find?_insert, find?_concat_key (find?_key_eq_none_iff.mpr hmsg), h.messages]
    split <;> rfl
  head := by
    unfold headIdOf
    rw [getLast?_concat]
    rfl
  size := by
    have hfr : f.canonicalRecords.find? record.sequence = none := by
      rw [h.canonical, hs]
      rfl
    show (f.canonicalRecords.insert record.sequence record.canonical).entries.length = _
    rw [length_entries_insert _ hfr, length_append, ← h.size]
    rfl

theorem appendResult_eq (h : Represents rs f) {record : RuntimeHistoryRecord M}
    (hids : ∀ r ∈ rs, r.canonical = record.canonical ↔ r.id = record.id)
    (expectedHeadId : Option String) : f.appendResult record expectedHeadId
      = ContextHistories.appendResult rs record expectedHeadId := by
  unfold HistoryFeed.appendResult ContextHistories.appendResult
  rw [h.canonical]
  cases hf : rs.find? fun r => r.sequence = record.sequence with
  | some r =>
    have hr := hids r (mem_of_find?_eq_some hf)
    by_cases hid : r.id = record.id
    · exact (if_pos (hr.mpr hid)).trans (if_pos hid).symm
    · exact (if_neg fun heq => hid (hr.mp heq)).trans (if_neg hid).symm
  | none =>
    have hc : f.messageSequences.contains record.messageId
        = decide (record.messageId ∈ rs.map messageId) := by
      unfold SortedMap.contains
      rw [h.messages, isSome_map, Bool.eq_iff_iff, decide_eq_true_eq,
        isSome_iff_ne_none, Ne, find?_key_eq_none_iff, not_not]
    dsimp only [map_none]
    rw [hc, h.size, h.head]
    by_cases hmsg : record.messageId ∈ rs.map messageId
    · rw [if_pos (decide_eq_true hmsg), if_pos hmsg]
    · rw [if_neg fun heq => hmsg (of_decide_eq_true heq), if_neg hmsg]

/-! ## Ranges -/

variable {feedId : String}

theorem foldlM_canonicalRecords (h : Represents rs f) (hc : IsChain feedId rs) :
    ∀ todo ⊆ rs, ∀ text, (todo.map sequence).foldlM (fun jsonl sequence =>
        match f.canonicalRecords.find? sequence with
        | none => .error (.invalidArgument "Context history range exceeds the byte limit")
        | some line => addLine jsonl line) text
      = (todo.map RuntimeHistoryRecord.canonical).foldlM addLine text := by
  intro todo
  induction todo with
  | nil => exact fun _ _ => rfl
  | cons r todo ih =>
    intro hs text
    obtain ⟨hr, hs⟩ := cons_subset.mp hs
    rw [map_cons, foldlM_cons, map_cons, foldlM_cons, h.canonical, hc.find?_sequence hr]
    exact congrArg _ (funext fun text' => ih hs text')

theorem rangeText_eq (h : Represents rs f) (hc : IsChain feedId rs) {first last : ℕ}
    (hf : 0 < first) (hle : first ≤ last) (hl : last ≤ rs.length) :
    rangeText f first (last + 1 - first) = textOf (slice rs first last) := by
  unfold rangeText textOf
  rw [← hc.map_sequence_slice hf hle hl]
  exact h.foldlM_canonicalRecords hc _ (filter_subset_self rs) ""

end HistoryFeed.Represents

/-- **The records of a stretch of a chain are read** as its text is built: by
any reader that takes a record which continues the chain. What is still to be
read may be part of its state. -/
theorem IsChain.foldlM_read {feedId : String} {rs : List (RuntimeHistoryRecord M)}
    (hc : IsChain feedId rs) {σ : Type}
    (state : List (RuntimeHistoryRecord M) → InMemoryContextStore.Hydration M → σ)
    {read : σ → ℕ → Except Exn σ} (hrd : ∀ r ∈ rs, ∀ todo s,
      InMemoryContextStore.inChain feedId r.sequence s.predecessor r = true →
      read (state (r :: todo) s) r.sequence
        = (addLine s.jsonl r.canonical).map fun jsonl => state todo
          { jsonl := jsonl, records := s.records ++ [r], predecessor := some r.id })
    {before todo behind : List (RuntimeHistoryRecord M)} (hrs : rs = before ++ todo ++ behind)
    {s : InMemoryContextStore.Hydration M}
    (hs : s.predecessor = before.getLast?.map RuntimeHistoryRecord.id) :
    ((todo.map sequence).foldlM read (state todo s)).toOption
      = ((todo.map canonical).foldlM addLine s.jsonl).toOption.map
          fun jsonl => state []
            { jsonl := jsonl, records := s.records ++ todo
              predecessor := (before ++ todo).getLast?.map RuntimeHistoryRecord.id } := by
  induction todo generalizing before s with
  | nil =>
    rw [append_nil, append_nil, ← hs]
    rfl
  | cons r todo ih =>
    have hr : r ∈ rs := by
      rw [hrs]
      exact mem_append_left _ (mem_append_right _ mem_cons_self)
    have hspl : rs = before ++ r :: (todo ++ behind) := by
      rw [hrs, append_assoc]
      rfl
    have hnx : rs = before ++ [r] ++ todo ++ behind := by
      rw [hspl, append_assoc, append_assoc]
      rfl
    have ho := hrd r hr todo s (hs ▸ hc.inChain hspl)
    rw [map_cons, foldlM_cons, map_cons, foldlM_cons, ho]
    cases had : addLine s.jsonl r.canonical with
    | error x => rfl
    | ok jsonl =>
      refine (ih hnx ?_).trans ?_
      · rw [getLast?_concat]
        rfl
      · simp only [append_assoc, singleton_append]
        rfl

namespace HistoryFeed.Represents

variable {rs : List (RuntimeHistoryRecord M)} {f : HistoryFeed M} {feedId : String}

theorem hydrateOne_eq (h : Represents rs f) (hc : IsChain feedId rs) {r : RuntimeHistoryRecord M}
    (hr : r ∈ rs) (s : Hydration M) (hch : inChain feedId r.sequence s.predecessor r = true) :
    hydrateOne f feedId s r.sequence
      = (addLine s.jsonl r.canonical).map fun jsonl =>
        { jsonl := jsonl, records := s.records ++ [r], predecessor := some r.id } := by
  unfold hydrateOne
  rw [h.canonical, h.records, hc.find?_sequence hr]
  dsimp only [map_some]
  rw [hch]
  cases addLine s.jsonl r.canonical with
  | error x | ok jsonl => rfl

/-- A range of a chain is read as its text is built. -/
theorem foldlM_hydrateOne_range (h : Represents rs f) (hc : IsChain feedId rs) {first last : ℕ}
    (hf : 0 < first) (hle : first ≤ last) (hl : last ≤ rs.length) :
    ((List.range' first (last + 1 - first)).foldlM (InMemoryContextStore.hydrateOne f feedId)
        { predecessor := (rs.take (first - 1)).getLast?.map
            RuntimeHistoryRecord.id }).toOption.map (fun s => (s.jsonl, s.records))
      = (textOf (slice rs first last)).toOption.map
          fun jsonl => (jsonl, slice rs first last) := by
  rw [← hc.map_sequence_slice hf hle hl]
  rw [hc.foldlM_read (fun _ s => s) (fun r hr _ s => h.hydrateOne_eq hc hr s)
    (hc.eq_append_slice hf hle).2 rfl, Option.map_map]
  rfl

end HistoryFeed.Represents

namespace InMemoryContextStore

variable {h : ContextHistories M} {store : InMemoryContextStore M}
  {admits : ContextStoreFeed → RuntimeHistoryRecord M → Prop}

/-- **The store keeps these histories.** -/
structure Refines (h : ContextHistories M) (store : InMemoryContextStore M) : Prop where
  feed : ∀ feed, (store.feed feed).Represents (h.history feed)
  artifact : ∀ ownerId id, store.artifacts.find? (toLex (ownerId, id)) = h.artifact ownerId id

theorem refines_empty : Refines ({} : ContextHistories M) {} :=
  ⟨fun _ => HistoryFeed.Represents.empty, fun _ _ => rfl⟩

variable {feed : ContextStoreFeed} {f : HistoryFeed M}

theorem feed_of_find? (hf : store.feeds.find? feed.key = some f) : store.feed feed = f := by
  unfold InMemoryContextStore.feed
  rw [hf]
  rfl

/-- A feed that the store does not have is empty. -/
theorem Refines.history_of_find? (hr : Refines h store) (hf : store.feeds.find? feed.key = none) :
    h.history feed = [] := by
  have hsz := (hr.feed feed).size
  unfold InMemoryContextStore.feed at hsz
  rw [hf] at hsz
  exact eq_nil_of_length_eq_zero hsz.symm

/-! ## Answers -/

theorem Refines.historyHead (hr : Refines h store) {made : RuntimeHistoryRecord M → Prop}
    (hids : Identified made) (hm : ∀ r ∈ h.history feed, made r) :
    (store.historyHead feed).toOption = h.historyHead feed := by
  unfold ContextHistories.historyHead
  unfold InMemoryContextStore.historyHead
  cases validateFeed feed with
  | error x => rfl
  | ok =>
    dsimp only [bind, Except.bind]
    cases hf : store.feeds.find? feed.key with
    | none =>
      rw [hr.history_of_find? hf]
      rfl
    | some f =>
      have hrep := hr.feed feed
      rw [feed_of_find? hf] at hrep
      dsimp only
      rw [hrep.size, hrep.head]
      unfold headIdOf
      cases hl : (h.history feed).getLast? with
      | none => rfl
      | some r =>
        have hne := hids.id_ne (hm r (mem_of_getLast? hl))
        dsimp only [map_some, getD_some]
        rw [if_neg hne]
        rfl

theorem Refines.historyRecordByMessageId (hr : Refines h store) (hc : h.Chained admits)
    (feed : ContextStoreFeed) (messageId : String) :
    (store.historyRecordByMessageId feed messageId).toOption
      = h.historyRecordByMessageId feed messageId := by
  unfold ContextHistories.historyRecordByMessageId
  unfold InMemoryContextStore.historyRecordByMessageId
  cases validateFeed feed with
  | error x => rfl
  | ok =>
    cases validateMessageId messageId with
    | error x => rfl
    | ok =>
      dsimp only [bind, Except.bind]
      cases hf : store.feeds.find? feed.key with
      | none =>
        rw [hr.history_of_find? hf]
        rfl
      | some f =>
        have hrep := hr.feed feed
        rw [feed_of_find? hf] at hrep
        dsimp only
        rw [hrep.messages]
        cases hfd : (h.history feed).find? fun r => r.messageId = messageId with
        | none => rfl
        | some r =>
          have hm := mem_of_find?_eq_some hfd
          have hmsg := find?_some hfd
          rw [decide_eq_true_eq] at hmsg
          dsimp only [map_some]
          rw [hrep.records, (hc.chain feed).find?_sequence hm]
          dsimp only
          rw [(hc.chain feed).feedId_eq r hm, hmsg]
          simp only [ne_eq, not_true_eq_false, decide_false, Bool.or_self, Bool.false_eq_true,
            if_false]
          rfl

theorem Refines.snapshotHistory (hr : Refines h store) (hc : h.Chained admits)
    (feed : ContextStoreFeed) (first last : ℕ) :
    (store.snapshotHistory fmt feed first last).toOption
      = h.snapshotHistory fmt feed first last := by
  unfold ContextHistories.snapshotHistory
  unfold InMemoryContextStore.snapshotHistory snapshot
  cases validateFeed feed with
  | error x => rfl
  | ok =>
    dsimp only [bind, Except.bind]
    by_cases hbds : 0 < first ∧ first ≤ last ∧ last - first < maxRangeRecords
    · obtain ⟨hfst, hle, hcnt⟩ := hbds
      rw [if_neg]
      · cases hf : store.feeds.find? feed.key with
        | none =>
          rw [hr.history_of_find? hf, if_neg fun hb => by
            have := hb.2.2.2
            rw [length_nil] at this
            omega]
          rfl
        | some f =>
          have hrep := hr.feed feed
          rw [feed_of_find? hf] at hrep
          dsimp only
          rw [hrep.size]
          by_cases hl : last ≤ (h.history feed).length
          · rw [if_neg (Nat.not_lt.mpr hl), if_pos ⟨hfst, hle, hcnt, hl⟩,
              hrep.rangeText_eq (hc.chain feed) hfst hle hl]
            cases textOf (slice (h.history feed) first last) with
            | error x | ok jsonl => rfl
          · rw [if_pos (Nat.lt_of_not_le hl), if_neg fun hb => hl hb.2.2.2]
            rfl
      · simp only [Bool.or_eq_true, decide_eq_true_eq]
        omega
    · rw [if_pos, if_neg fun hb => hbds ⟨hb.1, hb.2.1, hb.2.2.1⟩]
      · rfl
      · simp only [Bool.or_eq_true, decide_eq_true_eq]
        omega

/-- The id in front of a range of a chain. -/
theorem predecessorOf_eq {rs : List (RuntimeHistoryRecord M)} (hrep : f.Represents rs)
    {feedId : String} (hc : IsChain feedId rs) {first : ℕ} (hf : first - 1 ≤ rs.length) :
    predecessorOf f first = .ok ((rs.take (first - 1)).getLast?.map RuntimeHistoryRecord.id) := by
  unfold predecessorOf
  by_cases ho : first ≤ 1
  · rw [if_pos ho, show first - 1 = 0 by omega]
    rfl
  · obtain ⟨r, hr, hs, hl⟩ := hc.exists_getLast?_take ho hf
    rw [if_neg ho, hl, hrep.records, ← hs, hc.find?_sequence hr]
    rfl

theorem validateRange_bounds {range : ContextHistoryRange} (h : fmt.validateRange range = .ok ()) :
    0 < range.fromSequence ∧ range.fromSequence ≤ range.throughSequence := by
  unfold ContextFormat.validateRange at h
  rw [bind_unit_eq_ok] at h
  obtain ⟨-, h⟩ := h
  split at h
  · cases h
  · rename_i hbds
    simp only [Bool.or_eq_true, decide_eq_true_eq, not_or] at hbds
    omega

/-- Each call answers as the histories do. -/
theorem Refines.hydrateRecords (hr : Refines h store) (hc : h.Chained admits)
    (range : ContextHistoryRange) :
    (store.hydrateRecords fmt range).toOption = h.hydrateRange fmt range := by
  unfold InMemoryContextStore.hydrateRecords hydrateRange hydrate
  cases hv : fmt.validateRange range with
  | error x => rfl
  | ok =>
    obtain ⟨hfst, hle⟩ := validateRange_bounds hv
    dsimp only [bind, Except.bind]
    set feed : ContextStoreFeed := { ownerId := range.ownerId, feedId := range.feedId } with hfeed
    by_cases hcnt : range.throughSequence - range.fromSequence < maxRangeRecords
    · rw [if_neg (Nat.not_le.mpr hcnt)]
      rw [show toLex (range.ownerId, range.feedId) = feed.key from rfl]
      cases hf : store.feeds.find? feed.key with
      | none =>
        rw [hr.history_of_find? hf, if_neg fun hb => by
          have := hb.2.1
          rw [length_nil] at this
          omega]
        rfl
      | some f =>
        have hrep := hr.feed feed
        rw [feed_of_find? hf] at hrep
        have hch := hc.chain feed
        dsimp only
        by_cases hl : range.throughSequence ≤ (h.history feed).length
        · have hrd := hrep.foldlM_hydrateOne_range hch hfst hle hl
          rw [predecessorOf_eq hrep hch (by omega)]
          refine (toOption_checkDigest hrd range.digest _).trans ?_
          exact if_congr (by simp only [hcnt, hl, true_and]) rfl rfl
        · rw [if_neg fun hb => hl hb.2.1]
          cases predecessorOf f range.fromSequence with
          | error x => rfl
          | ok predecessor =>
            dsimp only
            cases hrun : (range' range.fromSequence
                (range.throughSequence + 1 - range.fromSequence)).foldlM
                  (hydrateOne f range.feedId) { predecessor := predecessor } with
            | error x => rfl
            | ok state =>
              -- the last record of the range has been read, but it is not there
              obtain ⟨rs, -, ha⟩ := foldlM_hydrateOne hrun
              have hthere : Forall₂ (fun n _ => n ≤ (h.history feed).length ∧ True) _ rs :=
                ha.imp fun n r hfd => by
                  rw [hrep.records] at hfd
                  have hs := find?_some hfd
                  rw [decide_eq_true_eq] at hs
                  exact ⟨hs ▸ hch.sequence_le (mem_of_find?_eq_some hfd), trivial⟩
              refine absurd (((forall₂_and_left _ _).mp hthere).1 range.throughSequence ?_) hl
              rw [mem_range']
              exact ⟨range.throughSequence - range.fromSequence, by omega, by omega⟩
    · rw [if_pos (Nat.le_of_not_lt hcnt), if_neg fun hb => hcnt hb.1]
      rfl

theorem Refines.getArtifact (hr : Refines h store) (ownerId artifactId : String) :
    (store.getArtifact fmt ownerId artifactId).toOption
      = h.getArtifact fmt ownerId artifactId := by
  unfold ContextHistories.getArtifact
  unfold InMemoryContextStore.getArtifact
  rw [← hr.artifact]
  cases validateOwnerId ownerId with
  | error x => rfl
  | ok =>
    dsimp only [bind, Except.bind]
    by_cases hid : isSha256Identity artifactId = true
    · rw [hid, if_neg nofun, if_pos rfl]
      cases store.artifacts.find? (toLex (ownerId, artifactId)) with
      | none => rfl
      | some canonical =>
        dsimp only
        cases fmt.parseArtifact canonical with
        | error x | ok artifact => rfl
    · rw [if_neg hid, if_pos (by rw [Bool.eq_false_of_not_eq_true hid]; rfl)]
      rfl

/-! ## Calls -/

variable {made : RuntimeHistoryRecord M → Prop}

theorem Refines.appendHistory (hr : Refines h store) (hids : Identified made)
    (hmd : ∀ r ∈ h.history feed, made r) {record : RuntimeHistoryRecord M} (hrec : made record)
    (expectedHeadId : Option String) :
    (store.call fmt (.appendHistory feed record expectedHeadId)).1.toOption
        = (h.step fmt (.appendHistory feed record expectedHeadId)).1
      ∧ Refines (h.step fmt (.appendHistory feed record expectedHeadId)).2
        (store.call fmt (.appendHistory feed record expectedHeadId)).2 := by
  have hres : (store.feed feed).appendResult record expectedHeadId
      = ContextHistories.appendResult (h.history feed) record expectedHeadId := by
    refine (hr.feed feed).appendResult_eq (fun r hm => ⟨fun heq => ?_, fun heq => ?_⟩) _
    · rw [hids.canonical_injective (hmd r hm) hrec heq]
    · rw [hids.id_injective (hmd r hm) hrec heq]
  unfold call step InMemoryContextStore.appendHistory
  dsimp only
  cases checkAppend feed record expectedHeadId with
  | error x => exact ⟨rfl, hr⟩
  | ok =>
    dsimp only [bind, Except.bind]
    rw [hres]
    by_cases happ :
        ContextHistories.appendResult (h.history feed) record expectedHeadId = .appended
    · rw [if_pos happ, if_pos happ]
      refine ⟨rfl, fun feed' => ?_, hr.artifact⟩
      obtain ⟨hs, hmsg, -⟩ := appendResult_eq_appended.mp happ
      dsimp only
      unfold InMemoryContextStore.feed
      dsimp only
      rw [find?_insert]
      by_cases hf : feed' = feed
      · rw [hf, if_pos rfl, Function.update_self]
        exact (hr.feed feed).append hs hmsg
      · rw [if_neg fun hk => hf (ContextStoreFeed.key_injective hk),
          Function.update_of_ne hf]
        exact hr.feed feed'
    · rw [if_neg happ, if_neg happ]
      exact ⟨rfl, hr⟩

theorem Refines.putArtifact (hr : Refines h store) (ownerId : String) (artifact : ContextArtifact) :
    (store.call fmt (.putArtifact ownerId artifact)).1.toOption
        = (h.step fmt (.putArtifact ownerId artifact)).1
      ∧ Refines (h.step fmt (.putArtifact ownerId artifact)).2
        (store.call fmt (.putArtifact ownerId artifact)).2 := by
  unfold call step InMemoryContextStore.putArtifact
  dsimp only
  cases validateOwnerId ownerId with
  | error x => exact ⟨rfl, hr⟩
  | ok =>
    by_cases hsz : maxArtifactBytes < artifact.canonical.utf8ByteSize
    · rw [if_pos hsz, if_pos hsz]
      exact ⟨rfl, hr⟩
    rw [if_neg hsz, if_neg hsz]
    cases hf : store.artifacts.find? (toLex (ownerId, artifact.id)) with
    | none =>
      have hput := putResult_of_none ((hr.artifact ..).symm.trans hf)
      rw [if_pos hput]
      refine ⟨congrArg (fun result => some (StoreReply.put result)) hput.symm, hr.feed,
        fun ownerId' id => ?_⟩
      show (store.artifacts.insert _ _).find? _ = if ownerId' = ownerId ∧ id = artifact.id then _
        else h.artifact ownerId' id
      rw [find?_insert, ← hr.artifact]
      refine if_congr ?_ rfl rfl
      rw [toLex_inj, Prod.mk.injEq]
    | some canonical =>
      obtain ⟨hput, hs⟩ :=
        putResult_of_some ((hr.artifact ..).symm.trans hf)
      rw [if_neg hs]
      exact ⟨congrArg (fun result => some (StoreReply.put result)) hput.symm, hr⟩

/-- **A call of the store is a call of its histories.** -/
theorem Refines.call (hr : Refines h store) (hc : h.Chained admits) (hids : Identified made)
    (hmd : ∀ feed r, admits feed r → made r) {c : StoreCall M} (hwi : c.Within admits) :
    (store.call fmt c).1.toOption = (h.step fmt c).1
      ∧ Refines (h.step fmt c).2 (store.call fmt c).2 := by
  have hst : ∀ feed, ∀ r ∈ h.history feed, made r := fun feed r hm =>
    hmd feed r (hc.admitted feed r hm)
  cases c with
  | appendHistory feed record expectedHeadId =>
    exact hr.appendHistory hids (hst feed) (hmd feed record hwi) expectedHeadId
  | historyHead feed => exact ⟨toOption_map_eq (hr.historyHead hids (hst feed)), hr⟩
  | historyRecordByMessageId feed messageId =>
    exact ⟨toOption_map_eq (hr.historyRecordByMessageId hc feed messageId), hr⟩
  | snapshotHistory feed first last =>
    exact ⟨toOption_map_eq (hr.snapshotHistory hc feed first last), hr⟩
  | hydrateRecords range => exact ⟨toOption_map_eq (hr.hydrateRecords hc range), hr⟩
  | hydrateHistory range =>
    refine ⟨(toOption_map_eq (toOption_map_eq (hr.hydrateRecords hc range))).trans ?_, hr⟩
    rw [Option.map_map]
    rfl
  | putArtifact ownerId artifact => exact hr.putArtifact ownerId artifact
  | getArtifact ownerId artifactId =>
    exact ⟨toOption_map_eq (hr.getArtifact ownerId artifactId), hr⟩

/-! ## Runs -/

/-- **The store keeps the histories of its calls.** -/
theorem refines_after {calls : List (StoreCall M)} (hids : Identified made)
    (hm : ∀ feed r, admits feed r → made r) (hwi : ∀ c ∈ calls, c.Within admits) :
    Refines (ContextHistories.after fmt calls) (after fmt calls) := by
  induction calls using reverseRecOn with
  | nil => exact refines_empty
  | append_singleton calls c ih =>
    have hb : ∀ c ∈ calls, c.Within admits := fun c hc =>
      hwi c (mem_append_left _ hc)
    rw [ContextHistories.after_concat, after_concat]
    exact ((ih hb).call (chained_after hb) hids hm
      (hwi c (mem_append_right _ mem_cons_self))).2

/-- The records of a feed, in sequence. -/
def recordsOf (store : InMemoryContextStore M) (feed : ContextStoreFeed) :
    List (RuntimeHistoryRecord M) :=
  (store.feed feed).records.entries.map Prod.snd

theorem Refines.recordsOf_eq (hr : Refines h store) (hc : h.Chained admits)
    (feed : ContextStoreFeed) : store.recordsOf feed = h.history feed := by
  have hch := hc.chain feed
  have hs : ((h.history feed).map fun r => (r.sequence, r)).Pairwise
      (fun a b => a.1 < b.1) := by
    have hlt : ((h.history feed).map RuntimeHistoryRecord.sequence).Pairwise (· < ·) := by
      rw [hch.map_sequence]
      exact List.pairwise_lt_range'
    exact List.pairwise_map.mpr (List.pairwise_map.mp hlt)
  have heq : (store.feed feed).records = ⟨_, hs⟩ := by
    refine SortedMap.ext_find? fun n => ?_
    rw [(hr.feed feed).records]
    show _ = lookupEntry n ((h.history feed).map fun r => (r.sequence, r))
    clear hs hch
    induction h.history feed with
    | nil => rfl
    | cons r rs ih =>
      rw [List.map_cons, lookupEntry, ← ih, List.find?_cons]
      by_cases hn : n = r.sequence
      · rw [if_pos hn, decide_eq_true hn.symm]
      · rw [if_neg hn, decide_eq_false fun heq => hn heq.symm]
  unfold InMemoryContextStore.recordsOf
  rw [heq]
  rw [List.map_map]
  exact List.map_id _

end InMemoryContextStore

end NeoGraph.Context
