import NeoGraph.Context.AppendOnly
import NeoGraph.Lib.Lists

/-!
# Feeds as chains

What a context store is for, without saying how it keeps it: every feed is the
list of its records, in sequence, each naming the one before it (`IsChain`),
and every artifact its bytes (`ContextHistories`). A call is answered from
these lists alone, or refused; only an append and a new artifact change them.

A range of a chain is a stretch of it, and stays the same stretch while the
chain grows (`IsChain.slice_of_longer`), so that what was taken as a range is
read back at any later time (`ContextHistories.hydrate_of_snapshot`).
-/

namespace NeoGraph.Context

open RuntimeHistoryRecord List

open Program (isSha256Identity)

variable {M : Type}

/-! ## Chains -/

/-- The id of the last record, empty if there is none. -/
def headIdOf (rs : List (RuntimeHistoryRecord M)) : String :=
  (rs.getLast?.map RuntimeHistoryRecord.id).getD ""

/-- **The records of a feed form one chain**: they have the sequences from one
on, each names the one before it, and no message occurs twice. -/
structure IsChain (feedId : String) (rs : List (RuntimeHistoryRecord M)) : Prop where
  feedId_eq : ∀ r ∈ rs, r.feedId = feedId
  sequence_eq : ∀ {i r}, rs[i]? = some r → r.sequence = i + 1
  predecessor_eq : ∀ {i p r}, rs[i]? = some p → rs[i + 1]? = some r →
    r.predecessorId = some p.id
  messages_nodup : (rs.map messageId).Nodup

/-- The records of a range of sequences. -/
def slice (rs : List (RuntimeHistoryRecord M)) (first last : ℕ) : List (RuntimeHistoryRecord M) :=
  rs.filter fun r => first ≤ r.sequence && r.sequence ≤ last

/-- The text of some records, if it is not too long. -/
def textOf (rs : List (RuntimeHistoryRecord M)) : Except Exn String :=
  (rs.map canonical).foldlM addLine ""

namespace IsChain

variable {feedId : String} {rs : List (RuntimeHistoryRecord M)}

theorem nil (feedId : String) : IsChain feedId ([] : List (RuntimeHistoryRecord M)) where
  feedId_eq := nofun
  sequence_eq := nofun
  predecessor_eq := nofun
  messages_nodup := nodup_nil

/-- The sequences of a chain count from one. -/
theorem map_sequence (h : IsChain feedId rs) : rs.map sequence = range' 1 rs.length := by
  refine ext_getElem ?_ ?_
  · rw [length_map, length_range']
  intro i hi _
  rw [length_map] at hi
  rw [getElem_map, getElem_range', h.sequence_eq (getElem?_eq_getElem hi)]
  omega

theorem sequences_nodup (h : IsChain feedId rs) : (rs.map sequence).Nodup := by
  rw [h.map_sequence]
  exact nodup_range'

variable {r : RuntimeHistoryRecord M}

/-- A record is found by its sequence. -/
theorem find?_sequence (h : IsChain feedId rs) (hr : r ∈ rs) :
    rs.find? (fun other => other.sequence = r.sequence) = some r :=
  find?_of_nodup_map h.sequences_nodup hr

theorem sequence_le (h : IsChain feedId rs) (hr : r ∈ rs) : r.sequence ≤ rs.length := by
  obtain ⟨i, hi⟩ := mem_iff_getElem?.mp hr
  rw [h.sequence_eq hi]
  exact (List.getElem?_eq_some_iff.mp hi).1

/-- A record that follows the head makes a chain one longer. -/
theorem concat (h : IsChain feedId rs) {expectedHeadId : Option String} (hf : r.feedId = feedId)
    (hfol : followsHead r expectedHeadId rs.length (headIdOf rs) = true)
    (hn : r.messageId ∉ rs.map messageId) : IsChain feedId (rs ++ [r]) := by
  unfold followsHead at hfol
  simp only [Bool.and_eq_true, decide_eq_true_eq] at hfol
  obtain ⟨⟨hs, -⟩, hpredecessor⟩ := hfol
  have hcs : ∀ {i p}, (rs ++ [r])[i]? = some p → rs[i]? = some p ∨ i = rs.length ∧ p = r := by
    intro i p hi
    by_cases hlt : i < rs.length
    · rw [getElem?_append_left hlt] at hi
      exact .inl hi
    rw [getElem?_append_right (Nat.le_of_not_lt hlt)] at hi
    obtain ⟨hz, rfl⟩ := List.getElem?_eq_some_iff.mp hi
    rw [length_singleton] at hz
    exact .inr ⟨by omega, getElem_singleton _⟩
  refine ⟨?_, ?_, ?_, ?_⟩
  · intro r' hr'
    rw [mem_append, mem_singleton] at hr'
    obtain hr' | rfl := hr'
    · exact h.feedId_eq r' hr'
    · exact hf
  · intro i p hi
    obtain hi | ⟨rfl, rfl⟩ := hcs hi
    · exact h.sequence_eq hi
    · exact hs
  · intro i p q hi hnx
    obtain hnx' | ⟨hl, rfl⟩ := hcs hnx
    · rw [getElem?_append_left (Nat.lt_of_succ_lt (List.getElem?_eq_some_iff.mp hnx').1)] at hi
      exact h.predecessor_eq hi hnx'
    · rw [getElem?_append_left (by omega)] at hi
      rw [if_neg (by omega), decide_eq_true_eq] at hpredecessor
      rw [hpredecessor]
      unfold headIdOf
      rw [getLast?_eq_getElem?, ← hl, Nat.add_sub_cancel, hi]
      rfl
  · rw [map_append, nodup_append]
    refine ⟨h.messages_nodup, nodup_singleton _, ?_⟩
    intro m hm m' hm'
    rw [map_singleton, mem_singleton] at hm'
    rintro rfl
    exact hn (hm' ▸ hm)

/-! ## Ranges of a chain -/

variable {last first : ℕ}

/-- A chain around a range. -/
theorem eq_append_slice (h : IsChain feedId rs) (hf : 0 < first) (hle : first ≤ last) :
    slice rs first last = (rs.drop (first - 1)).take (last + 1 - first)
      ∧ rs = rs.take (first - 1) ++ slice rs first last ++ rs.drop last := by
  have hspl : rs = rs.take (first - 1) ++ (rs.drop (first - 1)).take (last + 1 - first)
      ++ rs.drop last := by
    have hdr : rs.drop last = (rs.drop (first - 1)).drop (last + 1 - first) := by
      rw [drop_drop]
      exact congrArg (fun n => rs.drop n) (by omega)
    rw [hdr, append_assoc, take_append_drop, take_append_drop]
  have hsl : slice rs first last = (rs.drop (first - 1)).take (last + 1 - first) := by
    have hb : (rs.take (first - 1)).filter
        (fun r => first ≤ r.sequence && r.sequence ≤ last) = [] := by
      rw [filter_eq_nil_iff]
      intro r hr
      obtain ⟨i, hi⟩ := mem_iff_getElem?.mp hr
      rw [getElem?_take] at hi
      split at hi
      · rw [h.sequence_eq hi, Bool.and_eq_true, decide_eq_true_eq]
        omega
      · cases hi
    have hin : ((rs.drop (first - 1)).take (last + 1 - first)).filter
        (fun r => first ≤ r.sequence && r.sequence ≤ last)
          = (rs.drop (first - 1)).take (last + 1 - first) := by
      rw [filter_eq_self]
      intro r hr
      obtain ⟨i, hi⟩ := mem_iff_getElem?.mp hr
      rw [getElem?_take] at hi
      split at hi
      · rw [getElem?_drop] at hi
        rw [h.sequence_eq hi, Bool.and_eq_true, decide_eq_true_eq, decide_eq_true_eq]
        omega
      · cases hi
    have hbh : (rs.drop last).filter
        (fun r => first ≤ r.sequence && r.sequence ≤ last) = [] := by
      rw [filter_eq_nil_iff]
      intro r hr
      obtain ⟨i, hi⟩ := mem_iff_getElem?.mp hr
      rw [getElem?_drop] at hi
      rw [h.sequence_eq hi, Bool.and_eq_true, decide_eq_true_eq, decide_eq_true_eq]
      omega
    unfold slice
    conv_lhs => rw [hspl]
    rw [filter_append, filter_append, hb, hin, hbh, nil_append, append_nil]
  exact ⟨hsl, hsl ▸ hspl⟩

theorem length_slice (h : IsChain feedId rs) (hf : 0 < first) (hle : first ≤ last) :
    (slice rs first last).length = min (last + 1 - first) (rs.length - (first - 1)) := by
  rw [(h.eq_append_slice hf hle).1, length_take, length_drop]

/-- The sequences of a range follow each other, also where the chain ends inside
the range. -/
theorem sequences_slice (h : IsChain feedId rs) (hf : 0 < first) (hle : first ≤ last) :
    (slice rs first last).map sequence
      = range' first (slice rs first last).length := by
  refine ext_getElem ?_ ?_
  · rw [length_map, length_range']
  intro i hi _
  rw [length_map] at hi
  have hg : rs[first - 1 + i]? = some (slice rs first last)[i] := by
    rw [← getElem?_eq_getElem hi]
    rw [h.length_slice hf hle] at hi
    rw [(h.eq_append_slice hf hle).1, getElem?_take, if_pos (by omega), getElem?_drop]
  rw [getElem_map, getElem_range', h.sequence_eq hg]
  omega

/-- The sequences of a range. -/
theorem map_sequence_slice (h : IsChain feedId rs) (hf : 0 < first) (hle : first ≤ last)
    (hl : last ≤ rs.length) : (slice rs first last).map sequence
      = range' first (last + 1 - first) := by
  rw [h.sequences_slice hf hle, h.length_slice hf hle, Nat.min_eq_left (by omega)]

/-- In front of a range stands the record of the sequence before it. -/
theorem exists_getLast?_take (h : IsChain feedId rs) (ho : ¬first ≤ 1)
    (hf : first - 1 ≤ rs.length) :
    ∃ r ∈ rs, r.sequence = first - 1 ∧ (rs.take (first - 1)).getLast? = some r := by
  obtain ⟨r, hr⟩ : ∃ r, rs[first - 2]? = some r :=
    ⟨_, getElem?_eq_getElem (show first - 2 < rs.length by omega)⟩
  refine ⟨r, mem_of_getElem? hr, ?_, ?_⟩
  · rw [h.sequence_eq hr]
    omega
  · rw [getLast?_eq_getElem?, length_take, Nat.min_eq_left hf, getElem?_take, if_pos (by omega)]
    exact hr

/-- **A range of a chain is the same range of a longer one.** -/
theorem slice_of_longer {longer : List (RuntimeHistoryRecord M)} (h : IsChain feedId rs)
    (h' : IsChain feedId longer) (hb : rs <+: longer) (hf : 0 < first) (hle : first ≤ last)
    (hl : last ≤ rs.length) : slice longer first last = slice rs first last := by
  obtain ⟨more, rfl⟩ := hb
  rw [(h.eq_append_slice hf hle).1, (h'.eq_append_slice hf hle).1,
    drop_append_of_le_length (by omega), take_append_of_le_length]
  rw [length_drop]
  omega

/-- A record of a chain follows the one before it. -/
theorem inChain (h : IsChain feedId rs) {before behind : List (RuntimeHistoryRecord M)}
    (hrs : rs = before ++ r :: behind) :
    InMemoryContextStore.inChain feedId r.sequence (before.getLast?.map RuntimeHistoryRecord.id) r
      = true := by
  have hr : rs[before.length]? = some r := by
    rw [hrs, getElem?_append_right le_rfl, Nat.sub_self]
    rfl
  have hm : r ∈ rs := mem_of_getElem? hr
  unfold InMemoryContextStore.inChain
  rw [Bool.and_eq_true, Bool.and_eq_true, decide_eq_true_eq, decide_eq_true_eq]
  refine ⟨⟨h.feedId_eq r hm, rfl⟩, ?_⟩
  by_cases ho : r.sequence = 1
  · rw [if_pos ho, Option.isNone_iff_eq_none]
    exact r.predecessor_iff.mpr ho
  rw [if_neg ho]
  have hl : before.length ≠ 0 := by
    have := h.sequence_eq hr
    omega
  rw [getLast?_eq_getElem?]
  cases hp : before[before.length - 1]? with
  | none =>
    rw [getElem?_eq_none_iff] at hp
    omega
  | some p =>
    have hprev : rs[before.length - 1]? = some p := by
      rw [hrs, getElem?_append_left (by omega)]
      exact hp
    rw [show before.length = before.length - 1 + 1 by omega] at hr
    rw [h.predecessor_eq hprev hr]
    exact Bool.and_eq_true_iff.mpr ⟨rfl, decide_eq_true rfl⟩

end IsChain

/-! ## Texts -/

variable {acc jsonl : String}

theorem addLine_eq_ok {line text : String} (h : addLine acc line = .ok text) :
    (if acc = "" then line else acc ++ "\n" ++ line) = text := by
  unfold addLine at h
  by_cases hsz : maxRangeBytes - acc.utf8ByteSize
      < line.utf8ByteSize + (if acc = "" then 0 else 1)
  · rw [if_pos hsz] at h
    cases h
  · rw [if_neg hsz] at h
    exact Except.ok.inj h

/-- The lines of a range that is not too long. -/
theorem foldl_of_foldlM_addLine {lines : List String} (h : lines.foldlM addLine acc = .ok jsonl) :
    lines.foldl (fun jsonl line => if jsonl = "" then line else jsonl ++ "\n" ++ line) acc
      = jsonl := by
  induction lines generalizing acc with
  | nil =>
    cases h
    rfl
  | cons line lines ih =>
    rw [foldlM_cons, bind_eq_ok] at h
    obtain ⟨text, had, hr⟩ := h
    rw [foldl_cons, addLine_eq_ok had]
    exact ih hr

/-- The text of a range that is not too long. -/
theorem jsonlOf_of_textOf {rs : List (RuntimeHistoryRecord M)}
    (h : textOf rs = .ok jsonl) : jsonlOf (rs.map canonical) = jsonl :=
  foldl_of_foldlM_addLine h

/-! ## Histories -/

/-- The records of every feed, and the bytes of every artifact of an owner. -/
structure ContextHistories (M : Type) where
  history : ContextStoreFeed → List (RuntimeHistoryRecord M) := fun _ => []
  artifact : String → String → Option String := fun _ _ => none

namespace ContextHistories

/-- What an append answers. -/
def appendResult (rs : List (RuntimeHistoryRecord M)) (record : RuntimeHistoryRecord M)
    (expectedHeadId : Option String) : ContextStoreAppendResult :=
  match rs.find? fun r => r.sequence = record.sequence with
  | some r => if r.id = record.id then .alreadyPresent else .conflict
  | none =>
    if record.messageId ∈ rs.map messageId then .conflict
    else if followsHead record expectedHeadId rs.length (headIdOf rs) then .appended
    else .conflict

/-- The reference to a range that is there. -/
def snapshot (fmt : ContextFormat) (rs : List (RuntimeHistoryRecord M)) (feed : ContextStoreFeed)
    (first last : ℕ) : Option ContextHistoryRange :=
  if 0 < first ∧ first ≤ last ∧ last - first < maxRangeRecords ∧ last ≤ rs.length then
    (textOf (slice rs first last)).toOption.map (fmt.range feed first last)
  else none

/-- The records of a reference, if they are there and have its digest. -/
def hydrate (fmt : ContextFormat) (rs : List (RuntimeHistoryRecord M))
    (range : ContextHistoryRange) : Option (List (RuntimeHistoryRecord M)) :=
  if range.throughSequence - range.fromSequence < maxRangeRecords
      ∧ range.throughSequence ≤ rs.length
      ∧ (textOf (slice rs range.fromSequence range.throughSequence)).toOption.map fmt.rangeDigest
        = some range.digest then
    some (slice rs range.fromSequence range.throughSequence)
  else none

variable (fmt : ContextFormat)

/-- The head of a feed, where the feed is valid. -/
def historyHead (h : ContextHistories M) (feed : ContextStoreFeed) : Option ContextStoreHead :=
  (validateFeed feed).toOption.map fun _ => {
    sequence := (h.history feed).length
    recordId := (h.history feed).getLast?.map RuntimeHistoryRecord.id }

/-- The record of a message, if there is one. -/
def historyRecordByMessageId (h : ContextHistories M) (feed : ContextStoreFeed)
    (messageId : String) : Option (Option (RuntimeHistoryRecord M)) :=
  (validateFeed feed).toOption.bind fun _ => (validateMessageId messageId).toOption.map fun _ =>
    (h.history feed).find? fun r => r.messageId = messageId

/-- The range that ends a call with no exception. -/
def snapshotHistory (h : ContextHistories M) (feed : ContextStoreFeed) (first last : ℕ) :
    Option ContextHistoryRange :=
  (validateFeed feed).toOption.bind fun _ => snapshot fmt (h.history feed) feed first last

/-- What a reference reads. -/
def hydrateRange (h : ContextHistories M) (range : ContextHistoryRange) :
    Option (List (RuntimeHistoryRecord M)) :=
  (fmt.validateRange range).toOption.bind fun _ =>
    hydrate fmt (h.history { ownerId := range.ownerId, feedId := range.feedId }) range

/-- What an artifact that is put is answered with. -/
def putResult (h : ContextHistories M) (ownerId : String) (artifact : ContextArtifact) :
    ContextArtifactPutResult :=
  match h.artifact ownerId artifact.id with
  | none => .stored
  | some canonical => if canonical = artifact.canonical then .alreadyPresent else .conflict

/-- The artifact of an owner, if there is one. -/
def getArtifact (h : ContextHistories M) (ownerId artifactId : String) :
    Option (Option ContextArtifact) :=
  (validateOwnerId ownerId).toOption.bind fun _ =>
    if isSha256Identity artifactId then
      match h.artifact ownerId artifactId with
      | none => some none
      | some canonical => (fmt.parseArtifact canonical).toOption.map some
    else none

/-- **What a call answers and leaves behind.** A call that is refused answers
nothing and changes nothing. -/
def step (h : ContextHistories M) : StoreCall M → Option (StoreReply M) × ContextHistories M
  | .appendHistory feed record expectedHeadId =>
    match checkAppend feed record expectedHeadId with
    | .error _ => (none, h)
    | .ok () =>
      (some (.append (appendResult (h.history feed) record expectedHeadId)),
        if appendResult (h.history feed) record expectedHeadId = .appended then
          { h with history := Function.update h.history feed (h.history feed ++ [record]) }
        else h)
  | .historyHead feed => ((h.historyHead feed).map .head, h)
  | .historyRecordByMessageId feed messageId =>
    ((h.historyRecordByMessageId feed messageId).map .record, h)
  | .snapshotHistory feed first last => ((h.snapshotHistory fmt feed first last).map .range, h)
  | .hydrateRecords range => ((h.hydrateRange fmt range).map .records, h)
  | .hydrateHistory range =>
    ((h.hydrateRange fmt range).map fun rs =>
      .text (jsonlOf (rs.map canonical)), h)
  | .putArtifact ownerId artifact =>
    match validateOwnerId ownerId with
    | .error _ => (none, h)
    | .ok () =>
      if maxArtifactBytes < artifact.canonical.utf8ByteSize then (none, h)
      else
        (some (.put (h.putResult ownerId artifact)),
          if h.putResult ownerId artifact = .stored then
            { h with
              artifact := fun o i =>
                if o = ownerId ∧ i = artifact.id then some artifact.canonical
                else h.artifact o i }
          else h)
  | .getArtifact ownerId artifactId => ((h.getArtifact fmt ownerId artifactId).map .artifact, h)

/-- The histories after a sequence of calls. -/
def after (calls : List (StoreCall M)) : ContextHistories M :=
  calls.foldl (fun h c => (h.step fmt c).2) {}

end ContextHistories

end NeoGraph.Context
