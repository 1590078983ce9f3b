import NeoGraph.Context.TurnAssembler

/-!
# A store only grows

The feeds of a store keep their records and the store keeps its artifacts, over
every sequence of calls. So what a store answers at one time about a window of
a feed or an artifact it answers, or does not contradict, at every later time:
every state of a run reads from the contents of its last state
(`ContextStore.ReadsFrom`).
-/

namespace NeoGraph.Context

open List SortedMap

variable {M : Type}

/-- The answers of a store are taken from these records and artifacts. -/
structure ContextStore.ReadsFrom (store : ContextStore M)
    (records : ContextStoreFeed → ℕ → Option (RuntimeHistoryRecord M))
    (artifacts : String → String → Option ContextArtifact) : Prop where
  window : ∀ {feed first last range rs}, store.snapshotHistory feed first last = .ok range →
    store.hydrateRecords range = .ok rs →
    Forall₂ (fun n r => records feed n = some r) (range' first (last + 1 - first)) rs
  artifact : ∀ {ownerId id artifact}, store.getArtifact ownerId id = .ok (some artifact) →
    artifacts ownerId id = some artifact ∧ artifact.id = id

namespace InMemoryContextStore

variable {fmt : ContextFormat}

/-- What the assembler sees of a store. -/
def view (fmt : ContextFormat) (store : InMemoryContextStore M) : ContextStore M where
  snapshotHistory := store.snapshotHistory fmt
  hydrateRecords := store.hydrateRecords fmt
  getArtifact := store.getArtifact fmt

/-! ## Contents -/

/-- The record a feed has at a sequence. -/
def recordAt (store : InMemoryContextStore M) (feed : ContextStoreFeed) (sequence : ℕ) :
    Option (RuntimeHistoryRecord M) :=
  (store.feeds.find? feed.key).bind fun f => f.records.find? sequence

/-- An artifact of the store, as it is read. -/
def artifactAt (fmt : ContextFormat) (store : InMemoryContextStore M) (ownerId id : String) :
    Option ContextArtifact :=
  (store.artifacts.find? (toLex (ownerId, id))).bind fun canonical =>
    (fmt.parseArtifact canonical).toOption

/-- The records of a feed and their bytes are those of the same sequences. -/
def Aligned (store : InMemoryContextStore M) : Prop :=
  ∀ {key f}, store.feeds.find? key = some f → ∀ n,
    f.canonicalRecords.find? n = (f.records.find? n).map RuntimeHistoryRecord.canonical

/-- The artifacts of a store were put by one of the calls. -/
def PutBy (calls : List (StoreCall M)) (store : InMemoryContextStore M) : Prop :=
  ∀ {ownerId id canonical}, store.artifacts.find? (toLex (ownerId, id)) = some canonical →
    ∃ artifact : ContextArtifact, .putArtifact ownerId artifact ∈ calls
      ∧ artifact.id = id ∧ artifact.canonical = canonical

/-! ## One call -/

variable {feed : ContextStoreFeed} {store : InMemoryContextStore M}
  {store' : InMemoryContextStore M} {record r : RuntimeHistoryRecord M}
  {expectedHeadId : Option String}

/-- What a call that ends without an exception has done. -/
theorem appendHistory_eq_ok {result : ContextStoreAppendResult}
    (h : store.appendHistory feed record expectedHeadId = .ok (result, store')) :
    checkAppend feed record expectedHeadId = .ok ()
      ∧ result = (store.feed feed).appendResult record expectedHeadId
      ∧ store' = if result = .appended then
          { store with feeds := store.feeds.insert feed.key ((store.feed feed).append record) }
        else store := by
  unfold appendHistory at h
  rw [bind_unit_eq_ok] at h
  obtain ⟨hc, h⟩ := h
  refine ⟨hc, ?_⟩
  dsimp only at h
  split_ifs at h with hr
  · cases h
    exact ⟨rfl, (if_pos hr).symm⟩
  · cases h
    exact ⟨rfl, (if_neg hr).symm⟩

variable {ownerId : String} {artifact : ContextArtifact}

theorem putArtifact_eq_ok {result : ContextArtifactPutResult}
    (h : store.putArtifact ownerId artifact = .ok (result, store')) :
    store' = store ∨ store.artifacts.find? (toLex (ownerId, artifact.id)) = none
      ∧ store' = { store with artifacts :=
          store.artifacts.insert (toLex (ownerId, artifact.id)) artifact.canonical } := by
  unfold putArtifact at h
  rw [bind_unit_eq_ok] at h
  obtain ⟨-, h⟩ := h
  dsimp only [bind, Except.bind, pure, Except.pure] at h
  by_cases hsz : maxArtifactBytes < artifact.canonical.utf8ByteSize
  · rw [if_pos hsz] at h
    cases h
  rw [if_neg hsz] at h
  split at h
  · rename_i hn
    cases h
    exact .inr ⟨hn, rfl⟩
  · cases h
    exact .inl rfl

/-- **What a call does to a store**: nothing, a record of the next sequence, or
a new artifact. -/
theorem call_cases (fmt : ContextFormat) (store : InMemoryContextStore M) (c : StoreCall M) :
    (store.call fmt c).2 = store
      ∨ (∃ feed record expectedHeadId, c = .appendHistory feed record expectedHeadId
        ∧ checkAppend feed record expectedHeadId = .ok ()
        ∧ (store.feed feed).appendResult record expectedHeadId = .appended
        ∧ (store.call fmt c).2 = { store with
          feeds := store.feeds.insert feed.key ((store.feed feed).append record) })
      ∨ ∃ ownerId artifact, c = .putArtifact ownerId artifact
        ∧ store.artifacts.find? (toLex (ownerId, artifact.id)) = none
        ∧ (store.call fmt c).2 = { store with
          artifacts :=
            store.artifacts.insert (toLex (ownerId, artifact.id)) artifact.canonical } := by
  cases c with
  | appendHistory feed record expectedHeadId =>
    unfold call
    dsimp only
    split
    · exact .inl rfl
    rename_i result store' happend
    obtain ⟨hc, hr, hst⟩ := appendHistory_eq_ok happend
    by_cases happ : result = .appended
    · rw [if_pos happ] at hst
      exact .inr (.inl ⟨feed, record, expectedHeadId, rfl, hc, hr ▸ happ, hst⟩)
    · rw [if_neg happ] at hst
      exact .inl hst
  | putArtifact ownerId artifact =>
    unfold call
    dsimp only
    split
    · exact .inl rfl
    rename_i result store' hput
    obtain hsm | ⟨hn, hst⟩ := putArtifact_eq_ok hput
    · exact .inl hsm
    · exact .inr (.inr ⟨ownerId, artifact, rfl, hn, hst⟩)
  | _ => exact .inl rfl

variable {f : HistoryFeed M}

/-- A record is appended where the feed has none. -/
theorem canonicalRecords_of_appended (h : f.appendResult record expectedHeadId = .appended) :
    f.canonicalRecords.find? record.sequence = none := by
  unfold HistoryFeed.appendResult at h
  split at h
  · split at h <;> cases h
  · assumption

theorem Aligned.call (h : store.Aligned) (c : StoreCall M) : (store.call fmt c).2.Aligned := by
  obtain hsm | ⟨feed, record, _, -, -, -, hst⟩ | ⟨_, _, -, -, hst⟩ :=
    store.call_cases fmt c
  · rw [hsm]
    exact h
  · rw [hst]
    intro key f hf n
    dsimp only at hf
    obtain ⟨-, rfl⟩ | hf := find?_insert_cases hf
    · show (insert _ _ _).find? n = ((insert _ _ _).find? n).map _
      rw [find?_insert, find?_insert]
      split
      · rfl
      unfold InMemoryContextStore.feed
      cases hfd : store.feeds.find? feed.key with
      | none => rfl
      | some f => exact h hfd n
    · exact h hf n
  · rw [hst]
    exact h

variable {n : ℕ}

/-- A record that is there stays. -/
theorem recordAt_call (h : store.Aligned) (c : StoreCall M)
    (hr : store.recordAt feed n = some r) : (store.call fmt c).2.recordAt feed n = some r := by
  obtain hsm | ⟨feed', record, expectedHeadId, -, -, happ, hst⟩ | ⟨_, _, -, -, hst⟩ :=
    store.call_cases fmt c
  · rw [hsm]
    exact hr
  · rw [hst]
    unfold recordAt at hr ⊢
    dsimp only
    rw [find?_insert]
    split_ifs with hk
    · rw [hk] at hr
      have hfr := canonicalRecords_of_appended happ
      unfold InMemoryContextStore.feed at hfr ⊢
      cases hf : store.feeds.find? feed'.key with
      | none =>
        rw [hf] at hr
        cases hr
      | some f =>
        rw [hf] at hr hfr
        dsimp only [Option.bind_some, Option.getD_some] at hr hfr ⊢
        show (f.records.insert record.sequence record).find? n = some r
        rw [find?_insert]
        split_ifs with hn
        · rw [h hf, ← hn, hr] at hfr
          cases hfr
        · exact hr
    · exact hr
  · rw [hst]
    exact hr

variable {key : String ×ₗ String} {canonical feedId id : String}

/-- An artifact that is there stays. -/
theorem find?_artifacts_call (c : StoreCall M) (h : store.artifacts.find? key = some canonical) :
    (store.call fmt c).2.artifacts.find? key = some canonical := by
  obtain hsm | ⟨_, _, _, -, -, -, hst⟩ | ⟨ownerId, artifact, -, hn, hst⟩ :=
    store.call_cases fmt c
  · rw [hsm]
    exact h
  · rw [hst]
    exact h
  · rw [hst]
    show (insert _ _ _).find? key = some canonical
    rw [find?_insert]
    split_ifs with hk
    · rw [hk, hn] at h
      cases h
    · exact h

/-! ## Runs -/

theorem after_concat (calls : List (StoreCall M)) (c : StoreCall M) :
    after fmt (calls ++ [c]) = ((after fmt calls).call fmt c).2 := by
  unfold after
  rw [foldl_append]
  rfl

theorem aligned_after (calls : List (StoreCall M)) : (after fmt calls).Aligned := by
  induction calls using reverseRecOn with
  | nil =>
    intro key f hf
    cases hf
  | append_singleton calls c ih =>
    rw [after_concat]
    exact ih.call c

/-- What is stored was put there by a call. -/
theorem putBy_after (calls : List (StoreCall M)) : (after fmt calls).PutBy calls := by
  induction calls using reverseRecOn with
  | nil =>
    intro ownerId id canonical h
    cases h
  | append_singleton calls c ih =>
    rw [after_concat]
    intro ownerId id canonical h
    have hold : (after fmt calls).artifacts.find? (toLex (ownerId, id)) = some canonical →
        ∃ artifact : ContextArtifact, .putArtifact ownerId artifact ∈ calls ++ [c]
          ∧ artifact.id = id ∧ artifact.canonical = canonical := by
      intro hf
      obtain ⟨artifact, hm, hid, hcan⟩ := ih hf
      exact ⟨artifact, mem_append_left _ hm, hid, hcan⟩
    obtain hsm | ⟨_, _, _, -, -, -, hst⟩ | ⟨ownerId', artifact, rfl, -, hst⟩ :=
      (after fmt calls).call_cases fmt c
    · rw [hsm] at h
      exact hold h
    · rw [hst] at h
      exact hold h
    · rw [hst] at h
      dsimp only at h
      rw [find?_insert] at h
      split_ifs at h with hk
      · cases hk
        cases h
        exact ⟨artifact, mem_append_right _ mem_cons_self, rfl, rfl⟩
      · exact hold h

variable {calls before : List (StoreCall M)}

theorem recordAt_after (h : before <+: calls) (hr : (after fmt before).recordAt feed n = some r) :
    (after fmt calls).recordAt feed n = some r := by
  obtain ⟨rest, rfl⟩ := h
  induction rest using reverseRecOn with
  | nil => rwa [append_nil]
  | append_singleton rest c ih =>
    rw [← append_assoc, after_concat]
    exact recordAt_call (aligned_after _) c ih

theorem find?_artifacts_after (h : before <+: calls)
    (hf : (after fmt before).artifacts.find? key = some canonical) :
    (after fmt calls).artifacts.find? key = some canonical := by
  obtain ⟨rest, rfl⟩ := h
  induction rest using reverseRecOn with
  | nil => rwa [append_nil]
  | append_singleton rest c ih =>
    rw [← append_assoc, after_concat]
    exact find?_artifacts_call c ih

/-! ## What is read -/

variable {range : ContextHistoryRange}

theorem snapshotHistory_eq_ok {first last : ℕ}
    (h : store.snapshotHistory fmt feed first last = .ok range) :
    ∃ jsonl, range = fmt.range feed first last jsonl := by
  unfold snapshotHistory at h
  rw [bind_unit_eq_ok] at h
  obtain ⟨-, h⟩ := h
  dsimp only [bind, Except.bind, pure, Except.pure] at h
  by_cases hbds : (decide (first = 0) || decide (last < first)
      || decide (maxRangeRecords ≤ last - first)) = true
  · rw [if_pos hbds] at h
    cases h
  · rw [if_neg hbds] at h
    split at h
    · cases h
    split at h
    · cases h
    split at h
    · cases h
    · rename_i jsonl _
      cases h
      exact ⟨jsonl, rfl⟩

variable {state state' : Hydration M}

/-- One record more has been read. -/
theorem hydrateOne_eq_ok {sequence : ℕ} (h : hydrateOne f feedId state sequence = .ok state') :
    ∃ record, f.records.find? sequence = some record
      ∧ inChain feedId sequence state.predecessor record = true
      ∧ state'.records = state.records ++ [record] ∧ state'.predecessor = some record.id := by
  unfold hydrateOne at h
  split at h
  · rename_i line record _ hr
    dsimp only [bind, Except.bind, pure, Except.pure] at h
    split at h
    · cases h
    by_cases hch : (!inChain feedId sequence state.predecessor record) = true
    · rw [if_pos hch] at h
      cases h
    rw [if_neg hch] at h
    cases h
    rw [Bool.not_eq_true, Bool.not_eq_false'] at hch
    exact ⟨record, hr, hch, rfl, rfl⟩
  · cases h
  · cases h

theorem foldlM_hydrateOne {sequences : List ℕ}
    (h : sequences.foldlM (hydrateOne f feedId) state = .ok state') :
    ∃ rs, state'.records = state.records ++ rs
      ∧ Forall₂ (fun n r => f.records.find? n = some r) sequences rs := by
  induction sequences generalizing state with
  | nil =>
    cases h
    exact ⟨[], (append_nil _).symm, Forall₂.nil⟩
  | cons n sequences ih =>
    rw [foldlM_cons, bind_eq_ok] at h
    obtain ⟨middle, ho, hr⟩ := h
    obtain ⟨record, hrec, -, hrc, -⟩ := hydrateOne_eq_ok ho
    obtain ⟨rs, hrs, ha⟩ := ih hr
    refine ⟨record :: rs, ?_, Forall₂.cons hrec ha⟩
    rw [hrs, hrc, append_assoc]
    rfl

/-- What is hydrated are the records of the range. -/
theorem hydrateRecords_eq_ok {rs : List (RuntimeHistoryRecord M)}
    (h : store.hydrateRecords fmt range = .ok rs) : Forall₂
      (fun n r => store.recordAt { ownerId := range.ownerId, feedId := range.feedId } n = some r)
      (range' range.fromSequence (range.throughSequence + 1 - range.fromSequence)) rs := by
  unfold hydrateRecords at h
  rw [bind_unit_eq_ok] at h
  obtain ⟨-, h⟩ := h
  dsimp only [bind, Except.bind, pure, Except.pure] at h
  by_cases hbd : maxRangeRecords ≤ range.throughSequence - range.fromSequence
  · rw [if_pos hbd] at h
    cases h
  rw [if_neg hbd] at h
  split at h
  · cases h
  rename_i f hf
  split at h
  · cases h
  split at h
  · cases h
  rename_i state hst
  by_cases hdg : fmt.rangeDigest state.jsonl ≠ range.digest
  · rw [if_pos hdg] at h
    cases h
  rw [if_neg hdg] at h
  cases h
  obtain ⟨rs, hrs, ha⟩ := foldlM_hydrateOne hst
  rw [hrs]
  refine ha.imp fun n r hr => ?_
  unfold recordAt
  rw [show (ContextStoreFeed.key { ownerId := range.ownerId, feedId := range.feedId })
    = toLex (range.ownerId, range.feedId) from rfl, hf]
  exact hr

theorem getArtifact_eq_ok (h : store.getArtifact fmt ownerId id = .ok (some artifact)) :
    ∃ canonical, store.artifacts.find? (toLex (ownerId, id)) = some canonical
      ∧ fmt.parseArtifact canonical = .ok artifact := by
  unfold getArtifact at h
  rw [bind_unit_eq_ok] at h
  obtain ⟨-, h⟩ := h
  dsimp only [bind, Except.bind, pure, Except.pure] at h
  by_cases hid : (!Program.isSha256Identity id) = true
  · rw [if_pos hid] at h
    cases h
  rw [if_neg hid] at h
  split at h
  · cases h
  rename_i canonical hf
  refine ⟨canonical, hf, ?_⟩
  cases hp : fmt.parseArtifact canonical with
  | error x =>
    rw [hp] at h
    cases h
  | ok artifact' =>
    rw [hp] at h
    cases h
    rfl

/-- An artifact of a store is one that was put. -/
theorem artifactAt_after
    (hp : ∀ ownerId artifact, .putArtifact ownerId artifact ∈ calls →
      fmt.parseArtifact artifact.canonical = .ok artifact)
    (h : (after fmt calls).artifactAt fmt ownerId id = some artifact) :
    ∃ put : ContextArtifact, .putArtifact ownerId put ∈ calls ∧ put.id = id ∧ put = artifact := by
  unfold artifactAt at h
  rw [Option.bind_eq_some_iff] at h
  obtain ⟨canonical, hf, hart⟩ := h
  rw [toOption_eq_some] at hart
  obtain ⟨put, hput, hid, rfl⟩ := putBy_after calls hf
  refine ⟨put, hput, hid, ?_⟩
  have hboth := (hp ownerId put hput).symm.trans hart
  cases hboth
  rfl

/-- **Every state of a run reads from its last one.** -/
theorem readsFrom_after (h : before <+: calls)
    (hp : ∀ ownerId artifact, .putArtifact ownerId artifact ∈ calls →
      fmt.parseArtifact artifact.canonical = .ok artifact) :
    ((after fmt before).view fmt).ReadsFrom (after fmt calls).recordAt
      ((after fmt calls).artifactAt fmt) where
  window := by
    intro feed first last range rs hs hhydrate
    obtain ⟨jsonl, rfl⟩ := snapshotHistory_eq_ok hs
    exact (hydrateRecords_eq_ok hhydrate).imp fun n r hr => recordAt_after h hr
  artifact := by
    intro ownerId id artifact hg
    obtain ⟨canonical, hf, hart⟩ := getArtifact_eq_ok hg
    have hl := find?_artifacts_after h hf
    have hst : (after fmt calls).artifactAt fmt ownerId id = some artifact := by
      unfold artifactAt
      rw [hl, Option.bind_some, hart]
      rfl
    obtain ⟨put, -, hid, rfl⟩ := artifactAt_after hp hst
    exact ⟨hst, hid⟩

end InMemoryContextStore

end NeoGraph.Context
