import NeoGraph.Context.FeedChain

/-!
# Histories stay chains

Every call keeps the feeds of the histories chains (`ContextHistories.Chained`)
and their records where they are (`history_prefix_run`). So a record that is
there is there for good, its append is answered as already present
(`step_appendHistory_again`), and a range that was taken is read back, record by
record and byte by byte, from every later state (`hydrate_of_snapshot`).
-/

namespace NeoGraph.Context

open RuntimeHistoryRecord List

open Program (isSha256Identity)

variable {M : Type} {fmt : ContextFormat} {ε α β : Type}

theorem toOption_map (f : α → β) (x : Except ε α) : (x.map f).toOption = x.toOption.map f := by
  cases x with
  | error e | ok a => rfl

theorem toOption_map_eq {f : α → β} {x : Except ε α} {o : Option α}
    (h : x.toOption = o) : (x.map f).toOption = o.map f := by
  rw [toOption_map, h]

/-- The record of an append is one that may be appended. -/
def StoreCall.Within (admits : ContextStoreFeed → RuntimeHistoryRecord M → Prop) :
    StoreCall M → Prop
  | .appendHistory feed record _ => admits feed record
  | _ => True

/-- What a record must be to be appended. -/
theorem checkAppend_eq_ok {feed : ContextStoreFeed} {record : RuntimeHistoryRecord M}
    {expectedHeadId : Option String} : checkAppend feed record expectedHeadId = .ok () ↔
      validateFeed feed = .ok () ∧ record.feedId = feed.feedId
        ∧ expectedHeadId.all isSha256Identity = true
        ∧ record.canonical.utf8ByteSize ≤ maxRecordBytes := by
  unfold checkAppend
  simp only [↓bind_unit_eq_ok, raise_eq_ok, not_not, Bool.not_eq_true', Bool.not_eq_false]
  by_cases hsz : maxRecordBytes < record.canonical.utf8ByteSize
  · rw [if_pos hsz]
    constructor
    · rintro ⟨-, -, -, h⟩
      cases h
    · rintro ⟨-, -, -, h⟩
      exact absurd h (Nat.not_le.mpr hsz)
  · rw [if_neg hsz]
    exact ⟨fun h => ⟨h.1, h.2.1, h.2.2.1, Nat.le_of_not_lt hsz⟩,
      fun h => ⟨h.1, h.2.1, h.2.2.1, rfl⟩⟩

namespace ContextHistories

variable {admits : ContextStoreFeed → RuntimeHistoryRecord M → Prop}

/-- **Every feed is a chain** of records that may be appended to it. -/
structure Chained (admits : ContextStoreFeed → RuntimeHistoryRecord M → Prop)
    (h : ContextHistories M) : Prop where
  chain : ∀ feed, IsChain feed.feedId (h.history feed)
  admitted : ∀ feed, ∀ r ∈ h.history feed, admits feed r
  checked : ∀ feed, ∀ r ∈ h.history feed, checkAppend feed r none = .ok ()

theorem chained_empty : Chained admits ({} : ContextHistories M) :=
  ⟨fun feed => IsChain.nil feed.feedId, fun _ => nofun, fun _ => nofun⟩

/-! ## Appends -/

variable {rs : List (RuntimeHistoryRecord M)} {expectedHeadId : Option String}

/-- A record is appended when its sequence and message are new and the head is
the expected one. -/
theorem appendResult_eq_appended {record : RuntimeHistoryRecord M} :
    appendResult rs record expectedHeadId = .appended ↔
      (rs.find? fun r => r.sequence = record.sequence) = none
        ∧ record.messageId ∉ rs.map messageId
        ∧ followsHead record expectedHeadId rs.length (headIdOf rs) = true := by
  unfold appendResult
  cases rs.find? fun r => r.sequence = record.sequence with
  | some r =>
    dsimp only
    constructor
    · intro h
      split at h <;> cases h
    · rintro ⟨h, -⟩
      cases h
  | none =>
    by_cases hmsg : record.messageId ∈ rs.map messageId
    · rw [if_pos hmsg]
      exact ⟨nofun, fun h => absurd hmsg h.2.1⟩
    rw [if_neg hmsg]
    by_cases hf : followsHead record expectedHeadId rs.length (headIdOf rs) = true
    · rw [if_pos hf]
      exact ⟨fun _ => ⟨rfl, hmsg, hf⟩, fun _ => rfl⟩
    · rw [if_neg hf]
      exact ⟨nofun, fun h => absurd h.2.2 hf⟩

/-- **What a call does to a feed**: nothing, or the record of an append behind
its head. -/
theorem history_step (h : ContextHistories M) (c : StoreCall M) (feed : ContextStoreFeed) :
    (h.step fmt c).2.history feed = h.history feed
      ∨ ∃ record expectedHeadId, c = .appendHistory feed record expectedHeadId
        ∧ checkAppend feed record expectedHeadId = .ok ()
        ∧ appendResult (h.history feed) record expectedHeadId = .appended
        ∧ (h.step fmt c).2.history feed = h.history feed ++ [record] := by
  cases c with
  | appendHistory feed' record expectedHeadId =>
    unfold step
    dsimp only
    split
    · exact .inl rfl
    rename_i hc
    by_cases happ :
        appendResult (h.history feed') record expectedHeadId = .appended
    · rw [if_pos happ]
      by_cases hf : feed = feed'
      · subst hf
        exact .inr ⟨record, expectedHeadId, rfl, hc, happ, Function.update_self ..⟩
      · exact .inl (Function.update_of_ne hf ..)
    · rw [if_neg happ]
      exact .inl rfl
  | putArtifact ownerId artifact =>
    unfold step
    dsimp only
    split
    · exact .inl rfl
    · split
      · exact .inl rfl
      · split <;> exact .inl rfl
  | _ => exact .inl rfl

variable {h : ContextHistories M} {feed : ContextStoreFeed} {c : StoreCall M}

/-- What holds of the records of a feed and of every record that may be
appended holds of the records after a call. -/
theorem forall_mem_step {P : RuntimeHistoryRecord M → Prop} (hold : ∀ r ∈ h.history feed, P r)
    (hn : ∀ record expectedHeadId, c = .appendHistory feed record expectedHeadId →
      checkAppend feed record expectedHeadId = .ok () → P record) :
    ∀ r ∈ (h.step fmt c).2.history feed, P r := by
  intro r hr
  obtain hsm | ⟨record, expectedHeadId, hc, hchk, -, hm⟩ :=
    history_step h c feed
  · rw [hsm] at hr
    exact hold r hr
  · rw [hm, mem_append, mem_singleton] at hr
    obtain hr | rfl := hr
    · exact hold r hr
    · exact hn r expectedHeadId hc hchk

/-- Every call leaves chains. -/
theorem Chained.step (hc : h.Chained admits) (hwi : c.Within admits) :
    (h.step fmt c).2.Chained admits where
  chain feed := by
    obtain hsm | ⟨record, expectedHeadId, -, hchk, happ, hm⟩ :=
      history_step h c feed
    · rw [hsm]
      exact hc.chain feed
    · rw [hm]
      obtain ⟨-, hmsg, hfol⟩ := appendResult_eq_appended.mp happ
      exact (hc.chain feed).concat (checkAppend_eq_ok.mp hchk).2.1 hfol hmsg
  admitted feed := by
    refine forall_mem_step (hc.admitted feed) fun record expectedHeadId hcl _ => ?_
    rw [hcl] at hwi
    exact hwi
  checked feed := by
    refine forall_mem_step (hc.checked feed) fun record expectedHeadId _ hchk => ?_
    obtain ⟨hf, hr, -, hsz⟩ := checkAppend_eq_ok.mp hchk
    exact checkAppend_eq_ok.mpr ⟨hf, hr, rfl, hsz⟩

theorem history_prefix_step (h : ContextHistories M) (c : StoreCall M) (feed : ContextStoreFeed) :
    h.history feed <+: (h.step fmt c).2.history feed := by
  obtain hsm | ⟨record, -, -, -, -, hm⟩ := history_step h c feed
  · exact ⟨[], by rw [append_nil, hsm]⟩
  · rw [hm]
    exact prefix_append _ _

/-! ## Runs -/

theorem after_concat (calls : List (StoreCall M)) (c : StoreCall M) :
    after fmt (calls ++ [c]) = ((after fmt calls).step fmt c).2 := by
  unfold after
  rw [foldl_append]
  rfl

/-- **Every feed is a chain at every time.** -/
theorem chained_after {calls : List (StoreCall M)} (h : ∀ c ∈ calls, c.Within admits) :
    (after fmt calls).Chained admits := by
  induction calls using reverseRecOn with
  | nil => exact chained_empty
  | append_singleton calls c ih =>
    rw [after_concat]
    exact (ih fun c hc => h c (mem_append_left _ hc)).step (h c (mem_append_right _ mem_cons_self))

/-- **A stored record never changes**: a feed keeps its records in front. -/
theorem history_prefix_after (calls more : List (StoreCall M)) (feed : ContextStoreFeed) :
    (after fmt calls).history feed <+: (after fmt (calls ++ more)).history feed := by
  induction more using reverseRecOn with
  | nil => exact ⟨[], by rw [append_nil, append_nil]⟩
  | append_singleton more c ih =>
    rw [← append_assoc, after_concat]
    exact ih.trans (history_prefix_step _ c feed)

/-! ## What is there -/

/-- **The append of a record that is there is answered as already present.** -/
theorem step_appendHistory_again (hc : h.Chained admits) {r : RuntimeHistoryRecord M}
    (hr : r ∈ h.history feed) (hhd : expectedHeadId.all isSha256Identity = true) :
    h.step fmt (.appendHistory feed r expectedHeadId) = (some (.append .alreadyPresent), h) := by
  obtain ⟨hf, hrec, -, hsz⟩ := checkAppend_eq_ok.mp (hc.checked feed r hr)
  have hchk : checkAppend feed r expectedHeadId = .ok () :=
    checkAppend_eq_ok.mpr ⟨hf, hrec, hhd, hsz⟩
  have hres : appendResult (h.history feed) r expectedHeadId = .alreadyPresent := by
    unfold appendResult
    rw [(hc.chain feed).find?_sequence hr]
    exact if_pos rfl
  unfold ContextHistories.step
  dsimp only
  rw [hchk]
  rw [hres, if_neg nofun]

variable {artifact : ContextArtifact}

theorem putResult_of_none {ownerId : String}
    (hf : h.artifact ownerId artifact.id = none) : h.putResult ownerId artifact = .stored := by
  unfold putResult
  rw [hf]

theorem putResult_of_some {ownerId canonical : String}
    (hf : h.artifact ownerId artifact.id = some canonical) : h.putResult ownerId artifact
        = (if canonical = artifact.canonical then .alreadyPresent else .conflict)
      ∧ h.putResult ownerId artifact ≠ .stored := by
  have hput : h.putResult ownerId artifact
      = if canonical = artifact.canonical then .alreadyPresent else .conflict := by
    unfold putResult
    rw [hf]
  refine ⟨hput, ?_⟩
  rw [hput]
  split <;> nofun

variable {first last : ℕ}

theorem validateRange_range (hfd : validateFeed feed = .ok ())
    (hf : 0 < first) (hle : first ≤ last) {jsonl : String}
    (hdg : isSha256Identity (fmt.rangeDigest jsonl) = true) :
    fmt.validateRange (fmt.range feed first last jsonl) = .ok () := by
  unfold ContextFormat.validateRange ContextFormat.range
  dsimp only
  rw [hfd, hdg]
  rw [if_neg]
  · rfl
  · rw [decide_eq_false (Nat.ne_of_gt hf), decide_eq_false (Nat.not_lt.mpr hle)]
    simp

/-- A stretch that was read is checked against the digest of a reference. -/
theorem toOption_checkDigest {σ : Type} {run : Except Exn σ} {text : σ → String}
    {records : σ → List (RuntimeHistoryRecord M)}
    (hrd : run.toOption.map (fun s => (text s, records s))
      = (textOf rs).toOption.map fun jsonl => (jsonl, rs)) (digest : String) (x : Exn) :
    (run >>= fun s =>
        if fmt.rangeDigest (text s) ≠ digest then .error x else .ok (records s)).toOption
      = if (textOf rs).toOption.map fmt.rangeDigest = some digest then some rs else none := by
  cases run with
  | error y =>
    rw [Option.map_eq_none_iff.mp hrd.symm, if_neg nofun]
    rfl
  | ok state =>
    obtain ⟨jsonl, ht, heq⟩ := Option.map_eq_some_iff.mp hrd.symm
    rw [Prod.mk.injEq] at heq
    obtain ⟨rfl, rfl⟩ := heq
    rw [ht]
    dsimp only [Option.map_some, bind, Except.bind]
    by_cases hdg : fmt.rangeDigest (text state) = digest
    · rw [if_neg (not_not.mpr hdg), if_pos (congrArg some hdg)]
      rfl
    · rw [if_pos hdg, if_neg fun heq => hdg (Option.some.inj heq)]
      rfl

/-- **What was taken as a range is read back** from every state with the records
of the one it was taken from. -/
theorem hydrate_of_snapshot {h' : ContextHistories M} (hc : h.Chained admits)
    (hc' : h'.Chained admits) (hb : h.history feed <+: h'.history feed)
    (hdg : ∀ text, isSha256Identity (fmt.rangeDigest text) = true) {range : ContextHistoryRange}
    (hrg : (h.step fmt (.snapshotHistory feed first last)).1 = some (.range range)) :
    fmt.rangeDigest (jsonlOf ((slice (h.history feed) first last).map canonical)) = range.digest
      ∧ (h'.step fmt (.hydrateRecords range)).1
        = some (.records (slice (h.history feed) first last))
      ∧ (h'.step fmt (.hydrateHistory range)).1
        = some (.text (jsonlOf ((slice (h.history feed) first last).map canonical))) := by
  have hs : ∃ jsonl, validateFeed feed = .ok ()
      ∧ (0 < first ∧ first ≤ last ∧ last - first < maxRangeRecords
        ∧ last ≤ (h.history feed).length)
      ∧ textOf (slice (h.history feed) first last) = .ok jsonl
      ∧ range = fmt.range feed first last jsonl := by
    obtain ⟨_, hrg, heq⟩ := Option.map_eq_some_iff.mp hrg
    cases heq
    obtain ⟨_, hfd, hrg⟩ := Option.bind_eq_some_iff.mp hrg
    unfold snapshot at hrg
    split at hrg
    · rename_i hbds
      obtain ⟨jsonl, ht, heq⟩ := Option.map_eq_some_iff.mp hrg
      exact ⟨jsonl, toOption_eq_some.mp hfd, hbds, toOption_eq_some.mp ht, heq.symm⟩
    · cases hrg
  obtain ⟨jsonl, hfd, ⟨hf, hle, hcnt, hl⟩, ht, rfl⟩ := hs
  have hsl : slice (h'.history feed) first last = slice (h.history feed) first last :=
    (hc.chain feed).slice_of_longer (hc'.chain feed) hb hf hle hl
  have hrd : h'.hydrateRange fmt (fmt.range feed first last jsonl)
      = some (slice (h.history feed) first last) := by
    unfold hydrateRange
    rw [validateRange_range hfd hf hle (hdg jsonl)]
    show hydrate fmt (h'.history feed) (fmt.range feed first last jsonl) = _
    unfold hydrate ContextFormat.range
    dsimp only
    rw [hsl, ht, if_pos ⟨hcnt, hl.trans hb.length_le, rfl⟩]
  refine ⟨?_, ?_, ?_⟩
  · rw [jsonlOf_of_textOf ht]
    rfl
  all_goals
    show (h'.hydrateRange fmt _).map _ = _
    rw [hrd]
    rfl

end ContextHistories

end NeoGraph.Context
