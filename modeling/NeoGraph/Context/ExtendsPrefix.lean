import NeoGraph.Context.PrefixKept

/-!
# An epoch that extends another keeps its prompt prefix

A claim to extend is checked on the ids and the windows that two epochs record
(`verifyContextEpochClaim`), while the prefix of a request is made of messages.
Over a store that only grows the check is enough for the messages
(`InMemoryContextStore.extends_prefix`): the windows start at one record, the
Stable and Slow ids are the same, and an id stands for one artifact.
-/

namespace NeoGraph.Context

open List Program SortedMap Option ContextArtifactData

variable {M P F : Type} {messages : MessageFormat M} {store : ContextStore M}
  {requirements : RuntimeContextRequirements} {maxInputTokens : ℕ} {ownerId : String}
  {epoch : ContextEpoch} {hostInstructions trustedSupplemental : List M}
  {records : ContextStoreFeed → ℕ → Option (RuntimeHistoryRecord M)}
  {artifacts : String → String → Option ContextArtifact}

/-! ## The claim -/

variable {e f : ContextEpoch} {artifactsE artifactsF selected given : List ContextArtifact}

/-- What an accepted claim to extend says of the two epochs. -/
theorem verifyContextEpochClaim_extends (hcl : f.data.prefixClaim = some .extends)
    (h : verifyContextEpochClaim f artifactsF (some e) artifactsE = .ok ()) :
    selectedArtifacts e artifactsE = .ok () ∧ selectedArtifacts f artifactsF = .ok ()
      ∧ e.data.feedId = f.data.feedId ∧ e.data.rawFromSequence = f.data.rawFromSequence
      ∧ e.data.rawThroughSequence < f.data.rawThroughSequence
      ∧ stablePrefix f artifactsF = stablePrefix e artifactsE := by
  unfold verifyContextEpochClaim at h
  dsimp only at h
  rw [bind_unit_eq_ok] at h
  obtain ⟨-, h⟩ := h
  rw [if_neg (not_not.mpr hcl)] at h
  split at h
  · cases h
  unfold verifyExtends at h
  dsimp only at h
  rw [raise_eq_ok, bind_unit_eq_ok, bind_unit_eq_ok, bind_unit_eq_ok, raise_eq_ok, raise_eq_ok,
    raise_eq_ok] at h
  obtain ⟨-, hselectedF, hselectedE, -, hw, hgrown, hsm, -⟩ := h
  simp only [Bool.or_eq_true, decide_eq_true_eq, not_or, not_not] at hw
  exact ⟨hselectedE, hselectedF, hw.1.2, hw.2, Nat.lt_of_not_le hgrown, not_not.mp hsm⟩

variable {raw : List M}

/-- A turn is as well laid out for any artifacts that its selected ones are, if
an id stands for one artifact only. -/
theorem StableFirst.of_selectedArtifacts {assembly : Assembly M} {items : List (RenderedArtifact M)}
    (h : StableFirst messages store ownerId epoch selected hostInstructions assembly items raw)
    (hs : epoch.data.assemblyLayout = .stableFirst)
    (hlay : validateContextLayout epoch selected = .ok ())
    (hm : ∀ artifact ∈ selected, artifact.id ∈ epoch.data.artifactIds)
    (hgv : selectedArtifacts epoch given = .ok ())
    (hids : ∀ artifact ∈ given, ∀ artifact' ∈ selected, artifact.id = artifact'.id →
      artifact = artifact') :
    StableFirst messages store ownerId epoch given hostInstructions assembly items raw where
  history := h.history
  order := by
    rw [h.order]
    unfold stablePrefix
    refine filter_congr fun id hid => ?_
    obtain ⟨artifact, hart⟩ :=
      selectedArtifacts_eq_ok hgv ((mem_ordered_iff hs id).mp hid)
    obtain ⟨artifact', hart', -⟩ :=
      (checkLayout_eq_ok (validateContextLayout_eq_ok hs hlay)).1 id hid
    obtain ⟨hin, hid₁⟩ := artifactById_eq_some hart
    obtain ⟨hin', hid₂⟩ := artifactById_eq_some hart'
    have hsm := hids artifact hin artifact' hin' (hid₁.trans hid₂.symm)
    unfold classOf
    rw [hart, hart', hsm]
  rendered := by
    intro item hi
    obtain ⟨hsel, hr⟩ := h.rendered item hi
    obtain ⟨artifact, hart⟩ := selectedArtifacts_eq_ok hgv (hm _ hsel)
    obtain ⟨hin, hid⟩ := artifactById_eq_some hart
    rw [hids artifact hin item.artifact hsel hid] at hin
    exact ⟨hin, hr⟩
  nonvolatile := h.nonvolatile
  prefixPart := h.prefixPart
  stablePart := h.stablePart

/-- The messages of a window are those of its records. -/
theorem rawMessages_eq_ok (hrd : store.ReadsFrom records artifacts)
    (h : rawMessages store ownerId epoch = .ok raw) : epoch.data.rawFromSequence = 0 ∧ raw = []
      ∨ epoch.data.rawFromSequence ≠ 0 ∧ ∃ rs, raw = rs.map RuntimeHistoryRecord.message
        ∧ Forall₂
          (fun n r => records { ownerId := ownerId, feedId := epoch.data.feedId } n = some r)
          (range' epoch.data.rawFromSequence
            (epoch.data.rawThroughSequence + 1 - epoch.data.rawFromSequence)) rs := by
  unfold rawMessages at h
  split_ifs at h with hz
  · cases h
    exact .inl ⟨hz, rfl⟩
  rw [bind_eq_ok] at h
  obtain ⟨range, hrg, h⟩ := h
  rw [raise_eq_ok, bind_eq_ok] at h
  obtain ⟨-, rs, hrs, h⟩ := h
  refine .inr ⟨hz, rs, ?_, hrd.window (ofStore_eq_ok hrg) (ofStore_eq_ok hrs)⟩
  unfold verifyHistory at h
  rw [bind_eq_ok] at h
  obtain ⟨expected, -, h⟩ := h
  rw [raise_eq_ok] at h
  cases h.2
  rfl

variable {store' : ContextStore M} {raw' : List M}

/-- A window that has grown begins as it did. -/
theorem rawMessages_prefix (hrd : store.ReadsFrom records artifacts)
    (hrd' : store'.ReadsFrom records artifacts) (hf : e.data.feedId = f.data.feedId)
    (hfr : e.data.rawFromSequence = f.data.rawFromSequence)
    (hgrown : e.data.rawThroughSequence < f.data.rawThroughSequence)
    (h : rawMessages store ownerId e = .ok raw) (h' : rawMessages store' ownerId f = .ok raw') :
    raw <+: raw' := by
  obtain ⟨-, rfl⟩ | ⟨hp, rs, rfl, ha⟩ := rawMessages_eq_ok hrd h
  · exact nil_prefix
  obtain ⟨hz, -⟩ | ⟨-, rs', rfl, ha'⟩ := rawMessages_eq_ok hrd' h'
  · exact absurd (hfr.trans hz) hp
  rw [hf, hfr] at ha
  refine List.IsPrefix.map _ (prefix_of_forall₂ ?_ ha ha')
  rw [show f.data.rawThroughSequence + 1 - f.data.rawFromSequence
    = (e.data.rawThroughSequence + 1 - f.data.rawFromSequence)
      + (f.data.rawThroughSequence - e.data.rawThroughSequence
        - (f.data.rawFromSequence - (e.data.rawThroughSequence + 1))) by omega,
    ← range'_append_1]
  exact prefix_append _ _

/-- The artifacts in front of the history are what their ids stand for. -/
theorem StableFirst.items_eq {selected' : List ContextArtifact}
    {assembly assembly' : Assembly M} {items items' : List (RenderedArtifact M)}
    (h : StableFirst messages store ownerId e selected hostInstructions assembly items raw)
    (h' : StableFirst messages store' ownerId f selected' hostInstructions assembly' items' raw')
    (his : ∀ item ∈ items, artifacts ownerId item.artifact.id = some item.artifact)
    (his' : ∀ item ∈ items', artifacts ownerId item.artifact.id = some item.artifact)
    (hsm : stablePrefix e selected = stablePrefix f selected') : items = items' := by
  have hf : ∀ {l : List (RenderedArtifact M)} {chosen : List ContextArtifact},
      (∀ item ∈ l, artifacts ownerId item.artifact.id = some item.artifact) →
      (∀ item ∈ l, item.artifact ∈ chosen ∧ render messages item.artifact = .ok item) →
      ∀ item ∈ l, ((artifacts ownerId item.artifact.id).bind fun artifact =>
        (render messages artifact).toOption) = some item := by
    intro l chosen hst hl item hi
    rw [hst item hi, bind_some, (hl item hi).2]
    rfl
  exact eq_of_map_eq (fun id => (artifacts ownerId id).bind fun artifact =>
    (render messages artifact).toOption) (hf his h.rendered) (hf his' h'.rendered)
    (h.order.trans (hsm.trans h'.order.symm))

/-! ## Turns -/

variable {turn : RuntimeTurn M P F} {provider : Provider M P F}

theorem assemble_eq_ok
    (h : assemble messages provider store requirements maxInputTokens ownerId epoch hostInstructions
      trustedSupplemental = .ok turn) :
    assembleMessages messages store requirements maxInputTokens ownerId epoch
      hostInstructions trustedSupplemental = .ok turn.assembly := by
  unfold assemble at h
  rw [bind_eq_ok] at h
  obtain ⟨assembly, hassembly, h⟩ := h
  rw [bind_eq_ok] at h
  obtain ⟨request, -, h⟩ := h
  rw [bind_eq_ok] at h
  obtain ⟨fields, -, h⟩ := h
  rw [raise_eq_ok, bind_unit_eq_ok] at h
  cases h.2.2
  exact hassembly

/-- A turn of a store that reads from some records and artifacts, and the
artifacts that its epoch selects. -/
theorem assemble_stableFirst (hrd : store.ReadsFrom records artifacts)
    (hs : epoch.data.assemblyLayout = .stableFirst)
    (hgv : selectedArtifacts epoch given = .ok ())
    (hids : ∀ artifact ∈ given, ∀ artifact', artifacts ownerId artifact.id = some artifact' →
      artifact = artifact')
    (h : assemble messages provider store requirements maxInputTokens ownerId epoch hostInstructions
      trustedSupplemental = .ok turn) :
    ∃ items raw, StableFirst messages store ownerId epoch given hostInstructions
        turn.assembly items raw
      ∧ ∀ item ∈ items, artifacts ownerId item.artifact.id = some item.artifact := by
  obtain ⟨selected, items, raw, hsel, hlay, ht⟩ :=
    assembleMessages_stableFirst hrd hs (assemble_eq_ok h)
  refine ⟨items, raw, ht.of_selectedArtifacts hs hlay
    (fun artifact hart => (mem_selected hrd hsel hart).1) hgv ?_,
    fun item hi => (mem_selected hrd hsel (ht.rendered item hi).1).2⟩
  intro artifact hart artifact' hart' hid
  have hst := (mem_selected hrd hsel hart').2
  rw [← hid] at hst
  exact hids artifact hart artifact' hst

/-- **An epoch that extends another keeps its prompt prefix**, for any two turns
over states that read from the same records and artifacts. -/
theorem assemble_extends {provider' : Provider M P F} {requirements' : RuntimeContextRequirements}
    {maxInputTokens' : ℕ} {trustedSupplemental' : List M} {turn' : RuntimeTurn M P F}
    (hrd : store.ReadsFrom records artifacts) (hrd' : store'.ReadsFrom records artifacts)
    (he : e.data.assemblyLayout = .stableFirst) (hf : f.data.assemblyLayout = .stableFirst)
    (hcl : f.data.prefixClaim = some .extends)
    (hv : verifyContextEpochClaim f artifactsF (some e) artifactsE = .ok ())
    (hids : ∀ artifact ∈ artifactsE ++ artifactsF, ∀ artifact',
      artifacts ownerId artifact.id = some artifact' → artifact = artifact')
    (h : assemble messages provider store requirements maxInputTokens ownerId e hostInstructions
      trustedSupplemental = .ok turn)
    (h' : assemble messages provider' store' requirements' maxInputTokens' ownerId f
      hostInstructions trustedSupplemental' = .ok turn') :
    turn.assembly.messages.take turn.assembly.shape.prefixEnd
        <+: turn'.assembly.messages.take turn'.assembly.shape.prefixEnd
      ∧ turn.assembly.messages.take turn.assembly.shape.stableEnd
        = turn'.assembly.messages.take turn'.assembly.shape.stableEnd
      ∧ ∃ items raw raw',
        StableFirst messages store ownerId e artifactsE hostInstructions turn.assembly items raw
          ∧ StableFirst messages store' ownerId f artifactsF hostInstructions turn'.assembly
            items raw' := by
  obtain ⟨hselectedE, hselectedF, hfd, hfr, hgrown, hsm⟩ :=
    verifyContextEpochClaim_extends hcl hv
  obtain ⟨items, raw, ht, his⟩ := assemble_stableFirst hrd he hselectedE
    (fun artifact hm => hids artifact (mem_append_left _ hm)) h
  obtain ⟨items', raw', ht', his'⟩ := assemble_stableFirst hrd' hf hselectedF
    (fun artifact hm => hids artifact (mem_append_right _ hm)) h'
  obtain rfl := ht.items_eq ht' his his' hsm.symm
  have hraw := rawMessages_prefix hrd hrd' hfd hfr hgrown ht.history ht'.history
  refine ⟨?_, ?_, items, raw, raw', ht, ht'⟩
  · rw [ht.prefixPart, ht'.prefixPart]
    exact (prefix_append_right_inj _).mpr hraw
  · rw [ht.stablePart, ht'.stablePart]

namespace InMemoryContextStore

/-- **The prompt prefix is kept over a store in memory**, whose states are those
of one run of calls, if an artifact that was put reads back as it was and its
id is that of no other artifact. -/
theorem extends_prefix {fmt : ContextFormat} {calls before before' : List (StoreCall M)}
    {e f : ContextEpoch} {artifactsE artifactsF : List ContextArtifact}
    {provider provider' : Provider M P F} {requirements' : RuntimeContextRequirements}
    {maxInputTokens' : ℕ} {trustedSupplemental' : List M} {turn turn' : RuntimeTurn M P F}
    (hb : before <+: calls) (hb' : before' <+: calls)
    (hp : ∀ owner put, .putArtifact owner put ∈ calls →
      fmt.parseArtifact put.canonical = .ok put)
    (hids : ∀ owner put, .putArtifact owner put ∈ calls →
      ∀ artifact ∈ artifactsE ++ artifactsF, artifact.id = put.id → artifact = put)
    (he : e.data.assemblyLayout = .stableFirst) (hf : f.data.assemblyLayout = .stableFirst)
    (hcl : f.data.prefixClaim = some .extends)
    (hv : verifyContextEpochClaim f artifactsF (some e) artifactsE = .ok ())
    (h : assemble messages provider ((after fmt before).view fmt) requirements maxInputTokens
      ownerId e hostInstructions trustedSupplemental = .ok turn)
    (h' : assemble messages provider' ((after fmt before').view fmt) requirements'
      maxInputTokens' ownerId f hostInstructions trustedSupplemental' = .ok turn') :
    turn.assembly.messages.take turn.assembly.shape.prefixEnd
        <+: turn'.assembly.messages.take turn'.assembly.shape.prefixEnd
      ∧ turn.assembly.messages.take turn.assembly.shape.stableEnd
        = turn'.assembly.messages.take turn'.assembly.shape.stableEnd
      ∧ ∃ items raw raw',
        StableFirst messages ((after fmt before).view fmt) ownerId e artifactsE hostInstructions
            turn.assembly items raw
          ∧ StableFirst messages ((after fmt before').view fmt) ownerId f artifactsF
            hostInstructions turn'.assembly items raw' := by
  refine assemble_extends (readsFrom_after hb hp) (readsFrom_after hb' hp)
    he hf hcl hv ?_ h h'
  intro artifact hm artifact' hst
  obtain ⟨put, hput, hid, heq⟩ := artifactAt_after hp hst
  exact (hids ownerId put hput artifact hm hid.symm).trans heq

/-! ### A conversation of two messages, an instruction that stays and a note -/

/-- Messages of two people in the plain form of a sample. -/
def conversationFormat : MessageFormat (Role × String) where
  role := Prod.fst
  text := Prod.mk
  digest := Prod.snd
  native := fun _ => none

def conversationId (n : ℕ) : String :=
  String.ofList ("sha256:".toList ++ replicate 63 '0' ++ [n.digitChar])

variable {n : ℕ}

theorem isSha256Identity_conversationId (hn : n < 10) :
    isSha256Identity (conversationId n) = true := by
  unfold isSha256Identity conversationId
  simp only [String.toList_ofList]
  revert n
  decide +kernel

theorem conversationId_lt : conversationId 7 < conversationId 8 := by
  rw [String.lt_iff_toList_lt]
  unfold conversationId
  simp only [String.toList_ofList]
  decide +kernel

/-- The checks of the ids of a conversation. -/
theorem isIdSet_conversation :
    isIdSet [conversationId 7] = true ∧ isIdSet [conversationId 7, conversationId 8] = true := by
  unfold isIdSet
  simp only [all_cons, all_nil, isSha256Identity_conversationId (show 7 < 10 by decide),
    isSha256Identity_conversationId (show 8 < 10 by decide), Bool.and_self, Bool.true_and,
    decide_eq_true_eq]
  exact ⟨pairwise_singleton _ _, pairwise_pair.mpr conversationId_lt⟩

def conversationRecord (n : ℕ) (hn : 0 < n) : RuntimeHistoryRecord (Role × String) where
  feedId := "feed"
  sequence := n
  messageId := n.repr
  message := (if n = 1 then .user else .assistant, n.repr)
  predecessorId := if n = 1 then none else some (conversationId (n - 1))
  id := conversationId n
  canonical := n.repr
  sequence_pos := hn
  predecessor_iff := by
    by_cases h : n = 1
    · rw [if_pos h]
      exact iff_of_true rfl h
    · rw [if_neg h]
      exact iff_of_false nofun h

def conversationArtifact (cls : StabilityClass) (placement : ContextPlacement) (n : ℕ) :
    ContextArtifactData where
  kind := .derivedContext
  producerId := "host"
  sourceDigest := conversationId 9
  mediaType := "text/plain"
  placement := placement
  content := .str n.repr
  stabilityClass := some cls

def instruction : ContextArtifact where
  data := conversationArtifact .stable .beforeHistory 7
  id := conversationId 7
  canonical := "7"
  valid := by
    unfold valid
    dsimp only [conversationArtifact]
    rw [isSha256Identity_conversationId (by decide)]
    decide +kernel

def note : ContextArtifact where
  data := conversationArtifact .volatile .afterHistory 8
  id := conversationId 8
  canonical := "8"
  valid := by
    unfold valid
    dsimp only [conversationArtifact]
    rw [isSha256Identity_conversationId (by decide)]
    decide +kernel

def conversationStore : ContextFormat where
  rangeDigest := fun _ => conversationId 6
  rangeUri := fun _ _ _ _ _ => "uri"
  parseArtifact := fun canonical => if canonical = "7" then .ok instruction else .ok note

def conversationData (through : ℕ) (ids : List String) : ContextEpochData where
  runId := "run"
  sequence := through
  predecessorId := if through = 1 then none else some (conversationId 5)
  feedId := "feed"
  rawFromSequence := 1
  rawThroughSequence := through
  rawWindowDigest := conversationId 6
  artifactIds := ids
  orderedArtifactIds := some ids
  prefixClaim := if through = 1 then none else some .extends
  assemblyLayout := .stableFirst

theorem mergeSort_ids : [instruction.id, note.id].mergeSort (· ≤ ·) = [instruction.id, note.id] :=
  mergeSort_of_pairwise (pairwise_pair.mpr
    (decide_eq_true conversationId_lt.le))

def firstEpoch : ContextEpoch where
  data := conversationData 1 [instruction.id]
  id := conversationId 5
  valid := by
    unfold ContextEpochData.valid
    dsimp only [conversationData, all_some]
    rw [mergeSort_singleton, isSha256Identity_conversationId (by decide),
      show isIdSet [instruction.id] = true from isIdSet_conversation.1]
    simp only [decide_true]
    decide +kernel

def secondEpoch : ContextEpoch where
  data := conversationData 2 [instruction.id, note.id]
  id := conversationId 4
  valid := by
    unfold ContextEpochData.valid
    dsimp only [conversationData, all_some]
    rw [mergeSort_ids, isSha256Identity_conversationId (by decide),
      show isIdSet [instruction.id, note.id] = true from isIdSet_conversation.2]
    simp only [decide_true]
    rw [if_neg (by decide), all_some, isSha256Identity_conversationId (by decide)]
    decide +kernel

/-- The calls that store the records and artifacts of both turns. -/
def conversation : List (StoreCall (Role × String)) := [
  .putArtifact "owner" instruction,
  .appendHistory ⟨"owner", "feed"⟩ (conversationRecord 1 Nat.one_pos) none,
  .putArtifact "owner" note,
  .appendHistory ⟨"owner", "feed"⟩ (conversationRecord 2 Nat.two_pos) (some (conversationId 1))]

def plainProvider : Provider (Role × String) (List (Role × String)) Unit where
  prepare := .ok
  probe := fun _ => none
  encodedSize := length
  readPrefixFields := fun _ _ _ _ => .ok ()
  checkReceipt := fun _ _ => .ok ()


def firstTurn : RuntimeTurn (Role × String) (List (Role × String)) Unit where
  assembly := {
    messages := [(.system, "host"), (.user, "7"), (.user, "1"), (.user, "extra")]
    shape := { messages := 4, stableEnd := 2, prefixEnd := 3 }
    mandatoryBytes := 0 }
  request := [(.system, "host"), (.user, "7"), (.user, "1"), (.user, "extra")]
  fields := some ()

def secondTurn : RuntimeTurn (Role × String) (List (Role × String)) Unit where
  assembly := {
    messages := [(.system, "host"), (.user, "7"), (.user, "1"), (.assistant, "2"), (.user, "8")]
    shape := { messages := 5, stableEnd := 2, prefixEnd := 4 }
    mandatoryBytes := 0 }
  request := [(.system, "host"), (.user, "7"), (.user, "1"), (.assistant, "2"), (.user, "8")]
  fields := some ()

/-- The feed of the conversation after its first message. -/
def firstFeed : HistoryFeed (Role × String) :=
  HistoryFeed.append {} (conversationRecord 1 Nat.one_pos)

/-- The feed of the conversation after both messages. -/
def secondFeed : HistoryFeed (Role × String) :=
  firstFeed.append (conversationRecord 2 Nat.two_pos)

/-- The store after the first two calls. -/
def firstStore : InMemoryContextStore (Role × String) where
  feeds := insert ∅ (toLex ("owner", "feed")) firstFeed
  artifacts := insert ∅ (toLex ("owner", instruction.id)) "7"

/-- The store after the first three calls. -/
def notedStore : InMemoryContextStore (Role × String) where
  feeds := firstStore.feeds
  artifacts := firstStore.artifacts.insert (toLex ("owner", note.id)) "8"

/-- The store after all calls. -/
def secondStore : InMemoryContextStore (Role × String) where
  feeds := firstStore.feeds.insert (toLex ("owner", "feed")) secondFeed
  artifacts := notedStore.artifacts

theorem after_first : after conversationStore (conversation.take 2) = firstStore := rfl

variable {fmt : ContextFormat} {store : InMemoryContextStore M} {ownerId : String}
  {artifact : ContextArtifact}

theorem call_putArtifact {store' : InMemoryContextStore M} {result : ContextArtifactPutResult}
    (h : store.putArtifact ownerId artifact = .ok (result, store')) :
    store.call fmt (.putArtifact ownerId artifact) = (.ok (.put result), store') := by
  unfold call
  dsimp only
  rw [h]

variable {record : RuntimeHistoryRecord M}

theorem call_appendHistory {store' : InMemoryContextStore M} {feed : ContextStoreFeed}
    {expectedHeadId : Option String} {result : ContextStoreAppendResult}
    (h : store.appendHistory feed record expectedHeadId = .ok (result, store')) :
    store.call fmt (.appendHistory feed record expectedHeadId)
      = (.ok (.append result), store') := by
  unfold call
  dsimp only
  rw [h]

theorem validateFeed_conversation : validateFeed ⟨"owner", "feed"⟩ = .ok () := by
  unfold validateFeed validateOwnerId
  decide +kernel

theorem putArtifact_note : firstStore.putArtifact "owner" note = .ok (.stored, notedStore) := by
  have hf : firstStore.artifacts.find? (toLex ("owner", note.id)) = none := by
    refine (find?_insert_of_ne _ (fun h => ?_) _).trans rfl
    exact conversationId_lt.ne' (congrArg Prod.snd (toLex_inj.mp h))
  unfold putArtifact
  rw [show validateOwnerId "owner" = .ok () from rfl, hf]
  rfl

theorem appendHistory_second :
    notedStore.appendHistory ⟨"owner", "feed"⟩ (conversationRecord 2 Nat.two_pos)
      (some (conversationId 1)) = .ok (.appended, secondStore) := by
  have hc : checkAppend ⟨"owner", "feed"⟩ (conversationRecord 2 Nat.two_pos)
      (some (conversationId 1)) = .ok () := by
    unfold checkAppend
    rw [validateFeed_conversation, all_some, isSha256Identity_conversationId (by decide)]
    rfl
  have hfol : followsHead (conversationRecord 2 Nat.two_pos) (some (conversationId 1)) 1
      (conversationId 1) = true := by
    unfold followsHead
    simp [conversationRecord]
  have hr : firstFeed.appendResult (conversationRecord 2 Nat.two_pos)
      (some (conversationId 1)) = .appended := by
    unfold HistoryFeed.appendResult
    rw [show firstFeed.canonicalRecords.find? _ = none from rfl,
      show firstFeed.messageSequences.contains _ = false from rfl,
      show firstFeed.size = 1 from rfl, show firstFeed.headId = conversationId 1 from rfl, hfol]
    rfl
  have hf : notedStore.feed ⟨"owner", "feed"⟩ = firstFeed := by
    unfold feed
    rw [show notedStore.feeds = insert ∅ (toLex ("owner", "feed")) firstFeed from rfl,
      show ContextStoreFeed.key ⟨"owner", "feed"⟩ = toLex ("owner", "feed") from rfl,
      find?_insert_self]
    rfl
  unfold appendHistory
  rw [hc, hf, hr]
  rfl

theorem after_second : after conversationStore conversation = secondStore := by
  have hl : conversation.drop 2 = [.putArtifact "owner" note, .appendHistory ⟨"owner", "feed"⟩
    (conversationRecord 2 Nat.two_pos) (some (conversationId 1))] := rfl
  rw [← take_append_drop 2 conversation]
  unfold after
  rw [foldl_append, show foldl _ _ _ = firstStore from after_first, hl,
    foldl_cons, foldl_cons, foldl_nil, call_putArtifact putArtifact_note,
    call_appendHistory appendHistory_second]

theorem selectArtifact_conversation {store : InMemoryContextStore (Role × String)}
    {id canonical : String} (hid : isSha256Identity id = true)
    (hf : store.artifacts.find? (toLex ("owner", id)) = some canonical)
    (hp : conversationStore.parseArtifact canonical = .ok artifact)
    (hkd : artifact.data.kind ≠ .requiredSkill) :
    selectArtifact (store.view conversationStore) {} "owner" id = .ok artifact := by
  have hg : getArtifact conversationStore store "owner" id = .ok (some artifact) := by
    unfold getArtifact
    rw [show validateOwnerId "owner" = .ok () from rfl, hid, hf]
    dsimp only
    rw [hp]
    rfl
  unfold selectArtifact view
  dsimp only
  rw [hg]
  simp [ofStore, bind, Except.bind, hkd]

theorem select_first :
    firstEpoch.data.artifactIds.mapM (selectArtifact (firstStore.view conversationStore) {} "owner")
      = .ok [instruction] := by
  have hid : isSha256Identity instruction.id = true :=
    isSha256Identity_conversationId (by decide)
  show [instruction.id].mapM _ = _
  rw [mapM_cons, selectArtifact_conversation hid (find?_insert_self _ _ _) rfl (by decide)]
  rfl

theorem select_second : secondEpoch.data.artifactIds.mapM
        (selectArtifact (secondStore.view conversationStore) {} "owner")
      = .ok [instruction, note] := by
  have hne : toLex ("owner", instruction.id) ≠ toLex ("owner", note.id) := fun h =>
    conversationId_lt.ne (congrArg Prod.snd (toLex_inj.mp h))
  have hid : isSha256Identity instruction.id = true :=
    isSha256Identity_conversationId (by decide)
  have hid' : isSha256Identity note.id = true :=
    isSha256Identity_conversationId (by decide)
  show [instruction.id, note.id].mapM _ = _
  rw [mapM_cons, mapM_cons, selectArtifact_conversation hid
      ((find?_insert_of_ne _ hne _).trans (find?_insert_self _ _ _)) rfl
      (by decide),
    selectArtifact_conversation hid' (find?_insert_self _ _ _) rfl (by decide)]
  rfl

/-- The window of an epoch, once its records are read. -/
theorem rawMessages_of_hydrated {store : ContextStore M} {epoch : ContextEpoch}
    {range : ContextHistoryRange} {records : List (RuntimeHistoryRecord M)} {raw : List M}
    (hf : epoch.data.rawFromSequence ≠ 0)
    (hs : store.snapshotHistory ⟨ownerId, epoch.data.feedId⟩ epoch.data.rawFromSequence
      epoch.data.rawThroughSequence = .ok range)
    (hdg : range.digest = epoch.data.rawWindowDigest)
    (hhydrate : store.hydrateRecords range = .ok records)
    (hv : verifyHistory records epoch = .ok raw) :
    rawMessages store ownerId epoch = .ok raw := by
  unfold rawMessages
  rw [if_neg hf, hs]
  simp [ofStore, hdg, hhydrate, hv, bind, Except.bind]

variable {f : HistoryFeed M} {feedId : String} {jsonl : String}

/-- A range that begins a feed is read back. -/
theorem hydrateRecords_of_read {records : List (RuntimeHistoryRecord M)}
    {last : Option String} (hvld : validateFeed ⟨ownerId, feedId⟩ = .ok ())
    (hdg : isSha256Identity (fmt.rangeDigest jsonl) = true)
    (hf : store.feeds.find? (toLex (ownerId, feedId)) = some f) (hn : n < maxRangeRecords)
    (hrd : (range' 1 (n + 1)).foldlM (hydrateOne f feedId) {} = .ok ⟨jsonl, records, last⟩) :
    hydrateRecords fmt store (fmt.range ⟨ownerId, feedId⟩ 1 (n + 1) jsonl) = .ok records := by
  unfold hydrateRecords ContextFormat.validateRange ContextFormat.range
  dsimp only
  rw [hvld, hf]
  simp [predecessorOf, hrd, hn, hdg, bind, Except.bind, pure, Except.pure]

/-- A range that begins a feed. -/
theorem snapshotHistory_of_text (hvld : validateFeed ⟨ownerId, feedId⟩ = .ok ())
    (hf : store.feeds.find? (toLex (ownerId, feedId)) = some f) (hn : n < maxRangeRecords)
    (hsz : f.size = n + 1) (ht : rangeText f 1 (n + 1) = .ok jsonl) :
    snapshotHistory fmt store ⟨ownerId, feedId⟩ 1 (n + 1)
      = .ok (fmt.range ⟨ownerId, feedId⟩ 1 (n + 1) jsonl) := by
  unfold snapshotHistory ContextStoreFeed.key
  rw [hvld, hf]
  simp [hsz, ht, hn, bind, Except.bind]

theorem hydrateOne_of_find {line : String} {state : Hydration M} {sequence : ℕ}
    (hln : f.canonicalRecords.find? sequence = some line)
    (hr : f.records.find? sequence = some record) (had : addLine state.jsonl line = .ok jsonl)
    (hch : inChain feedId sequence state.predecessor record = true) :
    hydrateOne f feedId state sequence
      = .ok ⟨jsonl, state.records ++ [record], some record.id⟩ := by
  unfold hydrateOne
  rw [hln, hr]
  simp [had, hch, bind, Except.bind]

/-- The window of an epoch of the conversation. -/
theorem rawMessages_conversation {store : InMemoryContextStore (Role × String)}
    {epoch : ContextEpoch} {n : ℕ} {f : HistoryFeed (Role × String)} {jsonl : String}
    {records : List (RuntimeHistoryRecord (Role × String))} {last : Option String}
    {raw : List (Role × String)}
    (hep : epoch.data.rawFromSequence = 1 ∧ epoch.data.rawThroughSequence = n + 1
      ∧ epoch.data.feedId = "feed" ∧ epoch.data.rawWindowDigest = conversationId 6)
    (hf : store.feeds.find? (toLex ("owner", "feed")) = some f) (hn : n < maxRangeRecords)
    (hsz : f.size = n + 1) (ht : rangeText f 1 (n + 1) = .ok jsonl)
    (hrd : (range' 1 (n + 1)).foldlM (hydrateOne f "feed") {} = .ok ⟨jsonl, records, last⟩)
    (hv : verifyHistory records epoch = .ok raw) :
    rawMessages (store.view conversationStore) "owner" epoch = .ok raw := by
  obtain ⟨hfst, hl, hfd, hdg⟩ := hep
  refine rawMessages_of_hydrated (by rw [hfst]; exact one_ne_zero) ?_ hdg.symm
    (hydrateRecords_of_read validateFeed_conversation
      (isSha256Identity_conversationId (show 6 < 10 by decide)) hf hn hrd) hv
  rw [hfst, hl, hfd]
  exact snapshotHistory_of_text validateFeed_conversation hf hn hsz ht

theorem rawMessages_first :
    rawMessages (firstStore.view conversationStore) "owner" firstEpoch = .ok [(.user, "1")] := by
  have hrd : (range' 1 1).foldlM (hydrateOne firstFeed "feed") {}
      = .ok ⟨"1", [conversationRecord 1 Nat.one_pos], some (conversationId 1)⟩ := rfl
  exact @rawMessages_conversation firstStore firstEpoch 0 _ _ _ _ _ ⟨rfl, rfl, rfl, rfl⟩
    (find?_insert_self _ _ _) (by decide) rfl rfl hrd rfl

theorem rawMessages_second : rawMessages (secondStore.view conversationStore) "owner" secondEpoch
      = .ok [(.user, "1"), (.assistant, "2")] := by
  have hch : inChain "feed" 2 (some (conversationId 1)) (conversationRecord 2 Nat.two_pos)
      = true := by
    unfold inChain
    simp [conversationRecord]
  have hw : continuesWindow "feed" 2 (some (conversationId 1))
      (conversationRecord 2 Nat.two_pos) = true := by
    unfold continuesWindow
    simp [conversationRecord]
  have hrd : (range' 1 2).foldlM (hydrateOne secondFeed "feed") {}
      = .ok ⟨"1\n2", [conversationRecord 1 Nat.one_pos, conversationRecord 2 Nat.two_pos],
        some (conversationId 2)⟩ := by
    refine bind_eq_ok.mpr ⟨⟨"1", [conversationRecord 1 Nat.one_pos], some (conversationId 1)⟩, rfl,
      bind_eq_ok.mpr ⟨_, hydrateOne_of_find rfl rfl rfl hch, rfl⟩⟩
  have hv : verifyHistory
      [conversationRecord 1 Nat.one_pos, conversationRecord 2 Nat.two_pos] secondEpoch
      = .ok [(.user, "1"), (.assistant, "2")] := by
    have hverified : verifyChain secondEpoch.data.feedId
        [conversationRecord 1 Nat.one_pos, conversationRecord 2 Nat.two_pos]
        secondEpoch.data.rawFromSequence none = .ok 3 := by
      show (if continuesWindow "feed" 1 none (conversationRecord 1 Nat.one_pos) then
          (if continuesWindow "feed" 2 (some (conversationId 1))
              (conversationRecord 2 Nat.two_pos) then _ else _) else _) = _
      rw [if_pos hw]
      rfl
    unfold verifyHistory
    rw [hverified]
    rfl
  exact @rawMessages_conversation secondStore secondEpoch 1 _ _ _ _ _ ⟨rfl, rfl, rfl, rfl⟩
    (find?_insert_self _ _ _) (by decide) rfl rfl hrd hv

theorem validateContextLayout_second :
    validateContextLayout secondEpoch [instruction, note] = .ok () := by decide +kernel

theorem assemble_firstTurn : assemble conversationFormat plainProvider
      ((after conversationStore (conversation.take 2)).view conversationStore) {} 0 "owner"
      firstEpoch [(.system, "host")] [(.user, "extra")] = .ok firstTurn := by
  have ho : orderArtifacts firstEpoch [instruction] = [instruction] := by
    unfold orderArtifacts
    rw [if_pos (show firstEpoch.data.assemblyLayout = .stableFirst from rfl), mergeSort_singleton]
  rw [after_first]
  unfold assemble assembleMessages
  rw [show checkTurn {} 0 "owner" firstEpoch = .ok () from rfl, rawMessages_first, select_first]
  dsimp only [bind, Except.bind]
  rw [show validateContextLayout firstEpoch [instruction] = .ok () by decide +kernel, ho]
  rfl

theorem assemble_secondTurn : assemble conversationFormat plainProvider
      ((after conversationStore conversation).view conversationStore) {} 0 "owner"
      secondEpoch [(.system, "host")] [] = .ok secondTurn := by
  have ho : orderArtifacts secondEpoch [instruction, note] = [instruction, note] := by
    unfold orderArtifacts
    rw [if_pos (show secondEpoch.data.assemblyLayout = .stableFirst from rfl)]
    exact mergeSort_of_pairwise (by decide +kernel)
  rw [after_second]
  unfold assemble assembleMessages
  rw [show checkTurn {} 0 "owner" secondEpoch = .ok () from rfl, rawMessages_second, select_second]
  dsimp only [bind, Except.bind]
  rw [validateContextLayout_second, ho]
  rfl

theorem extends_prefix_conversation :
    firstTurn.assembly.messages.take firstTurn.assembly.shape.prefixEnd
        <+: secondTurn.assembly.messages.take secondTurn.assembly.shape.prefixEnd
      ∧ firstTurn.assembly.messages.take firstTurn.assembly.shape.stableEnd
        = secondTurn.assembly.messages.take secondTurn.assembly.shape.stableEnd := by
  have hk := extends_prefix (List.take_prefix 2 conversation) prefix_rfl (by
      intro owner put hput
      simp only [conversation, mem_cons, StoreCall.putArtifact.injEq, reduceCtorEq,
        not_mem_nil, or_false, false_or] at hput
      obtain ⟨-, rfl⟩ | ⟨-, rfl⟩ := hput
      · rfl
      · rfl) (by
      intro owner put hput artifact hart hid
      simp only [conversation, mem_cons, StoreCall.putArtifact.injEq, reduceCtorEq,
        not_mem_nil, or_false, false_or] at hput
      simp only [cons_append, nil_append, mem_cons, not_mem_nil, or_false,
        or_self_left] at hart
      obtain ⟨-, rfl⟩ | ⟨-, rfl⟩ := hput
      · obtain rfl | rfl := hart
        · rfl
        · exact absurd hid (by decide +kernel)
      · obtain rfl | rfl := hart
        · exact absurd hid (by decide +kernel)
        · rfl)
    rfl rfl rfl
    (show verifyContextEpochClaim secondEpoch [instruction, note] (some firstEpoch) [instruction]
      = .ok () by decide +kernel) assemble_firstTurn assemble_secondTurn
  exact ⟨hk.1, hk.2.1⟩

end InMemoryContextStore

end NeoGraph.Context
