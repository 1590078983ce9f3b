import NeoGraph.Context.AppendOnly

/-!
# What stands in front of the prefix boundary

In the stable-first layout the messages in front of the prefix boundary are the
host instructions, the Stable and Slow artifacts in the order of the epoch, and
the history (`StableFirst`). The Volatile artifacts and the supplemental
messages stand behind it. That holds of every turn that is assembled from a
stable-first epoch (`assembleMessages_stableFirst`): the layout is checked
against the placements, the sort follows the recorded order, and no artifact is
placed at the latest user message.
-/

namespace NeoGraph.Context

open List RenderedArtifact

variable {M P F : Type} {messages : MessageFormat M} {store : ContextStore M}
  {requirements : RuntimeContextRequirements} {maxInputTokens : ℕ} {ownerId : String}
  {epoch : ContextEpoch} {hostInstructions trustedSupplemental : List M}
  {records : ContextStoreFeed → ℕ → Option (RuntimeHistoryRecord M)}
  {artifacts : String → String → Option ContextArtifact}

/-! ## Lists -/

variable {α : Type}

/-- If nothing with a property stands behind something without it, what has it
is the first part of a list. -/
theorem take_length_filter {p : α → Bool} {l : List α}
    (h : l.Pairwise fun a b => p b = true → p a = true) :
    l.take (l.filter p).length = l.filter p := by
  induction l with
  | nil => rfl
  | cons a l ih =>
    obtain ⟨ha, hl⟩ := pairwise_cons.mp h
    by_cases hp : p a = true
    · rw [filter_cons_of_pos hp, length_cons, take_succ_cons, ih hl]
    have hn : l.filter p = [] := by
      rw [filter_eq_nil_iff]
      intro b hb hpb
      exact hp (ha b hb hpb)
    rw [filter_cons_of_neg hp, hn]
    rfl

/-- Lists that are related to a list and a longer one by a function. -/
theorem prefix_of_forall₂ {β : Type} {g : α → Option β} {l l' : List α} {rs rs' : List β}
    (hlong : l <+: l') (h : Forall₂ (fun a b => g a = some b) l rs)
    (h' : Forall₂ (fun a b => g a = some b) l' rs') : rs <+: rs' := by
  induction h generalizing l' rs' with
  | nil => exact nil_prefix
  | cons hab hr ih =>
    obtain ⟨rest, rfl⟩ := hlong
    rw [cons_append] at h'
    cases h' with
    | cons hab' hr' =>
      have heq := Option.some.inj (hab.symm.trans hab')
      rw [heq]
      exact prefix_cons_inj _ |>.mpr (ih (prefix_append _ _) hr')

/-- A result over a list is one of a member. -/
theorem exists_of_mem_mapM {ε β : Type} {f : α → Except ε β} {l : List α} {l' : List β}
    (h : l.mapM f = .ok l') {b : β} (hb : b ∈ l') : ∃ a ∈ l, f a = .ok b := by
  have hall := mapM_eq_ok.mp h
  clear h
  induction hall with
  | nil => cases hb
  | cons hab hr ih =>
    obtain rfl | hb := mem_cons.mp hb
    · exact ⟨_, mem_cons_self, hab⟩
    · obtain ⟨a, ha, hfa⟩ := ih hb
      exact ⟨a, mem_cons_of_mem _ ha, hfa⟩

/-- Lists of the same keys, where a key determines the member. -/
theorem eq_of_map_eq {κ : Type} {key : α → κ} {l l' : List α} (find : κ → Option α)
    (hl : ∀ a ∈ l, find (key a) = some a) (hl' : ∀ a ∈ l', find (key a) = some a)
    (h : l.map key = l'.map key) : l = l' := by
  have hs : ∀ k : List α, (∀ a ∈ k, find (key a) = some a) →
      (k.map key).map find = k.map some := by
    intro k hk
    rw [map_map]
    exact map_congr_left hk
  have hboth := (hs l hl).symm.trans (h ▸ hs l' hl')
  exact map_injective_iff.mpr (Option.some_injective α) hboth

/-! ## The layout -/

variable {l : List ContextArtifact} {id : String} {artifact : ContextArtifact}

theorem artifactById_eq_some (h : artifactById l id = some artifact) :
    artifact ∈ l ∧ artifact.id = id := by
  refine ⟨mem_of_find?_eq_some h, ?_⟩
  have hid := find?_some h
  exact of_decide_eq_true hid

/-- Where a class is placed. -/
def WellPlaced (artifact : ContextArtifact) : Prop :=
  artifact.data.placement
    = if artifact.stabilityClass = .volatile then .afterHistory else .beforeHistory

theorem checkLayoutOf_eq_ok {tier cls : StabilityClass} (h : checkLayoutOf artifact tier = .ok cls)
    : cls = artifact.stabilityClass ∧ WellPlaced artifact ∧ tier.tier ≤ cls.tier := by
  unfold checkLayoutOf at h
  dsimp only at h
  split at h
  · cases h
  rename_i hvol
  split at h
  · cases h
  rename_i hp
  split at h
  · cases h
  rename_i ht
  cases h
  rw [Bool.and_eq_true, decide_eq_true_eq, decide_eq_true_eq, not_and, not_not] at hvol
  rw [Bool.and_eq_true, decide_eq_true_eq, decide_eq_true_eq, not_and, not_not] at hp
  refine ⟨rfl, ?_, Nat.le_of_not_lt ht⟩
  unfold WellPlaced
  split
  · rename_i hcls
    exact hvol hcls
  · rename_i hcls
    exact hp hcls

variable {ids : List String}

/-- A layout that is let through goes from stable to volatile. -/
theorem checkLayout_eq_ok {tier : StabilityClass} (h : checkLayout l ids tier = .ok ()) :
    (∀ id ∈ ids, ∃ artifact, artifactById l id = some artifact ∧ WellPlaced artifact)
      ∧ (tier.tier :: ids.map fun id => (classOf l id).tier).Pairwise (· ≤ ·) := by
  induction ids generalizing tier with
  | nil => exact ⟨nofun, pairwise_singleton _ _⟩
  | cons id ids ih =>
    unfold checkLayout at h
    split at h
    · cases h
    rename_i artifact hart
    rw [bind_eq_ok] at h
    obtain ⟨cls, ho, hr⟩ := h
    obtain ⟨rfl, hp, ht⟩ := checkLayoutOf_eq_ok ho
    obtain ⟨ha, hs⟩ := ih hr
    have hcls : classOf l id = artifact.stabilityClass := by
      unfold classOf
      rw [hart]
      rfl
    constructor
    · intro id' hid'
      obtain rfl | hid' := mem_cons.mp hid'
      · exact ⟨artifact, hart, hp⟩
      · exact ha id' hid'
    · rw [map_cons, hcls]
      refine pairwise_cons.mpr ⟨fun n hn => ?_, hs⟩
      obtain rfl | hn := mem_cons.mp hn
      · exact ht
      · exact ht.trans (rel_of_pairwise_cons hs hn)

theorem validateContextLayout_eq_ok (hs : epoch.data.assemblyLayout = .stableFirst)
    (h : validateContextLayout epoch l = .ok ()) :
    checkLayout l epoch.ordered .stable = .ok () := by
  unfold validateContextLayout at h
  rw [if_neg (not_not.mpr hs), bind_unit_eq_ok] at h
  exact h.2

theorem selectedArtifacts_eq_ok (h : selectedArtifacts epoch l = .ok ())
    (hid : id ∈ epoch.data.artifactIds) : ∃ artifact, artifactById l id = some artifact := by
  unfold selectedArtifacts at h
  split at h
  · cases h
  rename_i hg
  rw [Bool.or_eq_true, not_or] at hg
  have ha := hg.2
  rw [Bool.not_eq_true, Bool.not_eq_false', all_eq_true] at ha
  exact Option.isSome_iff_exists.mp (ha id hid)

/-- A stable-first epoch orders exactly its artifacts. -/
theorem mem_ordered_iff (hstb : epoch.data.assemblyLayout = .stableFirst) (id : String) :
    id ∈ epoch.ordered ↔ id ∈ epoch.data.artifactIds := by
  have hv := epoch.valid
  unfold ContextEpochData.valid at hv
  simp only [Bool.and_eq_true, hstb] at hv
  obtain ⟨⟨⟨⟨-, hordered⟩, hs⟩, -⟩, -⟩ := hv
  unfold ContextEpoch.ordered
  cases heq : epoch.data.orderedArtifactIds with
  | none =>
    rw [heq] at hs
    cases hs
  | some ordered =>
    rw [heq] at hordered
    rw [← of_decide_eq_true hordered]
    exact (mergeSort_perm ordered _).mem_iff.symm

/-! ## What a turn is assembled from -/

variable {assembly : Assembly M}

/-- The parts of the messages of a turn. -/
theorem assembleMessages_eq_ok (hs : epoch.data.assemblyLayout = .stableFirst)
    (h : assembleMessages messages store requirements maxInputTokens ownerId epoch
      hostInstructions trustedSupplemental = .ok assembly) :
    ∃ raw selected rendered, rawMessages store ownerId epoch = .ok raw
      ∧ epoch.data.artifactIds.mapM (selectArtifact store requirements ownerId) = .ok selected
      ∧ validateContextLayout epoch selected = .ok ()
      ∧ (orderArtifacts epoch selected).mapM (render messages) = .ok rendered
      ∧ assembly.messages = hostInstructions ++ mergeMessages messages raw rendered
        ++ supplemental messages raw trustedSupplemental
      ∧ checkStableFirst messages epoch hostInstructions.length rendered assembly.messages = .ok ()
      ∧ assembly.shape
        = prefixShape messages hostInstructions.length rendered raw assembly.messages := by
  unfold assembleMessages at h
  rw [bind_unit_eq_ok] at h
  obtain ⟨-, h⟩ := h
  rw [bind_eq_ok] at h
  obtain ⟨raw, hraw, h⟩ := h
  rw [bind_eq_ok] at h
  obtain ⟨selected, hsel, h⟩ := h
  rw [bind_unit_eq_ok] at h
  obtain ⟨hlay, h⟩ := h
  dsimp only at h
  rw [bind_unit_eq_ok] at h
  obtain ⟨-, h⟩ := h
  rw [bind_eq_ok] at h
  obtain ⟨rendered, hrendered, h⟩ := h
  rw [if_neg (not_not.mpr hs), bind_unit_eq_ok] at h
  obtain ⟨hc, h⟩ := h
  cases h
  exact ⟨raw, selected, rendered, hraw, hsel, hlay, hrendered, rfl, hc, rfl⟩

theorem ofStore_eq_ok {answer : Except Exn α} {a : α} (h : ofStore answer = .ok a) :
    answer = .ok a := by
  unfold ofStore at h
  split at h
  · cases h
    rfl
  · cases h

theorem selectArtifact_eq_ok (h : selectArtifact store requirements ownerId id = .ok artifact) :
    store.getArtifact ownerId id = .ok (some artifact) := by
  unfold selectArtifact at h
  rw [bind_eq_ok] at h
  obtain ⟨answer, ha, h⟩ := h
  rw [ofStore_eq_ok ha]
  split at h
  · cases h
  rename_i artifact'
  dsimp only [bind, Except.bind, pure, Except.pure] at h
  split at h
  · cases h
  split at h
  · cases h
  split at h
  · cases h
  · cases h
    rfl

variable {selected : List ContextArtifact}

/-- The selected artifacts are those that the store has under the ids of the epoch. -/
theorem mem_selected (hrd : store.ReadsFrom records artifacts)
    (h : ids.mapM (selectArtifact store requirements ownerId) = .ok selected)
    (hm : artifact ∈ selected) :
    artifact.id ∈ ids ∧ artifacts ownerId artifact.id = some artifact := by
  obtain ⟨id, hid, hs⟩ := exists_of_mem_mapM h hm
  obtain ⟨hart, rfl⟩ := hrd.artifact (selectArtifact_eq_ok hs)
  exact ⟨hid, hart⟩

variable {rendered : List (RenderedArtifact M)}

/-- A rendered artifact is rendered from one of the list. -/
theorem mem_rendered (h : l.mapM (render messages) = .ok rendered) {item : RenderedArtifact M}
    (hm : item ∈ rendered) : item.artifact ∈ l ∧ render messages item.artifact = .ok item := by
  obtain ⟨artifact, hart, hr⟩ := exists_of_mem_mapM h hm
  have heq : item.artifact = artifact := by
    unfold render at hr
    rw [bind_eq_ok] at hr
    obtain ⟨text, -, hi⟩ := hr
    cases hi
    rfl
  rw [heq]
  exact ⟨hart, hr⟩

theorem mem_orderArtifacts : artifact ∈ orderArtifacts epoch l ↔ artifact ∈ l := by
  unfold orderArtifacts
  split <;> exact (mergeSort_perm _ _).mem_iff

/-! ## The messages in front of the boundary -/

/-- **What a stable-first turn consists of** in front of its prefix boundary:
the host instructions, the Stable and Slow artifacts of the epoch in its order,
and the history. The Stable part ends behind the Stable artifacts. -/
structure StableFirst (messages : MessageFormat M) (store : ContextStore M) (ownerId : String)
    (epoch : ContextEpoch) (selected : List ContextArtifact) (hostInstructions : List M)
    (assembly : Assembly M) (items : List (RenderedArtifact M)) (raw : List M) : Prop where
  history : rawMessages store ownerId epoch = .ok raw
  order : (items.map fun item => item.artifact.id) = stablePrefix epoch selected
  rendered : ∀ item ∈ items, item.artifact ∈ selected ∧ render messages item.artifact = .ok item
  nonvolatile : ∀ item ∈ items, item.artifact.stabilityClass ≠ .volatile
  prefixPart : assembly.messages.take assembly.shape.prefixEnd
    = hostInstructions ++ items.map message ++ raw
  stablePart : assembly.messages.take assembly.shape.stableEnd
    = hostInstructions ++ (items.filter fun item =>
      item.artifact.stabilityClass = .stable).map message

/-- Where a well placed artifact stands says whether it is Volatile. -/
theorem WellPlaced.beforeHistory_iff (h : WellPlaced artifact) :
    artifact.data.placement = .beforeHistory ↔ artifact.stabilityClass ≠ .volatile := by
  unfold WellPlaced at h
  rw [h]
  split_ifs with hvol
  · exact ⟨nofun, fun hne => absurd hvol hne⟩
  · exact ⟨fun _ => hvol, fun _ => rfl⟩

theorem WellPlaced.afterHistory_iff (h : WellPlaced artifact) :
    artifact.data.placement = .afterHistory ↔ artifact.stabilityClass = .volatile := by
  unfold WellPlaced at h
  rw [h]
  split
  · rename_i hvol
    exact ⟨fun _ => hvol, fun _ => rfl⟩
  · rename_i hne
    exact ⟨nofun, fun hvol => absurd hvol hne⟩

theorem placedAt_eq_nil {placement : ContextPlacement}
    (h : ∀ item ∈ rendered, WellPlaced item.artifact) (hb : placement ≠ .beforeHistory)
    (haft : placement ≠ .afterHistory) : placedAt placement rendered = [] := by
  unfold placedAt
  rw [filter_eq_nil_iff]
  intro item hi hpl
  have hp := h item hi
  unfold WellPlaced at hp
  rw [of_decide_eq_true hpl] at hp
  split at hp
  · exact haft hp
  · exact hb hp

/-- The history stands in one piece between well placed artifacts. -/
theorem mergeMessages_wellPlaced (h : ∀ item ∈ rendered, WellPlaced item.artifact) (raw : List M) :
    mergeMessages messages raw rendered
      = (placedAt .beforeHistory rendered).map message ++ raw
        ++ (placedAt .afterHistory rendered).map message := by
  unfold mergeMessages
  dsimp only
  have hb : placedAt .beforeLatestUser rendered = [] :=
    placedAt_eq_nil h (by decide) (by decide)
  have haft : placedAt .afterLatestUser rendered = [] :=
    placedAt_eq_nil h (by decide) (by decide)
  have hr : (raw.drop (insertion messages raw)).take 1
      ++ raw.drop (insertion messages raw + 1) = raw.drop (insertion messages raw) := by
    rw [← drop_drop]
    exact take_append_drop 1 _
  rw [hb, haft, map_nil, append_nil, append_nil,
    append_assoc (_ ++ _) _ (raw.drop _), hr, append_assoc _ (raw.take _),
    take_append_drop]

/-- The selected artifacts of a checked layout are well placed, and the class of
an id is that of its artifact. -/
theorem checkLayout_selected (hrd : store.ReadsFrom records artifacts)
    (hs : epoch.data.assemblyLayout = .stableFirst)
    (hsel : epoch.data.artifactIds.mapM (selectArtifact store requirements ownerId) = .ok selected)
    (hlay : validateContextLayout epoch selected = .ok ()) (hm : artifact ∈ selected) :
    WellPlaced artifact ∧ classOf selected artifact.id = artifact.stabilityClass := by
  obtain ⟨hid, hart⟩ := mem_selected hrd hsel hm
  obtain ⟨ha, -⟩ := checkLayout_eq_ok (validateContextLayout_eq_ok hs hlay)
  obtain ⟨artifact', hf, hp⟩ := ha _ ((mem_ordered_iff hs _).mpr hid)
  obtain ⟨hm', hid'⟩ := artifactById_eq_some hf
  have hsm := (mem_selected hrd hsel hm').2
  rw [hid', hart] at hsm
  cases hsm
  refine ⟨hp, ?_⟩
  unfold classOf
  rw [hf]
  rfl

theorem checkStableFirst_eq_ok {ho : ℕ} {assembled : List M}
    (h : checkStableFirst messages epoch ho rendered assembled = .ok ()) :
    (placedAt .beforeHistory rendered ++ placedAt .afterHistory rendered).map
      (fun item => item.artifact.id) = epoch.ordered := by
  unfold checkStableFirst at h
  split at h
  · cases h
  split at h
  · cases h
  · rename_i _ heq
    exact not_not.mp heq

section Rendered

variable {rendered : List (RenderedArtifact M)} {selected : List ContextArtifact}

theorem mem_placedAt_beforeHistory (hw : ∀ item ∈ rendered, WellPlaced item.artifact)
    {item : RenderedArtifact M} (h : item ∈ placedAt .beforeHistory rendered) :
    item ∈ rendered ∧ item.artifact.stabilityClass ≠ .volatile := by
  obtain ⟨hm, hp⟩ := mem_filter.mp h
  exact ⟨hm, (hw item hm).beforeHistory_iff.mp (of_decide_eq_true hp)⟩

/-- The Volatile artifacts of the order are those behind the history. -/
theorem map_placedAt_beforeHistory (hw : ∀ item ∈ rendered, WellPlaced item.artifact)
    (hcls : ∀ item ∈ rendered, classOf selected item.artifact.id = item.artifact.stabilityClass)
    (ho : (placedAt .beforeHistory rendered ++ placedAt .afterHistory rendered).map
      (fun item => item.artifact.id) = epoch.ordered) :
    ((placedAt .beforeHistory rendered).map fun item => item.artifact.id)
      = stablePrefix epoch selected := by
  unfold stablePrefix
  rw [← ho, map_append, filter_append]
  have hkp : ((placedAt .beforeHistory rendered).map fun item => item.artifact.id).filter
      (fun id => classOf selected id ≠ .volatile)
      = (placedAt .beforeHistory rendered).map fun item => item.artifact.id := by
    rw [filter_eq_self]
    intro id hid
    obtain ⟨item, hm, rfl⟩ := mem_map.mp hid
    obtain ⟨hm, hne⟩ := mem_placedAt_beforeHistory hw hm
    rw [hcls item hm]
    exact decide_eq_true hne
  have hdr : ((placedAt .afterHistory rendered).map fun item => item.artifact.id).filter
      (fun id => classOf selected id ≠ .volatile) = [] := by
    rw [filter_eq_nil_iff]
    intro id hid hne
    obtain ⟨item, hm, rfl⟩ := mem_map.mp hid
    obtain ⟨hm, hp⟩ := mem_filter.mp hm
    rw [hcls item hm] at hne
    exact of_decide_eq_true hne
      ((hw item hm).afterHistory_iff.mp (of_decide_eq_true hp))
  rw [hkp, hdr, append_nil]

/-- The Stable artifacts stand in front of the history. -/
theorem filter_stable_placedAt (hw : ∀ item ∈ rendered, WellPlaced item.artifact) :
    (placedAt .beforeHistory rendered).filter (fun item => item.artifact.stabilityClass = .stable)
      = rendered.filter fun item => item.artifact.stabilityClass = .stable := by
  unfold placedAt
  rw [filter_filter]
  refine filter_congr fun item hm => ?_
  by_cases hs : item.artifact.stabilityClass = .stable
  · have hb := (hw item hm).beforeHistory_iff.mpr (by rw [hs]; decide)
    rw [decide_eq_true hs, decide_eq_true hb]
    rfl
  · rw [decide_eq_false hs]
    rfl

/-- No artifact in front of the history stands between two Stable ones. -/
theorem take_stable_placedAt (hcls : ∀ item ∈ rendered,
      classOf selected item.artifact.id = item.artifact.stabilityClass)
    (ho : (placedAt .beforeHistory rendered ++ placedAt .afterHistory rendered).map
      (fun item => item.artifact.id) = epoch.ordered)
    (hlay : checkLayout selected epoch.ordered .stable = .ok ()) :
    (placedAt .beforeHistory rendered).take ((placedAt .beforeHistory rendered).filter
        fun item => item.artifact.stabilityClass = .stable).length
      = (placedAt .beforeHistory rendered).filter
        fun item => item.artifact.stabilityClass = .stable := by
  refine take_length_filter ?_
  obtain ⟨-, hs⟩ := checkLayout_eq_ok hlay
  rw [← ho, map_append, map_append] at hs
  have his := (pairwise_append.mp (pairwise_cons.mp hs).2).1
  rw [map_map, pairwise_map] at his
  refine his.imp_of_mem fun {item item'} hm hm' hle hstb => ?_
  have ht : item'.artifact.stabilityClass.tier = 0 := by
    rw [of_decide_eq_true hstb]
    rfl
  dsimp only [Function.comp] at hle
  rw [hcls item (mem_of_mem_filter hm), hcls item' (mem_of_mem_filter hm'), ht] at hle
  refine decide_eq_true ?_
  cases heq : item.artifact.stabilityClass with
  | stable => rfl
  | slow | volatile =>
    rw [heq] at hle
    cases hle

end Rendered

/-- **A stable-first turn is laid out as its epoch says.** -/
theorem assembleMessages_stableFirst (hrd : store.ReadsFrom records artifacts)
    (hs : epoch.data.assemblyLayout = .stableFirst)
    (h : assembleMessages messages store requirements maxInputTokens ownerId epoch
      hostInstructions trustedSupplemental = .ok assembly) :
    ∃ selected items raw,
      epoch.data.artifactIds.mapM (selectArtifact store requirements ownerId) = .ok selected
      ∧ validateContextLayout epoch selected = .ok ()
      ∧ StableFirst messages store ownerId epoch selected hostInstructions assembly items raw := by
  obtain ⟨raw, selected, rendered, hraw, hsel, hlay, hrendered, hms, hc,
    hsh⟩ := assembleMessages_eq_ok hs h
  have hi : ∀ item ∈ rendered, item.artifact ∈ selected
      ∧ render messages item.artifact = .ok item := by
    intro item hm
    obtain ⟨hart, hr⟩ := mem_rendered hrendered hm
    exact ⟨mem_orderArtifacts.mp hart, hr⟩
  have hw : ∀ item ∈ rendered, WellPlaced item.artifact := fun item hm =>
    (checkLayout_selected hrd hs hsel hlay (hi item hm).1).1
  have hcls : ∀ item ∈ rendered,
      classOf selected item.artifact.id = item.artifact.stabilityClass := fun item hm =>
    (checkLayout_selected hrd hs hsel hlay (hi item hm).1).2
  have ho := checkStableFirst_eq_ok hc
  have hassembled : assembly.messages = hostInstructions
      ++ (placedAt .beforeHistory rendered).map message ++ raw
      ++ ((placedAt .afterHistory rendered).map message
        ++ supplemental messages raw trustedSupplemental) := by
    rw [hms, mergeMessages_wellPlaced hw]
    simp only [append_assoc]
  refine ⟨selected, placedAt .beforeHistory rendered, raw, hsel, hlay, {
    history := hraw
    order := map_placedAt_beforeHistory hw hcls ho
    rendered := fun item hm => hi item (mem_placedAt_beforeHistory hw hm).1
    nonvolatile := fun item hm => (mem_placedAt_beforeHistory hw hm).2
    prefixPart := ?_
    stablePart := ?_ }⟩
  · rw [hassembled, hsh]
    refine take_left' ?_
    simp only [length_append, length_map]
    rfl
  · have htk := take_stable_placedAt hcls ho (validateContextLayout_eq_ok hs hlay)
    rw [filter_stable_placedAt hw] at htk ⊢
    rw [hassembled, hsh, ← htk, append_assoc, append_assoc,
      show (prefixShape messages hostInstructions.length rendered raw assembly.messages).stableEnd
        = hostInstructions.length + (rendered.filter fun item =>
          item.artifact.stabilityClass = .stable).length from rfl,
      take_length_add_append, take_append_of_le_length, map_take]
    rw [length_map, ← filter_stable_placedAt hw]
    exact length_filter_le _ _

end NeoGraph.Context
