import NeoGraph.CanonicalJson.Compare
import NeoGraph.Lib.JsonPointer
import NeoGraph.Program.GraphMigration

/-!
# The review of changed metadata

A migration between two definitions may change their metadata, and the host
that approves it is told where: `metadataChangesBetween` walks both metadata
values and reports the pointer of every place where they differ.

The walk looks at a member that one side lacks as if it were there with the
value null. So it does not see whether a null is there, and calls a null
that becomes a value an addition. `Aligned` says that the two values hold
no such null, and `metadataChangesBetween_iff` that this is the exact
condition under which the review is what the host needs: it is empty only
for equal metadata, every report is true, and carrying out the reported
changes gives the target's metadata.
-/

namespace NeoGraph.Program.Migration

open CanonicalJson Compiler Json List

/-! ## The walk -/

/-- A pointer to a member that was added, removed or changed. -/
structure GraphMetadataChange where
  kind : String
  jsonPointer : Bytes
deriving DecidableEq, Repr

def isNull : Json Bytes → Bool
  | .null => true
  | _ => false

/-- What a place is reported as at which one of the values is no object. -/
def placeChange (appendFloat : UInt64 → Except Exn Bytes) (pointer : Bytes)
    (source target : Json Bytes) : Except Exn (List GraphMetadataChange) :=
  if isNull source && !isNull target then .ok [⟨"added", pointer⟩]
  else if !isNull source && isNull target then .ok [⟨"removed", pointer⟩]
  else do
    let sourceBytes ← canonicalJsonBytes appendFloat source
    let targetBytes ← canonicalJsonBytes appendFloat target
    .ok (if sourceBytes ≠ targetBytes then [⟨"changed", pointer⟩] else [])

/-- The names of the members of both values, each once and in order. -/
def memberNames (source target : Json Bytes) : List Bytes :=
  ((source.members ++ target.members).map Prod.fst).dedup.insertionSort (· ≤ ·)

def walkTooDeep : Exn :=
  .invalidArgument "Program metadata diff: arrays and objects nested deeper than 256 levels"

section Walk

variable (appendFloat : UInt64 → Except Exn Bytes)

/-- The walk, with the number of levels it may still enter. A missing member
is read as null. -/
def collectMetadataChanges : ℕ → Bytes → Json Bytes → Json Bytes →
    Except Exn (List GraphMetadataChange)
  | 0, pointer, source, target =>
    if !source.isObject || !target.isObject then placeChange appendFloat pointer source target
    else .error walkTooDeep
  | levels + 1, pointer, source, target =>
    if !source.isObject || !target.isObject then placeChange appendFloat pointer source target
    else do
      let changes ← (memberNames source target).mapM fun name =>
        collectMetadataChanges levels (pointer ++ 0x2F :: escapeToken name)
          ((source.get? name).getD .null) ((target.get? name).getD .null)
      .ok changes.flatten

/-- A definition that was sealed: it has canonical bytes, of which its hash
is taken. -/
structure SealedCoreDefinition where
  definition : Document
  sealed : ∃ bytes, documentBytes appendFloat definition = .ok bytes

variable {appendFloat}

/-- The metadata of a definition; none is an empty object. -/
def SealedCoreDefinition.metadata (definition : SealedCoreDefinition appendFloat) :
    Json Bytes :=
  ((definition.definition.get? "metadata").getD (.obj [])).mapText utf8

/-- The changes, sorted by their pointers. -/
def metadataChangesBetween (source target : SealedCoreDefinition appendFloat) :
    Except Exn (List GraphMetadataChange) := do
  let changes ← collectMetadataChanges appendFloat maxParseDepth (ascii "/metadata")
    source.metadata target.metadata
  .ok (changes.insertionSort fun c c' => c.jsonPointer ≤ c'.jsonPointer)

end Walk

/-! ## What the host needs -/

section Review

variable (appendFloat : UInt64 → Except Exn Bytes)

/-- The path of a change below the metadata. -/
def GraphMetadataChange.path (change : GraphMetadataChange) : Option (List Bytes) :=
  match readPointer change.jsonPointer with
  | some (name :: path) => if name = ascii "metadata" then some path else none
  | _ => none

/-- The values at one place, if any, differ in the way a kind says. -/
def Differs (kind : String) : Option (Json Bytes) → Option (Json Bytes) → Prop
  | none, some _ => kind = "added"
  | some _, none => kind = "removed"
  | some v, some w => kind = "changed"
    ∧ canonicalJsonBytes appendFloat v ≠ canonicalJsonBytes appendFloat w
  | none, none => False

/-- **A review that misses nothing**: it is empty exactly for values with the
same canonical bytes, its pointers are sorted and different, at each the two
values differ as it says, and replacing these places in the source gives the
target. -/
structure MissesNothing (source target : Json Bytes)
    (changes : List GraphMetadataChange) : Prop where
  empty_iff : changes = []
    ↔ canonicalJsonBytes appendFloat source = canonicalJsonBytes appendFloat target
  sorted : (changes.map GraphMetadataChange.jsonPointer).Pairwise (· < ·)
  kinds : ∀ change ∈ changes, ∃ path, change.path = some path
    ∧ Differs appendFloat change.kind (at? path (some source)) (at? path (some target))
  replaced : ∃ v, replaceAll (changes.filterMap GraphMetadataChange.path) (some target)
      (some source) = some v
    ∧ canonicalJsonBytes appendFloat v = canonicalJsonBytes appendFloat target

end Review

/-- **No null on one side only**: at every place that both values reach by
objects, a null stands in both or in neither, and no null is added or
removed. -/
inductive Aligned : Option (Json Bytes) → Option (Json Bytes) → Prop
  | absent : Aligned none none
  | added {w : Json Bytes} (h : isNull w = false) : Aligned none (some w)
  | removed {v : Json Bytes} (h : isNull v = false) : Aligned (some v) none
  | null : Aligned (some .null) (some .null)
  | values {v w : Json Bytes} (hv : isNull v = false) (hw : isNull w = false)
      (h : v.isObject = false ∨ w.isObject = false) : Aligned (some v) (some w)
  | objects {v w : Json Bytes} (hv : v.isObject = true) (hw : w.isObject = true)
      (h : ∀ name, Aligned (v.get? name) (w.get? name)) : Aligned (some v) (some w)

/-! ## Parts of a value that has canonical bytes -/

section Bytes

variable {appendFloat : UInt64 → Except Exn Bytes} {v s t : Json Bytes}

/-- What the writer accepts is not nested too deep for the review. -/
theorem nesting_of_withinDepth {depth : ℕ} (h : WithinDepth v depth) :
    v.nesting + depth ≤ maxJsonDepth + 1 := by
  induction v using Json.ind generalizing depth with
  | arr items ih =>
    rw [WithinDepth, withinDepthItems_iff] at h
    have his : (arr items).nesting ≤ maxJsonDepth - depth + 1 :=
      (nesting_arr_le_iff items _).mpr fun v hv => by
        have := ih v hv (h.2 v hv)
        omega
    have := h.1
    omega
  | obj members ih =>
    rw [WithinDepth, withinDepthMembers_iff] at h
    have hmbr : (obj members).nesting ≤ maxJsonDepth - depth + 1 :=
      (nesting_obj_le_iff members _).mpr fun m hm => by
        have := ih m hm (h.2 m hm)
        omega
    have := h.1
    omega
  | _ =>
    show 0 + depth ≤ _
    have : depth ≤ maxJsonDepth := h
    omega

theorem written_null : Written appendFloat .null :=
  ⟨ascii "null", canonicalJsonBytes_eq_ok.mpr
    ⟨⟨show 1 ≤ maxJsonDepth by decide, by decide⟩, rfl⟩⟩

theorem written_empty : Written appendFloat (.obj []) :=
  ⟨ascii "\x7b\x7d", canonicalJsonBytes_eq_ok.mpr
    ⟨⟨⟨show 1 ≤ maxJsonDepth by decide, trivial⟩, by decide⟩, rfl⟩⟩

theorem written_getD_get? (h : Written appendFloat v)
    (name : Bytes) : Written appendFloat ((v.get? name).getD .null) := by
  cases hg : v.get? name with
  | none => exact written_null
  | some w => exact h.get? hg

theorem SealedCoreDefinition.written (definition : SealedCoreDefinition appendFloat) :
    Written appendFloat definition.metadata := by
  have hg := get?_mapText utf8_injective definition.definition "metadata"
  have hsealed : Written appendFloat (definition.definition.mapText utf8) := definition.sealed
  unfold metadata
  cases hm : definition.definition.get? "metadata" with
  | none => exact written_empty
  | some v =>
    rw [hm] at hg
    exact hsealed.get? hg

/-! ## What the walk finds -/

/-- **The places a walk finds**, by their paths. A member that is missing is
looked at as null, as the walk does. -/
inductive Reviewed (appendFloat : UInt64 → Except Exn Bytes) :
    Json Bytes → Json Bytes → List (String × List Bytes) → Prop
  | added {s t : Json Bytes} (hs : isNull s = true) (ht : isNull t = false) :
      Reviewed appendFloat s t [("added", [])]
  | removed {s t : Json Bytes} (hs : isNull s = false) (ht : isNull t = true) :
      Reviewed appendFloat s t [("removed", [])]
  | same {s t : Json Bytes} (hobject : s.isObject = false ∨ t.isObject = false)
      (hnull : isNull s = isNull t)
      (h : canonicalJsonBytes appendFloat s = canonicalJsonBytes appendFloat t) :
      Reviewed appendFloat s t []
  | changed {s t : Json Bytes} (hobject : s.isObject = false ∨ t.isObject = false)
      (hs : isNull s = false) (ht : isNull t = false)
      (h : canonicalJsonBytes appendFloat s ≠ canonicalJsonBytes appendFloat t) :
      Reviewed appendFloat s t [("changed", [])]
  | members {s t : Json Bytes} (hs : s.isObject = true) (ht : t.isObject = true)
      (found : Bytes → List (String × List Bytes))
      (h : ∀ name, Reviewed appendFloat ((s.get? name).getD .null) ((t.get? name).getD .null)
        (found name)) :
      Reviewed appendFloat s t
        ((memberNames s t).flatMap fun name => (found name).map fun f => (f.1, name :: f.2))

/-- The change reported for a place. -/
def changeAt (pointer : Bytes) (f : String × List Bytes) : GraphMetadataChange :=
  ⟨f.1, pointer ++ pointerOf f.2⟩

/-- A place where one of the values is no object. -/
theorem placeChange_spec (hs : Written appendFloat s) (ht : Written appendFloat t)
    (ho : s.isObject = false ∨ t.isObject = false) (pointer : Bytes) :
    ∃ found, Reviewed appendFloat s t found
      ∧ placeChange appendFloat pointer s t = .ok (found.map (changeAt pointer)) := by
  have hptr : ∀ kind, changeAt pointer (kind, []) = ⟨kind, pointer⟩ := fun kind =>
    congrArg (GraphMetadataChange.mk kind) (append_nil pointer)
  unfold placeChange
  cases hsn : isNull s with
  | true =>
    cases htn : isNull t with
    | false => exact ⟨_, .added hsn htn, by rw [map_singleton, hptr]; rfl⟩
    | true =>
      have hn : ∀ {v : Json Bytes}, isNull v = true → v = .null := by
        intro v hv
        cases v <;> first | rfl | cases hv
      rw [hn hsn, hn htn]
      exact ⟨[], .same (.inl rfl) rfl rfl, rfl⟩
  | false =>
    cases htn : isNull t with
    | true => exact ⟨_, .removed hsn htn, by rw [map_singleton, hptr]; rfl⟩
    | false =>
      obtain ⟨bytes, hbs⟩ := hs
      obtain ⟨bytes', hbs'⟩ := ht
      rw [hbs, hbs']
      by_cases heq : bytes = bytes'
      · subst heq
        refine ⟨[], .same ho (by rw [hsn, htn]) (by rw [hbs, hbs']), ?_⟩
        show (Except.ok (if bytes ≠ bytes then _ else _) : Except Exn _) = _
        rw [if_neg (not_not.mpr rfl)]
        rfl
      · refine ⟨_, .changed ho hsn htn (by rw [hbs, hbs']; simpa using heq), ?_⟩
        show (Except.ok (if bytes ≠ bytes' then _ else _) : Except Exn _) = _
        rw [if_pos heq, map_singleton, hptr]

/-- A walk within the levels ends, and what it reports is what it found. -/
theorem collectMetadataChanges_spec {levels : ℕ} (hs : Written appendFloat s)
    (ht : Written appendFloat t) (hlevels : s.nesting ≤ levels) (pointer : Bytes) :
    ∃ found, Reviewed appendFloat s t found
      ∧ collectMetadataChanges appendFloat levels pointer s t
        = .ok (found.map (changeAt pointer)) := by
  have hp : (!s.isObject || !t.isObject) = true ↔ s.isObject = false ∨ t.isObject = false := by
    simp
  induction levels generalizing s t pointer with
  | zero =>
    have ho : s.isObject = false := by
      cases s with
      | obj members => cases hlevels
      | _ => rfl
    rw [collectMetadataChanges, if_pos (hp.mpr (.inl ho))]
    exact placeChange_spec hs ht (.inl ho) pointer
  | succ levels ih =>
    rw [collectMetadataChanges]
    by_cases ho : s.isObject = false ∨ t.isObject = false
    · rw [if_pos (hp.mpr ho)]
      exact placeChange_spec hs ht ho pointer
    rw [if_neg (mt hp.mp ho)]
    simp only [not_or, Bool.not_eq_false] at ho
    have hb : ∀ name, ((s.get? name).getD .null).nesting ≤ levels := by
      intro name
      cases hg : s.get? name with
      | none => exact Nat.zero_le levels
      | some v =>
        have hlt := nesting_lt_of_get? hg
        exact Nat.le_of_lt_succ (hlt.trans_le hlevels)
    choose found hf hc using fun name =>
      @ih _ _ (written_getD_get? hs name) (written_getD_get? ht name) (hb name)
        (pointer ++ 0x2F :: escapeToken name) (by simp)
    refine ⟨_, .members ho.1 ho.2 found hf, ?_⟩
    rw [mapM_eq_ok_map fun name _ => hc name]
    show Except.ok (map _ (memberNames s t)).flatten = _
    rw [map_flatMap, flatMap_def]
    refine congrArg (fun l => Except.ok (flatten l)) (map_congr_left fun name _ => ?_)
    rw [map_map]
    refine map_congr_left fun f _ => congrArg (GraphMetadataChange.mk f.1) ?_
    rw [append_assoc]
    rfl

end Bytes

/-! ## Canonical values -/

section Canonical

variable {appendFloat : UInt64 → Except Exn Bytes}
  {readFloat : UInt64 → Json Bytes}
  {parseText : Bytes → Option (Json Bytes)}
  (hformat : Format appendFloat readFloat parseText)
include hformat

variable {v w : Json Bytes}

/-- Canonical values of one kind: both null or neither. -/
theorem isNull_eq_of_canonical (h : canonical readFloat v = canonical readFloat w) :
    isNull v = isNull w := by
  have hkd : v.kind = w.kind := by
    rw [← kind_canonical hformat.number, h, kind_canonical hformat.number]
  have hn : ∀ u : Json Bytes, isNull u = match u.kind with | .null => true | _ => false := by
    intro u
    cases u <;> rfl
  rw [hn, hn w, hkd]

omit hformat in
theorem canonical_eq_iff_of_isObject (hv : v.isObject = true) (hw : w.isObject = true)
    (hnd : (v.members.map Prod.fst).Nodup) (hnd' : (w.members.map Prod.fst).Nodup) :
    canonical readFloat v = canonical readFloat w
      ↔ ∀ name, (v.get? name).map (canonical readFloat)
        = (w.get? name).map (canonical readFloat) := by
  cases v with
  | obj members =>
    cases w with
    | obj members' => exact canonical_obj_eq_iff hnd hnd'
    | _ => cases hw
  | _ => cases hv

variable {s t : Json Bytes} {found : List (String × List Bytes)}

/-- Equal values are reviewed without a finding. -/
theorem Reviewed.eq_nil (h : Reviewed appendFloat s t found) (hs : Written appendFloat s)
    (ht : Written appendFloat t) (heq : canonical readFloat s = canonical readFloat t) :
    found = [] := by
  induction h with
  | added hsn htn | removed hsn htn =>
    have hn := isNull_eq_of_canonical hformat heq
    rw [hsn, htn] at hn
    cases hn
  | same ho hn h => rfl
  | changed ho hsn htn h =>
    exact absurd ((canonicalJsonBytes_eq_iff hformat ht).mpr heq) h
  | @members s t hsb htb found h ih =>
    have hm := (canonical_eq_iff_of_isObject hsb htb
      hs.noDuplicates.nodup ht.noDuplicates.nodup).mp heq
    refine flatMap_eq_nil_iff.mpr fun name _ => ?_
    rw [ih name (written_getD_get? hs name) (written_getD_get? ht name), map_nil]
    have hmm := hm name
    cases hg : s.get? name with
    | none =>
      rw [hg] at hmm
      rw [Option.map_eq_none_iff.mp hmm.symm]
    | some v =>
      rw [hg] at hmm
      obtain ⟨w, hw, hcan⟩ := Option.map_eq_some_iff.mp hmm.symm
      rw [hw]
      exact hcan.symm

omit hformat in
/-- No place is found twice. -/
theorem Reviewed.nodup (h : Reviewed appendFloat s t found) : (found.map Prod.snd).Nodup := by
  induction h with
  | same ho hn h => exact nodup_nil
  | @members s t hs ht found h ih =>
    rw [map_flatMap, nodup_flatMap]
    constructor
    · intro name _
      rw [map_map]
      have hco : Function.Injective (name :: · : List Bytes → _) := cons_injective
      have := (ih name).map hco
      rwa [map_map] at this
    · have hnd : (memberNames s t).Nodup :=
        (perm_insertionSort _ _).nodup_iff.mpr (nodup_dedup _)
      refine hnd.imp fun {name name'} hne path hpt hpt' => ?_
      obtain ⟨f, hf, rfl⟩ := mem_map.mp hpt
      obtain ⟨f', hf', heq⟩ := mem_map.mp hpt'
      obtain ⟨g, -, rfl⟩ := mem_map.mp hf
      obtain ⟨g', -, rfl⟩ := mem_map.mp hf'
      exact hne (List.cons.inj heq).1.symm
  | _ => exact nodup_singleton _

/-! ## A review is true and complete where no null is on one side -/

omit hformat in
theorem eq_null_of_isNull (h : isNull v = true) : v = .null := by
  cases v <;> first | rfl | cases h

omit hformat in
theorem Aligned.isNull_eq (h : Aligned (some v) (some w)) : isNull v = isNull w := by
  cases h with
  | null => rfl
  | values hv hw h => rw [hv, hw]
  | objects hv hw h =>
    have hn : ∀ {u : Json Bytes}, u.isObject = true → isNull u = false := by
      intro u hu
      cases u <;> first | rfl | cases hu
    rw [hn hv, hn hw]

omit hformat in
theorem Aligned.added_iff : Aligned none (some w) ↔ isNull w = false :=
  ⟨fun h => by cases h with | added h => exact h, .added⟩

omit hformat in
theorem Aligned.removed_iff : Aligned (some v) none ↔ isNull v = false :=
  ⟨fun h => by cases h with | removed h => exact h, .removed⟩

omit hformat in
theorem Aligned.values_iff (h : v.isObject = false ∨ w.isObject = false) :
    Aligned (some v) (some w) ↔ isNull v = isNull w := by
  refine ⟨Aligned.isNull_eq, fun hn => ?_⟩
  cases hv : isNull v with
  | false => exact .values hv (hn ▸ hv) h
  | true =>
    rw [hv] at hn
    rw [eq_null_of_isNull hv, eq_null_of_isNull hn.symm]
    exact .null

omit hformat in
theorem Aligned.objects_iff (hv : v.isObject = true) (hw : w.isObject = true) :
    Aligned (some v) (some w) ↔ ∀ name, Aligned (v.get? name) (w.get? name) := by
  refine ⟨fun h => ?_, .objects hv hw⟩
  cases h with
  | null => cases hv
  | values _ _ h =>
    rw [hv, hw] at h
    simp at h
  | objects _ _ h => exact h

/-- What makes a review sound at one place: its reports are true, and
replacing what they report gives the target. -/
def Sound (appendFloat : UInt64 → Except Exn Bytes) (readFloat : UInt64 → Json Bytes)
    (found : List (String × List Bytes)) (paths : List (List Bytes))
    (source target : Option (Json Bytes)) : Prop :=
  (∀ f ∈ found, Differs appendFloat f.1 (at? f.2 source) (at? f.2 target))
    ∧ (replaceAll paths target source).map (canonical readFloat)
      = target.map (canonical readFloat)

variable {paths : List (List Bytes)} {source target : Option (Json Bytes)}

omit hformat in
/-- A place that is reported by itself is replaced by the target's value. -/
theorem sound_place_iff {kind : String} (hpts : paths.Perm [[]]) :
    Sound appendFloat readFloat [(kind, [])] paths source target
      ↔ Differs appendFloat kind source target := by
  obtain rfl := perm_singleton.mp hpts
  unfold Sound
  rw [forall_mem_singleton]
  exact and_iff_left rfl

/-- **Soundness at a place where one of the values is no object.** -/
theorem sound_iff_of_place (hs : source.getD .null = s) (ht : target.getD .null = t)
    (hwr : ∀ w, target = some w → Written appendFloat w)
    (ho : s.isObject = false ∨ t.isObject = false) (h : Reviewed appendFloat s t found)
    (hpts : paths.Perm (found.map Prod.snd)) :
    Sound appendFloat readFloat found paths source target ↔ Aligned source target := by
  cases h with
  | members hsb htb found h =>
    rw [hsb, htb] at ho
    simp at ho
  | added hsn htn =>
    rw [sound_place_iff hpts]
    cases source with
    | none =>
      cases target with
      | none =>
        rw [← ht] at htn
        cases htn
      | some w =>
        obtain rfl : w = t := ht
        rw [Aligned.added_iff]
        exact iff_of_true rfl htn
    | some v =>
      cases target with
      | none =>
        rw [← ht] at htn
        cases htn
      | some w =>
        obtain rfl : w = t := ht
        obtain rfl : v = s := hs
        refine iff_of_false (fun h => absurd h.1 (by decide)) fun h => ?_
        have hn := h.isNull_eq
        rw [hsn, htn] at hn
        cases hn
  | removed hsn htn =>
    rw [sound_place_iff hpts]
    cases source with
    | none =>
      rw [← hs] at hsn
      cases hsn
    | some v =>
      obtain rfl : v = s := hs
      cases target with
      | none =>
        rw [Aligned.removed_iff]
        exact iff_of_true rfl hsn
      | some w =>
        obtain rfl : w = t := ht
        refine iff_of_false (fun h => absurd h.1 (by decide)) fun h => ?_
        have hn := h.isNull_eq
        rw [hsn, htn] at hn
        cases hn
  | changed _ hsn htn h =>
    rw [sound_place_iff hpts]
    cases source with
    | none =>
      rw [← hs] at hsn
      cases hsn
    | some v =>
      obtain rfl : v = s := hs
      cases target with
      | none =>
        rw [← ht] at htn
        cases htn
      | some w =>
        obtain rfl : w = t := ht
        rw [Aligned.values_iff ho]
        exact iff_of_true ⟨rfl, h⟩ (by rw [hsn, htn])
  | same _ hn h =>
    obtain rfl := perm_nil.mp hpts
    have hsd : Sound appendFloat readFloat [] [] source target
        ↔ source.map (canonical readFloat) = target.map (canonical readFloat) :=
      and_iff_right fun f hf => by cases hf
    rw [map_nil] at hpts
    rw [hsd]
    cases source with
    | none =>
      cases target with
      | none => exact iff_of_true rfl .absent
      | some w =>
        obtain rfl : w = t := ht
        rw [Aligned.added_iff, ← hn, ← hs]
        exact iff_of_false (fun h => by cases h) (by decide)
    | some v =>
      obtain rfl : v = s := hs
      cases target with
      | none =>
        rw [Aligned.removed_iff, hn, ← ht]
        exact iff_of_false (fun h => by cases h) (by decide)
      | some w =>
        obtain rfl : w = t := ht
        rw [Aligned.values_iff ho]
        exact iff_of_true
          (congrArg some ((canonicalJsonBytes_eq_iff hformat (hwr _ rfl)).mp h)) hn

omit hformat in
/-- The members that either value has. -/
theorem mem_memberNames {name : Bytes} :
    name ∈ memberNames s t ↔ s.get? name ≠ none ∨ t.get? name ≠ none := by
  have hnm : ∀ v : Json Bytes, name ∈ v.members.map Prod.fst ↔ v.get? name ≠ none :=
    fun v => (mem_names_iff v.members name).trans Option.isSome_iff_ne_none
  rw [memberNames, (perm_insertionSort _ _).mem_iff, mem_dedup, map_append,
    mem_append, hnm, hnm]

/-- The findings below a member that neither value has. -/
theorem Reviewed.eq_nil_of_absent (h : Reviewed appendFloat .null .null found) : found = [] :=
  h.eq_nil hformat written_null written_null rfl

/-- **A review is sound exactly where no null is on one side**, in whatever
order its reports are carried out. -/
theorem sound_iff_aligned (h : Reviewed appendFloat s t found) (hs : source.getD .null = s)
    (ht : target.getD .null = t) (hsrc : ∀ v, source = some v → Written appendFloat v)
    (htgt : ∀ w, target = some w → Written appendFloat w)
    (hpts : paths.Perm (found.map Prod.snd)) :
    Sound appendFloat readFloat found paths source target ↔ Aligned source target := by
  have hp : ∀ {u : Json Bytes}, isNull u = true → u.isObject = false := by
    intro u hu
    rw [eq_null_of_isNull hu]
    rfl
  induction h generalizing source target paths with
  | added hsn htn =>
    exact sound_iff_of_place hformat hs ht htgt (.inl (hp hsn))
      (.added hsn htn) hpts
  | removed hsn htn =>
    exact sound_iff_of_place hformat hs ht htgt (.inr (hp htn))
      (.removed hsn htn) hpts
  | same ho hnl h =>
    exact sound_iff_of_place hformat hs ht htgt ho (.same ho hnl h) hpts
  | changed ho hsn htn h =>
    exact sound_iff_of_place hformat hs ht htgt ho (.changed ho hsn htn h) hpts
  | @members s t hsb htb found h ih =>
    obtain rfl : source = some s := by
      cases source with
      | none =>
        rw [← hs] at hsb
        cases hsb
      | some v => exact congrArg some hs
    obtain rfl : target = some t := by
      cases target with
      | none =>
        rw [← ht] at htb
        cases htb
      | some w => exact congrArg some ht
    have hswritten := hsrc s rfl
    have htwritten := htgt t rfl
    have hab : ∀ name, name ∉ memberNames s t → found name = [] := by
      intro name hnm
      rw [mem_memberNames, not_or, not_not, not_not] at hnm
      have hrev := h name
      rw [hnm.1, hnm.2] at hrev
      exact hrev.eq_nil_of_absent hformat
    -- the paths below a member are those found below it
    have hnms : (memberNames s t).Nodup :=
      (perm_insertionSort _ _).nodup_iff.mpr (nodup_dedup _)
    have hb : ∀ name, (pathsBelow name paths).Perm ((found name).map Prod.snd) := by
      intro name
      refine (hpts.filterMap _).trans ?_
      have heq := pathsBelow_flatMap hnms (fun n => (found n).map Prod.snd) name
      rw [map_flatMap]
      simp only [map_map] at heq ⊢
      refine List.Perm.of_eq (heq.trans ?_)
      split_ifs with hnm
      · rfl
      · rw [hab name hnm]
        rfl
    have hmm : ∀ name, Sound appendFloat readFloat (found name) (pathsBelow name paths)
        (s.get? name) (t.get? name) ↔ Aligned (s.get? name) (t.get? name) := fun name =>
      ih name rfl rfl (fun v hv => hswritten.get? hv) (fun w hw => htwritten.get? hw) (hb name)
    rw [Aligned.objects_iff hsb htb, ← forall_congr' hmm]
    unfold Sound
    rw [forall_and]
    refine and_congr ?_ ?_
    · constructor
      · intro ha name f hf
        have hnm : name ∈ memberNames s t := by
          by_contra hnm
          rw [hab name hnm] at hf
          cases hf
        exact ha (f.1, name :: f.2) (mem_flatMap.mpr ⟨name, hnm, mem_map.mpr ⟨f, hf, rfl⟩⟩)
      · intro ha f hf
        obtain ⟨name, -, hf⟩ := mem_flatMap.mp hf
        obtain ⟨g, hg, rfl⟩ := mem_map.mp hf
        exact ha name g hg
    · have hn : [] ∉ paths := by
        intro hm
        obtain ⟨f, hf, hn⟩ := mem_map.mp (hpts.mem_iff.mp hm)
        obtain ⟨name, -, hf⟩ := mem_flatMap.mp hf
        obtain ⟨f, -, rfl⟩ := mem_map.mp hf
        cases hn
      cases s with
      | obj members =>
        have hmbr : (members.map Prod.fst).Nodup := hswritten.noDuplicates.nodup
        obtain ⟨members', hr, hnd, hlk⟩ :=
          replaceAll_obj hn hmbr (some t)
        rw [hr, Option.map_some, Option.map_some, Option.some.injEq,
          canonical_eq_iff_of_isObject (v := .obj members') rfl htb hnd
            htwritten.noDuplicates.nodup]
        refine forall_congr' fun name => ?_
        rw [show (obj members').get? name = _ from hlk name]
        rfl
      | _ => cases hsb

/-! ## The review of two definitions -/

omit hformat in
/-- A reported pointer leads to the place that was found. -/
theorem path_changeAt (f : String × List Bytes) :
    (changeAt (ascii "/metadata") f).path = some f.2 := by
  have hptr : ascii "/metadata" ++ pointerOf f.2
      = pointerOf (ascii "metadata" :: f.2) := by
    have hnm : ascii "/metadata" = 0x2F :: escapeToken (ascii "metadata") := by decide
    rw [hnm]
    rfl
  unfold GraphMetadataChange.path changeAt
  rw [hptr, readPointer_pointerOf]
  exact if_pos rfl

omit hformat in
theorem filterMap_path_changeAt (found : List (String × List Bytes)) :
    (found.map (changeAt (ascii "/metadata"))).filterMap GraphMetadataChange.path
      = found.map Prod.snd := by
  rw [filterMap_map]
  have hpt : GraphMetadataChange.path ∘ changeAt (ascii "/metadata")
      = fun f => some f.2 := funext path_changeAt
  rw [hpt]
  exact congrFun filterMap_eq_map found

omit hformat in
/-- Sorted reports of different places have increasing pointers. -/
theorem sorted_changes {changes : List GraphMetadataChange}
    (h : (changes.map GraphMetadataChange.jsonPointer).Nodup) :
    ((changes.insertionSort fun c c' => c.jsonPointer ≤ c'.jsonPointer).map
      GraphMetadataChange.jsonPointer).Pairwise (· < ·) := by
  have total : Std.Total fun c c' : GraphMetadataChange => c.jsonPointer ≤ c'.jsonPointer :=
    ⟨fun _ _ => Std.le_total⟩
  have trans : IsTrans GraphMetadataChange fun c c' => c.jsonPointer ≤ c'.jsonPointer :=
    ⟨fun _ _ _ => Std.le_trans⟩
  have hs := pairwise_insertionSort
    (fun c c' : GraphMetadataChange => c.jsonPointer ≤ c'.jsonPointer) changes
  have hnd := ((perm_insertionSort
    (fun c c' : GraphMetadataChange => c.jsonPointer ≤ c'.jsonPointer) changes).map
    GraphMetadataChange.jsonPointer).nodup_iff.mpr h
  refine ((pairwise_map.mpr hs).and hnd).imp fun {p q} hpq => ?_
  exact Std.lt_of_le_of_ne hpq.1 hpq.2

/-- **The exact condition for the review.** The review of two sealed
definitions ends, and it misses nothing if and only if no null of their
metadata stands on one side only. -/
theorem metadataChangesBetween_iff (source target : SealedCoreDefinition appendFloat) :
    ∃ changes, metadataChangesBetween source target = .ok changes
      ∧ (MissesNothing appendFloat source.metadata target.metadata changes
        ↔ Aligned (some source.metadata) (some target.metadata)) := by
  have hs := source.written
  have ht := target.written
  have hnesting : source.metadata.nesting ≤ maxParseDepth := by
    obtain ⟨bytes, hbs⟩ := hs
    have hle := nesting_of_withinDepth (canonicalJsonBytes_eq_ok.mp hbs).1.1
    have heq : maxParseDepth = maxJsonDepth := rfl
    omega
  obtain ⟨found, hrev, hcl⟩ :=
    collectMetadataChanges_spec hs ht hnesting (ascii "/metadata")
  refine ⟨_, bind_eq_ok.mpr ⟨_, hcl, rfl⟩, ?_⟩
  let changes := (found.map (changeAt (ascii "/metadata"))).insertionSort
    fun c c' => c.jsonPointer ≤ c'.jsonPointer
  have hp : changes.Perm (found.map (changeAt (ascii "/metadata"))) :=
    perm_insertionSort _ _
  have hpts : (changes.filterMap GraphMetadataChange.path).Perm (found.map Prod.snd) :=
    filterMap_path_changeAt found ▸ hp.filterMap _
  rw [← sound_iff_aligned hformat hrev rfl rfl (fun v hv => Option.some.inj hv ▸ hs)
    (fun w hw => Option.some.inj hw ▸ ht) hpts]
  constructor
  · intro h
    refine ⟨fun f hf => ?_, ?_⟩
    · obtain ⟨path, hpt, hdiffers⟩ :=
        h.kinds (changeAt _ f) (hp.mem_iff.mpr (mem_map_of_mem hf))
      rw [path_changeAt, Option.some.injEq] at hpt
      rw [hpt]
      exact hdiffers
    · obtain ⟨v, hv, hbs⟩ := h.replaced
      show (replaceAll (changes.filterMap _) _ _).map _ = _
      rw [hv]
      exact congrArg some ((canonicalJsonBytes_eq_iff hformat ht).mp hbs)
  · rintro ⟨hkinds, hr⟩
    refine ⟨⟨fun hn => ?_, fun hbs => ?_⟩, sorted_changes ?_, fun change hc => ?_, ?_⟩
    · have hpathsnil : changes.filterMap GraphMetadataChange.path = [] := by
        rw [show changes = [] from hn]
        rfl
      rw [hpathsnil] at hr
      exact (canonicalJsonBytes_eq_iff hformat ht).mpr (Option.some.inj hr)
    · have hn := hrev.eq_nil hformat hs ht ((canonicalJsonBytes_eq_iff hformat ht).mp hbs)
      rw [hn]
      rfl
    · have hinjective : Function.Injective fun path => ascii "/metadata" ++ pointerOf path :=
        fun path path' h => pointerOf_injective (append_cancel_left h)
      have hnd := hrev.nodup.map hinjective
      rw [map_map] at hnd ⊢
      exact hnd
    · obtain ⟨f, hf, rfl⟩ := mem_map.mp (hp.mem_iff.mp hc)
      exact ⟨f.2, path_changeAt f, hkinds f hf⟩
    · obtain ⟨v, hv, hcan⟩ := Option.map_eq_some_iff.mp hr
      exact ⟨v, hv, (canonicalJsonBytes_eq_iff hformat ht).mpr hcan⟩

end Canonical

/-- A definition without nodes and with some metadata. -/
def withMetadata (members : List (String × Document)) : Document :=
  .obj [("schema_version", .uint 1), ("name", .str "review"), ("metadata", .obj members)]

/-- A change of a text is reviewed in full. -/
theorem metadataChangesBetween_owner :
    ∃ changes, metadataChangesBetween
        (⟨withMetadata [("owner", .str "core")], _, rfl⟩ : SealedCoreDefinition refuseFloat)
        ⟨withMetadata [("owner", .str "edge")], _, rfl⟩ = .ok changes
      ∧ MissesNothing refuseFloat (.obj [(utf8 "owner", .str (utf8 "core"))])
        (.obj [(utf8 "owner", .str (utf8 "edge"))]) changes := by
  obtain ⟨changes, hc, hiff⟩ := metadataChangesBetween_iff format_refuseFloat
    ⟨withMetadata [("owner", .str "core")], _, rfl⟩
    ⟨withMetadata [("owner", .str "edge")], _, rfl⟩
  refine ⟨changes, hc, hiff.mpr (.objects rfl rfl fun name => ?_)⟩
  show Aligned ((obj [(utf8 "owner", .str (utf8 "core"))]).get? name)
    ((obj [(utf8 "owner", .str (utf8 "edge"))]).get? name)
  rw [get?_singleton, get?_singleton]
  split
  · exact .values rfl rfl (.inl rfl)
  · exact .absent

/-- What parsing reads from outside, for documents with no numbers but the
version and no nodes. -/
def plainContext : ParseContext where
  floats :=
    { ofUInt64 := id
      ofInt64 := Int64.toUInt64
      toFloat := id
      toFloat_toFloat := fun _ => rfl
      toFloat_two := rfl }
  dump _ := ""
  nodeConfig _ _ _ _ _ := []
  metadata _ := []

/-- **A removed null is not reviewed.** Both definitions are accepted, their
metadata has different canonical bytes, and the review is empty. -/
theorem metadataChangesBetween_misses_null :
    ¬∀ (appendFloat : UInt64 → Except Exn (List UInt8)) (readFloat : UInt64 → Json (List UInt8))
      (parseText : List UInt8 → Option (Json (List UInt8))) (ctx : ParseContext)
      (source target : SealedCoreDefinition appendFloat),
      Format appendFloat readFloat parseText →
      (∃ topology, Compiler.parse ctx source.definition = .ok topology) →
      (∃ topology, Compiler.parse ctx target.definition = .ok topology) →
      ∃ changes, metadataChangesBetween source target = .ok changes
        ∧ MissesNothing appendFloat source.metadata target.metadata changes := by
  intro h
  obtain ⟨changes, hc, hmisses⟩ := h refuseFloat _ _ plainContext
    ⟨withMetadata [("owner", .null)], _, rfl⟩ ⟨withMetadata [], _, rfl⟩ format_refuseFloat
    ⟨_, rfl⟩ ⟨_, rfl⟩
  have he : changes = [] := Except.ok.inj (hc.symm.trans rfl)
  have hbs := hmisses.empty_iff.mp he
  have hsrc : canonicalJsonBytes refuseFloat (.obj [(utf8 "owner", .null)])
      = .ok (ascii "\x7b\"owner\":null\x7d") := by rfl
  have ht : canonicalJsonBytes refuseFloat (.obj []) = .ok (ascii "\x7b\x7d") := by rfl
  have hdifferent := hsrc.symm.trans (hbs.trans ht)
  exact absurd (Except.ok.inj hdifferent) (by decide)

end NeoGraph.Program.Migration
