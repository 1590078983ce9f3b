import Mathlib
import NeoGraph.Lib.Bytes

/-!
# The order of plan violations

Violations of a plan are listed by path, then by code and detail. Paths are
compared segment by segment: two numbers by their value, anything else by
its bytes. The two comparisons do not fit together: `10` is less than `1x`
and `1x` less than `2` by their bytes, and `2` is less than `10` as a
number.

`comparePaths` is a strict weak ordering on a set of paths (that has with a
path those above it) exactly when, among the names under one prefix, a name
that is no number and stands between two numbers by its bytes leaves them in
their order by value (`strictWeak_iff`). Only then does the list that is shown
not depend on the order of finding.
-/

namespace NeoGraph.Program.ViolationOrder

open ByteOrder List
open Std (OrientedCmp TransCmp)

/-! ## Comparing paths -/

def allDigits (value : Bytes) : Bool := value ≠ [] && value.all isDigit

/-- The segments of a path. -/
def splitPointer (path : Bytes) : List Bytes := path.splitOn 47

/-- A number without its leading zeros. -/
def strip : Bytes → Bytes
  | b :: c :: rest => if b = 48 then strip (c :: rest) else b :: c :: rest
  | digits => digits

/-- Numbers by value, all else by bytes. -/
def compareSegments (a b : Bytes) : Ordering :=
  if a = b then .eq
  else if allDigits a && allDigits b then
    if (strip a).length ≠ (strip b).length then
      if (strip a).length < (strip b).length then .lt else .gt
    else if strip a ≠ strip b then if strip a < strip b then .lt else .gt
    else .eq
  else if a < b then .lt else .gt

/-- The loop over the segments. -/
def compareLoop : List Bytes → List Bytes → Ordering
  | a :: left, b :: right =>
    match compareSegments a b with
    | .eq => compareLoop left right
    | order => order
  | [], [] => .eq
  | [], _ => .lt
  | _, [] => .gt

/-- Segment by segment. -/
def comparePaths (lhs rhs : Bytes) : Ordering :=
  compareLoop (splitPointer lhs) (splitPointer rhs)

/-- What is wrong at a place of a plan. -/
structure StepPlanViolation where
  path : Bytes
  code : Bytes
  message : Bytes
  hint : Bytes

/-- The comparison of `Collector::finish`, of violations with the canonical
bytes of their details. -/
def lessKeyed (lhs rhs : Bytes × StepPlanViolation) : Bool :=
  let path := comparePaths lhs.2.path rhs.2.path
  if path ≠ .eq then path = .lt
  else if lhs.2.code ≠ rhs.2.code then lhs.2.code < rhs.2.code
  else lhs.1 < rhs.1

/-- A stable sort. -/
def sortKeyed (keyed : List (Bytes × StepPlanViolation)) : List (Bytes × StepPlanViolation) :=
  keyed.mergeSort fun x y => !lessKeyed y x

/-! ## Numbers -/

/-- A number, as it is compared: the length without leading zeros, then the
digits. -/
def number (digits : Bytes) : ℕ ×ₗ Bytes := toLex ((strip digits).length, strip digits)

variable {a b s : Bytes}

/-- Numbers are compared by value. -/
theorem compareSegments_of_allDigits (ha : allDigits a = true) (hb : allDigits b = true) :
    compareSegments a b = compareOfLessAndEq (number a) (number b) := by
  unfold compareSegments compareOfLessAndEq
  rw [if_pos (show (allDigits a && allDigits b) = true by rw [ha, hb]; rfl)]
  obtain hlt | heq | hgt := lt_trichotomy (number a) (number b)
  · rw [if_pos hlt, if_neg fun h : a = b => hlt.ne (congrArg number h)]
    obtain hl | ⟨hl, hdig⟩ := Prod.Lex.toLex_lt_toLex.mp hlt
    · simp [hl.ne, hl]
    · simp_all [hdig.ne]
  · have hs : strip a = strip b := congrArg (fun p => (ofLex p).2) heq
    simp [heq, hs]
  · rw [if_neg hgt.not_gt, if_neg hgt.ne', if_neg fun h : a = b => hgt.ne' (congrArg number h)]
    obtain hl | ⟨hl, hdig⟩ := Prod.Lex.toLex_lt_toLex.mp hgt
    · simp [hl.ne', hl.not_gt]
    · simp_all [hdig.ne', hdig.not_gt]

theorem compareSegments_of_not (h : ¬(allDigits a && allDigits b) = true) :
    compareSegments a b = compareOfLessAndEq a b := by
  unfold compareSegments compareOfLessAndEq
  rw [if_neg h]
  obtain hab | rfl | hab := lt_trichotomy a b
  · rw [if_neg hab.ne, if_pos hab, if_pos hab]
  · rw [if_pos rfl, if_neg (lt_irrefl a), if_pos rfl]
  · rw [if_neg hab.ne', if_neg hab.not_gt, if_neg hab.not_gt, if_neg hab.ne']

/-! ## When the comparison is an order -/

/-- **A name that is no number does not stand between two numbers in the
wrong order.** -/
def Consistent (K : Set Bytes) : Prop :=
  ∀ p ∈ K, ∀ r ∈ K, ∀ q ∈ K, allDigits p = true → allDigits q = true →
    allDigits r = false → p < r → r < q → number p < number q

instance compareSegments_oriented : OrientedCmp compareSegments where
  eq_swap {a b} := by
    by_cases h : (allDigits a && allDigits b) = true
    · have ⟨ha, hb⟩ := Bool.and_eq_true_iff.mp h
      rw [compareSegments_of_allDigits ha hb, compareSegments_of_allDigits hb ha]
      exact compareOfLessAndEq_eq_swap le_antisymm le_total not_le
    · rw [compareSegments_of_not h, compareSegments_of_not (by rwa [Bool.and_comm])]
      exact compareOfLessAndEq_eq_swap le_antisymm le_total not_le

theorem isLE_compareSegments : (compareSegments a b).isLE = true
      ↔ if (allDigits a && allDigits b) = true then number a ≤ number b else a ≤ b := by
  split_ifs with h
  · have ⟨ha, hb⟩ := Bool.and_eq_true_iff.mp h
    rw [compareSegments_of_allDigits ha hb]
    exact isLE_compareOfLessAndEq le_antisymm not_le le_total
  · rw [compareSegments_of_not h]
    exact isLE_compareOfLessAndEq le_antisymm not_le le_total

variable {K : Set Bytes}

theorem Consistent.isLE_trans (hK : Consistent K) {c : Bytes} (ha : a ∈ K) (hb : b ∈ K)
    (hc : c ∈ K) (hab : (compareSegments a b).isLE = true)
    (hbc : (compareSegments b c).isLE = true) : (compareSegments a c).isLE = true := by
  rw [isLE_compareSegments] at *
  have hne : ∀ {x y : Bytes}, allDigits x = true → allDigits y = false → x ≠ y := by
    rintro x y hx hy rfl
    rw [hx] at hy
    cases hy
  cases hda : allDigits a <;> cases hdb : allDigits b <;> cases hdc : allDigits c <;>
    simp only [hda, hdb, hdc, Bool.and_self, Bool.and_true, Bool.and_false,
      Bool.false_eq_true, if_true, if_false] at hab hbc ⊢
  -- three numbers, or no two of them
  case true.true.true => exact hab.trans hbc
  case false.false.false | false.false.true | false.true.false | true.false.false =>
    exact hab.trans hbc
  -- two numbers, and the name is the first, the middle or the last of the three
  case false.true.true =>
    by_contra hca
    exact absurd (hK c hc a ha b hb hdc hdb hda (not_le.mp hca)
      (lt_of_le_of_ne hab (hne hdb hda).symm)) (not_lt.mpr hbc)
  case true.false.true =>
    exact (hK a ha b hb c hc hda hdc hdb (lt_of_le_of_ne hab (hne hda hdb))
      (lt_of_le_of_ne hbc (hne hdc hdb).symm)).le
  case true.true.false =>
    by_contra hca
    exact absurd (hK b hb c hc a ha hdb hda hdc
      (lt_of_le_of_ne hbc (hne hdb hdc)) (not_le.mp hca)) (not_lt.mpr hab)

/-! ## Sets of paths -/

/-- A set of paths, given by their segments. It has with a path the paths
above it. -/
structure PathTree where
  paths : Set (List Bytes)
  segment : ∀ l ∈ paths, ∀ s ∈ l, 47 ∉ s
  closed : ∀ pre s rest, pre ++ s :: rest ∈ paths → pre ++ [s] ∈ paths

/-- Segments that the comparison does not tell apart. -/
def Alike (a b : Bytes) : Prop :=
  a = b ∨ (allDigits a && allDigits b) = true ∧ number a = number b

theorem compareSegments_eq_iff : compareSegments a b = .eq ↔ Alike a b := by
  unfold Alike
  by_cases h : (allDigits a && allDigits b) = true
  · have ⟨ha, hb⟩ := Bool.and_eq_true_iff.mp h
    rw [compareSegments_of_allDigits ha hb, compareOfLessAndEq_eq_eq le_refl not_le,
      and_iff_right h]
    exact ⟨Or.inr, Or.rec (congrArg number) id⟩
  · rw [compareSegments_of_not h, compareOfLessAndEq_eq_eq le_refl not_le, or_iff_left fun h' =>
      h h'.1]

theorem Alike.trans {c : Bytes} (hab : Alike a b) (hbc : Alike b c) : Alike a c := by
  obtain rfl | ⟨hd, hn⟩ := hab
  · exact hbc
  obtain rfl | ⟨hd', hn'⟩ := hbc
  · exact .inr ⟨hd, hn⟩
  rw [Bool.and_eq_true] at hd hd'
  exact .inr ⟨Bool.and_eq_true_iff.mpr ⟨hd.1, hd'.2⟩, hn.trans hn'⟩

theorem Alike.symm (h : Alike a b) : Alike b a :=
  h.imp Eq.symm fun h => ⟨by rw [Bool.and_comm]; exact h.1, h.2.symm⟩

namespace PathTree

/-- The paths of a tree. -/
def Has (T : PathTree) (path : Bytes) : Prop := splitPointer path ∈ T.paths

/-- The names that follow a prefix, up to leading zeros in the prefix. -/
def names (T : PathTree) (pre : List Bytes) : Set Bytes :=
  { s | ∃ pre', Forall₂ Alike pre pre' ∧ pre' ++ [s] ∈ T.paths }

/-- The names under every prefix are consistent. -/
def Consistent (T : PathTree) : Prop := ∀ pre, ViolationOrder.Consistent (T.names pre)

end PathTree

/-- A name of a set. -/
abbrev Segment (K : Set Bytes) : Type := { s : Bytes // s ∈ K }

def Segment.cmp {K : Set Bytes} (a b : Segment K) : Ordering := compareSegments a.1 b.1

theorem Consistent.transCmp (hK : Consistent K) : TransCmp (@Segment.cmp K) :=
  { eq_swap := fun {_ _} => compareSegments_oriented.eq_swap
    isLE_trans := fun {a b c} => hK.isLE_trans a.2 b.2 c.2 }

theorem compareLoop_swap (left right : List Bytes) :
    compareLoop left right = (compareLoop right left).swap := by
  induction left generalizing right with
  | nil => cases right <;> rfl
  | cons a left ih =>
    cases right with
    | nil => rfl
    | cons b right =>
      rw [compareLoop, compareLoop, @OrientedCmp.eq_swap _ compareSegments _ a b, ih]
      cases compareSegments b a <;> rfl

variable {T : PathTree}

/-- Under one prefix the rest of the paths is compared transitively. -/
theorem PathTree.Consistent.isLE_trans (hT : T.Consistent) {pre pre₁ pre₂ pre₃ : List Bytes}
    (h₁ : Forall₂ Alike pre pre₁) (h₂ : Forall₂ Alike pre pre₂) (h₃ : Forall₂ Alike pre pre₃)
    {left mid right : List Bytes} (hlt : pre₁ ++ left ∈ T.paths)
    (hmid : pre₂ ++ mid ∈ T.paths) (hr : pre₃ ++ right ∈ T.paths)
    (hab : (compareLoop left mid).isLE = true) (hbc : (compareLoop mid right).isLE = true) :
    (compareLoop left right).isLE = true := by
  induction left generalizing pre pre₁ pre₂ pre₃ mid right with
  | nil => cases right <;> rfl
  | cons a left ih =>
    obtain _ | ⟨b, mid⟩ := mid
    · cases hab
    obtain _ | ⟨c, right⟩ := right
    · cases hbc
    have ht := (hT pre).transCmp
    let a' : Segment (T.names pre) := ⟨a, pre₁, h₁, T.closed _ _ _ hlt⟩
    let b' : Segment (T.names pre) := ⟨b, pre₂, h₂, T.closed _ _ _ hmid⟩
    let c' : Segment (T.names pre) := ⟨c, pre₃, h₃, T.closed _ _ _ hr⟩
    rw [compareLoop] at hab hbc ⊢
    cases hsab : compareSegments a b with
    | gt =>
      rw [hsab] at hab
      cases hab
    | lt =>
      have hac : compareSegments a c = .lt := by
        refine @TransCmp.lt_of_lt_of_isLE _ _ ht a' b' c' hsab ?_
        show (compareSegments b c).isLE = true
        cases hsbc : compareSegments b c with
        | lt | eq => rfl
        | gt =>
          rw [hsbc] at hbc
          cases hbc
      rw [hac]
      rfl
    | eq =>
      rw [hsab] at hab
      cases hsbc : compareSegments b c with
      | gt =>
        rw [hsbc] at hbc
        cases hbc
      | lt =>
        have hac : compareSegments a c = .lt :=
          @TransCmp.lt_of_eq_of_lt _ _ ht a' b' c' hsab hsbc
        rw [hac]
        rfl
      | eq =>
        rw [hsbc] at hbc
        have hal := compareSegments_eq_iff.mp hsab
        have hal' := hal.trans (compareSegments_eq_iff.mp hsbc)
        rw [compareSegments_eq_iff.mpr hal']
        have hl : ∀ {pre' : List Bytes} {s : Bytes}, Forall₂ Alike pre pre' → Alike a s →
            Forall₂ Alike (pre ++ [a]) (pre' ++ [s]) := fun hp hs =>
          rel_append hp (Forall₂.cons hs Forall₂.nil)
        exact ih (hl h₁ (.inl rfl)) (hl h₂ hal) (hl h₃ hal')
          (by rwa [append_assoc]) (by rwa [append_assoc]) (by rwa [append_assoc]) hab hbc

/-- A comparison of what is seen of something. -/
theorem transCmp_on {α β : Type} {cmp : β → β → Ordering} [TransCmp cmp] (f : α → β) :
    TransCmp fun a b => cmp (f a) (f b) :=
  { eq_swap := OrientedCmp.eq_swap, isLE_trans := TransCmp.isLE_trans }

theorem PathTree.Consistent.transCmp (hT : T.Consistent) :
    TransCmp fun a b : { path : Bytes // T.Has path } => comparePaths a.1 b.1 :=
  { eq_swap := fun {_ _} => compareLoop_swap _ _
    isLE_trans := fun {a b c} => hT.isLE_trans .nil .nil .nil a.2 b.2 c.2 }

/-! ## The sorted list -/

/-- **Sorting does not depend on the order that was given**, up to what the
comparison does not tell apart. -/
theorem forall₂_mergeSort {α : Type} {cmp : α → α → Ordering} [TransCmp cmp] {l l' : List α}
    (h : l.Perm l') : Forall₂ (fun x y => cmp x y = .eq) (l.mergeSort fun x y => (cmp x y).isLE)
      (l'.mergeSort fun x y => (cmp x y).isLE) := by
  -- what is not told apart compares alike with everything
  have hs : ∀ l : List α, ((l.mergeSort fun x y => (cmp x y).isLE).map cmp).Pairwise
        fun f g => ∀ x y, cmp x = f → cmp y = g → (cmp x y).isLE = true := by
    intro l
    refine pairwise_map.mpr ((pairwise_mergeSort (fun _ _ _ => TransCmp.isLE_trans) ?_ l).imp ?_)
    · intro a b
      rw [@OrientedCmp.eq_swap _ cmp _ b]
      cases cmp a b <;> rfl
    · intro a b hab x y hx hy
      rw [hx, @OrientedCmp.eq_swap _ cmp, hy, ← OrientedCmp.eq_swap]
      exact hab
  have hm : (l.mergeSort fun x y => (cmp x y).isLE).map cmp
      = (l'.mergeSort fun x y => (cmp x y).isLE).map cmp := by
    refine Perm.eq_of_pairwise ?_ (hs l) (hs l')
      (((mergeSort_perm l _).trans (h.trans (mergeSort_perm l' _).symm)).map cmp)
    intro f g hf hg hfg hgf
    obtain ⟨x, -, rfl⟩ := mem_map.mp hf
    obtain ⟨y, -, rfl⟩ := mem_map.mp hg
    funext z
    refine TransCmp.congr_left ?_
    have hxy := hfg x y rfl rfl
    have hyx := hgf y x rfl rfl
    rw [@OrientedCmp.eq_swap _ cmp] at hyx
    cases hcmp : cmp x y <;> simp_all
  have ha := forall₂_eq_eq_eq ▸ hm
  rw [forall₂_map_left_iff, forall₂_map_right_iff] at ha
  exact ha.imp fun a b hab => (congrFun hab b).trans Std.ReflCmp.compare_self

/-- A violation at a path of a set. -/
abbrev Keyed (T : PathTree) : Type := { x : Bytes × StepPlanViolation // T.Has x.2.path }

def Keyed.cmp {T : PathTree} : Keyed T → Keyed T → Ordering :=
  compareLex (fun x y => comparePaths x.1.2.path y.1.2.path)
    (compareLex (fun x y => compareOfLessAndEq x.1.2.code y.1.2.code)
      fun x y => compareOfLessAndEq x.1.1 y.1.1)

theorem Keyed.cmp_eq_lt (x y : Keyed T) : lessKeyed x.1 y.1 = true ↔ x.cmp y = .lt := by
  unfold lessKeyed Keyed.cmp compareLex
  cases hpt : comparePaths x.1.2.path y.1.2.path with
  | lt | gt => simp [hpt]
  | eq =>
    by_cases hc : x.1.2.code = y.1.2.code <;>
      simp [hpt, hc, Ordering.then_eq_lt, compareOfLessAndEq_eq_lt,
        compareOfLessAndEq_eq_eq le_refl not_le]

theorem PathTree.Consistent.transCmp_keyed (hT : T.Consistent) : TransCmp (@Keyed.cmp T) := by
  have hbs : TransCmp fun a b : Bytes => compareOfLessAndEq a b :=
    Std.TransOrd.compareOfLessAndEq_of_antisymm_of_trans_of_total_of_not_le le_antisymm le_trans
      le_total not_le
  have hpt := @transCmp_on _ _ _ hT.transCmp fun x : Keyed T => ⟨x.1.2.path, x.2⟩
  have hc := @transCmp_on _ _ _ hbs fun x : Keyed T => x.1.2.code
  have hk := @transCmp_on _ _ _ hbs fun x : Keyed T => x.1.1
  unfold Keyed.cmp
  infer_instance

/-- The comparison of the paths that `P` admits is a strict weak ordering,
and the sort of violations at them gives one list, up to equal entries. -/
structure StrictWeak (P : Bytes → Prop) : Prop where
  swap : ∀ a b, P a → P b → comparePaths a b = .lt → comparePaths b a = .gt
  less_trans : ∀ a b c, P a → P b → P c → comparePaths a b = .lt → comparePaths b c = .lt →
    comparePaths a c = .lt
  alike_trans : ∀ a b c, P a → P b → P c → comparePaths a b ≠ .lt → comparePaths b a ≠ .lt →
    comparePaths b c ≠ .lt → comparePaths c b ≠ .lt →
    comparePaths a c ≠ .lt ∧ comparePaths c a ≠ .lt
  sorted : ∀ keyed keyed' : List (Bytes × StepPlanViolation), (∀ x ∈ keyed, P x.2.path) →
    keyed.Perm keyed' → Forall₂ (fun x y => lessKeyed x y = false ∧ lessKeyed y x = false)
      (sortKeyed keyed) (sortKeyed keyed')

theorem sortKeyed_map_val [TransCmp (@Keyed.cmp T)] (l : List (Keyed T)) :
    sortKeyed (l.map Subtype.val) = (l.mergeSort fun x y => (x.cmp y).isLE).map Subtype.val := by
  refine (map_mergeSort fun x _ y _ => ?_).symm
  rw [@OrientedCmp.eq_swap _ Keyed.cmp, Bool.eq_iff_iff, Bool.not_eq_true', ← Bool.not_eq_true,
    Keyed.cmp_eq_lt]
  cases Keyed.cmp y x <;> decide

theorem PathTree.Consistent.strictWeak (hT : T.Consistent) : StrictWeak T.Has := by
  have ht := hT.transCmp
  have hkd := hT.transCmp_keyed
  have hs : ∀ a b : Bytes, comparePaths a b = (comparePaths b a).swap :=
    fun a b => compareLoop_swap _ _
  refine ⟨fun a b ha hb hab => ?_, fun a b c ha hb hc => ?_,
    fun a b c ha hb hc hab hba hbc hcb => ?_,
    fun keyed keyed' hhas hp => ?_⟩
  · rw [hs b a, hab]
    rfl
  · exact @TransCmp.lt_trans _ _ ht ⟨a, ha⟩ ⟨b, hb⟩ ⟨c, hc⟩
  · have heq : ∀ x y : Bytes, comparePaths x y ≠ .lt → comparePaths y x ≠ .lt →
        comparePaths x y = .eq := by
      intro x y hxy hyx
      rw [hs y x] at hyx
      cases h : comparePaths x y with
      | eq => rfl
      | lt => exact absurd h hxy
      | gt => exact absurd (by rw [h]; rfl) hyx
    have hac : comparePaths a c = .eq := @TransCmp.eq_trans _ _ ht ⟨a, ha⟩ ⟨b, hb⟩ ⟨c, hc⟩
      (heq a b hab hba) (heq b c hbc hcb)
    rw [hs c a, hac]
    exact ⟨nofun, nofun⟩
  · have hhas' : ∀ x ∈ keyed', T.Has x.2.path := fun x hx => hhas x (hp.mem_iff.mpr hx)
    lift keyed to List (Keyed T) using hhas
    lift keyed' to List (Keyed T) using hhas'
    rw [sortKeyed_map_val, sortKeyed_map_val, forall₂_map_left_iff, forall₂_map_right_iff]
    refine (forall₂_mergeSort ((map_perm_map_iff Subtype.val_injective).mp hp)).imp
      fun x y hxy => ?_
    rw [← Bool.not_eq_true, ← Bool.not_eq_true, Keyed.cmp_eq_lt, Keyed.cmp_eq_lt,
      @OrientedCmp.eq_swap _ Keyed.cmp _ y, hxy]
    exact ⟨nofun, nofun⟩

/-! ## Three names under one prefix -/

/-- Paths whose prefixes are not told apart are compared by their last
segments. -/
theorem compareLoop_concat {pre pre' : List Bytes} (h : Forall₂ Alike pre pre') :
    compareLoop (pre ++ [a]) (pre' ++ [b]) = compareSegments a b := by
  induction h with
  | nil =>
    show compareLoop [a] [b] = _
    rw [compareLoop, compareLoop]
    cases compareSegments a b <;> rfl
  | cons hs _ ih =>
    rw [cons_append, cons_append, compareLoop, compareSegments_eq_iff.mpr hs]
    exact ih

/-- Two prefixes that are like a third one are alike. -/
theorem alike_of_prefix {pre l l' : List Bytes} (h : Forall₂ Alike pre l)
    (h' : Forall₂ Alike pre l') : Forall₂ Alike l l' := by
  induction h generalizing l' with
  | nil => exact h'
  | cons hs _ ih =>
    cases h' with
    | cons hs' hr => exact .cons (hs.symm.trans hs') (ih hr)

theorem StrictWeak.consistent (h : StrictWeak T.Has) : T.Consistent := by
  rintro pre p ⟨pre₁, h₁, hp⟩ r ⟨pre₂, h₂, hr⟩ q ⟨pre₃, h₃, hq⟩ hdp hdq hdr hpr hrq
  -- the paths of the three names
  have hspl : ∀ {l : List Bytes} {s : Bytes}, l ++ [s] ∈ T.paths →
      splitPointer ([47].intercalate (l ++ [s])) = l ++ [s] := fun hl =>
    splitOn_intercalate 47 (T.segment _ hl) (concat_ne_nil _ _)
  have hhas : ∀ {l : List Bytes} {s : Bytes}, l ++ [s] ∈ T.paths →
      T.Has ([47].intercalate (l ++ [s])) := fun hl => by
    unfold PathTree.Has
    rwa [hspl hl]
  have hcmp : ∀ {l l' : List Bytes} {s s' : Bytes}, Forall₂ Alike pre l → Forall₂ Alike pre l' →
      l ++ [s] ∈ T.paths → l' ++ [s'] ∈ T.paths →
      comparePaths ([47].intercalate (l ++ [s])) ([47].intercalate (l' ++ [s']))
        = compareSegments s s' := fun hl hl' hs hs' => by
    rw [comparePaths, hspl hs, hspl hs', compareLoop_concat]
    exact alike_of_prefix hl hl'
  have hless : ∀ {a b : Bytes}, (allDigits a && allDigits b) = false → a < b →
      compareSegments a b = .lt := fun hn hab => by
    rw [compareSegments_of_not (Bool.not_eq_true _ ▸ hn), compareOfLessAndEq, if_pos hab]
  have hlt := h.less_trans _ _ _ (hhas hp) (hhas hr) (hhas hq)
    ((hcmp h₁ h₂ hp hr).trans (hless (by rw [hdr, Bool.and_false]) hpr))
    ((hcmp h₂ h₃ hr hq).trans (hless (by rw [hdr, Bool.false_and]) hrq))
  rwa [hcmp h₁ h₃ hp hq, compareSegments_of_allDigits hdp hdq, compareOfLessAndEq_eq_lt] at hlt

/-- **The comparison is a strict weak ordering on the sets of paths whose names
under every prefix are consistent, and on no others.** -/
theorem strictWeak_iff (T : PathTree) : StrictWeak T.Has ↔ T.Consistent :=
  ⟨StrictWeak.consistent, PathTree.Consistent.strictWeak⟩

/-- `10`, `1x` and `2` are in a circle. -/
theorem not_strictWeak : ¬StrictWeak fun _ => True := fun h =>
  absurd (h.less_trans [49, 48] [49, 120] [50] trivial trivial trivial (by decide) (by decide))
    (by decide)

end NeoGraph.Program.ViolationOrder
