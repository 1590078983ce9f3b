import NeoGraph.CanonicalJson.Strings

/-!
# The limits do not depend on the order of members

The size a value is charged with is checked against the limit after every
part, but it only grows: the check passes when the total is within the
limit (`validateJsonValueLimits_eq_ok`). The total is a sum over the
members of an object, so the normal form of a value passes with the same
size (`validateJsonValueLimits_normalize`).
-/

namespace NeoGraph.CanonicalJson

open List

variable {n : ℕ}

theorem checkedJsonSize_eq_ok {current additional : ℕ} (h : current ≤ maxJsonBytes) :
    checkedJsonSize current additional = .ok n
      ↔ current + additional ≤ maxJsonBytes ∧ n = current + additional := by
  unfold checkedJsonSize
  split
  · constructor
    · rintro ⟨⟩
    · omega
  · constructor
    · rintro ⟨⟩
      exact ⟨by omega, rfl⟩
    · rintro ⟨-, rfl⟩
      rfl

/-! ## Strings -/

/-- What a byte of a string is charged with beyond itself. -/
def escapeCost (b : UInt8) : ℕ := if needsJsonEscape b then (if b < 0x20 then 5 else 1) else 0

/-- The size a string is charged with. -/
def stringSize (value : Bytes) : ℕ := 2 + value.length + (value.map escapeCost).sum

variable {value : Bytes}

theorem sum_escapeCost_of_not_needsJsonEscape
    (h : ∀ b ∈ value, needsJsonEscape b = false) : (value.map escapeCost).sum = 0 := by
  refine sum_eq_zero fun n hn => ?_
  obtain ⟨b, hb, rfl⟩ := mem_map.mp hn
  unfold escapeCost
  rw [h b hb, if_neg Bool.false_ne_true]

variable {size : ℕ}

/-- The loop adds up the costs of the bytes, up to the limit. -/
theorem escapedSizeLoop_eq_ok (fuel : ℕ) (value : Bytes)
    (hfu : value.length ≤ fuel) (hsz : size ≤ maxJsonBytes) :
    escapedSizeLoop fuel value size = .ok n
      ↔ size + (value.map escapeCost).sum ≤ maxJsonBytes
        ∧ n = size + (value.map escapeCost).sum := by
  induction fuel generalizing value size with
  | zero =>
    rw [length_eq_zero_iff.mp (Nat.le_zero.mp hfu)]
    simp [escapedSizeLoop, hsz, eq_comm]
  | succ fuel ih =>
    cases value with
    | nil => simp [escapedSizeLoop, hsz, eq_comm]
    | cons b rest =>
      rw [escapedSizeLoop]
      split
      · rename_i hb
        have hdr : ((b :: rest).drop (unescapedPrefix (b :: rest))).length ≤ fuel := by
          rw [unescapedPrefix_eq, takeWhile_cons_of_pos (p := fun b => !needsJsonEscape b) hb]
          simp at hfu ⊢
          omega
        have hsm : ((b :: rest).map escapeCost).sum
            = (((b :: rest).drop (unescapedPrefix (b :: rest))).map escapeCost).sum := by
          conv_lhs => rw [← take_append_drop (unescapedPrefix (b :: rest)) (b :: rest)]
          rw [map_append, sum_append, sum_escapeCost_of_not_needsJsonEscape, Nat.zero_add]
          rw [unescapedPrefix_eq, ← prefix_iff_eq_take.mp (List.takeWhile_prefix _)]
          intro c hc
          simpa using mem_takeWhile_imp hc
        rw [ih _ hdr hsz, hsm]
      · rename_i hb
        have hcs : escapeCost b = if b < 0x20 then 5 else 1 := by
          unfold escapeCost
          rw [if_pos (by simpa using hb)]
        rw [bind_eq_ok, map_cons, sum_cons, hcs]
        constructor
        · rintro ⟨size', hsz', h⟩
          obtain ⟨hle, rfl⟩ := (checkedJsonSize_eq_ok hsz).mp hsz'
          rw [ih rest (Nat.le_of_succ_le_succ hfu) hle] at h
          omega
        · rintro ⟨hle, rfl⟩
          refine ⟨_, (checkedJsonSize_eq_ok hsz).mpr ⟨by omega, rfl⟩, ?_⟩
          rw [ih rest (Nat.le_of_succ_le_succ hfu) (by omega)]
          omega

/-- A string is within the limit when its size is. -/
theorem escapedJsonStringSize_eq_ok :
    escapedJsonStringSize value = .ok n ↔ stringSize value ≤ maxJsonBytes
      ∧ n = stringSize value := by
  unfold escapedJsonStringSize stringSize
  rw [bind_eq_ok]
  have hm : 2 ≤ maxJsonBytes := by decide
  constructor
  · rintro ⟨size, hsz, h⟩
    obtain ⟨hle, rfl⟩ := (checkedJsonSize_eq_ok hm).mp hsz
    exact (escapedSizeLoop_eq_ok value.length value le_rfl hle).mp h
  · rintro ⟨hle, rfl⟩
    refine ⟨_, (checkedJsonSize_eq_ok hm).mpr ⟨by omega, rfl⟩, ?_⟩
    exact (escapedSizeLoop_eq_ok value.length value le_rfl (by omega)).mpr ⟨hle, rfl⟩

/-! ## Values -/

mutual

/-- The size a value is charged with. -/
def valueSize : Json Bytes → ℕ
  | .null => 4
  | .bool b => if b then 4 else 5
  | .uint _ => 32
  | .sint _ => 32
  | .real _ => 32
  | .str s => stringSize s
  | .arr items => 2 + itemsSize items true
  | .obj members => 2 + membersSize members true

/-- The sizes of items with their separators. -/
def itemsSize : List (Json Bytes) → Bool → ℕ
  | [], _ => 0
  | item :: items, first => (if first then 0 else 1) + valueSize item + itemsSize items false

def membersSize : List (Bytes × Json Bytes) → Bool → ℕ
  | [], _ => 0
  | (name, item) :: members, first =>
    (if first then 0 else 1) + stringSize name + 1 + valueSize item + membersSize members false

end

mutual

/-- The value is within the limit of depth when it stands at some depth. -/
def WithinDepth : Json Bytes → ℕ → Prop
  | .arr items, depth => depth ≤ maxJsonDepth ∧ WithinDepthItems items (depth + 1)
  | .obj members, depth => depth ≤ maxJsonDepth ∧ WithinDepthMembers members (depth + 1)
  | _, depth => depth ≤ maxJsonDepth

/-- Items that are nested at most so deep. -/
def WithinDepthItems : List (Json Bytes) → ℕ → Prop
  | [], _ => True
  | item :: items, depth => WithinDepth item depth ∧ WithinDepthItems items depth

def WithinDepthMembers : List (Bytes × Json Bytes) → ℕ → Prop
  | [], _ => True
  | (_, item) :: members, depth => WithinDepth item depth ∧ WithinDepthMembers members depth

end

theorem checkedSeparator_eq_ok {first : Bool} (hsz : size ≤ maxJsonBytes) :
    checkedSeparator size first = .ok n
      ↔ size + (if first then 0 else 1) ≤ maxJsonBytes
        ∧ n = size + (if first then 0 else 1) := by
  cases first with
  | true => simp [checkedSeparator, hsz, eq_comm]
  | false => exact checkedJsonSize_eq_ok hsz

/-- The check of a value passes when its depth and its size are within the
limits. -/
def Checked (v : Json Bytes) : Prop :=
  ∀ depth n, validateJsonValueLimits v depth = .ok n
    ↔ WithinDepth v depth ∧ valueSize v ≤ maxJsonBytes ∧ n = valueSize v

variable {depth : ℕ}

theorem validateItems_eq_ok {items : List (Json Bytes)} (his : ∀ v ∈ items, Checked v)
    {size : ℕ} {first : Bool} (hsz : size ≤ maxJsonBytes) :
    validateItems items depth size first = .ok n
      ↔ WithinDepthItems items depth ∧ size + itemsSize items first ≤ maxJsonBytes
        ∧ n = size + itemsSize items first := by
  induction items generalizing size first with
  | nil => simp [validateItems, WithinDepthItems, itemsSize, hsz, eq_comm]
  | cons item items ih =>
    have hi := his item mem_cons_self
    have ih := @ih fun v hv => his v (mem_cons_of_mem item hv)
    rw [validateItems, WithinDepthItems, itemsSize]
    constructor
    · intro h
      simp only [bind_eq_ok] at h
      obtain ⟨size₁, hsz₁, additional, ha, size₂, hsz₂, h⟩ := h
      obtain ⟨hle₁, rfl⟩ := (checkedSeparator_eq_ok hsz).mp hsz₁
      obtain ⟨hdp, -, rfl⟩ := (hi depth additional).mp ha
      obtain ⟨hle₂, rfl⟩ := (checkedJsonSize_eq_ok hle₁).mp hsz₂
      obtain ⟨hd, hle, rfl⟩ := (ih hle₂).mp h
      exact ⟨⟨hdp, hd⟩, by omega, by omega⟩
    · rintro ⟨⟨hdp, hd⟩, hle, rfl⟩
      refine bind_eq_ok.mpr ⟨_, (checkedSeparator_eq_ok hsz).mpr ⟨by omega, rfl⟩, ?_⟩
      refine bind_eq_ok.mpr ⟨_, (hi depth _).mpr ⟨hdp, by omega, rfl⟩, ?_⟩
      refine bind_eq_ok.mpr ⟨_, (checkedJsonSize_eq_ok (by omega)).mpr ⟨by omega, rfl⟩, ?_⟩
      exact (ih (by omega)).mpr ⟨hd, by omega, by omega⟩

/-- The check of members, if each value is checked as it should be. -/
theorem validateMembers_eq_ok {members : List (Bytes × Json Bytes)}
    (hmbr : ∀ m ∈ members, Checked m.2) {size : ℕ} {first : Bool} (hsz : size ≤ maxJsonBytes) :
    validateMembers members depth size first = .ok n
      ↔ WithinDepthMembers members depth ∧ size + membersSize members first ≤ maxJsonBytes
        ∧ n = size + membersSize members first := by
  induction members generalizing size first with
  | nil => simp [validateMembers, WithinDepthMembers, membersSize, hsz, eq_comm]
  | cons m members ih =>
    obtain ⟨name, item⟩ := m
    have hi : Checked item := hmbr (name, item) mem_cons_self
    have ih := @ih fun m hm => hmbr m (mem_cons_of_mem _ hm)
    rw [validateMembers, WithinDepthMembers, membersSize]
    constructor
    · intro h
      simp only [bind_eq_ok] at h
      obtain ⟨size₁, hsz₁, escaped, hescaped, size₂, hsz₂, size₃, hsz₃, additional, ha,
        size₄, hsz₄, h⟩ := h
      obtain ⟨hle₁, rfl⟩ := (checkedSeparator_eq_ok hsz).mp hsz₁
      obtain ⟨-, rfl⟩ := escapedJsonStringSize_eq_ok.mp hescaped
      obtain ⟨hle₂, rfl⟩ := (checkedJsonSize_eq_ok hle₁).mp hsz₂
      obtain ⟨hle₃, rfl⟩ := (checkedJsonSize_eq_ok hle₂).mp hsz₃
      obtain ⟨hdp, -, rfl⟩ := (hi depth additional).mp ha
      obtain ⟨hle₄, rfl⟩ := (checkedJsonSize_eq_ok hle₃).mp hsz₄
      obtain ⟨hd, hle, rfl⟩ := (ih hle₄).mp h
      exact ⟨⟨hdp, hd⟩, by omega, by omega⟩
    · rintro ⟨⟨hdp, hd⟩, hle, rfl⟩
      refine bind_eq_ok.mpr ⟨_, (checkedSeparator_eq_ok hsz).mpr ⟨by omega, rfl⟩, ?_⟩
      refine bind_eq_ok.mpr ⟨_, escapedJsonStringSize_eq_ok.mpr ⟨by omega, rfl⟩, ?_⟩
      refine bind_eq_ok.mpr ⟨_, (checkedJsonSize_eq_ok (by omega)).mpr ⟨by omega, rfl⟩, ?_⟩
      refine bind_eq_ok.mpr ⟨_, (checkedJsonSize_eq_ok (by omega)).mpr ⟨by omega, rfl⟩, ?_⟩
      refine bind_eq_ok.mpr ⟨_, (hi depth _).mpr ⟨hdp, by omega, rfl⟩, ?_⟩
      refine bind_eq_ok.mpr ⟨_, (checkedJsonSize_eq_ok (by omega)).mpr ⟨by omega, rfl⟩, ?_⟩
      exact (ih (by omega)).mpr ⟨hd, by omega, by omega⟩

variable {v : Json Bytes}

/-- The depth is checked first, whatever the value is. -/
theorem checked_of_depth {result : ℕ → Except Exn ℕ} {inner : ℕ → Prop}
    (hvld : ∀ depth, validateJsonValueLimits v depth =
      if maxJsonDepth < depth then .error depthExceeded else result depth)
    (hdp : ∀ depth, WithinDepth v depth ↔ depth ≤ maxJsonDepth ∧ inner depth)
    (hr : ∀ depth n, result depth = .ok n ↔ inner depth ∧ valueSize v ≤ maxJsonBytes
      ∧ n = valueSize v) :
    Checked v := by
  intro depth n
  rw [hvld, hdp, and_assoc, ← hr]
  by_cases hlt : maxJsonDepth < depth
  · rw [if_pos hlt]
    constructor
    · rintro ⟨⟩
    · exact fun h => absurd h.1 (not_le.mpr hlt)
  · rw [if_neg hlt]
    exact ⟨fun h => ⟨not_lt.mp hlt, h⟩, fun h => h.2⟩

theorem checked_of_small (hsz : valueSize v ≤ 32)
    (hvld : ∀ depth, validateJsonValueLimits v depth =
      if maxJsonDepth < depth then .error depthExceeded else .ok (valueSize v))
    (hdp : ∀ depth, WithinDepth v depth ↔ depth ≤ maxJsonDepth) : Checked v := by
  have hm : 32 ≤ maxJsonBytes := by decide
  have ht : ∀ depth, WithinDepth v depth ↔ depth ≤ maxJsonDepth ∧ True :=
    fun depth => (hdp depth).trans (iff_of_eq (and_true _)).symm
  refine checked_of_depth hvld ht ?_
  intro depth n
  simp [hsz.trans hm, eq_comm]

/-- **The check of a value passes exactly when its depth and its size are
within the limits.** -/
theorem checked (v : Json Bytes) : Checked v := by
  have hm : 2 ≤ maxJsonBytes := by decide
  induction v using Json.ind with
  | null =>
    refine checked_of_small (show 4 ≤ 32 by decide) (fun depth => ?_) fun _ => Iff.rfl
    rw [validateJsonValueLimits, valueSize]
  | bool b =>
    refine checked_of_small (by cases b <;> decide) (fun depth => ?_) fun _ => Iff.rfl
    rw [validateJsonValueLimits, valueSize]
  | uint n | sint n | real bits =>
    refine checked_of_small (show 32 ≤ 32 by decide) (fun depth => ?_) fun _ => Iff.rfl
    rw [validateJsonValueLimits, valueSize]
  | str s =>
    have ht : ∀ depth, WithinDepth (.str s) depth ↔ depth ≤ maxJsonDepth ∧ True :=
      fun depth => (iff_of_eq (and_true _)).symm
    refine checked_of_depth (fun depth => by rw [validateJsonValueLimits]) ht fun depth n => ?_
    rw [escapedJsonStringSize_eq_ok, true_and]
    rfl
  | arr items ih =>
    refine checked_of_depth (fun depth => by rw [validateJsonValueLimits])
      (fun depth => Iff.rfl) fun depth n => ?_
    rw [validateItems_eq_ok ih hm]
    rfl
  | obj members ih =>
    refine checked_of_depth (fun depth => by rw [validateJsonValueLimits])
      (fun depth => Iff.rfl) fun depth n => ?_
    rw [validateMembers_eq_ok ih hm]
    rfl

/-! ## Normal forms -/

theorem withinDepthItems_iff (items : List (Json Bytes)) (depth : ℕ) :
    WithinDepthItems items depth ↔ ∀ v ∈ items, WithinDepth v depth := by
  induction items with
  | nil => simp [WithinDepthItems]
  | cons item items ih => rw [WithinDepthItems, ih, forall_mem_cons]

theorem withinDepthMembers_iff (members : List (Bytes × Json Bytes)) (depth : ℕ) :
    WithinDepthMembers members depth ↔ ∀ m ∈ members, WithinDepth m.2 depth := by
  induction members with
  | nil => simp [WithinDepthMembers]
  | cons m members ih => rw [WithinDepthMembers, ih, forall_mem_cons]

/-- The size of the members is a sum, with a comma for every member but the
first. -/
theorem membersSize_eq_sum (members : List (Bytes × Json Bytes)) : membersSize members true
      = (members.map fun m => stringSize m.1 + 1 + valueSize m.2).sum + (members.length - 1) := by
  have hf : ∀ members : List (Bytes × Json Bytes), membersSize members false
      = (members.map fun m => stringSize m.1 + 1 + valueSize m.2).sum + members.length := by
    intro members
    induction members with
    | nil => rfl
    | cons m members ih =>
      rw [membersSize, ih, map_cons, sum_cons, length_cons,
        if_neg Bool.false_ne_true]
      omega
  cases members with
  | nil => rfl
  | cons m members =>
    rw [membersSize, hf, map_cons, sum_cons, length_cons, if_pos rfl]
    omega

theorem itemsSize_congr {items : List (Json Bytes)}
    (h : ∀ v ∈ items, valueSize v.normalize = valueSize v) (first : Bool) :
    itemsSize (Json.normalizeItems items) first = itemsSize items first := by
  induction items generalizing first with
  | nil => rfl
  | cons item items ih =>
    rw [Json.normalizeItems, itemsSize, itemsSize, h item mem_cons_self,
      ih fun v hv => h v (mem_cons_of_mem item hv)]

/-- A normal form is charged with the same size and stands at the same
depth. -/
theorem size_depth_normalize (v : Json Bytes) : valueSize v.normalize = valueSize v
      ∧ ∀ depth, WithinDepth v depth → WithinDepth v.normalize depth := by
  induction v using Json.ind with
  | null | bool b | uint n | real bits | str s => exact ⟨rfl, fun _ h => h⟩
  | sint n =>
    rw [Json.normalize]
    split <;> exact ⟨rfl, fun _ h => h⟩
  | arr items ih =>
    rw [Json.normalize]
    refine ⟨congrArg (2 + ·) (itemsSize_congr (fun v hv => (ih v hv).1) true), ?_⟩
    rintro depth ⟨hdp, his⟩
    rw [withinDepthItems_iff] at his
    refine ⟨hdp, (withinDepthItems_iff _ _).mpr ?_⟩
    rw [Json.normalizeItems_eq_map]
    intro w hw
    obtain ⟨v, hv, rfl⟩ := mem_map.mp hw
    exact (ih v hv).2 _ (his v hv)
  | obj members ih =>
    rw [Json.normalize, Json.normalizeMembers_eq_map]
    have hp := sortMembers_perm (members.map fun m => (m.1, m.2.normalize))
    constructor
    · show 2 + membersSize _ true = 2 + membersSize _ true
      rw [membersSize_eq_sum, membersSize_eq_sum, (hp.map _).sum_eq, hp.length_eq,
        length_map, map_map, map_congr_left]
      intro m hm
      show stringSize m.1 + 1 + valueSize m.2.normalize = _
      rw [(ih m hm).1]
    · rintro depth ⟨hdp, hmbr⟩
      rw [withinDepthMembers_iff] at hmbr
      refine ⟨hdp, (withinDepthMembers_iff _ _).mpr ?_⟩
      intro n hn
      obtain ⟨m, hm, rfl⟩ := mem_map.mp (hp.mem_iff.mp hn)
      exact (ih m hm).2 _ (hmbr m hm)

/-- **The normal form of a value passes the check with the same size.** -/
theorem validateJsonValueLimits_normalize (h : validateJsonValueLimits v depth = .ok n) :
    validateJsonValueLimits v.normalize depth = .ok n := by
  obtain ⟨hdp, hsz, rfl⟩ := (checked v depth n).mp h
  obtain ⟨hsm, hwi⟩ := size_depth_normalize v
  exact (checked v.normalize depth _).mpr ⟨hwi depth hdp, hsm ▸ hsz, hsm.symm⟩

end NeoGraph.CanonicalJson
