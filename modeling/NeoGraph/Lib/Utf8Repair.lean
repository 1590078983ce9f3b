import NeoGraph.Lib.Utf8

/-!
# Repairing a byte string

A byte string that is not UTF-8 is repaired by replacing its ill-formed
parts with U+FFFD, one for each *maximal subpart*: where no character
begins, the longest beginning of the rest that also begins some character,
or one byte (`Utf8.MaximalSubpart`). The repaired text is a list of
characters (`Utf8.Repairs`), and it is the only one (`Utf8.Repairs.unique`).

What begins a character can be told from its bytes: the first one says how
many follow and bounds the second one (`Utf8.begins_cons`).

A text is cut to a number of bytes by keeping the characters that fit
(`Utf8.takeBytes`), which is the longest beginning of it that does
(`Utf8.prefix_takeBytes`).
-/

namespace NeoGraph.Utf8

open String List

/-- The encoding of a text. -/
def encodeText (chars : List Char) : Bytes := chars.flatMap utf8EncodeChar

variable (c : Char)

theorem encodeText_cons (chars : List Char) :
    encodeText (c :: chars) = utf8EncodeChar c ++ encodeText chars := flatMap_cons

theorem wellFormed_encodeText (chars : List Char) : WellFormed (encodeText chars) :=
  wellFormed_iff.mpr ⟨chars, rfl⟩

theorem length_encodeChar_pos : 0 < (utf8EncodeChar c).length :=
  length_pos_iff.mpr utf8EncodeChar_ne_nil

/-! ## Two characters at one place -/

theorem encodeChar_injective : Function.Injective String.utf8EncodeChar := by
  intro c d h
  have hc : c.val.toNat < 0x110000 := by
    have := c.valid
    unfold UInt32.isValidChar Nat.isValidChar at this
    omega
  have hd : d.val.toNat < 0x110000 := by
    have := d.valid
    unfold UInt32.isValidChar Nat.isValidChar at this
    omega
  have hv : c.val.toNat = d.val.toNat := by
    obtain ⟨_, hcd⟩ | ⟨_, _, hcd⟩ | ⟨_, _, hcd⟩ | ⟨_, hcd⟩ := encodeChar_cases c <;>
    obtain ⟨_, hcd'⟩ | ⟨_, _, hcd'⟩ | ⟨_, _, hcd'⟩ | ⟨_, hcd'⟩ := encodeChar_cases d <;>
    rw [hcd, hcd'] at h <;>
    simp only [List.cons.injEq, and_true, reduceCtorEq, and_false, ofNat_eq_iff,
      UInt8.toNat_ofNat'] at h <;>
    omega
  exact Char.ext (UInt32.toNat_inj.mp hv)

variable {value : Bytes}

/-- At most one character begins at a place. -/
theorem encodeChar_of_prefix {c d : Char} (hc : utf8EncodeChar c <+: value)
    (hd : utf8EncodeChar d <+: value) : c = d := by
  obtain ⟨rest, rfl⟩ := hc
  obtain ⟨rest', hr⟩ := hd
  have hl := charLength_encodeChar c rest
  rw [← hr, charLength_encodeChar] at hl
  exact encodeChar_injective (append_inj_left hr (Option.some.inj hl)).symm

/-! ## What begins a character -/

/-- The bytes begin the encoding of some character. -/
def Begins (part : Bytes) : Prop := ∃ c, part <+: utf8EncodeChar c

/-- The bytes after the first one, up to `needed` of them. The next one has
a range of its own. -/
def FitsTail : ℕ → UInt8 → UInt8 → Bytes → Prop
  | _, _, _, [] => True
  | 0, _, _, _ :: _ => False
  | needed + 1, low, high, b :: tail => (low ≤ b ∧ b ≤ high) ∧ FitsTail needed 0x80 0xBF tail

/-- What follows a first byte: the number of bytes and the range of the
first of them. -/
def row (a : UInt8) : Option (ℕ × UInt8 × UInt8) :=
  if a < 0x80 then some (0, 0x80, 0xBF)
  else if 0xC2 ≤ a && a ≤ 0xDF then some (1, 0x80, 0xBF)
  else if 0xE0 ≤ a && a ≤ 0xEF then some (2, secondLow a, secondHigh a)
  else if 0xF0 ≤ a && a ≤ 0xF4 then some (3, secondLow a, secondHigh a)
  else none

variable {low high : UInt8} {tail : Bytes} {needed : ℕ}

/-- A tail can be completed. -/
theorem FitsTail.complete (h : FitsTail needed low high tail) (hrg : low ≤ high) :
    ∃ rest, FitsTail needed low high (tail ++ rest) ∧ (tail ++ rest).length = needed := by
  induction needed generalizing low high tail with
  | zero =>
    cases tail with
    | nil => exact ⟨[], trivial, rfl⟩
    | cons b tail => exact h.elim
  | succ needed ih =>
    cases tail with
    | nil =>
      obtain ⟨rest, hr, hl⟩ := @ih 0x80 0xBF [] (by cases needed <;> trivial) (by decide)
      exact ⟨low :: rest, ⟨⟨UInt8.le_refl _, hrg⟩, hr⟩, congrArg Nat.succ hl⟩
    | cons b tail =>
      obtain ⟨rest, hr, hl⟩ := ih h.2 (by decide)
      exact ⟨rest, ⟨h.1, hr⟩, congrArg Nat.succ hl⟩

theorem secondLow_le_secondHigh (a : UInt8) : secondLow a ≤ secondHigh a := by
  unfold secondLow secondHigh
  by_cases hE0 : a = 0xE0
  · subst hE0
    decide
  by_cases hF0 : a = 0xF0
  · subst hF0
    decide
  rw [if_neg hE0, if_neg hF0]
  split
  · decide
  · split <;> decide

theorem isContinuation_range {b : UInt8} : isContinuation b = true ↔ 0x80 ≤ b ∧ b ≤ 0xBF := by
  unfold isContinuation
  simp only [Bool.and_eq_true, decide_eq_true_eq]

variable {a : UInt8}

theorem not_lt_of_row (hlow : 0x80 ≤ low) (h : low ≤ a ∧ a ≤ high) :
    ¬a < 0x80 := UInt8.not_lt.mpr (UInt8.le_trans hlow h.1)

theorem row_two (h : 0xC2 ≤ a ∧ a ≤ 0xDF) : row a = some (1, 0x80, 0xBF) := by
  unfold row
  rw [if_neg (not_lt_of_row (by decide) h), if_pos (by simpa using h)]

theorem row_three (h : 0xE0 ≤ a ∧ a ≤ 0xEF) : row a = some (2, secondLow a, secondHigh a) := by
  have htwo : ¬a ≤ 0xDF := UInt8.not_le.mpr (UInt8.lt_of_lt_of_le (by decide) h.1)
  unfold row
  rw [if_neg (not_lt_of_row (by decide) h), if_neg (by simp [htwo]), if_pos (by simpa using h)]

theorem row_four (h : 0xF0 ≤ a ∧ a ≤ 0xF4) : row a = some (3, secondLow a, secondHigh a) := by
  have htwo : ¬a ≤ 0xDF := UInt8.not_le.mpr (UInt8.lt_of_lt_of_le (by decide) h.1)
  have h3 : ¬a ≤ 0xEF := UInt8.not_le.mpr (UInt8.lt_of_lt_of_le (by decide) h.1)
  unfold row
  rw [if_neg (not_lt_of_row (by decide) h), if_neg (by simp [htwo]), if_neg (by simp [h3]),
    if_pos (by simpa using h)]

/-- A complete tail makes a character. -/
theorem charLength_of_row (hr : row a = some (needed, low, high))
    (hft : FitsTail needed low high tail) (hl : tail.length = needed) :
    charLength (a :: tail) = some (needed + 1) := by
  unfold row at hr
  split at hr
  · rename_i hasc
    cases hr
    exact if_pos hasc
  split at hr
  · rename_i ha
    cases hr
    simp only [Bool.and_eq_true, decide_eq_true_eq] at ha
    obtain ⟨b, rfl⟩ := length_eq_one_iff.mp hl
    exact charLength_two ha (isContinuation_range.mpr hft.1) []
  split at hr
  · rename_i ha
    cases hr
    simp only [Bool.and_eq_true, decide_eq_true_eq] at ha
    obtain ⟨b, c, rfl⟩ := length_eq_two.mp hl
    exact charLength_three ha hft.1 (isContinuation_range.mpr hft.2.1) []
  split at hr
  · rename_i ha
    cases hr
    simp only [Bool.and_eq_true, decide_eq_true_eq] at ha
    obtain ⟨b, c, d, rfl⟩ := length_eq_three.mp hl
    exact charLength_four ha hft.1 (isContinuation_range.mpr hft.2.1)
      (isContinuation_range.mpr hft.2.2.1) []
  · cases hr

theorem row_le (h : row a = some (needed, low, high)) : low ≤ high := by
  unfold row at h
  split at h
  · cases h
    decide
  split at h
  · cases h
    decide
  split at h
  · cases h
    exact secondLow_le_secondHigh a
  split at h
  · cases h
    exact secondLow_le_secondHigh a
  · cases h

/-- A character is a first byte and a complete tail. -/
theorem encodeChar_eq_row : ∃ a needed low high tail,
    utf8EncodeChar c = a :: tail ∧ row a = some (needed, low, high)
      ∧ FitsTail needed low high tail ∧ tail.length = needed := by
  have hl := charLength_encodeChar c []
  rw [append_nil] at hl
  obtain ⟨a, rest, hv, ha, hn⟩ | ⟨a, b, rest, hv, ha, hb, hn⟩
    | ⟨a, b, b', rest, hv, ha, hb, hb', hn⟩
    | ⟨a, b, b', b'', rest, hv, ha, hb, hb', hb'', hn⟩ := charLength_eq_some hl
  all_goals
    rw [hv] at hn
    simp only [length_cons] at hn
    obtain rfl : rest = [] := length_eq_zero_iff.mp (by omega)
  · exact ⟨a, 0, 0x80, 0xBF, [], hv, by unfold row; exact if_pos ha, trivial, rfl⟩
  · exact ⟨a, 1, 0x80, 0xBF, [b], hv, row_two ha, ⟨isContinuation_range.mp hb, trivial⟩, rfl⟩
  · exact ⟨a, 2, _, _, [b, b'], hv, row_three ha,
      ⟨hb, isContinuation_range.mp hb', trivial⟩, rfl⟩
  · exact ⟨a, 3, _, _, [b, b', b''], hv, row_four ha,
      ⟨hb, isContinuation_range.mp hb', isContinuation_range.mp hb'', trivial⟩, rfl⟩

theorem FitsTail.of_prefix {part : Bytes} (h : FitsTail needed low high tail)
    (hp : part <+: tail) : FitsTail needed low high part := by
  obtain ⟨rest, rfl⟩ := hp
  induction part generalizing needed low high with
  | nil => cases needed <;> trivial
  | cons b part ih =>
    cases needed with
    | zero => exact h.elim
    | succ needed => exact ⟨h.1, ih h.2⟩

/-- **What begins a character** can be told from its bytes. -/
theorem begins_cons : Begins (a :: tail)
    ↔ ∃ needed low high, row a = some (needed, low, high) ∧ FitsTail needed low high tail := by
  constructor
  · rintro ⟨c, hc⟩
    obtain ⟨a', needed, low, high, tail', hcd, hrow, hft, -⟩ := encodeChar_eq_row c
    rw [hcd, List.cons_prefix_cons] at hc
    obtain ⟨rfl, hp⟩ := hc
    exact ⟨needed, low, high, hrow, hft.of_prefix hp⟩
  · rintro ⟨needed, low, high, hrow, hft⟩
    obtain ⟨rest, hr, hl⟩ := hft.complete (row_le hrow)
    obtain ⟨c, rest', hv, hn⟩ := exists_encodeChar (charLength_of_row hrow hr hl)
    obtain rfl : rest' = [] := by
      have := congrArg List.length hv
      rw [List.length_append, ← hn, List.length_cons, hl] at this
      exact List.length_eq_zero_iff.mp (by omega)
    rw [List.append_nil] at hv
    exact ⟨c, rest, by rw [← hv, List.cons_append]⟩

theorem row_bounds (h : row a = some (needed, low, high)) :
    isContinuation a = false ∧ 0x80 ≤ low ∧ high ≤ 0xBF := by
  have hl : ∀ {first : UInt8}, 0xBF < first → first ≤ a → isContinuation a = false := by
    intro first hf ha
    rw [Bool.eq_false_iff, ne_eq, isContinuation_range]
    exact fun h => UInt8.not_le.mpr (UInt8.lt_of_lt_of_le hf ha) h.2
  have hsec : 0x80 ≤ secondLow a ∧ secondHigh a ≤ 0xBF := by
    unfold secondLow secondHigh
    constructor <;> split_ifs <;> decide
  unfold row at h
  split at h
  · rename_i hasc
    cases h
    refine ⟨?_, by decide, by decide⟩
    rw [Bool.eq_false_iff, ne_eq, isContinuation_range]
    exact fun hrg => UInt8.not_lt.mpr hrg.1 hasc
  split at h
  · rename_i ha
    cases h
    simp only [Bool.and_eq_true, decide_eq_true_eq] at ha
    exact ⟨hl (by decide) ha.1, by decide, by decide⟩
  split at h
  · rename_i ha
    cases h
    simp only [Bool.and_eq_true, decide_eq_true_eq] at ha
    exact ⟨hl (by decide) ha.1, hsec⟩
  split at h
  · rename_i ha
    cases h
    simp only [Bool.and_eq_true, decide_eq_true_eq] at ha
    exact ⟨hl (by decide) ha.1, hsec⟩
  · cases h

theorem FitsTail.isContinuation (h : FitsTail needed low high tail) (hlow : 0x80 ≤ low)
    (hh : high ≤ 0xBF) : ∀ b ∈ tail, isContinuation b = true := by
  induction needed generalizing low high tail with
  | zero =>
    cases tail with
    | nil => exact forall_mem_nil _
    | cons b tail => exact h.elim
  | succ needed ih =>
    cases tail with
    | nil => exact forall_mem_nil _
    | cons b tail =>
      refine forall_mem_cons.mpr ⟨isContinuation_range.mpr ?_, ih h.2 (by decide) (by decide)⟩
      exact ⟨UInt8.le_trans hlow h.1.1, UInt8.le_trans h.1.2 hh⟩

/-- The first byte of a character does not go on with one, and the others
do. -/
theorem encodeChar_bytes : ∃ a tail, utf8EncodeChar c = a :: tail
    ∧ isContinuation a = false ∧ ∀ b ∈ tail, isContinuation b = true := by
  obtain ⟨a, needed, low, high, tail, hc, hr, hft, -⟩ := encodeChar_eq_row c
  obtain ⟨hl, hlow, hh⟩ := row_bounds hr
  exact ⟨a, tail, hc, hl, hft.isContinuation hlow hh⟩

/-! ## Repairs -/

/-- **A maximal subpart** of a byte string at whose head no character
begins. -/
structure MaximalSubpart (value : Bytes) (n : ℕ) : Prop where
  pos : 0 < n
  le : n ≤ value.length
  begins : n = 1 ∨ Begins (value.take n)
  maximal : ∀ m, n < m → m ≤ value.length → ¬Begins (value.take m)

/-- A text is the repair of a byte string: every character of it stands
there, or is a U+FFFD for a maximal subpart where no character begins. -/
inductive Repairs : Bytes → List Char → Prop
  | nil : Repairs [] []
  | char {c : Char} {rest : Bytes} {chars : List Char} : Repairs rest chars →
      Repairs (utf8EncodeChar c ++ rest) (c :: chars)
  | illFormed {value : Bytes} {n : ℕ} {chars : List Char} :
      (∀ c, ¬utf8EncodeChar c <+: value) → MaximalSubpart value n →
      Repairs (value.drop n) chars → Repairs value ('\uFFFD' :: chars)

variable {n : ℕ}

theorem MaximalSubpart.unique {m : ℕ} (hn : MaximalSubpart value n) (hm : MaximalSubpart value m) :
    n = m := by
  have hle : ∀ {n m}, MaximalSubpart value n → MaximalSubpart value m → n ≤ m := by
    intro n m hn hm
    by_contra hlt
    obtain ho | hb := hn.begins
    · have := hm.pos
      omega
    · exact hm.maximal n (not_le.mp hlt) hn.le hb
  exact Nat.le_antisymm (hle hn hm) (hle hm hn)

variable {chars : List Char}

/-- **A byte string has one repair.** -/
theorem Repairs.unique {chars' : List Char} (h : Repairs value chars) (h' : Repairs value chars') :
    chars = chars' := by
  induction h generalizing chars' with
  | nil =>
    generalize hv : ([] : Bytes) = value at h'
    cases h' with
    | nil => rfl
    | char hr =>
      exact absurd (append_eq_nil_iff.mp hv.symm).1 utf8EncodeChar_ne_nil
    | illFormed hno hp hr =>
      subst hv
      exact absurd (Nat.lt_of_lt_of_le hp.pos hp.le) (Nat.lt_irrefl _)
  | @char c rest chars hr ih =>
    generalize hv : utf8EncodeChar c ++ rest = value at h'
    cases h' with
    | nil => exact absurd (append_eq_nil_iff.mp hv).1 utf8EncodeChar_ne_nil
    | @char d rest' chars' hr' =>
      obtain rfl : c = d := encodeChar_of_prefix ⟨rest, hv⟩ ⟨rest', rfl⟩
      rw [ih (append_cancel_left hv ▸ hr')]
    | illFormed hno hp hr' => exact absurd ⟨rest, hv⟩ (hno c)
  | @illFormed value n chars hno hp hr ih =>
    cases h' with
    | nil => exact absurd (Nat.lt_of_lt_of_le hp.pos hp.le) (Nat.lt_irrefl _)
    | @char d rest' chars' hr' => exact absurd ⟨rest', rfl⟩ (hno d)
    | illFormed hno' hp' hr' =>
      rw [← hp.unique hp'] at hr'
      rw [ih hr']

theorem repairs_encodeText (chars : List Char) : Repairs (encodeText chars) chars := by
  induction chars with
  | nil => exact .nil
  | cons c chars ih => exact .char ih

/-! ## Cutting a text -/

/-- The characters of a text that fit into a number of bytes. -/
def takeBytes : ℕ → List Char → List Char
  | _, [] => []
  | n, c :: chars =>
    if (utf8EncodeChar c).length ≤ n then
      c :: takeBytes (n - (utf8EncodeChar c).length) chars
    else []

theorem takeBytes_cons_of_le {c : Char} (h : (utf8EncodeChar c).length ≤ n)
    (chars : List Char) : takeBytes n (c :: chars)
      = c :: takeBytes (n - (utf8EncodeChar c).length) chars := if_pos h

theorem takeBytes_cons_of_lt {c : Char} (h : n < (utf8EncodeChar c).length)
    (chars : List Char) : takeBytes n (c :: chars) = [] := if_neg (not_le.mpr h)

theorem takeBytes_isPrefix (n : ℕ) (chars : List Char) : takeBytes n chars <+: chars := by
  induction chars generalizing n with
  | nil => exact nil_prefix
  | cons c chars ih =>
    obtain hle | hlt := le_or_gt (utf8EncodeChar c).length n
    · rw [takeBytes_cons_of_le hle]
      exact (prefix_cons_inj c).mpr (ih _)
    · rw [takeBytes_cons_of_lt hlt]
      exact nil_prefix

theorem length_encodeText_takeBytes_le (n : ℕ) (chars : List Char) :
    (encodeText (takeBytes n chars)).length ≤ n := by
  induction chars generalizing n with
  | nil => exact Nat.zero_le n
  | cons c chars ih =>
    obtain hle | hlt := le_or_gt (utf8EncodeChar c).length n
    · rw [takeBytes_cons_of_le hle, encodeText_cons, List.length_append]
      have := ih (n - (utf8EncodeChar c).length)
      omega
    · rw [takeBytes_cons_of_lt hlt]
      exact Nat.zero_le n

/-- **The longest beginning that fits.** -/
theorem prefix_takeBytes {kept : List Char} (hk : kept <+: chars)
    (hn : (encodeText kept).length ≤ n) : kept <+: takeBytes n chars := by
  induction chars generalizing n kept with
  | nil =>
    rw [prefix_nil.mp hk]
    exact nil_prefix
  | cons c chars ih =>
    cases kept with
    | nil => exact nil_prefix
    | cons d kept =>
      obtain ⟨rfl, hr⟩ := cons_prefix_cons.mp hk
      rw [encodeText_cons, List.length_append] at hn
      rw [takeBytes_cons_of_le (by omega)]
      exact (prefix_cons_inj d).mpr (ih hr (by omega))

theorem takeBytes_of_le (h : (encodeText chars).length ≤ n) : takeBytes n chars = chars :=
  List.IsPrefix.eq_of_length_le (takeBytes_isPrefix n chars)
    (prefix_takeBytes (prefix_refl chars) h).length_le

/-- The longest beginning of a text that fits into a number of bytes. -/
structure LongestWithin (n : ℕ) (chars kept : List Char) : Prop where
  isPrefix : kept <+: chars
  length_le : (encodeText kept).length ≤ n
  longest : ∀ other, other <+: chars → (encodeText other).length ≤ n → other <+: kept

theorem longestWithin_takeBytes (n : ℕ) (chars : List Char) :
    LongestWithin n chars (takeBytes n chars) where
  isPrefix := takeBytes_isPrefix n chars
  length_le := length_encodeText_takeBytes_le n chars
  longest _ := prefix_takeBytes

end NeoGraph.Utf8
