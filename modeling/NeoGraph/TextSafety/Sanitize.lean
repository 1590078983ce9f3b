import NeoGraph.Lib.Utf8Repair
import NeoGraph.TextSafety

/-!
# Text made safe

Text from an untrusted producer goes through three passes before it is
stored or shown: ill-formed parts are replaced, unsafe code points are
removed, and the rest is cut to a number of bytes. Each pass walks over
bytes with a position of its own.

The result is described by characters: it is the longest beginning that
fits, of the repaired text without its unsafe characters
(`sanitizeUntrustedText_spec`).
-/

namespace NeoGraph.TextSafety

open CanonicalJson Utf8 List String Nat

/-! ## Unsafe code points -/

/-- Why a character is not shown. -/
inductive UnsafeTextClass where
  | c0Control
  | bidiControl
  | zeroWidth
  | tag
deriving DecidableEq

/-- An inclusive range of code points. -/
structure CodePointRange where
  first : UInt32
  last : UInt32

/-- The classes of what is not shown, by their ranges. -/
def c0Controls : List CodePointRange := [⟨0x0000, 0x0008⟩, ⟨0x000B, 0x000C⟩, ⟨0x000E, 0x001F⟩]

def bidiControls : List CodePointRange :=
  [⟨0x061C, 0x061C⟩, ⟨0x200E, 0x200F⟩, ⟨0x202A, 0x202E⟩, ⟨0x2066, 0x2069⟩]

def zeroWidth : List CodePointRange :=
  [⟨0x200B, 0x200D⟩, ⟨0x2060, 0x2060⟩, ⟨0xFEFF, 0xFEFF⟩]

def tags : List CodePointRange := [⟨0xE0000, 0xE007F⟩]

def classes : List UnsafeTextClass := [.c0Control, .bidiControl, .zeroWidth, .tag]

def unsafeTextRanges : UnsafeTextClass → List CodePointRange
  | .c0Control => c0Controls
  | .bidiControl => bidiControls
  | .zeroWidth => zeroWidth
  | .tag => tags

/-- The class of an unsafe code point. Printable ASCII is not looked up. -/
def classifyUnsafeCodePoint (codePoint : UInt32) : Option UnsafeTextClass :=
  if 0x20 ≤ codePoint && codePoint < 0x061C then none
  else classes.find? fun textClass => (unsafeTextRanges textClass).any fun range =>
    range.first ≤ codePoint && codePoint ≤ range.last

/-! ## The passes -/

/-- What is done with bytes that are no text. -/
inductive InvalidUtf8Policy where
  | reject
  | replace
deriving DecidableEq

/-- Ill-formed text, with the place of the first ill-formed sequence. -/
structure InvalidUtf8Error where
  byteOffset : ℕ
deriving DecidableEq

def utf8ReplacementCharacter : Bytes := [0xEF, 0xBF, 0xBD]

/-- The steps of the loop over a text: the offsets it visits and what is
decoded there. -/
def stepsFrom (text : Bytes) : ℕ → ℕ → List (ℕ × Decoded)
  | 0, _ => []
  | fuel + 1, offset =>
    if offset < text.length then
      (offset, decode text offset)
        :: stepsFrom text fuel (offset + (decode text offset).length)
    else []

def steps (text : Bytes) : List (ℕ × Decoded) := stepsFrom text text.length 0

/-- The bytes of a step. -/
def slice (text : Bytes) (offset length : ℕ) : Bytes := (text.drop offset).take length

/-- What is written for a step of a repair. -/
def repairedStep (text : Bytes) (step : ℕ × Decoded) : Bytes :=
  if step.2.valid then slice text step.1 step.2.length else utf8ReplacementCharacter

def replaceInvalidUtf8 (text : Bytes) : Bytes := (steps text).flatMap (repairedStep text)

/-- Ill-formed text is refused at its first ill-formed sequence, or
repaired. -/
def wellFormed (text : Bytes) (policy : InvalidUtf8Policy) :
    Except InvalidUtf8Error Bytes :=
  match policy with
  | .replace => .ok (replaceInvalidUtf8 text)
  | .reject =>
    match (steps text).find? fun step => !step.2.valid with
    | some step => .error ⟨step.1⟩
    | none => .ok text

/-- What is kept of a step. -/
def keptStep (input : Bytes) (step : ℕ × Decoded) : Bytes :=
  if (classifyUnsafeCodePoint step.2.codePoint).isNone then slice input step.1 step.2.length
  else []

/-- The text without what is not shown. -/
def stripUnsafeCodePoints (text : Bytes) (policy : InvalidUtf8Policy) :
    Except InvalidUtf8Error Bytes := do
  let input ← wellFormed text policy
  .ok ((steps input).flatMap (keptStep input))

/-- A place to cut at: back over the bytes that go on with a character. -/
def backOff (input : Bytes) : ℕ → ℕ
  | 0 => 0
  | cut + 1 =>
    if (input[cut + 1]?).any (fun byte => byte &&& 0xC0 = 0x80) then backOff input cut
    else cut + 1

/-- The text, cut between characters. -/
def truncateUtf8 (text : Bytes) (maxBytes : ℕ) (policy : InvalidUtf8Policy) :
    Except InvalidUtf8Error Bytes := do
  let input ← wellFormed text policy
  if input.length ≤ maxBytes then .ok input else .ok (input.take (backOff input maxBytes))

/-- Both, one after the other. -/
def sanitizeUntrustedText (text : Bytes) (maxBytes : ℕ) (policy : InvalidUtf8Policy) :
    Except InvalidUtf8Error Bytes := do
  let stripped ← stripUnsafeCodePoints text policy
  truncateUtf8 stripped maxBytes .reject

/-! ## What is unsafe -/

/-- A code point is of a class. -/
def UnsafeTextClass.Contains (textClass : UnsafeTextClass) (codePoint : UInt32) : Prop :=
  ∃ range ∈ unsafeTextRanges textClass, range.first ≤ codePoint ∧ codePoint ≤ range.last

/-- **The fast path skips nothing unsafe.** -/
theorem classifyUnsafeCodePoint_eq_none {codePoint : UInt32} :
    classifyUnsafeCodePoint codePoint = none
      ↔ ∀ textClass : UnsafeTextClass, ¬textClass.Contains codePoint := by
  have hclasses : ∀ textClass : UnsafeTextClass, textClass ∈ classes := by
    intro textClass
    cases textClass <;> decide
  have hf : (classes.find? fun textClass => (unsafeTextRanges textClass).any fun range =>
      range.first ≤ codePoint && codePoint ≤ range.last) = none
        ↔ ∀ textClass : UnsafeTextClass, ¬textClass.Contains codePoint := by
    rw [find?_eq_none]
    refine ⟨fun h textClass hc => h textClass (hclasses textClass) ?_,
      fun h textClass _ hany => h textClass ?_⟩
    · simpa [any_eq_true, UnsafeTextClass.Contains] using hc
    · simpa [any_eq_true, UnsafeTextClass.Contains] using hany
  unfold classifyUnsafeCodePoint
  split_ifs with hfast
  · refine iff_of_true rfl fun textClass => ?_
    rw [Bool.and_eq_true, decide_eq_true_eq, decide_eq_true_eq, UInt32.le_iff_toNat_le,
      UInt32.lt_iff_toNat_lt] at hfast
    replace hfast : 32 ≤ codePoint.toNat ∧ codePoint.toNat < 1564 := hfast
    rintro ⟨range, hrg, hfst, hl⟩
    rw [UInt32.le_iff_toNat_le] at hfst hl
    have hbds : range.last.toNat < 32 ∨ 1564 ≤ range.first.toNat := by
      cases textClass <;>
      simp only [unsafeTextRanges, c0Controls, bidiControls, zeroWidth, tags, mem_cons,
        not_mem_nil, or_false] at hrg <;>
      rcases hrg with rfl | rfl | rfl | rfl <;> decide
    omega
  · exact hf

/-- A character of some unsafe class. -/
def Unsafe (c : Char) : Prop := ∃ textClass : UnsafeTextClass, textClass.Contains c.val

instance : DecidablePred Unsafe := fun c =>
  decidable_of_iff (classifyUnsafeCodePoint c.val ≠ none) <| by
    rw [ne_eq, classifyUnsafeCodePoint_eq_none, not_forall_not]
    rfl

/-! ## A step on a character -/

theorem toNat_and_low {x : UInt8} (k : ℕ) {mask : UInt8} (hmask : mask.toNat = 2 ^ k - 1) :
    (x &&& mask).toUInt32.toNat = x.toNat % 2 ^ k := by
  rw [UInt8.toNat_toUInt32, UInt8.toNat_and, hmask, Nat.and_two_pow_sub_one_eq_mod]

variable {value : UInt32}

/-- The next six bits of a code point. -/
theorem toNat_shift_or {byte : UInt8} (hv : value.toNat < 2 ^ 26) :
    ((value <<< 6) ||| (byte &&& 0x3F).toUInt32).toNat
      = value.toNat * 64 + byte.toNat % 64 := by
  have hby : (byte &&& 0x3F).toUInt32.toNat = byte.toNat % 2 ^ 6 := toNat_and_low 6 rfl
  have hshift : (value <<< 6).toNat = value.toNat <<< 6 := by
    rw [UInt32.toNat_shiftLeft]
    show value.toNat <<< 6 % 2 ^ 32 = _
    rw [Nat.shiftLeft_eq]
    exact Nat.mod_eq_of_lt (by omega)
  rw [UInt32.toNat_or, hshift, hby, ← Nat.shiftLeft_add_eq_or_of_lt (Nat.mod_lt _ (by decide)),
    Nat.shiftLeft_eq]

variable {low high : UInt8} {text : Bytes} {offset needed length n cut : ℕ}

/-- A valid step goes on with the next byte. -/
theorem decodeLoop_succ {byte : UInt8}
    (h : (decodeLoop text offset (needed + 1) low high value length).valid = true)
    (hby : text[offset + length]? = some byte) :
    decodeLoop text offset (needed + 1) low high value length
      = decodeLoop text offset needed 0x80 0xBF
        ((value <<< 6) ||| (byte &&& 0x3F).toUInt32) (length + 1) := by
  obtain ⟨byte', hby', hrg, -⟩ := decodeLoop_valid.mp h
  obtain rfl : byte = byte' := Option.some.inj (hby.symm.trans hby')
  rw [decodeLoop, hby]
  exact if_neg (by simp [hrg])

theorem inRange_ofNat (hn : n < 256) (h : low.toNat ≤ n ∧ n ≤ high.toNat) :
    inRange (UInt8.ofNat n) low high = true := by
  rw [inRange_iff, UInt8.le_iff_toNat_le, UInt8.le_iff_toNat_le, toNat_ofNat_of_lt hn]
  exact h

theorem not_inRange_ofNat (hn : n < 256) (h : high.toNat < n) :
    ¬inRange (UInt8.ofNat n) low high = true := by
  rw [inRange_iff, UInt8.le_iff_toNat_le, UInt8.le_iff_toNat_le, toNat_ofNat_of_lt hn]
  omega

theorem not_ascii_ofNat (hn : n < 256) (h : 0x80 ≤ n) : ¬UInt8.ofNat n < 0x80 := by
  rw [UInt8.lt_iff_toNat_lt, toNat_ofNat_of_lt hn]
  exact not_lt.mpr h

variable {c : Char} {rest : Bytes}

/-- **The code point of a step on a character** is the character. -/
theorem codePoint_decode (h : text.drop offset = String.utf8EncodeChar c ++ rest) :
    (decode text offset).codePoint = c.val := by
  have hg : ∀ i, text[offset + i]? = (String.utf8EncodeChar c ++ rest)[i]? := by
    intro i
    rw [← h, List.getElem?_drop]
  have hl : text[offset]? = (String.utf8EncodeChar c ++ rest)[0]? := hg 0
  have hv := (decode_valid.mpr (h ▸ charLength_encodeChar c rest)).1
  have hc : c.val.toNat < 0x110000 := by
    have := c.valid
    unfold UInt32.isValidChar Nat.isValidChar at this
    omega
  rw [← UInt32.toNat_inj]
  obtain ⟨ho, hbs⟩ | ⟨htwo, htwo', hbs⟩ | ⟨h3, h3', hbs⟩ | ⟨hf, hbs⟩ :=
    encodeChar_cases c
  all_goals
    rw [hbs] at hg hl
    unfold decode at hv ⊢
    rw [hl] at hv ⊢
    simp only [List.cons_append, List.getElem?_cons_zero] at hv ⊢
  · rw [if_pos (by rw [UInt8.lt_iff_toNat_lt, toNat_ofNat_of_lt (by omega)]; exact
      Nat.lt_succ_of_le ho), UInt8.toNat_toUInt32, toNat_ofNat_of_lt (by omega)]
  · rw [if_neg (not_ascii_ofNat (by omega) (by omega)),
      if_pos (inRange_ofNat (by omega) (by show 0xC2 ≤ _ ∧ _ ≤ 0xDF; omega))] at hv ⊢
    have hlow := @toNat_and_low (UInt8.ofNat (c.val.toNat / 64 % 32 + 192)) 5 0x1F rfl
    rw [toNat_ofNat_of_lt (by omega)] at hlow
    rw [decodeLoop_succ hv (hg 1), decodeLoop, toNat_shift_or (by omega), hlow,
      toNat_ofNat_of_lt (by omega)]
    omega
  · rw [if_neg (not_ascii_ofNat (by omega) (by omega)),
      if_neg (not_inRange_ofNat (by omega) (by show 0xDF < _; omega)),
      if_pos (inRange_ofNat (by omega) (by show 0xE0 ≤ _ ∧ _ ≤ 0xEF; omega))] at hv ⊢
    have hlow := @toNat_and_low (UInt8.ofNat (c.val.toNat / 4096 % 16 + 224)) 4 0x0F rfl
    rw [toNat_ofNat_of_lt (by omega)] at hlow
    have hs := decodeLoop_succ hv (hg 1)
    rw [hs] at hv ⊢
    have hmiddle := @toNat_shift_or _ (UInt8.ofNat (c.val.toNat / 64 % 64 + 128))
      (lt_of_eq_of_lt hlow (by omega))
    rw [hlow, toNat_ofNat_of_lt (by omega)] at hmiddle
    rw [decodeLoop_succ hv (hg 2), decodeLoop, toNat_shift_or (by omega), hmiddle,
      toNat_ofNat_of_lt (by omega)]
    omega
  · rw [if_neg (not_ascii_ofNat (by omega) (by omega)),
      if_neg (not_inRange_ofNat (by omega) (by show 0xDF < _; omega)),
      if_neg (not_inRange_ofNat (by omega) (by show 0xEF < _; omega)),
      if_pos (inRange_ofNat (by omega) (by show 0xF0 ≤ _ ∧ _ ≤ 0xF4; omega))] at hv ⊢
    have hlow := @toNat_and_low (UInt8.ofNat (c.val.toNat / 262144 % 8 + 240)) 3 0x07 rfl
    rw [toNat_ofNat_of_lt (by omega)] at hlow
    have hs := decodeLoop_succ hv (hg 1)
    rw [hs] at hv ⊢
    have hs := decodeLoop_succ hv (hg 2)
    rw [hs] at hv ⊢
    have hsec := @toNat_shift_or _ (UInt8.ofNat (c.val.toNat / 4096 % 64 + 128))
      (lt_of_eq_of_lt hlow (by omega))
    rw [hlow, toNat_ofNat_of_lt (by omega)] at hsec
    have ht := @toNat_shift_or _ (UInt8.ofNat (c.val.toNat / 64 % 64 + 128))
      (lt_of_eq_of_lt hsec (by omega))
    rw [hsec, toNat_ofNat_of_lt (by omega)] at ht
    rw [decodeLoop_succ hv (hg 3), decodeLoop, toNat_shift_or (by omega), ht,
      toNat_ofNat_of_lt (by omega)]
    omega

/-! ## A step where no character begins -/

/-- A loop that fails has read a tail that fits, and no longer one does. -/
theorem decodeLoop_invalid
    (h : (decodeLoop text offset needed low high value length).valid = false) :
    ∃ k, (decodeLoop text offset needed low high value length).length = length + k
      ∧ k ≤ (text.drop (offset + length)).length
      ∧ FitsTail needed low high ((text.drop (offset + length)).take k)
      ∧ ∀ m, k < m → m ≤ (text.drop (offset + length)).length →
        ¬FitsTail needed low high ((text.drop (offset + length)).take m) := by
  induction needed generalizing low high value length with
  | zero => cases h
  | succ needed ih =>
    rw [decodeLoop] at h ⊢
    cases hby : text[offset + length]? with
    | none =>
      have hn : text.drop (offset + length) = [] :=
        drop_eq_nil_iff.mpr (getElem?_eq_none_iff.mp hby)
      rw [hn]
      exact ⟨0, rfl, le_rfl, trivial, fun m hm hle => absurd (lt_of_lt_of_le hm hle) (lt_irrefl 0)⟩
    | some byte =>
      rw [hby] at h
      have ht := exists_tail_of_getElem? hby
      dsimp only at h ⊢
      rw [ht]
      by_cases hrg : inRange byte low high = true
      · rw [if_neg (by simp [hrg])] at h ⊢
        obtain ⟨k, hl, hle, hft, hmax⟩ := ih h
        rw [← add_assoc] at hle hft hmax
        refine ⟨k + 1, by rw [hl]; omega, succ_le_succ hle,
          ⟨inRange_iff.mp hrg, hft⟩, fun m hm hle' => ?_⟩
        obtain ⟨m, rfl⟩ := exists_eq_succ_of_ne_zero (by omega : m ≠ 0)
        exact fun hft => hmax m (by omega) (le_of_succ_le_succ hle') hft.2
      · rw [if_pos (by simpa using hrg)]
        refine ⟨0, rfl, zero_le _, trivial, fun m hm _ => ?_⟩
        obtain ⟨m, rfl⟩ := exists_eq_succ_of_ne_zero (by omega : m ≠ 0)
        exact fun hft => hrg (inRange_iff.mpr hft.1)

/-- The decoder reads a first byte by its row. -/
theorem decode_row {lead : UInt8} (hl : text[offset]? = some lead) :
    (row lead = none ∧ decode text offset = {})
      ∨ ∃ needed low high value, row lead = some (needed, low, high)
        ∧ decode text offset = decodeLoop text offset needed low high value 1 := by
  have hrg : ∀ low high : UInt8, inRange lead low high = (low ≤ lead && lead ≤ high) :=
    fun _ _ => rfl
  unfold decode row
  rw [hl]
  dsimp only
  simp only [← hrg]
  by_cases hasc : lead < 0x80
  · rw [if_pos hasc, if_pos hasc]
    exact .inr ⟨_, _, _, lead.toUInt32, rfl, rfl⟩
  rw [if_neg hasc, if_neg hasc]
  by_cases htwo : inRange lead 0xC2 0xDF = true
  · rw [if_pos htwo, if_pos htwo]
    exact .inr ⟨_, _, _, _, rfl, rfl⟩
  rw [if_neg htwo, if_neg htwo]
  by_cases h3 : inRange lead 0xE0 0xEF = true
  · have ha := inRange_iff.mp h3
    rw [if_pos h3, if_pos h3, (second_of_three ha.2).1, (second_of_three ha.2).2]
    exact .inr ⟨_, _, _, _, rfl, rfl⟩
  rw [if_neg h3, if_neg h3]
  by_cases hf : inRange lead 0xF0 0xF4 = true
  · have ha := inRange_iff.mp hf
    rw [if_pos hf, if_pos hf, (second_of_four ha.1).1, (second_of_four ha.1).2]
    exact .inr ⟨_, _, _, _, rfl, rfl⟩
  · rw [if_neg hf, if_neg hf]
    exact .inl ⟨rfl, rfl⟩

/-- **A step that is not valid covers a maximal subpart.** -/
theorem maximalSubpart_of_decode (hoffset : offset < text.length)
    (h : (decode text offset).valid = false) :
    MaximalSubpart (text.drop offset) (decode text offset).length := by
  have hld : text[offset]? = some text[offset] := getElem?_eq_getElem hoffset
  have ht := exists_tail_of_getElem? hld
  obtain ⟨hr, hd⟩ | ⟨needed, low, high, value, hr, hd⟩ := decode_row hld
  · rw [ht, hd]
    refine ⟨one_pos, succ_le_succ (zero_le _), .inl rfl, fun m hm _ hb => ?_⟩
    obtain ⟨m, rfl⟩ := exists_eq_succ_of_ne_zero (by omega : m ≠ 0)
    rw [take_succ_cons, begins_cons, hr] at hb
    obtain ⟨_, _, _, hn, -⟩ := hb
    cases hn
  · rw [hd] at h
    obtain ⟨k, hl, hle, hft, hmax⟩ := decodeLoop_invalid h
    rw [ht, hd, hl, add_comm 1 k]
    refine ⟨succ_pos k, succ_le_succ hle, .inr ?_, fun m hm hle' hb => ?_⟩
    · rw [take_succ_cons, begins_cons]
      exact ⟨needed, low, high, hr, hft⟩
    obtain ⟨m, rfl⟩ := exists_eq_succ_of_ne_zero (by omega : m ≠ 0)
    rw [take_succ_cons, begins_cons, hr] at hb
    obtain ⟨_, _, _, hs, hft'⟩ := hb
    cases hs
    exact hmax m (by omega) (le_of_succ_le_succ hle') hft'

/-! ## The passes over characters -/

theorem slice_encodeChar (h : text.drop offset = utf8EncodeChar c ++ rest) :
    slice text offset (utf8EncodeChar c).length = utf8EncodeChar c := by
  unfold slice
  rw [h, take_left]

/-- The decoder takes the characters off one by one. -/
theorem decode_encodeChar (h : text.drop offset = utf8EncodeChar c ++ rest) :
    decode text offset = ⟨c.val, (utf8EncodeChar c).length, true⟩ := by
  have hc : charLength (text.drop offset) = some (utf8EncodeChar c).length := by
    rw [h]
    exact charLength_encodeChar c rest
  obtain ⟨hv, hl⟩ := decode_valid.mpr hc
  have hcd := codePoint_decode h
  cases hd : decode text offset with
  | mk codePoint length valid =>
    rw [hd] at hv hl hcd
    rw [← hcd, ← hl, ← hv]

theorem lt_length_of_drop (h : text.drop offset = utf8EncodeChar c ++ rest) :
    offset < text.length := by
  by_contra hle
  rw [drop_of_length_le (not_lt.mp hle)] at h
  exact utf8EncodeChar_ne_nil (append_eq_nil_iff.mp h.symm).1

variable {fuel : ℕ}

/-- A step on a character, and the steps after it. -/
theorem stepsFrom_encodeChar (h : text.drop offset = utf8EncodeChar c ++ rest) :
    stepsFrom text (fuel + 1) offset
      = (offset, ⟨c.val, (utf8EncodeChar c).length, true⟩)
        :: stepsFrom text fuel (offset + (utf8EncodeChar c).length) := by
  rw [stepsFrom, if_pos (lt_length_of_drop h), decode_encodeChar h]

theorem drop_encodeChar (h : text.drop offset = utf8EncodeChar c ++ rest) :
    text.drop (offset + (utf8EncodeChar c).length) = rest := by
  rw [← drop_drop, h, drop_left]

theorem stepsFrom_of_le (fuel : ℕ) (h : text.length ≤ offset) :
    stepsFrom text fuel offset = [] := by
  cases fuel with
  | zero => rfl
  | succ fuel => exact if_neg (not_lt.mpr h)

/-- **What replaces the ill-formed parts is a repair.** -/
theorem repairs_stepsFrom {offset : ℕ} (hfu : text.length ≤ offset + fuel) :
    ∃ chars, Repairs (text.drop offset) chars
      ∧ (stepsFrom text fuel offset).flatMap (repairedStep text) = encodeText chars := by
  induction fuel generalizing offset with
  | zero =>
    rw [add_zero] at hfu
    rw [drop_of_length_le hfu]
    exact ⟨[], .nil, rfl⟩
  | succ fuel ih =>
    obtain hle | hlt := le_or_gt text.length offset
    · rw [drop_of_length_le hle, stepsFrom_of_le _ hle]
      exact ⟨[], .nil, rfl⟩
    cases hv : (decode text offset).valid with
    | true =>
      obtain ⟨c, rest, hdr, -⟩ := exists_encodeChar (decode_valid.mp ⟨hv, rfl⟩)
      have hpos := length_encodeChar_pos c
      obtain ⟨chars, hrp, hbs⟩ :=
        @ih (offset + (utf8EncodeChar c).length) (by omega)
      rw [drop_encodeChar hdr] at hrp
      refine ⟨c :: chars, by rw [hdr]; exact .char hrp, ?_⟩
      rw [stepsFrom_encodeChar hdr, flatMap_cons, hbs, encodeText_cons, repairedStep,
        if_pos rfl, slice_encodeChar hdr]
    | false =>
      have hp := maximalSubpart_of_decode hlt hv
      obtain ⟨chars, hrp, hbs⟩ := @ih (offset + (decode text offset).length)
        (by have := hp.pos; omega)
      rw [← drop_drop] at hrp
      refine ⟨'\uFFFD' :: chars, .illFormed (fun c hc => ?_) hp hrp, ?_⟩
      · obtain ⟨rest, hr⟩ := hc
        rw [decode_encodeChar hr.symm] at hv
        cases hv
      · rw [stepsFrom, if_pos hlt, flatMap_cons, hbs, encodeText_cons, repairedStep,
          if_neg (by simp [hv])]
        rfl

/-- The check of a character. -/
def isSafe (c : Char) : Bool := (classifyUnsafeCodePoint c.val).isNone

theorem isSafe_iff : isSafe c = true ↔ ¬Unsafe c := by
  unfold isSafe Unsafe
  rw [Option.isNone_iff_eq_none, classifyUnsafeCodePoint_eq_none, not_exists]

variable {chars : List Char}

/-- What is kept of a text are the characters that may be shown. -/
theorem keptStep_stepsFrom (hfu : text.length ≤ offset + fuel)
    (h : text.drop offset = encodeText chars) :
    (stepsFrom text fuel offset).flatMap (keptStep text) = encodeText (chars.filter isSafe) := by
  induction chars generalizing fuel offset with
  | nil =>
    rw [stepsFrom_of_le fuel (drop_eq_nil_iff.mp h)]
    rfl
  | cons c chars ih =>
    rw [encodeText_cons] at h
    have hlt := lt_length_of_drop h
    have hp := length_encodeChar_pos c
    obtain ⟨fuel, rfl⟩ := exists_eq_succ_of_ne_zero (by omega : fuel ≠ 0)
    rw [stepsFrom_encodeChar h, flatMap_cons, ih (by omega) (drop_encodeChar h), keptStep,
      slice_encodeChar h, filter_cons]
    unfold isSafe
    split
    · rw [encodeText_cons]
    · rfl

/-- The refusal of ill-formed text is the check of it. -/
theorem find?_stepsFrom (text : Bytes) (fuel offset : ℕ) :
    ((stepsFrom text fuel offset).find? fun step => !step.2.valid) = none
      ↔ isValidLoop text fuel offset = true := by
  induction fuel generalizing offset with
  | zero => exact iff_of_true rfl rfl
  | succ fuel ih =>
    rw [stepsFrom, isValidLoop]
    split
    · cases hv : (decode text offset).valid with
      | true =>
        rw [find?_cons_of_neg (by simp [hv]), ih]
        simp [hv]
      | false =>
        rw [find?_cons_of_pos (by simp [hv])]
        simp [hv]
    · exact iff_of_true rfl rfl

/-! ## The cut -/

theorem backOff_of_lt (h : cut < (utf8EncodeChar c).length) :
    backOff (utf8EncodeChar c ++ rest) cut = 0 := by
  obtain ⟨a, tail, hcd, -, ht⟩ := encodeChar_bytes c
  induction cut with
  | zero => rfl
  | succ cut ih =>
    have hcut : cut < tail.length := by
      rw [hcd] at h
      exact lt_of_succ_lt_succ h
    have hg : (utf8EncodeChar c ++ rest)[cut + 1]? = some tail[cut] := by
      rw [hcd, cons_append, getElem?_cons_succ, getElem?_append_left hcut,
        getElem?_eq_getElem hcut]
    have hc := (CanonicalJson.isContinuation_iff _).mpr (ht _ (getElem_mem hcut))
    rw [backOff, hg, if_pos (by simpa using hc), ih (by omega)]

/-- A cut within a text moves back within the same character. -/
theorem backOff_add {k : ℕ} (h : k < (encodeText chars).length) :
    backOff (utf8EncodeChar c ++ encodeText chars) ((utf8EncodeChar c).length + k)
      = (utf8EncodeChar c).length + backOff (encodeText chars) k := by
  have hg : ∀ k, (utf8EncodeChar c ++ encodeText chars)[
      (utf8EncodeChar c).length + k]? = (encodeText chars)[k]? := by
    intro k
    rw [getElem?_append_right (Nat.le_add_right _ _), Nat.add_sub_cancel_left]
  induction k with
  | zero =>
    -- the cut stands at the first byte of the next character
    cases chars with
    | nil => exact absurd h (lt_irrefl 0)
    | cons d chars =>
      obtain ⟨a, tail, hcd, hl, -⟩ := encodeChar_bytes d
      obtain ⟨n, hn⟩ := exists_eq_succ_of_ne_zero (length_encodeChar_pos c).ne'
      have hz : (encodeText (d :: chars))[0]? = some a := by
        rw [encodeText_cons, hcd]
        rfl
      have hby : (utf8EncodeChar c ++ encodeText (d :: chars))[n + 1]? = some a := by
        rw [← hz, ← hg 0, hn]
      rw [hn, add_zero]
      show (if _ then _ else _) = _
      rw [hby, if_neg]
      · rfl
      · simpa using fun hc => Bool.false_ne_true
          (hl.symm.trans ((CanonicalJson.isContinuation_iff a).mp hc))
  | succ k ih =>
    have hby := hg (k + 1)
    rw [← add_assoc] at hby ⊢
    rw [backOff, backOff, hby, ih (by omega)]
    split <;> rfl

/-- **The cut keeps the characters that fit.** -/
theorem take_backOff (h : cut < (encodeText chars).length) :
    (encodeText chars).take (backOff (encodeText chars) cut)
    = encodeText (takeBytes cut chars) := by
  induction chars generalizing cut with
  | nil => exact absurd h (not_lt_zero cut)
  | cons c chars ih =>
    rw [encodeText_cons] at h ⊢
    obtain hle | hlt := le_or_gt (utf8EncodeChar c).length cut
    · obtain ⟨k, rfl⟩ := Nat.exists_eq_add_of_le hle
      rw [List.length_append] at h
      rw [takeBytes_cons_of_le hle, backOff_add (by omega), take_length_add_append,
        ih (by omega), Nat.add_sub_cancel_left, encodeText_cons]
    · rw [takeBytes_cons_of_lt hlt, backOff_of_lt hlt]
      rfl

/-! ## Text made safe -/

theorem wellFormed_replace (h : Repairs text chars) :
    wellFormed text .replace = .ok (encodeText chars) := by
  obtain ⟨chars', hrp, hbs⟩ := @repairs_stepsFrom text text.length 0 (le_add_left _ _)
  rw [h.unique hrp]
  exact congrArg Except.ok hbs

theorem wellFormed_reject (h : isValidUtf8 text = true) : wellFormed text .reject = .ok text := by
  unfold wellFormed steps
  rw [(find?_stepsFrom text text.length 0).mpr h]

theorem exists_wellFormed_error (h : isValidUtf8 text = false) :
    ∃ e, wellFormed text .reject = .error e := by
  unfold wellFormed steps
  cases hf : (stepsFrom text text.length 0).find? fun step => !step.2.valid with
  | none => exact absurd (h.symm.trans ((find?_stepsFrom text text.length 0).mp hf)) (by decide)
  | some step => exact ⟨_, rfl⟩

theorem isValidUtf8_encodeText (chars : List Char) : isValidUtf8 (encodeText chars) = true :=
  isValidUtf8_iff.mpr (wellFormed_encodeText chars)

/-- The passes after the first one, over characters. -/
theorem sanitizeUntrustedText_eq {policy : InvalidUtf8Policy}
    (h : wellFormed text policy = .ok (encodeText chars)) (maxBytes : ℕ) :
    sanitizeUntrustedText text maxBytes policy
      = .ok (encodeText (takeBytes maxBytes (chars.filter fun c => ¬Unsafe c))) := by
  have hflt : (chars.filter fun c => ¬Unsafe c) = chars.filter isSafe := by
    refine filter_congr fun c _ => ?_
    rw [Bool.eq_iff_iff, decide_eq_true_eq, isSafe_iff]
  have hs : stripUnsafeCodePoints text policy = .ok (encodeText (chars.filter isSafe)) := by
    unfold stripUnsafeCodePoints
    rw [h]
    exact congrArg Except.ok (keptStep_stepsFrom (le_add_left _ _) rfl)
  unfold sanitizeUntrustedText
  rw [hs, hflt]
  show truncateUtf8 _ maxBytes .reject = _
  unfold truncateUtf8
  rw [wellFormed_reject (isValidUtf8_encodeText _)]
  show (if _ then _ else _) = _
  split_ifs with hle
  · rw [takeBytes_of_le hle]
  · rw [take_backOff (not_le.mp hle)]

/-- **Untrusted text is made safe.** The text is repaired – in the only way
there is – its unsafe characters are removed, and the longest beginning that
fits is kept: it is well-formed and safe, and made safe again it stays as it
is. The policy that rejects refuses exactly the text that is not UTF-8, and
does the same with the rest. -/
theorem sanitizeUntrustedText_spec (text : List UInt8) (maxBytes : ℕ) :
    ∃ chars kept, (∀ other, Repairs text other ↔ other = chars)
      ∧ LongestWithin maxBytes (chars.filter fun c => ¬Unsafe c) kept
      ∧ sanitizeUntrustedText text maxBytes .replace = .ok (encodeText kept)
      ∧ isValidUtf8 (encodeText kept) = true
      ∧ (∀ c ∈ kept, ¬Unsafe c)
      ∧ sanitizeUntrustedText (encodeText kept) maxBytes .replace = .ok (encodeText kept)
      ∧ ((∃ e, sanitizeUntrustedText text maxBytes .reject = .error e)
        ↔ isValidUtf8 text = false)
      ∧ (isValidUtf8 text = true →
        sanitizeUntrustedText text maxBytes .reject = .ok (encodeText kept)) := by
  obtain ⟨chars, hrp, -⟩ := @repairs_stepsFrom text text.length 0 (le_add_left _ _)
  rw [drop_zero] at hrp
  have hlongest := longestWithin_takeBytes maxBytes (chars.filter fun c => ¬Unsafe c)
  have hs : ∀ c ∈ takeBytes maxBytes (chars.filter fun c => ¬Unsafe c), ¬Unsafe c := by
    intro c hc
    simpa using (mem_filter.mp (hlongest.isPrefix.subset hc)).2
  have hv : isValidUtf8 text = true →
      sanitizeUntrustedText text maxBytes .reject
        = .ok (encodeText (takeBytes maxBytes (chars.filter fun c => ¬Unsafe c))) := by
    intro hv
    obtain ⟨chars', ht⟩ := wellFormed_iff.mp (isValidUtf8_iff.mp hv)
    have hcs : chars' = chars := by
      have := repairs_encodeText chars'
      rw [encodeText, ← ht] at this
      exact this.unique hrp
    refine sanitizeUntrustedText_eq ?_ maxBytes
    rw [wellFormed_reject hv, ← hcs, encodeText, ← ht]
  refine ⟨chars, _, fun other => ⟨fun h => h.unique hrp, fun h => h ▸ hrp⟩, hlongest,
    sanitizeUntrustedText_eq (wellFormed_replace hrp) maxBytes, isValidUtf8_encodeText _,
    hs, ?_, ⟨?_, ?_⟩, hv⟩
  · rw [sanitizeUntrustedText_eq (wellFormed_replace (repairs_encodeText _)),
      filter_eq_self.mpr (by simpa using hs), takeBytes_of_le hlongest.length_le]
  · rintro ⟨e, he⟩
    by_contra hne
    rw [hv (by simpa using hne)] at he
    cases he
  · intro hinvalid
    obtain ⟨e, he⟩ := exists_wellFormed_error hinvalid
    refine ⟨e, ?_⟩
    unfold sanitizeUntrustedText stripUnsafeCodePoints
    rw [he]
    rfl

/-- A lone lead byte, a zero-width space and a euro sign that does not fit. -/
example : sanitizeUntrustedText [0x61, 0xC3, 0xE2, 0x80, 0x8B, 0xE2, 0x82, 0xAC] 6 .replace
    = .ok [0x61, 0xEF, 0xBF, 0xBD] := by decide

end NeoGraph.TextSafety
