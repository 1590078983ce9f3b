import NeoGraph.CanonicalJson.Strings
import NeoGraph.Lib.Utf8

/-!
# One UTF-8 for the whole program

Text is checked twice in the program, by code written independently: the
canonical writer validates strings with a skip over words of ASCII, and the
check of unsafe text decodes one code point at a time. Both split the first
bytes in their own way. They accept the same byte strings, which are the
encodings of lists of characters (`validateUtf8_iff_isValidUtf8`).
-/

namespace NeoGraph.TextSafety

open CanonicalJson Utf8 List

/-! ## The decoder -/

/-- One step of a decoder. When `valid` is false, `length` covers one
maximal subpart of an ill-formed sequence. -/
structure Decoded where
  codePoint : UInt32 := 0
  length : ℕ := 1
  valid : Bool := false
deriving DecidableEq

def inRange (byte low high : UInt8) : Bool := byte ≥ low && byte ≤ high

/-- The bytes after the first one; only the next of them has a range of its
own. -/
def decodeLoop (text : Bytes) (offset : ℕ) : ℕ → UInt8 → UInt8 → UInt32 → ℕ → Decoded
  | 0, _, _, value, length => ⟨value, length, true⟩
  | needed + 1, low, high, value, length =>
    match text[offset + length]? with
    | none => ⟨0, length, false⟩
    | some byte =>
      if !inRange byte low high then ⟨0, length, false⟩
      else decodeLoop text offset needed 0x80 0xBF
        ((value <<< 6) ||| (byte &&& 0x3F).toUInt32) (length + 1)

/-- The code point at an offset. It is only asked for an offset in the text. -/
def decode (text : Bytes) (offset : ℕ) : Decoded :=
  match text[offset]? with
  | none => {}
  | some lead =>
    if lead < 0x80 then ⟨lead.toUInt32, 1, true⟩
    else if inRange lead 0xC2 0xDF then
      decodeLoop text offset 1 0x80 0xBF (lead &&& 0x1F).toUInt32 1
    else if inRange lead 0xE0 0xEF then
      decodeLoop text offset 2 (if lead = 0xE0 then 0xA0 else 0x80)
        (if lead = 0xED then 0x9F else 0xBF) (lead &&& 0x0F).toUInt32 1
    else if inRange lead 0xF0 0xF4 then
      decodeLoop text offset 3 (if lead = 0xF0 then 0x90 else 0x80)
        (if lead = 0xF4 then 0x8F else 0xBF) (lead &&& 0x07).toUInt32 1
    else {}

def isValidLoop (text : Bytes) : ℕ → ℕ → Bool
  | 0, _ => true
  | fuel + 1, offset =>
    if offset < text.length then
      let step := decode text offset
      if !step.valid then false else isValidLoop text fuel (offset + step.length)
    else true

/-- Every step takes at least one byte, so the loop makes no more steps than
the text has bytes. -/
def isValidUtf8 (text : Bytes) : Bool := isValidLoop text text.length 0

/-! ## A valid step reads a well-formed character -/

variable {byte low high b : UInt8}

theorem inRange_iff : inRange byte low high = true ↔ low ≤ byte ∧ byte ≤ high := by
  unfold inRange
  simp only [Bool.and_eq_true, decide_eq_true_eq]

theorem inRange_continuation : inRange byte 0x80 0xBF = true ↔ isContinuation byte = true := by
  rw [inRange_iff]
  unfold isContinuation
  simp only [Bool.and_eq_true, decide_eq_true_eq]

variable {text : Bytes} {offset : ℕ} {needed length fuel : ℕ}

/-- The bytes that are left to read, as a condition on them. -/
theorem decodeLoop_valid {value : UInt32} :
    (decodeLoop text offset (needed + 1) low high value length).valid = true ↔
      ∃ byte, text[offset + length]? = some byte ∧ inRange byte low high = true
        ∧ (decodeLoop text offset needed 0x80 0xBF
          ((value <<< 6) ||| (byte &&& 0x3F).toUInt32) (length + 1)).valid = true := by
  rw [decodeLoop]
  cases hby : text[offset + length]? with
  | none => simp
  | some byte =>
    dsimp only
    by_cases hrg : inRange byte low high = true
    · rw [if_neg (by simp [hrg])]
      simp [hrg]
    · rw [if_pos (by simpa using hrg)]
      simp [hrg]

theorem decodeLoop_length {value : UInt32}
    (h : (decodeLoop text offset needed low high value length).valid = true) :
    (decodeLoop text offset needed low high value length).length = length + needed := by
  induction needed generalizing low high value length with
  | zero => rfl
  | succ needed ih =>
    obtain ⟨byte, hby, hrg, hr⟩ := decodeLoop_valid.mp h
    rw [decodeLoop, hby]
    dsimp only
    rw [if_neg (by simp [hrg]), ih hr]
    omega

variable {a : UInt8}

/-- The range of the second byte of three. -/
theorem second_of_three (ha : a ≤ 0xEF) : (if a = 0xE0 then 0xA0 else 0x80) = secondLow a
      ∧ (if a = 0xED then 0x9F else 0xBF) = secondHigh a := by
  have hne : ∀ c, 0xEF < c → a ≠ c := by
    rintro c hc rfl
    exact absurd (UInt8.lt_of_lt_of_le hc ha) (UInt8.lt_irrefl _)
  unfold secondLow secondHigh
  rw [if_neg (hne 0xF0 (by decide)), if_neg (hne 0xF4 (by decide))]
  exact ⟨rfl, rfl⟩

/-- The range of the second byte of four. -/
theorem second_of_four (ha : 0xF0 ≤ a) : (if a = 0xF0 then 0x90 else 0x80) = secondLow a
      ∧ (if a = 0xF4 then 0x8F else 0xBF) = secondHigh a := by
  have hne : ∀ c, c < 0xF0 → a ≠ c := by
    rintro c hc rfl
    exact absurd (UInt8.lt_of_lt_of_le hc ha) (UInt8.lt_irrefl _)
  unfold secondLow secondHigh
  rw [if_neg (hne 0xE0 (by decide)), if_neg (hne 0xED (by decide))]
  exact ⟨rfl, rfl⟩

theorem exists_tail_of_getElem? {n : ℕ} (h : text[n]? = some b) :
    text.drop n = b :: text.drop (n + 1) := by
  obtain ⟨hn, rfl⟩ := List.getElem?_eq_some_iff.mp h
  exact drop_eq_getElem_cons hn

/-- **A step is valid where a well-formed character stands**, and is as long. -/
theorem decode_valid {n : ℕ} : (decode text offset).valid = true ∧ (decode text offset).length = n
    ↔ charLength (text.drop offset) = some n := by
  unfold decode
  cases hl : text[offset]? with
  | none =>
    rw [drop_of_length_le (getElem?_eq_none_iff.mp hl)]
    simp [charLength]
  | some a =>
    have hlp : ∀ {needed low high value},
        (decodeLoop text offset (needed + 1) low high value 1).valid = true
          ∧ (decodeLoop text offset (needed + 1) low high value 1).length = n
        ↔ (decodeLoop text offset (needed + 1) low high value 1).valid = true ∧ needed + 2 = n := by
      refine and_congr_right fun h => ?_
      rw [decodeLoop_length h]
      omega
    have hby : ∀ i, text[offset + (i + 1)]? = (text.drop (offset + 1))[i]? := by
      intro i
      rw [getElem?_drop, Nat.add_assoc, Nat.add_comm 1]
    have hz : ∀ {low high value length},
      (decodeLoop text offset 0 low high value length).valid = true := rfl
    rw [exists_tail_of_getElem? hl]
    generalize text.drop (offset + 1) = rest at hby ⊢
    have hf := hby 0
    have hsec := hby 1
    have ht := hby 2
    unfold charLength
    dsimp only
    by_cases hasc : a < 0x80
    · simp [hasc]
    rw [if_neg hasc, if_neg hasc]
    by_cases htwo : inRange a 0xC2 0xDF = true
    · rw [if_pos htwo, hlp, decodeLoop_valid, hf]
      rw [inRange_iff] at htwo
      cases rest <;> simp [htwo, inRange_continuation, hz]
    rw [if_neg htwo]
    rw [inRange_iff] at htwo
    by_cases h3 : inRange a 0xE0 0xEF = true
    · rw [if_pos h3, hlp, decodeLoop_valid, hf]
      rw [inRange_iff] at h3
      rw [(second_of_three h3.2).1, (second_of_three h3.2).2]
      rcases rest with _ | ⟨b, _ | ⟨c, rest⟩⟩
        <;> simp [htwo, h3, decodeLoop_valid, hsec, inRange_iff, isContinuation, hz,
          and_assoc]
    rw [if_neg h3]
    rw [inRange_iff] at h3
    by_cases hfr : inRange a 0xF0 0xF4 = true
    · rw [if_pos hfr, hlp, decodeLoop_valid, hf]
      rw [inRange_iff] at hfr
      rw [(second_of_four hfr.1).1, (second_of_four hfr.1).2]
      rcases rest with _ | ⟨b, _ | ⟨c, _ | ⟨d, rest⟩⟩⟩
        <;> simp [htwo, h3, hfr, decodeLoop_valid, hsec, ht, inRange_iff,
          isContinuation, hz, and_assoc]
    · rw [if_neg hfr]
      rw [inRange_iff] at hfr
      rcases rest with _ | ⟨b, _ | ⟨c, _ | ⟨d, rest⟩⟩⟩ <;> simp [htwo, h3, hfr]

/-- **The decoder accepts the well-formed texts.** -/
theorem isValidLoop_iff (hfu : text.length ≤ offset + fuel) :
    isValidLoop text fuel offset = true ↔ WellFormed (text.drop offset) := by
  induction fuel generalizing offset with
  | zero =>
    rw [Nat.add_zero] at hfu
    rw [drop_of_length_le hfu]
    exact ⟨fun _ => .nil, fun _ => rfl⟩
  | succ fuel ih =>
    rw [isValidLoop]
    by_cases he : offset < text.length
    · rw [if_pos he]
      dsimp only
      have hne : text.drop offset ≠ [] := by
        rw [ne_eq, drop_eq_nil_iff]
        exact not_le.mpr he
      by_cases hv : (decode text offset).valid = true
      · have hc := decode_valid.mp ⟨hv, rfl⟩
        have hp := charLength_pos hc
        rw [if_neg (by simp [hv]), ih (by omega), ← drop_drop]
        refine ⟨.char hc, fun h => ?_⟩
        obtain ⟨n, hc', hr⟩ := h.exists_charLength hne
        rw [hc] at hc'
        cases hc'
        exact hr
      · rw [if_pos (by simpa using hv)]
        refine ⟨fun h => absurd h (by decide), fun h => ?_⟩
        obtain ⟨n, hc, -⟩ := h.exists_charLength hne
        exact absurd (decode_valid.mpr hc).1 hv
    · rw [if_neg he, drop_of_length_le (not_lt.mp he)]
      exact ⟨fun _ => .nil, fun _ => rfl⟩

/-! ## The writer accepts well-formed texts -/

variable {value : Bytes}

theorem validateUtf8Loop_of_wellFormed (h : WellFormed value) :
    validateUtf8Loop fuel value = .ok () := by
  induction fuel generalizing value with
  | zero => rfl
  | succ fuel ih =>
    rw [validateUtf8Loop]
    by_cases hn : value = []
    · exact if_pos hn
    rw [if_neg hn]
    obtain ⟨n, hc, hr⟩ := h.exists_charLength hn
    obtain ⟨a, rest, rfl⟩ := exists_cons_of_ne_nil hn
    by_cases hasc : a < 0x80
    · rw [validatedUtf8PrefixLength, if_pos hasc]
      show validateUtf8Loop fuel (_ : Bytes) = _
      rw [asciiPrefix_eq]
      exact ih (wellFormed_drop_ascii.mpr h)
    · rw [(validatedUtf8PrefixLength_iff hasc).mpr hc]
      exact ih hr

/-- The bytes are text when they encode characters. -/
theorem validateUtf8Impl_iff : validateUtf8Impl value = .ok () ↔ WellFormed value :=
  ⟨wellFormed_of_validateUtf8 value.length value le_rfl, validateUtf8Loop_of_wellFormed⟩

theorem isValidUtf8_iff : isValidUtf8 text = true ↔ WellFormed text := by
  unfold isValidUtf8
  rw [isValidLoop_iff (Nat.le_add_left _ _), drop_zero]

/-- **One UTF-8 for the whole program.** The validation of the canonical
writer and the decoder of the text check accept the same byte strings, and
these are the concatenations of the shortest encodings of Unicode scalar
values. -/
theorem validateUtf8_iff_isValidUtf8 (value : List UInt8) :
    (validateUtf8Impl value = .ok () ↔ isValidUtf8 value = true)
      ∧ (isValidUtf8 value = true
        ↔ ∃ chars : List Char, value = chars.flatMap String.utf8EncodeChar) := by
  rw [validateUtf8Impl_iff, isValidUtf8_iff]
  exact ⟨Iff.rfl, wellFormed_iff⟩

end NeoGraph.TextSafety
