import NeoGraph.Lib.JsonReader

/-!
# UTF-8 and the encoding of characters

The table of well-formed characters (`Utf8.charLength`) recognises at the head
of a byte string exactly the encodings of the Unicode scalar values, which are
the characters of Lean. So the well-formed byte strings are the encodings of
the lists of characters (`Utf8.wellFormed_iff`).
-/

namespace NeoGraph.Utf8

open List UInt8 String

variable {n : ℕ} {value : Bytes}

/-! ## Bytes as numbers -/

variable {b : UInt8}

theorem isContinuation_iff : isContinuation b = true ↔ 0x80 ≤ b.toNat ∧ b.toNat ≤ 0xBF := by
  unfold isContinuation
  rw [Bool.and_eq_true, decide_eq_true_eq, decide_eq_true_eq, le_iff_toNat_le, le_iff_toNat_le]
  rfl

/-- The range of a second byte, as numbers. -/
theorem second_iff {a : UInt8} : secondLow a ≤ b ∧ b ≤ secondHigh a ↔
    (0x80 ≤ b.toNat ∧ b.toNat ≤ 0xBF) ∧ (a.toNat = 0xE0 → 0xA0 ≤ b.toNat)
      ∧ (a.toNat = 0xF0 → 0x90 ≤ b.toNat) ∧ (a.toNat = 0xED → b.toNat ≤ 0x9F)
      ∧ (a.toNat = 0xF4 → b.toNat ≤ 0x8F) := by
  have hlit : ∀ x : UInt8, a = x ↔ a.toNat = x.toNat := fun x => UInt8.toNat_inj.symm
  unfold secondLow secondHigh
  rw [le_iff_toNat_le, le_iff_toNat_le, apply_ite toNat, apply_ite toNat,
    apply_ite toNat, apply_ite toNat]
  simp only [hlit]
  show (if a.toNat = 0xE0 then 0xA0 else if a.toNat = 0xF0 then 0x90 else 0x80) ≤ b.toNat
    ∧ b.toNat ≤ (if a.toNat = 0xED then 0x9F else if a.toNat = 0xF4 then 0x8F else 0xBF) ↔ _
  split_ifs <;> omega

theorem ofNat_eq_iff : UInt8.ofNat n = b ↔ n % 256 = b.toNat := by
  rw [← UInt8.toNat_inj, UInt8.toNat_ofNat']

/-- A scalar value is the number of a character. -/
theorem exists_char (h : n.isValidChar) : ∃ c : Char, c.val.toNat = n :=
  ⟨Char.ofNatAux n h, rfl⟩

/-! ## Encodings -/

/-- The encoding of a character, by its number of bytes. -/
theorem encodeChar_cases (c : Char) : (c.val.toNat ≤ 0x7F ∧ utf8EncodeChar c = [ofNat c.val.toNat])
      ∨ (0x7F < c.val.toNat ∧ c.val.toNat ≤ 0x7FF ∧ utf8EncodeChar c
        = [ofNat (c.val.toNat / 64 % 32 + 0xC0), ofNat (c.val.toNat % 64 + 0x80)])
      ∨ (0x7FF < c.val.toNat ∧ c.val.toNat ≤ 0xFFFF ∧ utf8EncodeChar c
        = [ofNat (c.val.toNat / 4096 % 16 + 0xE0),
          ofNat (c.val.toNat / 64 % 64 + 0x80), ofNat (c.val.toNat % 64 + 0x80)])
      ∨ (0xFFFF < c.val.toNat ∧ utf8EncodeChar c
        = [ofNat (c.val.toNat / 262144 % 8 + 0xF0), ofNat (c.val.toNat / 4096 % 64 + 0x80),
          ofNat (c.val.toNat / 64 % 64 + 0x80), ofNat (c.val.toNat % 64 + 0x80)]) := by
  unfold utf8EncodeChar
  dsimp only
  by_cases ho : c.val.toNat ≤ 0x7F
  · exact .inl ⟨ho, if_pos ho⟩
  by_cases htwo : c.val.toNat ≤ 0x7FF
  · refine .inr (.inl ⟨not_le.mp ho, htwo, ?_⟩)
    rw [if_neg ho, if_pos htwo]
  by_cases h3 : c.val.toNat ≤ 0xFFFF
  · refine .inr (.inr (.inl ⟨not_le.mp htwo, h3, ?_⟩))
    rw [if_neg ho, if_neg htwo, if_pos h3]
  · refine .inr (.inr (.inr ⟨not_le.mp h3, ?_⟩))
    rw [if_neg ho, if_neg htwo, if_neg h3]

theorem toNat_ofNat_of_lt (h : n < 256) : (ofNat n).toNat = n := by
  rw [toNat_ofNat']
  exact Nat.mod_eq_of_lt h

theorem isContinuation_ofNat (n : ℕ) : isContinuation (ofNat (n % 64 + 0x80)) = true := by
  have hlt : n % 64 < 64 := Nat.mod_lt n (by decide)
  rw [isContinuation_iff, toNat_ofNat_of_lt (by omega)]
  omega

/-- **An encoded character is recognised**, whatever follows it. -/
theorem charLength_encodeChar (c : Char) (rest : Bytes) :
    charLength (utf8EncodeChar c ++ rest) = some (utf8EncodeChar c).length := by
  have hv : c.val.toNat < 0xD800 ∨ (0xDFFF < c.val.toNat ∧ c.val.toNat < 0x110000) := c.valid
  obtain ⟨ho, hbs⟩ | ⟨htwo, htwo', hbs⟩ | ⟨h3, h3', hbs⟩ | ⟨hf, hbs⟩ :=
    encodeChar_cases c
  · rw [hbs]
    unfold charLength
    refine if_pos ?_
    rw [lt_iff_toNat_lt, toNat_ofNat_of_lt (by omega)]
    exact Nat.lt_succ_of_le ho
  · rw [hbs]
    refine charLength_two ?_ (isContinuation_ofNat _) rest
    rw [le_iff_toNat_le, le_iff_toNat_le, toNat_ofNat_of_lt (by omega)]
    show 0xC2 ≤ _ ∧ _ ≤ 0xDF
    omega
  · rw [hbs]
    refine charLength_three ?_ (second_iff.mpr ?_) (isContinuation_ofNat _) rest
    · rw [le_iff_toNat_le, le_iff_toNat_le, toNat_ofNat_of_lt (by omega)]
      show 0xE0 ≤ _ ∧ _ ≤ 0xEF
      omega
    · rw [toNat_ofNat_of_lt (by omega), toNat_ofNat_of_lt (by omega)]
      omega
  · rw [hbs]
    refine charLength_four ?_ (second_iff.mpr ?_) (isContinuation_ofNat _)
      (isContinuation_ofNat _) rest
    · rw [le_iff_toNat_le, le_iff_toNat_le, toNat_ofNat_of_lt (by omega)]
      show 0xF0 ≤ _ ∧ _ ≤ 0xF4
      omega
    · rw [toNat_ofNat_of_lt (by omega), toNat_ofNat_of_lt (by omega)]
      omega

/-- **Only encoded characters are recognised.** -/
theorem exists_encodeChar (h : charLength value = some n) :
    ∃ (c : Char) (rest : Bytes), value = utf8EncodeChar c ++ rest
      ∧ n = (utf8EncodeChar c).length := by
  obtain ⟨a, rest, rfl, ha, rfl⟩ | ⟨a, b, rest, rfl, ha, hb, rfl⟩
    | ⟨a, b, c, rest, rfl, ha, hb, hc, rfl⟩ | ⟨a, b, c, d, rest, rfl, ha, hb, hc, hd, rfl⟩ :=
    charLength_eq_some h
  · rw [lt_iff_toNat_lt] at ha
    replace ha : a.toNat < 0x80 := ha
    obtain ⟨char, hch⟩ := exists_char (n := a.toNat) (.inl (by omega))
    have hbs : utf8EncodeChar char = [a] := by
      obtain ⟨-, hbs⟩ | ⟨hlt, -⟩ | ⟨hlt, -⟩ | ⟨hlt, -⟩ := encodeChar_cases char
      · rw [hbs, hch, UInt8.ofNat_toNat]
      all_goals omega
    exact ⟨char, rest, by rw [hbs]; rfl, by rw [hbs]; rfl⟩
  · rw [le_iff_toNat_le, le_iff_toNat_le] at ha
    replace ha : 0xC2 ≤ a.toNat ∧ a.toNat ≤ 0xDF := ha
    rw [isContinuation_iff] at hb
    obtain ⟨char, hch⟩ := exists_char (n := (a.toNat - 0xC0) * 64 + (b.toNat - 0x80))
      (.inl (by omega))
    have hbs : utf8EncodeChar char = [a, b] := by
      obtain ⟨hle, -⟩ | ⟨-, -, hbs⟩ | ⟨hlt, -⟩ | ⟨hlt, -⟩ := encodeChar_cases char
      · omega
      · rw [hbs, hch]
        simp only [cons.injEq, ofNat_eq_iff, and_true]
        omega
      all_goals omega
    exact ⟨char, rest, by rw [hbs]; rfl, by rw [hbs]; rfl⟩
  · rw [le_iff_toNat_le, le_iff_toNat_le] at ha
    replace ha : 0xE0 ≤ a.toNat ∧ a.toNat ≤ 0xEF := ha
    rw [isContinuation_iff] at hc
    rw [second_iff] at hb
    obtain ⟨char, hch⟩ := exists_char
      (n := (a.toNat - 0xE0) * 4096 + (b.toNat - 0x80) * 64 + (c.toNat - 0x80))
      (by unfold Nat.isValidChar; omega)
    have hbs : utf8EncodeChar char = [a, b, c] := by
      obtain ⟨hle, -⟩ | ⟨-, hle, -⟩ | ⟨-, -, hbs⟩ | ⟨hlt, -⟩ := encodeChar_cases char
      · omega
      · omega
      · rw [hbs, hch]
        simp only [cons.injEq, ofNat_eq_iff, and_true]
        omega
      · omega
    exact ⟨char, rest, by rw [hbs]; rfl, by rw [hbs]; rfl⟩
  · rw [le_iff_toNat_le, le_iff_toNat_le] at ha
    replace ha : 0xF0 ≤ a.toNat ∧ a.toNat ≤ 0xF4 := ha
    rw [isContinuation_iff] at hc hd
    rw [second_iff] at hb
    obtain ⟨char, hch⟩ := exists_char
      (n := (a.toNat - 0xF0) * 262144 + (b.toNat - 0x80) * 4096 + (c.toNat - 0x80) * 64
        + (d.toNat - 0x80))
      (by unfold Nat.isValidChar; omega)
    have hbs : utf8EncodeChar char = [a, b, c, d] := by
      obtain ⟨hle, -⟩ | ⟨-, hle, -⟩ | ⟨-, hle, -⟩ | ⟨-, hbs⟩ := encodeChar_cases char
      · omega
      · omega
      · omega
      · rw [hbs, hch]
        simp only [cons.injEq, ofNat_eq_iff, and_true]
        omega
    exact ⟨char, rest, by rw [hbs]; rfl, by rw [hbs]; rfl⟩

/-- A text begins with a character. -/
theorem WellFormed.exists_charLength (h : WellFormed value) (hne : value ≠ []) :
    ∃ n, charLength value = some n ∧ WellFormed (value.drop n) := by
  cases h with
  | nil => exact absurd rfl hne
  | char hc hr => exact ⟨_, hc, hr⟩

theorem charLength_pos (h : charLength value = some n) : 0 < n := by
  obtain ⟨_, _, -, -, rfl⟩ | ⟨char, _, -, rfl, hne, -⟩ := charLength_cases h
  · exact Nat.one_pos
  · exact length_pos_iff.mpr hne

/-- **The well-formed byte strings are the encodings of the lists of
characters.** -/
theorem wellFormed_iff :
    WellFormed value ↔ ∃ chars : List Char, value = chars.flatMap utf8EncodeChar := by
  constructor
  · intro h
    induction h with
    | nil => exact ⟨[], rfl⟩
    | char hc hr ih =>
      obtain ⟨chars, hcs⟩ := ih
      obtain ⟨c, rest, rfl, rfl⟩ := exists_encodeChar hc
      rw [drop_left] at hcs
      exact ⟨c :: chars, by rw [flatMap_cons, hcs]⟩
  · rintro ⟨chars, rfl⟩
    induction chars with
    | nil => exact .nil
    | cons c chars ih =>
      rw [flatMap_cons]
      refine .char (charLength_encodeChar c _) ?_
      rw [drop_left]
      exact ih

end NeoGraph.Utf8
