import Mathlib
import NeoGraph.CanonicalJson.Scan
import NeoGraph.Lib.JsonReader

/-!
# Strings are read back

Escaping a string works byte by byte (`escapeLoop_eq`), and the strings
that are accepted are well-formed UTF-8 (`wellFormed_of_validateUtf8`).
Reading character by character what was written gives the string back
(`readString_appendEscaped`).
-/

namespace NeoGraph.CanonicalJson

open JsonReader List Utf8 UInt8

/-! ## Escaping -/

variable {b : UInt8}

theorem escapeByte_of_not_needsJsonEscape (h : needsJsonEscape b = false) : escapeByte b = [b] := by
  unfold needsJsonEscape at h
  simp only [Bool.or_eq_false_iff, decide_eq_false_iff_not] at h
  obtain ⟨⟨hctl, hqt⟩, hbsl⟩ := h
  have hne : ∀ c : UInt8, c < 0x20 → b ≠ c := by
    rintro c hc rfl
    exact hctl hc
  unfold escapeByte
  rw [if_neg hqt, if_neg hbsl, if_neg (hne 0x08 (by decide)),
    if_neg (hne 0x0C (by decide)), if_neg (hne 0x0A (by decide)), if_neg (hne 0x0D (by decide)),
    if_neg (hne 0x09 (by decide)), if_neg hctl]

variable {value : Bytes}

theorem flatMap_escapeByte_of_not_needsJsonEscape (h : ∀ b ∈ value, needsJsonEscape b = false) :
    value.flatMap escapeByte = value := by
  induction value with
  | nil => rfl
  | cons b rest ih =>
    rw [flatMap_cons, escapeByte_of_not_needsJsonEscape (h b mem_cons_self),
      ih fun c hc => h c (mem_cons_of_mem b hc)]
    rfl

/-- **Every byte is escaped on its own.** -/
theorem escapeLoop_eq (fuel : ℕ) (value : Bytes) (hfu : value.length ≤ fuel) :
    escapeLoop fuel value = value.flatMap escapeByte := by
  induction fuel generalizing value with
  | zero =>
    rw [length_eq_zero_iff.mp (Nat.le_zero.mp hfu)]
    rfl
  | succ fuel ih =>
    cases value with
    | nil => rfl
    | cons b rest =>
      rw [escapeLoop]
      split_ifs with hb
      · have hp : unescapedPrefix (b :: rest)
            = 1 + (rest.takeWhile fun b => !needsJsonEscape b).length := by
          rw [unescapedPrefix_eq, takeWhile_cons_of_pos (p := fun b => !needsJsonEscape b) hb,
            length_cons, Nat.add_comm]
        have htk : ∀ c ∈ (b :: rest).take (unescapedPrefix (b :: rest)),
            needsJsonEscape c = false := by
          rw [unescapedPrefix_eq, ← prefix_iff_eq_take.mp (List.takeWhile_prefix _)]
          intro c hc
          simpa using mem_takeWhile_imp hc
        rw [ih _ (by rw [length_drop, hp]; simp at hfu ⊢; omega)]
        conv_rhs => rw [← take_append_drop (unescapedPrefix (b :: rest)) (b :: rest)]
        rw [flatMap_append, flatMap_escapeByte_of_not_needsJsonEscape htk]
      · rw [flatMap_cons, ih rest (Nat.le_of_succ_le_succ hfu)]

/-- **The scan by words finds the longest prefix that needs no escape**, and
a string is written as if it were escaped byte by byte. -/
theorem unescapedPrefix_longest (value : List UInt8) :
    (let plain (n : ℕ) := n ≤ value.length ∧ ∀ b ∈ value.take n, ¬b < 0x20 ∧ b ≠ 0x22 ∧ b ≠ 0x5C
    plain (unescapedPrefix value) ∧ (∀ n, plain n → n ≤ unescapedPrefix value) ∧
      appendEscaped value
        = validateUtf8Impl value >>= fun _ =>
          .ok ([0x22] ++ value.flatMap escapeByte ++ [0x22])) := by
  intro plain
  have hneeds : ∀ b : UInt8,
      needsJsonEscape b = false ↔ ¬b < 0x20 ∧ b ≠ 0x22 ∧ b ≠ 0x5C := fun b => by
    simp [needsJsonEscape, and_assoc]
  refine ⟨⟨?_, ?_⟩, fun n ⟨hn, hpl⟩ => ?_, ?_⟩
  · rw [unescapedPrefix_eq]
    exact (takeWhile_sublist _).length_le
  · rw [unescapedPrefix_eq, ← prefix_iff_eq_take.mp (List.takeWhile_prefix _)]
    intro b hb
    simpa [hneeds] using mem_takeWhile_imp hb
  · have ha : ∀ b ∈ value.take n, (!needsJsonEscape b) = true := fun b hb => by
      simpa [hneeds] using hpl b hb
    rw [unescapedPrefix_eq, ← take_append_drop n value, takeWhile_append_of_pos ha, length_append,
      length_take, Nat.min_eq_left hn]
    exact Nat.le_add_right _ _
  · rw [appendEscaped, escapeLoop_eq _ _ le_rfl]

/-! ## Accepted strings are well-formed -/

theorem isContinuation_iff (b : UInt8) : b &&& 0xC0 = 0x80 ↔ isContinuation b = true := by
  obtain ⟨b⟩ := b
  revert b
  decide

variable {a : UInt8} {rest : Bytes}

/-- The check of one continuation byte. -/
theorem requireContinuation_iff {offset : ℕ} : requireContinuation value offset = .ok ()
    ↔ ∃ b, value[offset]? = some b ∧ isContinuation b = true := by
  unfold requireContinuation
  cases value[offset]? with
  | none => simp
  | some b => simp [isContinuation_iff]

theorem requireSecond_iff {low high : UInt8} : requireSecond value low high = .ok ()
    ↔ ∃ b, value[1]? = some b ∧ low ≤ b ∧ b ≤ high := by
  unfold requireSecond
  cases value[1]? with
  | none => simp
  | some b => simp [-not_or, not_or, UInt8.not_lt]

/-- The second byte of a character whose first byte leaves its range wide. -/
theorem requireContinuation_one (ha : a ≠ 0xE0 ∧ a ≠ 0xED ∧ a ≠ 0xF0 ∧ a ≠ 0xF4) :
    requireContinuation value 1 = requireSecond value (secondLow a) (secondHigh a) := by
  unfold requireContinuation requireSecond secondLow secondHigh
  rw [if_neg ha.1, if_neg ha.2.2.1, if_neg ha.2.1, if_neg ha.2.2.2]
  cases value[1]? with
  | none => rfl
  | some b =>
    refine if_congr ?_ rfl rfl
    rw [Ne, isContinuation_iff]
    simp [isContinuation, -not_and, not_and_or, UInt8.not_le]

/-- **The table of the writer**, after ASCII, is that of the standard. -/
theorem validatedUtf8PrefixLength_iff (hasc : ¬a < 0x80) {n : ℕ} :
    validatedUtf8PrefixLength (a :: rest) = .ok n ↔ charLength (a :: rest) = some n := by
  have hrs : validatedUtf8PrefixLength (a :: rest)
      = if 0xC2 ≤ a && a ≤ 0xDF then do
          requireContinuation (a :: rest) 1
          .ok 2
        else if 0xE0 ≤ a && a ≤ 0xEF then do
          requireSecond (a :: rest) (secondLow a) (secondHigh a)
          requireContinuation (a :: rest) 2
          .ok 3
        else if 0xF0 ≤ a && a ≤ 0xF4 then do
          requireSecond (a :: rest) (secondLow a) (secondHigh a)
          requireContinuation (a :: rest) 2
          requireContinuation (a :: rest) 3
          .ok 4
        else .error invalidUtf8 := by
    unfold validatedUtf8PrefixLength
    dsimp only
    rw [if_neg hasc]
    by_cases hE0 : a = 0xE0
    · subst hE0
      rfl
    by_cases hED : a = 0xED
    · subst hED
      rfl
    by_cases hF0 : a = 0xF0
    · subst hF0
      rfl
    by_cases hF4 : a = 0xF4
    · subst hF4
      rfl
    rw [← requireContinuation_one ⟨hE0, hED, hF0, hF4⟩, if_neg hE0, if_neg hED, if_neg hF0,
      if_neg hF4]
    simp only [Bool.or_eq_true, Bool.and_eq_true, decide_eq_true_iff, UInt8.le_iff_toNat_le,
      ← UInt8.toNat_inj, UInt8.reduceToNat] at hE0 hED hF0 hF4 ⊢
    split_ifs
    all_goals first | rfl | omega
  rw [hrs]
  unfold charLength
  dsimp only
  rw [if_neg hasc]
  rcases rest with _ | ⟨b, _ | ⟨c, _ | ⟨d, rest⟩⟩⟩
  all_goals
    dsimp only
    split_ifs
  all_goals simp_all [bind_unit_eq_ok, requireContinuation_iff, requireSecond_iff, and_assoc]

/-- A run of ASCII in front of a text does not matter. -/
theorem wellFormed_drop_ascii :
    WellFormed (value.drop (value.takeWhile fun b => decide (b < 0x80)).length)
      ↔ WellFormed value := by
  induction value with
  | nil => rfl
  | cons a rest ih =>
    by_cases hasc : a < 0x80
    · have hc : charLength (a :: rest) = some 1 := if_pos hasc
      rw [takeWhile_cons_of_pos (p := fun b => decide (b < 0x80)) (by simpa using hasc)]
      refine ih.trans ⟨.char hc, fun h => ?_⟩
      obtain - | @⟨_, n, hc', hr⟩ := h
      rw [hc] at hc'
      cases hc'
      exact hr
    · rw [takeWhile_cons_of_neg (p := fun b => decide (b < 0x80)) (by simpa using hasc)]
      rfl

/-- **An accepted string is well-formed UTF-8.** -/
theorem wellFormed_of_validateUtf8 (fuel : ℕ) (value : Bytes) (hfu : value.length ≤ fuel)
    (h : validateUtf8Loop fuel value = .ok ()) : WellFormed value := by
  induction fuel generalizing value with
  | zero =>
    rw [length_eq_zero_iff.mp (Nat.le_zero.mp hfu)]
    exact .nil
  | succ fuel ih =>
    cases value with
    | nil => exact .nil
    | cons a rest =>
      rw [validateUtf8Loop, if_neg (cons_ne_nil a rest)] at h
      obtain ⟨count, hcnt, h⟩ := bind_eq_ok.mp h
      by_cases hasc : a < 0x80
      · rw [validatedUtf8PrefixLength, if_pos hasc, asciiPrefix_eq] at hcnt
        cases hcnt
        refine wellFormed_drop_ascii.mp (ih _ ?_ h)
        rw [takeWhile_cons_of_pos (p := fun b => decide (b < 0x80)) (by simpa using hasc)]
        simp at hfu ⊢
        omega
      · have hc := (validatedUtf8PrefixLength_iff hasc).mp hcnt
        refine .char hc (ih _ ?_ h)
        have hp : 0 < count := by
          obtain ⟨_, _, -, -, rfl⟩ | ⟨char, _, -, rfl, hne, -⟩ := charLength_cases hc
          · exact Nat.one_pos
          · exact length_pos_iff.mpr hne
        simp at hfu ⊢
        omega

/-! ## Reading back -/

/-- The hexadecimal digits of a control character are read back. -/
theorem readHex_control (hb : b < 0x20) (rest : Bytes) :
    readHex (ascii "00" ++ [hexByte (b >>> 4), hexByte (b &&& 0x0F)] ++ rest)
      = some (b.toNat, rest) := by
  have hdig : ∀ b : BitVec 8, b < 0x20 →
      hexValue (hexByte (ofBitVec b >>> 4)) = some ((ofBitVec b).toNat / 16)
        ∧ hexValue (hexByte (ofBitVec b &&& 0x0F))
          = some ((ofBitVec b).toNat % 16) := by
    decide
  obtain ⟨hh, hlow⟩ := hdig b.toBitVec hb
  show readHex (48 :: 48 :: hexByte (b >>> 4) :: hexByte (b &&& 0x0F) :: rest) = _
  unfold readHex
  dsimp only
  rw [show hexValue 48 = some 0 by decide]
  rw [show ofBitVec b.toBitVec = b from rfl] at hh hlow
  rw [hh, hlow]
  show some (((0 * 16 + 0) * 16 + b.toNat / 16) * 16 + b.toNat % 16, rest) = _
  rw [show ((0 * 16 + 0) * 16 + b.toNat / 16) * 16 + b.toNat % 16 = b.toNat by omega]

/-- A byte of ASCII is read back, escaped or not. -/
theorem readChar_escapeByte (hb : b < 0x80) (rest : Bytes) :
    readChar (escapeByte b ++ rest) = some ([b], rest)
      ∧ (escapeByte b ++ rest).head? ≠ some 0x22 := by
  have hne : (some 0x5C : Option UInt8) ≠ some 0x22 := by decide
  by_cases hesc : needsJsonEscape b = true
  · unfold escapeByte
    split
    · rename_i h
      exact ⟨h ▸ rfl, hne⟩
    split
    · rename_i h
      exact ⟨h ▸ rfl, hne⟩
    split
    · rename_i h
      exact ⟨h ▸ rfl, hne⟩
    split
    · rename_i h
      exact ⟨h ▸ rfl, hne⟩
    split
    · rename_i h
      exact ⟨h ▸ rfl, hne⟩
    split
    · rename_i h
      exact ⟨h ▸ rfl, hne⟩
    split
    · rename_i h
      exact ⟨h ▸ rfl, hne⟩
    rename_i hqt hbsl _ _ _ _ _
    have hctl : b < 0x20 := by
      unfold needsJsonEscape at hesc
      simpa [hqt, hbsl] using hesc
    rw [if_pos hctl]
    refine ⟨?_, hne⟩
    have hhex := readHex_control hctl rest
    have hlt : b.toNat < 0x20 := hctl
    show readUnicode (ascii "00" ++ [hexByte (b >>> 4), hexByte (b &&& 0x0F)] ++ rest) = _
    unfold readUnicode
    rw [hhex]
    dsimp only
    rw [if_neg (by simp; omega), if_neg (by simp; omega)]
    unfold encode
    rw [if_pos (by omega), show b.toNat.toUInt8 = b from UInt8.ofNat_toNat]
  · have hesc := Bool.eq_false_iff.mpr hesc
    rw [escapeByte_of_not_needsJsonEscape hesc]
    unfold needsJsonEscape at hesc
    simp only [Bool.or_eq_false_iff, decide_eq_false_iff_not] at hesc
    obtain ⟨⟨hctl, hqt⟩, hbsl⟩ := hesc
    have hl : charLength (b :: rest) = some 1 := by
      unfold charLength
      dsimp only
      rw [if_pos hb]
    refine ⟨?_, by simpa using hqt⟩
    show readChar (b :: rest) = _
    unfold readChar
    dsimp only
    rw [if_neg (by simp [hctl, hqt]), if_neg hbsl, hl]
    rfl

/-- Bytes outside of ASCII are not escaped. -/
theorem not_needsJsonEscape_of_le (h : 0x80 ≤ b) : needsJsonEscape b = false := by
  unfold needsJsonEscape
  have hne : ∀ c : UInt8, c < 0x80 → b ≠ c := by
    rintro c hc rfl
    exact absurd h (UInt8.not_le.mpr hc)
  have hctl : ¬b < 0x20 := UInt8.not_lt.mpr (UInt8.le_trans (by decide) h)
  simp [hctl, hne 0x22 (by decide), hne 0x5C (by decide)]

/-- A character outside of ASCII is read back. -/
theorem readChar_of_charLength {char : Bytes} (hne : char ≠ []) (hbs : ∀ b ∈ char, 0x80 ≤ b)
    (hl : ∀ rest, charLength (char ++ rest) = some char.length) (rest : Bytes) :
    readChar (char ++ rest) = some (char, rest) ∧ (char ++ rest).head? ≠ some 0x22 := by
  obtain ⟨b, tail, rfl⟩ := exists_cons_of_ne_nil hne
  have hb := not_needsJsonEscape_of_le (hbs b mem_cons_self)
  unfold needsJsonEscape at hb
  simp only [Bool.or_eq_false_iff, decide_eq_false_iff_not] at hb
  obtain ⟨⟨hctl, hqt⟩, hbsl⟩ := hb
  refine ⟨?_, by simpa using hqt⟩
  have hl := hl rest
  rw [cons_append] at hl ⊢
  unfold readChar
  dsimp only
  rw [if_neg (by simp [hctl, hqt]), if_neg hbsl, hl, ← cons_append]
  simp

/-- **A well-formed string is read back from its escaped form.** -/
theorem readChars_escaped (h : WellFormed value) (fuel : ℕ) (hfu : value.length < fuel)
    (rest : Bytes) :
    readChars fuel (value.flatMap escapeByte ++ 0x22 :: rest) = some (value, rest) := by
  induction h generalizing fuel with
  | nil =>
    obtain ⟨fuel, rfl⟩ := Nat.exists_eq_succ_of_ne_zero (Nat.ne_zero_of_lt hfu)
    rfl
  | @char value n hc hr ih =>
    obtain ⟨fuel, rfl⟩ := Nat.exists_eq_succ_of_ne_zero (Nat.ne_zero_of_lt hfu)
    -- one character is read, escaped or not, and the rest by induction
    have hrd : ∀ char tail, value = char ++ tail → n = char.length → char ≠ [] →
        (∀ X, readChar (char.flatMap escapeByte ++ X) = some (char, X)
          ∧ (char.flatMap escapeByte ++ X).head? ≠ some 0x22) →
        readChars (fuel + 1) (value.flatMap escapeByte ++ 0x22 :: rest) = some (value, rest) := by
      rintro char tail rfl rfl hne hrd
      rw [drop_left] at ih
      obtain ⟨hf, hqt⟩ := hrd (tail.flatMap escapeByte ++ 0x22 :: rest)
      have hl := length_pos_iff.mpr hne
      rw [length_append] at hfu
      rw [flatMap_append, append_assoc, readChars, if_neg hqt, hf]
      show (readChars fuel _ >>= _) = _
      rw [ih fuel (by omega)]
      rfl
    obtain ⟨a, tail, rfl, hasc, rfl⟩ | ⟨char, tail, rfl, rfl, hne, hbs, hlength⟩ :=
      charLength_cases hc
    · refine hrd [a] tail rfl rfl (cons_ne_nil _ _) fun X => ?_
      rw [flatMap_singleton]
      exact readChar_escapeByte hasc X
    · refine hrd char tail rfl rfl hne fun X => ?_
      rw [flatMap_escapeByte_of_not_needsJsonEscape
        fun b hb => not_needsJsonEscape_of_le (hbs b hb)]
      exact readChar_of_charLength hne hbs hlength X

theorem length_le_flatMap_escapeByte (value : Bytes) :
    value.length ≤ (value.flatMap escapeByte).length := by
  induction value with
  | nil => exact le_rfl
  | cons b rest ih =>
    have hb : 1 ≤ (escapeByte b).length := by
      unfold escapeByte
      repeat' split
      all_goals exact Nat.succ_le_succ (Nat.zero_le _)
    rw [flatMap_cons, length_append, length_cons]
    omega

variable {text : Bytes}

/-- The text of a string that is text. -/
theorem appendEscaped_eq_ok (h : appendEscaped value = .ok text) :
    WellFormed value ∧ text = [0x22] ++ value.flatMap escapeByte ++ [0x22] := by
  obtain ⟨hv, h⟩ := bind_unit_eq_ok.mp h
  cases h
  rw [escapeLoop_eq value.length value le_rfl]
  exact ⟨wellFormed_of_validateUtf8 value.length value le_rfl hv, rfl⟩

/-- **A string is read back from what was written.** -/
theorem readString_appendEscaped (h : appendEscaped value = .ok text)
    (rest : Bytes) : readString (text ++ rest) = some (value, rest) := by
  obtain ⟨hwf, rfl⟩ := appendEscaped_eq_ok h
  have hl := length_le_flatMap_escapeByte value
  unfold readString
  rw [if_pos (by rfl)]
  have ht : value.flatMap escapeByte ++ [0x22] ++ rest
      = value.flatMap escapeByte ++ 0x22 :: rest := by
    rw [append_assoc]
    rfl
  show readChars _ (value.flatMap escapeByte ++ [0x22] ++ rest) = _
  rw [ht]
  refine readChars_escaped hwf _ ?_ rest
  simp only [length_append, length_cons, length_nil]
  omega

end NeoGraph.CanonicalJson
