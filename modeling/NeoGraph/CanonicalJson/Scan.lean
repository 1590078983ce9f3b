import NeoGraph.CanonicalJson.Writer

/-!
# Scanning by words is scanning by bytes

A word is skipped when a few machine operations on all of its bytes at once
find nothing to stop at. Subtracting a small constant from every byte
borrows only out of bytes below it, so the lowest such byte shows in its
high bit (`le_byteAt_of_borrow`); a zero byte after an exclusive or is the
byte compared with. Both scans then give the length of the longest prefix
of admitted bytes (`unescapedPrefix_eq`, `asciiPrefix_eq`).
-/

namespace NeoGraph.CanonicalJson

open List

/-! ## The bytes of a word -/

/-- A byte of a word. -/
def byteAt (w : UInt64) (i : ℕ) : ℕ := w.toNat / 256 ^ i % 256

/-- The high bit of a byte of a word. -/
theorem testBit_byteAt (w : UInt64) (i : ℕ) :
    w.toNat.testBit (8 * i + 7) = decide (128 ≤ byteAt w i) := by
  unfold byteAt
  rw [Nat.testBit_eq_decide_div_mod_eq, Nat.pow_add, Nat.pow_mul, ← Nat.div_div_eq_div_mul]
  show decide (w.toNat / 256 ^ i / 128 % 2 = 1) = _
  rw [decide_eq_decide]
  omega

variable {i : ℕ} {w : UInt64}

/-- The high bits of a word that survive a mask are those of the word. -/
theorem byteAt_lt_of_and_highs (h : w &&& byteHighs = 0) (hi : i < 8) : byteAt w i < 128 := by
  have hbit : byteHighs.toNat.testBit (8 * i + 7) = true := by
    interval_cases i <;> decide
  have hand : (w &&& byteHighs).toNat.testBit (8 * i + 7) = false := by
    rw [h]
    exact Nat.zero_testBit _
  rw [UInt64.toNat_and, Nat.testBit_and, hbit, Bool.and_true, testBit_byteAt] at hand
  simpa using hand

theorem testBit_not (w : UInt64) (hi : i < 64) : (~~~w).toNat.testBit i = !w.toNat.testBit i := by
  have hw := w.toNat_lt
  rw [UInt64.toNat_not, show UInt64.size - 1 - w.toNat = 2 ^ 64 - (w.toNat + 1) by
      show 2 ^ 64 - 1 - w.toNat = _
      omega, Nat.testBit_two_pow_sub_succ hw, decide_eq_true hi, Bool.true_and]

/-- The word of `i` bytes that are all one. -/
def repeatedOne : ℕ → ℕ
  | 0 => 0
  | i + 1 => repeatedOne i + 256 ^ i

variable {t : ℕ}

theorem mul_repeatedOne_lt (ht : t ≤ 128) (i : ℕ) : t * repeatedOne i < 256 ^ i := by
  induction i with
  | zero => simp [repeatedOne]
  | succ i ih =>
    have hmul : t * 256 ^ i ≤ 128 * 256 ^ i := Nat.mul_le_mul_right _ ht
    rw [repeatedOne, Nat.mul_add, Nat.pow_succ]
    omega

/-- Lower bytes that are large enough lend nothing. -/
theorem repeatedOne_le_mod {n : ℕ} (h : ∀ j < i, t ≤ n / 256 ^ j % 256) :
    t * repeatedOne i ≤ n % 256 ^ i := by
  induction i with
  | zero => simp [repeatedOne]
  | succ i ih =>
    rw [repeatedOne, Nat.mul_add, Nat.pow_succ, Nat.mod_mul, Nat.mul_comm t (256 ^ i)]
    exact Nat.add_le_add (ih fun j hj => h j (hj.trans (Nat.lt_succ_self i)))
      (Nat.mul_le_mul_left _ (h i (Nat.lt_succ_self i)))

/-- A byte below `t` is turned into its difference with `t` by a borrow from
the next one, whatever the higher bytes are. -/
theorem div_mod_of_borrow {p q b low klow r s : ℕ} (hb : b < t) (ht : t ≤ 128) (hlow : low < p)
    (hklow : klow ≤ low) (hs : s < q) :
    (p * (256 * q) - (klow + p * (t + 256 * s)) + (low + p * (b + 256 * r)))
        % (p * (256 * q)) / p % 256
      = b + 256 - t := by
  have hsm : p * (256 * q) - (klow + p * (t + 256 * s)) + (low + p * (b + 256 * r))
      = (low - klow) + p * (b + 256 - t + 256 * (r + (q - s - 1))) := by
    obtain ⟨m, rfl⟩ : ∃ m, q = s + 1 + m := ⟨q - s - 1, by omega⟩
    obtain ⟨d, rfl⟩ : ∃ d, low = klow + d := ⟨low - klow, by omega⟩
    have hle : klow + p * (t + 256 * s) ≤ p * (256 * (s + 1 + m)) := by
      have hmul : p * (t + 256 * s + 1) ≤ p * (256 * (s + 1 + m)) :=
        Nat.mul_le_mul_left p (by omega)
      rw [Nat.mul_succ] at hmul
      omega
    have hm : s + 1 + m - s - 1 = m := by omega
    have hbt : t ≤ b + 256 := by omega
    rw [hm, Nat.add_sub_cancel_left]
    zify [hle, hbt]
    ring
  have hp : 0 < p := Nat.zero_lt_of_lt hlow
  have hd : low - klow < p := by omega
  rw [hsm, Nat.mod_mul_right_div_self, Nat.add_mul_div_left _ _ hp, Nat.div_eq_of_lt hd,
    Nat.zero_add, Nat.mod_mul_right_mod, Nat.add_mul_mod_self_left]
  exact Nat.mod_eq_of_lt (by omega)

variable {k : UInt64}

/-- **No byte is below `t` when subtracting `t` from all of them borrows
nowhere it shows.** -/
theorem le_byteAt_of_borrow (ht : t ≤ 128) (hk : k.toNat = t * repeatedOne 8)
    (h : (w - k) &&& ~~~w &&& byteHighs = 0) (hi : i < 8) : t ≤ byteAt w i := by
  induction i using Nat.strong_induction_on with
  | _ i ih =>
    by_contra hlt
    have hmasked := byteAt_lt_of_and_highs h hi
    -- the byte itself has its high bit clear, so the difference has it clear too
    have hdiff : byteAt (w - k) i < 128 := by
      have hbit : ((w - k) &&& ~~~w).toNat.testBit (8 * i + 7) = false := by
        rw [testBit_byteAt]
        simpa using hmasked
      have hclr : w.toNat.testBit (8 * i + 7) = false := by
        rw [testBit_byteAt]
        simp only [decide_eq_false_iff_not]
        omega
      rw [UInt64.toNat_and, Nat.testBit_and, testBit_not w (by omega), hclr, Bool.not_false,
        Bool.and_true, testBit_byteAt] at hbit
      simpa using hbit
    have hlo : ∀ j < i, t ≤ byteAt w j := fun j hj => ih j hj (hj.trans hi)
    have hones : repeatedOne 8 = repeatedOne i + 256 ^ i * (1 + 256 * repeatedOne (7 - i)) := by
      clear hdiff hlo hlt ih hmasked
      interval_cases i <;> decide
    have hsz : 2 ^ 64 = 256 ^ i * (256 * 256 ^ (7 - i)) := by
      clear hdiff hlo hlt ih hmasked
      interval_cases i <;> decide
    have hspl : w.toNat
        = w.toNat % 256 ^ i + 256 ^ i * (byteAt w i + 256 * (w.toNat / 256 ^ i / 256)) := by
      unfold byteAt
      rw [Nat.mod_add_div, Nat.mod_add_div]
    have hby := div_mod_of_borrow (r := w.toNat / 256 ^ i / 256) (not_le.mp hlt) ht
      (Nat.mod_lt w.toNat (Nat.pow_pos (by decide))) (repeatedOne_le_mod hlo)
      (mul_repeatedOne_lt ht (7 - i))
    rw [← hspl, ← hsz] at hby
    have hk' : k.toNat
        = t * repeatedOne i + 256 ^ i * (t + 256 * (t * repeatedOne (7 - i))) := by
      rw [hk, hones]
      ring
    rw [← hk', ← UInt64.toNat_sub] at hby
    have : byteAt (w - k) i = byteAt w i + 256 - t := hby
    omega

/-- Where no byte of the difference is zero, the byte is not found. -/
theorem byteAt_ne_of_hasZeroByte {b : ℕ} (hk : byteAt k i = b)
    (h : hasZeroByte (w ^^^ k) = false) (hi : i < 8) : byteAt w i ≠ b := by
  intro hb
  have ho : 1 ≤ byteAt (w ^^^ k) i :=
    le_byteAt_of_borrow (by decide) (show byteOnes.toNat = 1 * repeatedOne 8 by decide)
      (by simpa [hasZeroByte] using h) hi
  have hxor : byteAt (w ^^^ k) i = byteAt w i ^^^ byteAt k i := by
    unfold byteAt
    rw [UInt64.toNat_xor, show 256 ^ i = 2 ^ (8 * i) by rw [Nat.pow_mul], Nat.xor_div_two_pow,
      show 256 = 2 ^ 8 from rfl, Nat.xor_mod_two_pow]
  rw [hxor, hk, hb, Nat.xor_self] at ho
  exact absurd ho (by decide)

/-! ## The bytes read into a word -/

theorem foldr_bytes_lt (bytes : Bytes) :
    bytes.foldr (fun b n => b.toNat + 256 * n) 0 < 256 ^ bytes.length := by
  induction bytes with
  | nil => decide
  | cons b bytes ih =>
    have hb : b.toNat < 256 := b.toNat_lt
    rw [foldr_cons, length_cons, Nat.pow_succ]
    omega

theorem foldr_bytes_div_mod (bytes : Bytes) (hi : i < bytes.length) :
    bytes.foldr (fun b n => b.toNat + 256 * n) 0 / 256 ^ i % 256 = bytes[i].toNat := by
  induction bytes generalizing i with
  | nil => exact absurd hi (Nat.not_lt_zero i)
  | cons b bytes ih =>
    have hb : b.toNat < 256 := b.toNat_lt
    rw [foldr_cons]
    cases i with
    | zero =>
      rw [Nat.pow_zero, Nat.div_one, Nat.add_mul_mod_self_left, Nat.mod_eq_of_lt hb]
      rfl
    | succ i =>
      rw [Nat.pow_succ, Nat.mul_comm (256 ^ i), ← Nat.div_div_eq_div_mul,
        Nat.add_mul_div_left _ _ (by decide), Nat.div_eq_of_lt hb, Nat.zero_add,
        ih (Nat.lt_of_succ_lt_succ hi)]
      rfl

theorem byteAt_word {value : Bytes} (hl : 8 ≤ value.length) (hi : i < 8) :
    byteAt (word value) i = value[i].toNat := by
  have htk : (value.take 8).length = 8 := by rw [length_take, Nat.min_eq_left hl]
  have hlt := foldr_bytes_lt (value.take 8)
  rw [htk] at hlt
  unfold byteAt word
  rw [UInt64.toNat_ofNat_of_lt' hlt, foldr_bytes_div_mod (value.take 8) (by omega),
    getElem_take]

/-- **Whole words can be skipped** when a word that is not stopped at holds
admitted bytes only. -/
theorem wordPrefix_eq {stop : UInt64 → Bool} {admitted : UInt8 → Bool}
    (hsp : ∀ w, stop w = false → ∀ i < 8, ∀ b : UInt8, byteAt w i = b.toNat → admitted b = true)
    (value : Bytes) : wordPrefix stop admitted value = (value.takeWhile admitted).length := by
  have hsk : ∀ fuel (value : Bytes),
      skipWords stop fuel value
        + ((value.drop (skipWords stop fuel value)).takeWhile admitted).length
        = (value.takeWhile admitted).length := by
    intro fuel
    induction fuel with
    | zero => simp [skipWords]
    | succ fuel ih =>
      intro value
      unfold skipWords
      split_ifs with hw
      · rw [Bool.and_eq_true, decide_eq_true_iff, Bool.not_eq_true'] at hw
        obtain ⟨hl, hw⟩ := hw
        have htk : ∀ b ∈ value.take 8, admitted b = true := by
          intro b hb
          obtain ⟨i, hi, rfl⟩ := mem_take_iff_getElem.mp hb
          exact hsp _ hw i (by omega) _ (byteAt_word hl (by omega))
        have hspl : (value.takeWhile admitted).length
            = 8 + ((value.drop 8).takeWhile admitted).length := by
          conv_lhs => rw [← take_append_drop 8 value]
          rw [takeWhile_append_of_pos htk, length_append, length_take,
            Nat.min_eq_left hl]
        rw [hspl, ← ih (value.drop 8), drop_drop, Nat.add_assoc]
      · simp
  exact hsk value.length value

/-- The prefix found by words is the one found by bytes. -/
theorem unescapedPrefix_eq (value : Bytes) :
    unescapedPrefix value = (value.takeWhile fun b => !needsJsonEscape b).length := by
  refine wordPrefix_eq ?_ value
  intro w hw i hi b hb
  unfold stopsEscape at hw
  simp only [Bool.or_eq_false_iff] at hw
  obtain ⟨⟨hctl, hqt⟩, hbsl⟩ := hw
  have hctl : 0x20 ≤ byteAt w i :=
    le_byteAt_of_borrow (by decide)
      (show (0x2020202020202020 : UInt64).toNat = 0x20 * repeatedOne 8 by decide)
      (by simpa using hctl) hi
  have hqt : byteAt w i ≠ 0x22 :=
    byteAt_ne_of_hasZeroByte (by clear hb hctl; interval_cases i <;> decide) hqt hi
  have hbsl : byteAt w i ≠ 0x5C :=
    byteAt_ne_of_hasZeroByte (by clear hb hctl hqt; interval_cases i <;> decide) hbsl hi
  rw [hb] at hctl hqt hbsl
  unfold needsJsonEscape
  simp only [Bool.not_or, Bool.and_eq_true, Bool.not_eq_true', decide_eq_false_iff_not,
    UInt8.lt_iff_toNat_lt, ← UInt8.toNat_inj]
  exact ⟨⟨not_lt.mpr hctl, hqt⟩, hbsl⟩

theorem asciiPrefix_eq (value : Bytes) :
    asciiPrefix value = (value.takeWhile fun b => decide (b < 0x80)).length := by
  refine wordPrefix_eq ?_ value
  intro w hw i hi b hb
  have hlt := byteAt_lt_of_and_highs (by simpa using hw) hi
  rw [hb] at hlt
  rw [decide_eq_true_iff, UInt8.lt_iff_toNat_lt]
  exact hlt

end NeoGraph.CanonicalJson
