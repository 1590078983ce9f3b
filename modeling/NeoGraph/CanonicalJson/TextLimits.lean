import NeoGraph.CanonicalJson.Strict

/-!
# Canonical texts pass the limits of a text

The size a value is charged with bounds the length of its text, and the
nesting the scan of a text counts is that of the value: quotes and braces
inside of strings are escaped or passed over. So a canonical text is always
read back (`parseJsonStrict_canonicalJsonBytes`).
-/

namespace NeoGraph.CanonicalJson

open List Bool UInt8

variable {appendFloat : UInt64 → Except Exn Bytes}
  {readFloat : UInt64 → Json Bytes}
  {parseText : Bytes → Option (Json Bytes)}

/-! ## Nesting -/

/-- The scan passes over the text and is back at the depth it started
from. -/
def Scans (text : Bytes) (depth : ℕ) : Prop :=
  ∀ rest, textLimitsLoop (text ++ rest) depth false false = textLimitsLoop rest depth false false

variable {text : Bytes} {depth : ℕ}

theorem Scans.append {text' : Bytes} (h : Scans text depth) (h' : Scans text' depth) :
    Scans (text ++ text') depth := by
  intro rest
  rw [append_assoc, h, h']

theorem scans_nil (depth : ℕ) : Scans [] depth := fun _ => rfl

/-- A byte outside of strings that opens and closes nothing. -/
def isPlainByte (b : UInt8) : Bool :=
  b ≠ 0x22 && b ≠ 0x7B && b ≠ 0x5B && b ≠ 0x7D && b ≠ 0x5D

theorem scans_plain (h : ∀ b ∈ text, isPlainByte b = true) (depth : ℕ) : Scans text depth := by
  induction text with
  | nil => exact scans_nil depth
  | cons b text ih =>
    intro rest
    have hb := h b mem_cons_self
    unfold isPlainByte at hb
    simp only [and_eq_true, decide_eq_true_iff] at hb
    obtain ⟨⟨⟨⟨hqt, hbrace⟩, hbracket⟩, hcl⟩, hcl'⟩ := hb
    rw [cons_append, textLimitsLoop]
    simp only [false_eq_true, if_false, hqt, hbrace, hbracket, hcl, hcl',
      decide_false, Bool.or_self]
    exact ih (fun c hc => h c (mem_cons_of_mem b hc)) rest

/-- A closed text of such bytes. -/
theorem scans_of_all (h : text.all isPlainByte = true) (depth : ℕ) : Scans text depth :=
  scans_plain (all_eq_true.mp h) depth

/-- A byte of a number is no quote and no brace. -/
theorem isPlainByte_of_isNumberByte {b : UInt8} (h : isNumberByte b = true) :
    isPlainByte b = true := by
  have ha : ∀ b : BitVec 8, isNumberByte (ofBitVec b) = true →
      isPlainByte (ofBitVec b) = true := by
    decide +kernel
  exact ha b.toBitVec h

theorem isNumberByte_of_isDigit {b : UInt8} (h : isDigit b = true) : isNumberByte b = true := by
  unfold isNumberByte
  rw [h, Bool.true_or, Bool.true_or, Bool.true_or]

theorem scans_decimalText (n depth : ℕ) : Scans (decimalText n) depth :=
  scans_plain (fun _ hb =>
    isPlainByte_of_isNumberByte (isNumberByte_of_isDigit (isDigit_of_mem_decimalText hb))) depth

/-! ## Strings -/

/-- A hexadecimal digit is neither a backslash nor a quote. -/
theorem hexByte_ne {n : UInt8} (h : n.toNat < 16) : hexByte n ≠ 0x5C ∧ hexByte n ≠ 0x22 := by
  have ha : ∀ n < 16, hexByte (ofNat n) ≠ 0x5C ∧ hexByte (ofNat n) ≠ 0x22 := by
    decide +kernel
  have hdig := ha n.toNat h
  rwa [UInt8.ofNat_toNat] at hdig

variable (b : UInt8)

theorem toNat_shiftRight_lt : (b >>> 4).toNat < 16 := by
  have := b.toNat_lt
  rw [UInt8.toNat_shiftRight, Nat.shiftRight_eq_div_pow]
  show b.toNat / 2 ^ 4 < 16
  omega

theorem toNat_and_lt : (b &&& 0x0F).toNat < 16 := by
  rw [UInt8.toNat_and]
  exact Nat.lt_succ_of_le Nat.and_le_right

/-- The scan of the escape of a byte stays inside the string. -/
theorem textLimitsLoop_escapeByte (rest : Bytes) (depth : ℕ) :
    textLimitsLoop (escapeByte b ++ rest) depth true false
      = textLimitsLoop rest depth true false := by
  by_cases hescape : needsJsonEscape b = true
  · -- a backslash, an escaped byte, and digits that are neither
    unfold escapeByte
    split
    · rfl
    split
    · rfl
    split
    · rfl
    split
    · rfl
    split
    · rfl
    split
    · rfl
    split
    · rfl
    split
    · rename_i hb
      obtain ⟨hbsl, hqt⟩ := hexByte_ne (toNat_shiftRight_lt b)
      obtain ⟨hbsl', hqt'⟩ := hexByte_ne (toNat_and_lt b)
      show (if hexByte (b >>> 4) = 0x5C then _ else _) = _
      rw [if_neg hbsl, if_neg hqt]
      show (if hexByte (b &&& 0x0F) = 0x5C then _ else _) = _
      rw [if_neg hbsl', if_neg hqt']
      rfl
    · rename_i hqt hbsl _ _ _ _ _ hb
      unfold needsJsonEscape at hescape
      simp [hqt, hbsl, hb] at hescape
  · have hpl : needsJsonEscape b = false := eq_false_iff.mpr hescape
    rw [escapeByte_of_not_needsJsonEscape hpl]
    unfold needsJsonEscape at hpl
    simp only [or_eq_false_iff, decide_eq_false_iff_not] at hpl
    rw [List.singleton_append, textLimitsLoop, if_pos rfl, if_neg Bool.false_ne_true,
      if_neg hpl.2, if_neg hpl.1.2]

variable {value : Bytes}

theorem scans_appendEscaped (h : appendEscaped value = .ok text) (depth : ℕ) :
    Scans text depth := by
  obtain ⟨-, rfl⟩ := appendEscaped_eq_ok h
  have hb : ∀ value rest, textLimitsLoop (flatMap escapeByte value ++ 0x22 :: rest) depth
      true false = textLimitsLoop rest depth false false := by
    intro value rest
    induction value with
    | nil => rfl
    | cons b value ih =>
      rw [flatMap_cons, append_assoc, textLimitsLoop_escapeByte, ih]
  intro rest
  simp only [append_assoc]
  exact hb value rest

/-! ## Values -/

variable {body : Bytes}

/-- Brackets around a text that is scanned to its end. -/
theorem scans_enclosed {first last : UInt8} (hf : first = 0x7B ∨ first = 0x5B)
    (hl : last = 0x7D ∨ last = 0x5D) (hdp : depth + 1 ≤ maxJsonDepth)
    (h : Scans body (depth + 1)) : Scans ([first] ++ body ++ [last]) depth := by
  intro rest
  have hop : textLimitsLoop (first :: (body ++ (last :: rest))) depth false false
      = textLimitsLoop (body ++ (last :: rest)) (depth + 1) false false := by
    obtain rfl | rfl := hf <;>
    · rw [textLimitsLoop]
      simp only [false_eq_true, if_false]
      rw [if_neg (by decide), if_pos (by decide), if_neg (by omega)]
  have hc : textLimitsLoop (last :: rest) (depth + 1) false false
      = textLimitsLoop rest depth false false := by
    obtain rfl | rfl := hl <;>
    · rw [textLimitsLoop]
      simp only [false_eq_true, if_false]
      rw [if_neg (by decide), if_neg (by decide), if_pos (by decide), Nat.add_sub_cancel]
  rw [append_assoc, append_assoc, singleton_append, singleton_append, hop, h, hc]

variable {first : Bool}

theorem scans_comma (first : Bool) (depth : ℕ) :
    Scans (if first = true then [] else [0x2C]) depth := by
  split
  · exact scans_nil depth
  · exact scans_of_all (by decide) depth

variable {items : List (Json Bytes)}

theorem scans_appendItems
    (h : ∀ v ∈ items, ∀ text, appendValue appendFloat v = .ok text → Scans text depth)
    (hb : appendItems appendFloat items first = .ok body) : Scans body depth := by
  induction items generalizing first body with
  | nil =>
    cases hb
    exact scans_nil depth
  | cons item items ih =>
    rw [appendItems] at hb
    simp only [bind_eq_ok] at hb
    obtain ⟨text, ht, rest, hr, hb⟩ := hb
    cases hb
    exact ((scans_comma first depth).append (h item mem_cons_self text ht)).append
      (ih (fun v hv => h v (mem_cons_of_mem item hv)) hr)

variable {members : List (Bytes × Json Bytes)}

theorem scans_appendFields
    (h : ∀ m ∈ members, ∀ text, appendValue appendFloat m.2 = .ok text → Scans text depth)
    (hb : appendFields (members.map fun m => (m.1, appendValue appendFloat m.2)) first = .ok body) :
    Scans body depth := by
  induction members generalizing first body with
  | nil =>
    cases hb
    exact scans_nil depth
  | cons m members ih =>
    rw [map_cons, appendFields] at hb
    simp only [bind_eq_ok] at hb
    obtain ⟨name, hnm, text, ht, rest, hr, hb⟩ := hb
    cases hb
    have hc : Scans [0x3A] depth := scans_of_all (by decide) depth
    exact ((((scans_comma first depth).append (scans_appendEscaped hnm depth)).append hc).append
      (h m mem_cons_self text ht)).append
        (ih (fun n hn => h n (mem_cons_of_mem m hn)) hr)

variable {v : Json Bytes}

/-- **The scan of a written value** comes back to its depth. -/
theorem scans_appendValue
    (hpl : ∀ bits text, appendFloat bits = .ok text → ∀ b ∈ text, isNumberByte b = true)
    (depth : ℕ) (hdp : WithinDepth v (depth + 1)) (h : appendValue appendFloat v = .ok text) :
    Scans text depth := by
  induction v using Json.ind generalizing depth text with
  | null =>
    cases h
    exact scans_of_all (by decide) depth
  | bool b =>
    cases h
    cases b <;> exact scans_of_all (by decide) depth
  | uint n =>
    cases h
    exact scans_decimalText _ depth
  | sint n =>
    cases h
    split
    · exact scans_decimalText _ depth
    · exact (scans_of_all (by decide) depth).append (scans_decimalText _ depth)
  | real bits =>
    exact scans_plain (fun b hb => isPlainByte_of_isNumberByte (hpl bits text h b hb)) depth
  | str s => exact scans_appendEscaped h depth
  | arr items ih =>
    rw [appendValue] at h
    obtain ⟨body, hbd, h⟩ := bind_eq_ok.mp h
    cases h
    obtain ⟨hdp, his⟩ := hdp
    have his := (withinDepthItems_iff items _).mp his
    exact scans_enclosed (.inr rfl) (.inr rfl) hdp
      (scans_appendItems (fun v hv text h => ih v hv _ (his v hv) h) hbd)
  | obj members ih =>
    rw [appendValue] at h
    obtain ⟨-, body, hbd, rfl⟩ := appendObject_eq_ok h
    obtain ⟨hdp, hmbr⟩ := hdp
    have hmbr := (withinDepthMembers_iff members _).mp hmbr
    have hp := sortMembers_perm members
    exact scans_enclosed (.inl rfl) (.inl rfl) hdp (scans_appendFields (fun m hm text h =>
        ih m (hp.mem_iff.mp hm) _ (hmbr m (hp.mem_iff.mp hm)) h) hbd)

/-! ## Size -/

theorem length_decimalText_le {n : ℕ} (h : n < 10 ^ 20) : (decimalText n).length ≤ 20 := by
  unfold decimalText
  split
  · decide
  · rw [length_map, length_reverse]
    exact (Nat.digits_length_le_iff (by norm_num) n).mpr h

theorem length_escapeByte_le : (escapeByte b).length ≤ 1 + escapeCost b := by
  have ha : ∀ b : BitVec 8, (escapeByte (ofBitVec b)).length ≤ 1 + escapeCost (ofBitVec b) := by
    decide +kernel
  exact ha b.toBitVec

theorem length_appendEscaped_le (h : appendEscaped value = .ok text) :
    text.length ≤ stringSize value := by
  obtain ⟨-, rfl⟩ := appendEscaped_eq_ok h
  have hbd : ∀ value : Bytes,
      (value.flatMap escapeByte).length ≤ value.length + (value.map escapeCost).sum := by
    intro value
    induction value with
    | nil => exact le_rfl
    | cons b value ih =>
      have hb := length_escapeByte_le b
      rw [flatMap_cons, length_append, length_cons, map_cons, sum_cons]
      omega
  have := hbd value
  unfold stringSize
  simp only [length_append, length_cons, length_nil]
  omega

theorem length_appendItems_le
    (h : ∀ v ∈ items, ∀ text, appendValue appendFloat v = .ok text → text.length ≤ valueSize v)
    (hb : appendItems appendFloat items first = .ok body) :
    body.length ≤ itemsSize items first := by
  induction items generalizing first body with
  | nil =>
    cases hb
    exact le_rfl
  | cons item items ih =>
    rw [appendItems] at hb
    simp only [bind_eq_ok] at hb
    obtain ⟨text, ht, rest, hr, hb⟩ := hb
    cases hb
    have hi := h item mem_cons_self text ht
    have hr := ih (fun v hv => h v (mem_cons_of_mem item hv)) hr
    rw [itemsSize]
    cases first <;> simp only [length_append, length_cons, length_nil, if_true,
      false_eq_true, if_false] <;> omega

/-- The texts of members are no longer than their sizes. -/
theorem length_appendFields_le
    (h : ∀ m ∈ members, ∀ text, appendValue appendFloat m.2 = .ok text →
      text.length ≤ valueSize m.2)
    (hb : appendFields (members.map fun m => (m.1, appendValue appendFloat m.2)) first = .ok body) :
    body.length ≤ membersSize members first := by
  induction members generalizing first body with
  | nil =>
    cases hb
    exact le_rfl
  | cons m members ih =>
    rw [map_cons, appendFields] at hb
    simp only [bind_eq_ok] at hb
    obtain ⟨name, hnm, text, ht, rest, hr, hb⟩ := hb
    cases hb
    have hnm := length_appendEscaped_le hnm
    have hi := h m mem_cons_self text ht
    have hr := ih (fun n hn => h n (mem_cons_of_mem m hn)) hr
    rw [membersSize]
    cases first <;> simp only [length_append, length_cons, length_nil, if_true,
      false_eq_true, if_false] <;> omega

/-- **A text is no longer than its value is charged with.** -/
theorem length_appendValue_le (hs : ∀ bits text, appendFloat bits = .ok text → text.length ≤ 32)
    (h : appendValue appendFloat v = .ok text) : text.length ≤ valueSize v := by
  induction v using Json.ind generalizing text with
  | null =>
    cases h
    decide
  | bool b =>
    cases h
    cases b <;> decide
  | uint n =>
    cases h
    have hn : n.toNat < 10 ^ 20 := lt_of_lt_of_le n.toNat_lt (by norm_num)
    have := length_decimalText_le hn
    show _ ≤ 32
    omega
  | sint n =>
    cases h
    have hlow := n.le_toInt
    have hh := n.toInt_lt
    show _ ≤ 32
    split
    · have := length_decimalText_le (n := n.toInt.toNat) (by omega)
      omega
    · have := length_decimalText_le (n := n.toInt.natAbs) (by omega)
      rw [length_append, length_singleton]
      omega
  | real bits => exact hs bits text h
  | str s => exact length_appendEscaped_le h
  | arr items ih =>
    rw [appendValue] at h
    obtain ⟨body, hb, h⟩ := bind_eq_ok.mp h
    cases h
    have := length_appendItems_le (fun v hv text h => ih v hv h) hb
    rw [valueSize]
    simp only [length_append, length_cons, length_nil]
    omega
  | obj members ih =>
    rw [appendValue] at h
    obtain ⟨-, body, hb, rfl⟩ := appendObject_eq_ok h
    have hp := sortMembers_perm members
    have := length_appendFields_le (fun m hm text h => ih m (hp.mem_iff.mp hm) h) hb
    have hsm : membersSize (sortMembers members) true = membersSize members true := by
      rw [membersSize_eq_sum, membersSize_eq_sum, (hp.map _).sum_eq, hp.length_eq]
    rw [valueSize]
    simp only [length_append, length_cons, length_nil]
    omega

/-! ## Reading back -/

variable (hformat : Format appendFloat readFloat parseText)
include hformat

/-- **A canonical text is read back** as the canonical value. -/
theorem parseJsonStrict_canonicalJsonBytes {bytes : Bytes}
    (h : canonicalJsonBytes appendFloat v = .ok bytes) :
    parseJsonStrict appendFloat parseText bytes = .ok (canonical readFloat v) := by
  obtain ⟨⟨hdp, hsz⟩, happ⟩ := canonicalJsonBytes_eq_ok.mp h
  have hl := length_appendValue_le hformat.short happ
  have hs := scans_appendValue hformat.plain 0 hdp happ []
  rw [append_nil] at hs
  have hlm : validateJsonTextLimits bytes = .ok () := by
    unfold validateJsonTextLimits
    rw [if_neg (by omega), hs]
    rfl
  have hnd : (canonical readFloat v).NoDuplicates :=
    ((noDuplicates_of_appendValue happ).mapReal hformat.number).normalize
  have hbs := (canonicalJsonBytes_canonical hformat).mpr h
  unfold parseJsonStrict
  rw [hlm, hformat.parsed v bytes h]
  show (validateStrictTree _ >>= _) = _
  rw [(validateStrictTree_eq_ok _).mpr hnd]
  show (canonicalJsonBytes _ _ >>= _) = _
  rw [hbs]
  rfl

end NeoGraph.CanonicalJson
