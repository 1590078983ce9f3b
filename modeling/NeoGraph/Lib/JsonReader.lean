import NeoGraph.Lib.Ascii
import NeoGraph.Lib.Json

/-!
# Reading JSON text

A reader of RFC 8259 texts, for the values whose numbers are integers of 64
bits: a text with a fraction, an exponent or a larger integer is outside of
what it decides and gives `none`. Everything else is the whole grammar –
white space around every token, all escapes with their surrogate pairs, and
strings that must be well-formed UTF-8 (`Utf8.charLength`).

Reading recurses on a fuel that bounds the number of tokens; `read` starts
with the length of the text, which is always enough.
-/

namespace NeoGraph

/-! ## UTF-8 -/

namespace Utf8

/-- A continuation byte. -/
def isContinuation (b : UInt8) : Bool := 0x80 ≤ b && b ≤ 0xBF

/-- The least second byte after a first one. -/
def secondLow (a : UInt8) : UInt8 := if a = 0xE0 then 0xA0 else if a = 0xF0 then 0x90 else 0x80

/-- The greatest second byte after a first one. -/
def secondHigh (a : UInt8) : UInt8 := if a = 0xED then 0x9F else if a = 0xF4 then 0x8F else 0xBF

/-- The length of the well-formed character at the head of a byte string,
by the table of the Unicode standard. -/
def charLength : Bytes → Option ℕ
  | [] => none
  | a :: rest =>
    if a < 0x80 then some 1
    else match rest with
      | [] => none
      | b :: rest =>
        if 0xC2 ≤ a && a ≤ 0xDF then if isContinuation b then some 2 else none
        else match rest with
          | [] => none
          | c :: rest =>
            if 0xE0 ≤ a && a ≤ 0xEF then
              if secondLow a ≤ b && b ≤ secondHigh a && isContinuation c then some 3 else none
            else match rest with
              | [] => none
              | d :: _ =>
                if 0xF0 ≤ a && a ≤ 0xF4 then
                  if secondLow a ≤ b && b ≤ secondHigh a && isContinuation c
                    && isContinuation d then some 4 else none
                else none

/-- A byte string of well-formed characters. -/
inductive WellFormed : Bytes → Prop
  | nil : WellFormed []
  | char {value : Bytes} {n : ℕ} : charLength value = some n → WellFormed (value.drop n) →
      WellFormed value

variable {a b c : UInt8}

theorem charLength_two (ha : 0xC2 ≤ a ∧ a ≤ 0xDF) (hb : isContinuation b = true)
    (rest : Bytes) : charLength (a :: b :: rest) = some 2 := by
  have hasc : ¬a < 0x80 := UInt8.not_lt.mpr (UInt8.le_trans (by decide) ha.1)
  unfold charLength
  dsimp only
  rw [if_neg hasc, if_pos (by simpa using ha), if_pos hb]

theorem charLength_three (ha : 0xE0 ≤ a ∧ a ≤ 0xEF) (hb : secondLow a ≤ b ∧ b ≤ secondHigh a)
    (hc : isContinuation c = true) (rest : Bytes) : charLength (a :: b :: c :: rest) = some 3 := by
  have hasc : ¬a < 0x80 := UInt8.not_lt.mpr (UInt8.le_trans (by decide) ha.1)
  have htwo : ¬a ≤ 0xDF := UInt8.not_le.mpr (UInt8.lt_of_lt_of_le (by decide) ha.1)
  unfold charLength
  dsimp only
  rw [if_neg hasc, if_neg (by simp [htwo]), if_pos (by simpa using ha), if_pos (by simp [hb, hc])]

theorem charLength_four {d : UInt8} (ha : 0xF0 ≤ a ∧ a ≤ 0xF4)
    (hb : secondLow a ≤ b ∧ b ≤ secondHigh a) (hc : isContinuation c = true)
    (hd : isContinuation d = true) (rest : Bytes) :
    charLength (a :: b :: c :: d :: rest) = some 4 := by
  have hasc : ¬a < 0x80 := UInt8.not_lt.mpr (UInt8.le_trans (by decide) ha.1)
  have htwo : ¬a ≤ 0xDF := UInt8.not_le.mpr (UInt8.lt_of_lt_of_le (by decide) ha.1)
  have h3 : ¬a ≤ 0xEF := UInt8.not_le.mpr (UInt8.lt_of_lt_of_le (by decide) ha.1)
  unfold charLength
  dsimp only
  rw [if_neg hasc, if_neg (by simp [htwo]), if_neg (by simp [h3]),
    if_pos (by simpa using ha), if_pos (by simp [hb, hc, hd])]

/-- What the table recognises, by the number of bytes. -/
theorem charLength_eq_some {value : Bytes} {n : ℕ} (h : charLength value = some n) :
    (∃ a rest, value = a :: rest ∧ a < 0x80 ∧ n = 1)
      ∨ (∃ a b rest, value = a :: b :: rest ∧ (0xC2 ≤ a ∧ a ≤ 0xDF)
        ∧ isContinuation b = true ∧ n = 2)
      ∨ (∃ a b c rest, value = a :: b :: c :: rest ∧ (0xE0 ≤ a ∧ a ≤ 0xEF)
        ∧ (secondLow a ≤ b ∧ b ≤ secondHigh a) ∧ isContinuation c = true ∧ n = 3)
      ∨ ∃ a b c d rest, value = a :: b :: c :: d :: rest ∧ (0xF0 ≤ a ∧ a ≤ 0xF4)
        ∧ (secondLow a ≤ b ∧ b ≤ secondHigh a) ∧ isContinuation c = true
        ∧ isContinuation d = true ∧ n = 4 := by
  unfold charLength at h
  split at h
  · cases h
  rename_i a rest
  split at h
  · rename_i hasc
    cases h
    exact .inl ⟨a, rest, rfl, hasc, rfl⟩
  split at h
  · cases h
  rename_i b rest
  split at h
  · rename_i htwo
    simp only [Bool.and_eq_true, decide_eq_true_eq] at htwo
    split at h
    · rename_i hb
      cases h
      exact .inr (.inl ⟨a, b, rest, rfl, htwo, hb, rfl⟩)
    · cases h
  split at h
  · cases h
  rename_i c rest
  split at h
  · rename_i h3
    simp only [Bool.and_eq_true, decide_eq_true_eq] at h3
    split at h
    · rename_i hbc
      simp only [Bool.and_eq_true, decide_eq_true_eq] at hbc
      cases h
      exact .inr (.inr (.inl ⟨a, b, c, rest, rfl, h3, hbc.1, hbc.2, rfl⟩))
    · cases h
  split at h
  · cases h
  rename_i d rest
  split at h
  · rename_i hf
    simp only [Bool.and_eq_true, decide_eq_true_eq] at hf
    split at h
    · rename_i hbcd
      simp only [Bool.and_eq_true, decide_eq_true_eq] at hbcd
      cases h
      exact .inr (.inr (.inr ⟨a, b, c, d, rest, rfl, hf, hbcd.1.1, hbcd.1.2, hbcd.2, rfl⟩))
    · cases h
  · cases h

/-- A well-formed character is a single byte of ASCII, or several bytes
outside of it that are recognised wherever they stand. -/
theorem charLength_cases {value : Bytes} {n : ℕ} (h : charLength value = some n) :
    (∃ a rest, value = a :: rest ∧ a < 0x80 ∧ n = 1)
      ∨ ∃ char rest, value = char ++ rest ∧ n = char.length ∧ char ≠ []
        ∧ (∀ b ∈ char, 0x80 ≤ b) ∧ ∀ rest, charLength (char ++ rest) = some n := by
  have hcont : ∀ b, isContinuation b = true → 0x80 ≤ b := by
    intro b hb
    unfold isContinuation at hb
    rw [Bool.and_eq_true, decide_eq_true_iff] at hb
    exact hb.1
  have hsec : ∀ a, 0x80 ≤ secondLow a := by
    intro a
    unfold secondLow
    split
    · decide
    · split <;> decide
  obtain ⟨a, rest, rfl, ha, rfl⟩ | ⟨a, b, rest, rfl, ha, hb, rfl⟩
    | ⟨a, b, c, rest, rfl, ha, hb, hc, rfl⟩ | ⟨a, b, c, d, rest, rfl, ha, hb, hc, hd, rfl⟩ :=
    charLength_eq_some h
  · exact .inl ⟨a, rest, rfl, ha, rfl⟩
  · refine .inr ⟨[a, b], rest, rfl, rfl, List.cons_ne_nil _ _, ?_, charLength_two ha hb⟩
    have hl : 0x80 ≤ a := UInt8.le_trans (by decide) ha.1
    simp [hl, hcont b hb]
  · refine .inr ⟨[a, b, c], rest, rfl, rfl, List.cons_ne_nil _ _, ?_, charLength_three ha hb hc⟩
    have hl : 0x80 ≤ a := UInt8.le_trans (by decide) ha.1
    simp [hl, UInt8.le_trans (hsec a) hb.1, hcont c hc]
  · refine .inr ⟨[a, b, c, d], rest, rfl, rfl, List.cons_ne_nil _ _, ?_,
      charLength_four ha hb hc hd⟩
    have hl : 0x80 ≤ a := UInt8.le_trans (by decide) ha.1
    simp [hl, UInt8.le_trans (hsec a) hb.1, hcont c hc, hcont d hd]

/-- The bytes of a code point. -/
def encode (code : ℕ) : Bytes :=
  if code < 0x80 then [code.toUInt8]
  else if code < 0x800 then [(0xC0 + code / 64).toUInt8, (0x80 + code % 64).toUInt8]
  else if code < 0x10000 then
    [(0xE0 + code / 4096).toUInt8, (0x80 + code / 64 % 64).toUInt8, (0x80 + code % 64).toUInt8]
  else
    [(0xF0 + code / 262144).toUInt8, (0x80 + code / 4096 % 64).toUInt8,
      (0x80 + code / 64 % 64).toUInt8, (0x80 + code % 64).toUInt8]

end Utf8

namespace JsonReader

/-- White space. -/
def isSpace (b : UInt8) : Bool := b = 0x20 || b = 0x09 || b = 0x0A || b = 0x0D

/-- The text after white space. -/
def skipSpace (text : Bytes) : Bytes := text.dropWhile isSpace

/-! ## Numbers -/

/-- A text of digits that is an integer: no leading zero. -/
def isInteger : Bytes → Bool
  | [] => false
  | [_] => true
  | b :: _ => b ≠ 48

/-- A byte that makes a number other than an integer of the digits before
it. -/
def continuesNumber (b : UInt8) : Bool := b = 0x2E || b = 0x65 || b = 0x45

/-- An integer, unsigned when there is no minus. -/
def readNumber (text : Bytes) : Option (Json Bytes × Bytes) :=
  let negative := text.head? = some 0x2D
  let body := if negative then text.drop 1 else text
  let digits := body.takeWhile isDigit
  let rest := body.dropWhile isDigit
  if !isInteger digits || rest.head?.any continuesNumber then none
  else if negative then
    if decimal digits ≤ 2 ^ 63 then some (.sint (Int64.ofInt (-(decimal digits : ℤ))), rest)
    else none
  else if decimal digits < 2 ^ 64 then some (.uint (UInt64.ofNat (decimal digits)), rest)
  else none

/-! ## Strings -/

/-- The value of a hexadecimal digit. -/
def hexValue (b : UInt8) : Option ℕ :=
  if isDigit b then some (b.toNat - 48)
  else if 0x61 ≤ b && b ≤ 0x66 then some (b.toNat - 87)
  else if 0x41 ≤ b && b ≤ 0x46 then some (b.toNat - 55)
  else none

/-- Four hexadecimal digits. -/
def readHex : Bytes → Option (ℕ × Bytes)
  | a :: b :: c :: d :: rest =>
    match hexValue a, hexValue b, hexValue c, hexValue d with
    | some a, some b, some c, some d => some (((a * 16 + b) * 16 + c) * 16 + d, rest)
    | _, _, _, _ => none
  | _ => none

/-- The character of a `\u` escape, after the `u`. A high surrogate must be
followed by the escape of a low one. -/
def readUnicode (text : Bytes) : Option (Bytes × Bytes) :=
  match readHex text with
  | none => none
  | some (code, rest) =>
    if 0xD800 ≤ code && code < 0xDC00 then
      match rest with
      | 0x5C :: 0x75 :: rest =>
        match readHex rest with
        | some (low, rest) =>
          if 0xDC00 ≤ low && low < 0xE000 then
            some (Utf8.encode (0x10000 + (code - 0xD800) * 0x400 + (low - 0xDC00)), rest)
          else none
        | none => none
      | _ => none
    else if 0xDC00 ≤ code && code < 0xE000 then none
    else some (Utf8.encode code, rest)

/-- The character of an escape, after the backslash. -/
def readEscape : Bytes → Option (Bytes × Bytes)
  | [] => none
  | b :: rest =>
    if b = 0x22 || b = 0x5C || b = 0x2F then some ([b], rest)
    else if b = 0x62 then some ([0x08], rest)
    else if b = 0x66 then some ([0x0C], rest)
    else if b = 0x6E then some ([0x0A], rest)
    else if b = 0x72 then some ([0x0D], rest)
    else if b = 0x74 then some ([0x09], rest)
    else if b = 0x75 then readUnicode rest
    else none

/-- A character inside a string, or an escape of one. -/
def readChar (text : Bytes) : Option (Bytes × Bytes) :=
  match text with
  | [] => none
  | b :: rest =>
    if b < 0x20 || b = 0x22 then none
    else if b = 0x5C then readEscape rest
    else (Utf8.charLength text).map fun n => (text.take n, text.drop n)

/-- The characters of a string up to its closing quote. -/
def readChars : ℕ → Bytes → Option (Bytes × Bytes)
  | 0, _ => none
  | fuel + 1, text =>
    if text.head? = some 0x22 then some ([], text.drop 1)
    else do
      let (char, text) ← readChar text
      let (chars, text) ← readChars fuel text
      some (char ++ chars, text)

/-- A string, with its quotes. -/
def readString (text : Bytes) : Option (Bytes × Bytes) :=
  if text.head? = some 0x22 then readChars text.length (text.drop 1) else none

/-! ## Values -/

/-- A word such as `null`. -/
def readWord (word : String) (value : Json Bytes) (text : Bytes) :
    Option (Json Bytes × Bytes) :=
  if (ascii word).isPrefixOf text then some (value, text.drop (ascii word).length) else none

mutual

/-- A value. -/
def readValue : ℕ → Bytes → Option (Json Bytes × Bytes)
  | 0, _ => none
  | fuel + 1, text =>
    match (skipSpace text).head? with
    | some 0x6E => readWord "null" .null (skipSpace text)
    | some 0x74 => readWord "true" (.bool true) (skipSpace text)
    | some 0x66 => readWord "false" (.bool false) (skipSpace text)
    | some 0x22 => (readString (skipSpace text)).map fun (s, rest) => (.str s, rest)
    | some 0x5B =>
      let text := skipSpace ((skipSpace text).drop 1)
      if text.head? = some 0x5D then some (.arr [], text.drop 1)
      else (readItems fuel text).map fun (items, rest) => (.arr items, rest)
    | some 0x7B =>
      let text := skipSpace ((skipSpace text).drop 1)
      if text.head? = some 0x7D then some (.obj [], text.drop 1)
      else (readMembers fuel text).map fun (members, rest) => (.obj members, rest)
    | _ => readNumber (skipSpace text)

/-- The items of an array, up to its end. -/
def readItems : ℕ → Bytes → Option (List (Json Bytes) × Bytes)
  | 0, _ => none
  | fuel + 1, text => do
    let (item, text) ← readValue fuel text
    let text := skipSpace text
    if text.head? = some 0x5D then some ([item], text.drop 1)
    else if text.head? = some 0x2C then do
      let (items, text) ← readItems fuel (text.drop 1)
      some (item :: items, text)
    else none

/-- The members of an object, up to its end. -/
def readMembers : ℕ → Bytes → Option (List (Bytes × Json Bytes) × Bytes)
  | 0, _ => none
  | fuel + 1, text => do
    let (name, text) ← readString (skipSpace text)
    let text := skipSpace text
    if text.head? = some 0x3A then do
      let (item, text) ← readValue fuel (text.drop 1)
      let text := skipSpace text
      if text.head? = some 0x7D then some ([(name, item)], text.drop 1)
      else if text.head? = some 0x2C then do
        let (members, text) ← readMembers fuel (text.drop 1)
        some ((name, item) :: members, text)
      else none
    else none

end

/-- **The value of a JSON text.** -/
def read (text : Bytes) : Option (Json Bytes) :=
  match readValue (text.length + 1) text with
  | some (value, rest) => if skipSpace rest = [] then some value else none
  | none => none

end JsonReader

end NeoGraph
