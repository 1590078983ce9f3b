import Mathlib

/-!
# ASCII texts and decimal numbers

Literal texts as bytes, and decimal numbers written and read back:
`decimal_decimalText`.
-/

namespace NeoGraph

open List

abbrev Bytes := List UInt8

/-- The bytes of an ASCII text. -/
def ascii (text : String) : List UInt8 := text.toList.map fun c => c.toNat.toUInt8

/-- Bytes shown in an error text. -/
def bytesText (bytes : Bytes) : String :=
  String.ofList (bytes.map fun b => Char.ofNat b.toNat)

/-- A decimal digit. -/
def isDigit (b : UInt8) : Bool := 48 ≤ b && b ≤ 57

/-- The number a text of decimal digits stands for. -/
def decimal (digits : List UInt8) : ℕ :=
  digits.foldl (fun n b => 10 * n + (b.toNat - 48)) 0

/-- The byte of a digit. -/
def digitByte (d : ℕ) : UInt8 := (48 + d).toUInt8

/-- A number in decimal, without leading zeros. -/
def decimalText (n : ℕ) : List UInt8 :=
  if n = 0 then [48] else (Nat.digits 10 n).reverse.map digitByte

variable {d : ℕ}

theorem toNat_digitByte (h : d < 10) : (digitByte d).toNat = 48 + d := by
  show (48 + d) % 256 = 48 + d
  exact Nat.mod_eq_of_lt (by omega)

theorem isDigit_digitByte (h : d < 10) : isDigit (digitByte d) = true := by
  unfold isDigit
  rw [Bool.and_eq_true, decide_eq_true_iff, decide_eq_true_iff, UInt8.le_iff_toNat_le,
    UInt8.le_iff_toNat_le, toNat_digitByte h]
  exact ⟨Nat.le_add_right _ _, Nat.add_le_add_left (Nat.le_of_lt_succ h) 48⟩

theorem isDigit_of_mem_decimalText {n : ℕ} {b : UInt8} (h : b ∈ decimalText n) :
    isDigit b = true := by
  unfold decimalText at h
  split at h
  · rw [mem_singleton.mp h]
    rfl
  · obtain ⟨d, hd, rfl⟩ := mem_map.mp h
    exact isDigit_digitByte (Nat.digits_lt_base (by norm_num) (mem_reverse.mp hd))

/-- The number of some digits. -/
theorem decimal_reverse_map {digits : List ℕ} (h : ∀ d ∈ digits, d < 10) :
    decimal (digits.reverse.map digitByte) = Nat.ofDigits 10 digits := by
  induction digits with
  | nil => rfl
  | cons d digits ih =>
    have hd : (digitByte d).toNat - 48 = d := by
      rw [toNat_digitByte (h d mem_cons_self), Nat.add_sub_cancel_left]
    rw [reverse_cons, map_append, Nat.ofDigits_cons,
      ← ih fun e he => h e (mem_cons_of_mem _ he)]
    unfold decimal
    rw [foldl_append]
    show 10 * _ + ((digitByte d).toNat - 48) = _
    rw [hd]
    simp [Nat.add_comm]

/-- **A number is read back from its decimal text.** -/
theorem decimal_decimalText (n : ℕ) : decimal (decimalText n) = n := by
  unfold decimalText
  split_ifs with hn
  · rw [hn]
    rfl
  · rw [decimal_reverse_map fun d hd => Nat.digits_lt_base (by norm_num) hd, Nat.ofDigits_digits]

/-- A decimal text has one digit or does not start with a zero. -/
theorem decimalText_head (n : ℕ) : ∃ b rest, decimalText n = b :: rest ∧ (rest = [] ∨ b ≠ 48) := by
  unfold decimalText
  split_ifs with hn
  · exact ⟨48, [], rfl, .inl rfl⟩
  have hne : Nat.digits 10 n ≠ [] := Nat.digits_ne_nil_iff_ne_zero.mpr hn
  refine ⟨digitByte ((Nat.digits 10 n).getLast hne),
    ((Nat.digits 10 n).dropLast.reverse).map digitByte, ?_, .inr ?_⟩
  · rw [← map_cons, ← reverse_concat, dropLast_append_getLast hne]
  · intro hz
    have hl := Nat.digits_lt_base (b := 10) (by norm_num) (getLast_mem hne)
    have hnat := congrArg UInt8.toNat hz
    rw [toNat_digitByte hl] at hnat
    exact Nat.getLast_digit_ne_zero 10 hn (Nat.add_left_cancel hnat)

end NeoGraph
