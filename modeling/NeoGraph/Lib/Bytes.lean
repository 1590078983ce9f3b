import NeoGraph.Lib.Ascii

/-!
# Byte strings

Byte strings in the order of their bytes, and strings written with their
length in front: a text that starts with such a string is taken apart in one
way only (`encodeComponent_append_inj`).
-/

namespace NeoGraph

open List

namespace ByteOrder

scoped instance linearOrderUInt8 : LinearOrder UInt8 where
  le_refl := UInt8.le_refl
  le_trans _ _ _ := UInt8.le_trans
  le_antisymm _ _ := UInt8.le_antisymm
  le_total := UInt8.le_total
  lt_iff_le_not_ge a b := by
    rw [UInt8.not_le]
    exact ⟨fun h => ⟨UInt8.le_of_lt h, h⟩, fun h => h.2⟩
  toDecidableLE := inferInstance

end ByteOrder

/-- A string with its length in front. -/
def encodeComponent (value : Bytes) : Bytes := decimalText value.length ++ 58 :: value

variable {s t : Bytes}

/-- A number is read up to the colon behind it. -/
theorem decimalText_append_inj {m n : ℕ}
    (h : decimalText m ++ 58 :: s = decimalText n ++ 58 :: t) : m = n ∧ s = t := by
  have htk : ∀ (n : ℕ) (s : Bytes),
      (decimalText n ++ 58 :: s).takeWhile isDigit = decimalText n := by
    intro n s
    rw [takeWhile_append_of_pos fun b hb => isDigit_of_mem_decimalText hb]
    exact append_nil _
  have hnumbers : decimalText m = decimalText n := by
    rw [← htk m s, h, htk]
  rw [hnumbers] at h
  refine ⟨?_, cons.inj (append_cancel_left h) |>.2⟩
  rw [← decimal_decimalText m, hnumbers, decimal_decimalText]

/-- **A string with its length in front** can be told from what follows. -/
theorem encodeComponent_append_inj {a b : Bytes}
    (h : encodeComponent a ++ s = encodeComponent b ++ t) : a = b ∧ s = t := by
  unfold encodeComponent at h
  simp only [append_assoc, cons_append] at h
  obtain ⟨hl, hr⟩ := decimalText_append_inj h
  exact append_inj hr hl

theorem encodeComponent_injective : Function.Injective encodeComponent := by
  intro a b h
  refine (encodeComponent_append_inj (s := []) (t := []) ?_).1
  rw [h]

/-- A list of strings, each with its length in front, is known from its
length. -/
theorem flatMap_encodeComponent_append_inj {l l' : List Bytes} (hl : l.length = l'.length)
    (h : l.flatMap encodeComponent ++ s = l'.flatMap encodeComponent ++ t) : l = l' ∧ s = t := by
  induction l generalizing l' with
  | nil =>
    cases l' with
    | nil => exact ⟨rfl, h⟩
    | cons b l' => cases hl
  | cons a l ih =>
    cases l' with
    | nil => cases hl
    | cons b l' =>
      simp only [flatMap_cons, append_assoc] at h
      obtain ⟨rfl, hr⟩ := encodeComponent_append_inj h
      obtain ⟨rfl, hst⟩ := ih (Nat.succ.inj hl) hr
      exact ⟨rfl, hst⟩

end NeoGraph
