import NeoGraph.CanonicalJson.Strings

/-!
# Values are read back

What is written for a value, followed by anything that does not continue a
number, is read as the value's normal form (`ReadsAs`), and the normal form
is written in the same way. Both are proved together over the value
(`appendValue_spec`), and with them that a value that can be written has no
duplicate names.
-/

namespace NeoGraph.CanonicalJson

open JsonReader List Json Bool Nat

/-! ## Numbers -/

/-- A text that does not continue a number. -/
def EndsNumber (rest : Bytes) : Prop :=
  ∀ b, rest.head? = some b → isDigit b = false ∧ continuesNumber b = false

variable {rest : Bytes}

theorem takeWhile_isDigit_decimalText (n : ℕ) (h : EndsNumber rest) :
    (decimalText n ++ rest).takeWhile isDigit = decimalText n
      ∧ (decimalText n ++ rest).dropWhile isDigit = rest := by
  have hdig : ∀ b ∈ decimalText n, isDigit b = true := fun b hb => isDigit_of_mem_decimalText hb
  rw [takeWhile_append_of_pos hdig, dropWhile_append_of_pos hdig]
  cases rest with
  | nil => exact ⟨append_nil _, rfl⟩
  | cons b rest =>
    have hb := (h b rfl).1
    rw [takeWhile_cons_of_neg (by simp [hb]), dropWhile_cons_of_neg (by simp [hb]), append_nil]
    exact ⟨rfl, rfl⟩

theorem isInteger_decimalText (n : ℕ) : isInteger (decimalText n) = true := by
  obtain ⟨b, rest, heq, hhd⟩ := decimalText_head n
  rw [heq]
  cases rest with
  | nil => rfl
  | cons c rest =>
    unfold isInteger
    simpa using hhd

theorem not_continuesNumber (h : EndsNumber rest) : rest.head?.any continuesNumber = false := by
  cases rest with
  | nil => rfl
  | cons b rest => exact (h b rfl).2

/-- The first digit is not a minus. -/
theorem head?_decimalText (n : ℕ) (rest : Bytes) :
    ∃ b, (decimalText n ++ rest).head? = some b ∧ isDigit b = true := by
  obtain ⟨b, tail, heq, -⟩ := decimalText_head n
  refine ⟨b, by rw [heq]; rfl, isDigit_of_mem_decimalText (n := n) ?_⟩
  rw [heq]
  exact mem_cons_self

theorem readNumber_uint (n : UInt64) (h : EndsNumber rest) :
    readNumber (decimalText n.toNat ++ rest) = some (.uint n, rest) := by
  obtain ⟨htk, hdr⟩ := takeWhile_isDigit_decimalText n.toNat h
  obtain ⟨b, hhd, hb⟩ := head?_decimalText n.toNat rest
  have hminus : ¬(decimalText n.toNat ++ rest).head? = some 0x2D := by
    rw [hhd]
    rintro ⟨⟩
    exact absurd hb (by decide)
  unfold readNumber
  simp only [hminus, false_eq_true, if_false, htk, hdr,
    isInteger_decimalText, not_continuesNumber h, decimal_decimalText, Bool.not_true,
    Bool.or_self]
  rw [if_pos n.toNat_lt]
  simp

theorem readNumber_sint {n : Int64} (hn : ¬0 ≤ n) (h : EndsNumber rest) :
    readNumber ([0x2D] ++ decimalText n.toInt.natAbs ++ rest) = some (.sint n, rest) := by
  obtain ⟨htk, hdr⟩ := takeWhile_isDigit_decimalText n.toInt.natAbs h
  have hneg : n.toInt < 0 := by
    rw [Int64.le_iff_toInt_le] at hn
    simpa using hn
  have hlow : -2 ^ 63 ≤ n.toInt := n.le_toInt
  unfold readNumber
  have hhd : ([0x2D] ++ decimalText n.toInt.natAbs ++ rest).head? = some 0x2D := rfl
  have hb : ([0x2D] ++ decimalText n.toInt.natAbs ++ rest).drop 1
      = decimalText n.toInt.natAbs ++ rest := rfl
  simp only [hhd, hb, if_true, htk, hdr, isInteger_decimalText,
    not_continuesNumber h, decimal_decimalText, Bool.not_true, Bool.or_self,
    Bool.false_eq_true, if_false]
  rw [if_pos (by omega), show -(n.toInt.natAbs : ℤ) = n.toInt by omega, Int64.ofInt_toInt]

/-! ## Tokens -/

/-- The text is read as the value, whatever follows that does not continue
a number. -/
structure ReadsAs (v : Json Bytes) (text : Bytes) : Prop where
  head : ∃ b tail, text = b :: tail ∧ isSpace b = false ∧ b ≠ 0x5D
  read : ∀ fuel rest, text.length < fuel → EndsNumber rest →
    readValue fuel (text ++ rest) = some (v, rest)

variable {b : UInt8}

theorem skipSpace_cons (hb : isSpace b = false) (tail : Bytes) :
    skipSpace (b :: tail) = b :: tail := by
  unfold skipSpace
  rw [dropWhile_cons_of_neg (by simp [hb])]

theorem endsNumber_cons (hb : isDigit b = false ∧ continuesNumber b = false) (rest : Bytes) :
    EndsNumber (b :: rest) := by
  rintro c ⟨⟩
  exact hb

variable {v : Json Bytes} {tail : Bytes}

theorem readsAs_word {word : String} (hw : ascii word = b :: tail)
    (hs : isSpace b = false) (hb : b ≠ 0x5D)
    (hrd : ∀ fuel rest, readValue (fuel + 1) (b :: rest) = readWord word v (b :: rest)) :
    ReadsAs v (ascii word) := by
  refine ⟨⟨b, tail, hw, hs, hb⟩, fun fuel rest hfu _ => ?_⟩
  obtain ⟨fuel, rfl⟩ := exists_eq_succ_of_ne_zero (ne_zero_of_lt hfu)
  have ht : ascii word ++ rest = b :: (tail ++ rest) := by
    rw [hw]
    rfl
  rw [ht, hrd fuel (tail ++ rest), ← ht]
  unfold readWord
  rw [if_pos (List.isPrefixOf_iff_prefix.mpr (prefix_append _ _)), drop_left]

variable {text : Bytes}

/-- A number is read up to what ends it. -/
theorem readsAs_number (ht : text = b :: tail) (hb : isDigit b = true ∨ b = 0x2D)
    (hrd : ∀ rest, EndsNumber rest → readNumber (text ++ rest) = some (v, rest)) :
    ReadsAs v text := by
  have hhd : ∀ c : UInt8, isDigit c = false → c ≠ 0x2D → b ≠ c := by
    rintro c hdig hminus rfl
    obtain hb | hb := hb
    · exact absurd (hdig.symm.trans hb) false_ne_true
    · exact hminus hb
  have hs : isSpace b = false := by
    unfold isSpace
    simp [hhd 0x20 (by decide) (by decide), hhd 0x09 (by decide) (by decide),
      hhd 0x0A (by decide) (by decide), hhd 0x0D (by decide) (by decide)]
  refine ⟨⟨b, tail, ht, hs, hhd 0x5D (by decide) (by decide)⟩, ?_⟩
  intro fuel rest hfu hr
  obtain ⟨fuel, rfl⟩ := exists_eq_succ_of_ne_zero (ne_zero_of_lt hfu)
  have hsk : skipSpace (text ++ rest) = text ++ rest := by
    rw [ht]
    exact skipSpace_cons hs _
  have hf : (text ++ rest).head? = some b := by
    rw [ht]
    rfl
  unfold readValue
  rw [hsk, hf]
  split
  · rename_i h
    cases h
    exact absurd rfl (hhd 0x6E (by decide) (by decide))
  · rename_i h
    cases h
    exact absurd rfl (hhd 0x74 (by decide) (by decide))
  · rename_i h
    cases h
    exact absurd rfl (hhd 0x66 (by decide) (by decide))
  · rename_i h
    cases h
    exact absurd rfl (hhd 0x22 (by decide) (by decide))
  · rename_i h
    cases h
    exact absurd rfl (hhd 0x5B (by decide) (by decide))
  · rename_i h
    cases h
    exact absurd rfl (hhd 0x7B (by decide) (by decide))
  · exact hrd rest hr

theorem readsAs_str {s : Bytes} (h : appendEscaped s = .ok text) : ReadsAs (.str s) text := by
  have ht : ∃ tail, text = 0x22 :: tail := by
    obtain ⟨-, rfl⟩ := appendEscaped_eq_ok h
    exact ⟨_, rfl⟩
  obtain ⟨tail, ht⟩ := ht
  refine ⟨⟨0x22, tail, ht, by decide, by decide⟩, fun fuel rest hfu _ => ?_⟩
  obtain ⟨fuel, rfl⟩ := exists_eq_succ_of_ne_zero (ne_zero_of_lt hfu)
  have hrd := readString_appendEscaped h rest
  rw [ht] at hrd ⊢
  show (readString (0x22 :: (tail ++ rest))).map _ = _
  rw [show 0x22 :: (tail ++ rest) = 0x22 :: tail ++ rest from rfl, hrd]
  rfl

/-! ## Arrays -/

variable {appendFloat : UInt64 → Except Exn Bytes} {items : List (Json Bytes)}

/-- After the first item a comma is written before each item. -/
theorem appendItems_false_eq_ok (hne : items ≠ [])
    (h : appendItems appendFloat items false = .ok text) :
    ∃ body, appendItems appendFloat items true = .ok body ∧ text = 0x2C :: body := by
  obtain ⟨item, items, rfl⟩ := exists_cons_of_ne_nil hne
  rw [appendItems] at h ⊢
  obtain ⟨first, hf, h⟩ := bind_eq_ok.mp h
  obtain ⟨rest, hr, h⟩ := bind_eq_ok.mp h
  cases h
  refine ⟨first ++ rest, ?_, rfl⟩
  rw [hf, hr]
  rfl

variable {body : Bytes}

/-- The items of an array are read back. -/
theorem readItems_appendItems (hne : items ≠ [])
    (his : ∀ v ∈ items, ∀ text, appendValue appendFloat v = .ok text → ReadsAs v.normalize text)
    (h : appendItems appendFloat items true = .ok body) (fuel : ℕ) (hfu : body.length + 1 < fuel)
    (rest : Bytes) : readItems fuel (body ++ 0x5D :: rest) = some (normalizeItems items, rest) := by
  induction items generalizing body fuel with
  | nil => exact absurd rfl hne
  | cons item items ih =>
    obtain ⟨fuel, rfl⟩ := exists_eq_succ_of_ne_zero (ne_zero_of_lt hfu)
    rw [appendItems] at h
    obtain ⟨first, hf, h⟩ := bind_eq_ok.mp h
    obtain ⟨others, hot, h⟩ := bind_eq_ok.mp h
    cases h
    have hrd := his item mem_cons_self first hf
    obtain ⟨b, tail, hb, -, -⟩ := hrd.head
    have hp : 0 < first.length := by
      rw [hb]
      exact succ_pos _
    rw [if_pos rfl, nil_append, length_append] at hfu
    rw [if_pos rfl, nil_append, append_assoc, readItems]
    by_cases hl : items = []
    · subst hl
      cases hot
      rw [nil_append, hrd.read fuel (0x5D :: rest) (by omega) (endsNumber_cons (by decide) rest)]
      rfl
    · obtain ⟨body, hbd, rfl⟩ := appendItems_false_eq_ok hl hot
      rw [length_cons] at hfu
      rw [cons_append, hrd.read fuel (0x2C :: (body ++ 0x5D :: rest)) (by omega)
        (endsNumber_cons (by decide) _)]
      show (readItems fuel (body ++ 0x5D :: rest) >>= _) = _
      rw [ih hl (fun v hv => his v (mem_cons_of_mem item hv)) hbd fuel (by omega)]
      rfl

theorem readsAs_arr
    (his : ∀ v ∈ items, ∀ text, appendValue appendFloat v = .ok text → ReadsAs v.normalize text)
    (h : appendItems appendFloat items true = .ok body) :
    ReadsAs (.arr (normalizeItems items)) ([0x5B] ++ body ++ [0x5D]) := by
  refine ⟨⟨0x5B, body ++ [0x5D], rfl, by decide, by decide⟩, fun fuel rest hfu _ => ?_⟩
  obtain ⟨fuel, rfl⟩ := exists_eq_succ_of_ne_zero (ne_zero_of_lt hfu)
  have ht : [0x5B] ++ body ++ [0x5D] ++ rest = 0x5B :: (body ++ 0x5D :: rest) := by simp
  rw [ht]
  by_cases hn : items = []
  · subst hn
    cases h
    rfl
  have hhd : ∃ b tail, body = b :: tail ∧ isSpace b = false ∧ b ≠ 0x5D := by
    obtain ⟨item, items, rfl⟩ := exists_cons_of_ne_nil hn
    rw [appendItems] at h
    obtain ⟨first, hf, h⟩ := bind_eq_ok.mp h
    obtain ⟨others, hot, h⟩ := bind_eq_ok.mp h
    cases h
    obtain ⟨b, tail, rfl, hs, hb⟩ := (his item mem_cons_self first hf).head
    exact ⟨b, tail ++ others, rfl, hs, hb⟩
  obtain ⟨b, tail, hb, hs, hc⟩ := hhd
  have hsk : skipSpace (body ++ 0x5D :: rest) = body ++ 0x5D :: rest := by
    rw [hb]
    exact skipSpace_cons hs _
  show (if (skipSpace (body ++ 0x5D :: rest)).head? = some 0x5D then _
    else (readItems fuel (skipSpace (body ++ 0x5D :: rest))).map _) = _
  rw [hsk, if_neg (by rw [hb]; simpa using hc), readItems_appendItems hn his h fuel
    (by simp at hfu; omega)]
  rfl

/-! ## Objects -/

theorem memberTexts_eq_map (members : List (Bytes × Json Bytes)) : memberTexts appendFloat members
      = members.map fun m => (m.1, appendValue appendFloat m.2) := by
  induction members with
  | nil => rfl
  | cons m members ih => rw [memberTexts, ih, map_cons]

/-- Sorted members without equal neighbours have distinct names. -/
theorem nodup_of_not_hasAdjacentEqual {α : Type} {members : List (Bytes × α)}
    (hs : members.Pairwise fun m n => m.1 ≤ n.1) (h : hasAdjacentEqual members = false) :
    (members.map Prod.fst).Nodup := by
  induction members with
  | nil => exact nodup_nil
  | cons m members ih =>
    rw [pairwise_cons] at hs
    cases members with
    | nil => simp
    | cons n members =>
      rw [hasAdjacentEqual, or_eq_false_iff, decide_eq_false_iff_not] at h
      rw [map_cons, nodup_cons]
      refine ⟨?_, ih hs.2 h.2⟩
      -- a later name that equals the first one would equal the second one too
      intro hm
      obtain ⟨n', hn', heq⟩ := mem_map.mp hm
      have hmn : m.1 ≤ n.1 := hs.1 n mem_cons_self
      have hnm : n.1 ≤ m.1 := by
        obtain rfl | hn' := mem_cons.mp hn'
        · exact heq ▸ Std.le_refl _
        · rw [← heq]
          exact (pairwise_cons.mp hs.2).1 n' hn'
      exact h.1 (Std.le_antisymm hmn hnm)

theorem hasAdjacentEqual_map {α β : Type} (f : α → β) (members : List (Bytes × α)) :
    hasAdjacentEqual (members.map fun m => (m.1, f m.2)) = hasAdjacentEqual members := by
  induction members with
  | nil => rfl
  | cons m members ih =>
    cases members with
    | nil => rfl
    | cons n members =>
      rw [map_cons] at ih
      rw [map_cons, map_cons, hasAdjacentEqual, hasAdjacentEqual, ih]

theorem appendFields_false_eq_ok {fields : List (Bytes × Except Exn Bytes)}
    (hne : fields ≠ []) (h : appendFields fields false = .ok text) :
    ∃ body, appendFields fields true = .ok body ∧ text = 0x2C :: body := by
  obtain ⟨⟨name, value⟩, fields, rfl⟩ := exists_cons_of_ne_nil hne
  rw [appendFields] at h ⊢
  obtain ⟨nameText, hnm, h⟩ := bind_eq_ok.mp h
  obtain ⟨valueText, hv, h⟩ := bind_eq_ok.mp h
  obtain ⟨rest, hr, h⟩ := bind_eq_ok.mp h
  cases h
  refine ⟨nameText ++ [0x3A] ++ valueText ++ rest, ?_, by simp⟩
  rw [hnm, hv, hr]
  rfl

variable {members : List (Bytes × Json Bytes)}

/-- The members of an object are read back, in the order they are written
in. -/
theorem readMembers_appendFields (hne : members ≠ [])
    (hm : ∀ m ∈ members, ∀ text, appendValue appendFloat m.2 = .ok text →
      ReadsAs m.2.normalize text)
    (h : appendFields (members.map fun m => (m.1, appendValue appendFloat m.2)) true = .ok body)
    (fuel : ℕ) (hfu : body.length + 1 < fuel) (rest : Bytes) :
    readMembers fuel (body ++ 0x7D :: rest)
      = some (members.map fun m => (m.1, m.2.normalize), rest) := by
  induction members generalizing body fuel with
  | nil => exact absurd rfl hne
  | cons m members ih =>
    obtain ⟨fuel, rfl⟩ := exists_eq_succ_of_ne_zero (ne_zero_of_lt hfu)
    rw [map_cons, appendFields] at h
    obtain ⟨nameText, hnm, h⟩ := bind_eq_ok.mp h
    obtain ⟨valueText, hv, h⟩ := bind_eq_ok.mp h
    obtain ⟨others, hot, h⟩ := bind_eq_ok.mp h
    cases h
    have hrd := hm m mem_cons_self valueText hv
    obtain ⟨-, hnameText⟩ := appendEscaped_eq_ok hnm
    simp only [if_true, nil_append, length_append, length_cons, length_nil] at hfu
    have ht : (if true then ([] : Bytes) else [0x2C]) ++ nameText ++ [0x3A] ++ valueText
        ++ others ++ 0x7D :: rest
        = nameText ++ (0x3A :: (valueText ++ (others ++ 0x7D :: rest))) := by simp
    have hsk : ∀ X, skipSpace (nameText ++ X) = nameText ++ X := by
      intro X
      rw [hnameText]
      exact skipSpace_cons (by decide) _
    rw [ht, readMembers, hsk, readString_appendEscaped hnm]
    show (readValue fuel (valueText ++ (others ++ 0x7D :: rest)) >>= _) = _
    by_cases hl : members = []
    · subst hl
      cases hot
      rw [nil_append, hrd.read fuel (0x7D :: rest) (by omega) (endsNumber_cons (by decide) rest)]
      rfl
    · obtain ⟨body, hb, rfl⟩ := appendFields_false_eq_ok (by simpa using hl) hot
      rw [length_cons] at hfu
      rw [cons_append, hrd.read fuel (0x2C :: (body ++ 0x7D :: rest)) (by omega)
        (endsNumber_cons (by decide) _)]
      show (readMembers fuel (body ++ 0x7D :: rest) >>= _) = _
      rw [ih hl (fun n hn => hm n (mem_cons_of_mem m hn)) hb fuel (by omega)]
      rfl

/-- The text of an object is read as its members in order. -/
theorem readsAs_obj
    (hm : ∀ m ∈ members, ∀ text, appendValue appendFloat m.2 = .ok text →
      ReadsAs m.2.normalize text)
    (h : appendFields (members.map fun m => (m.1, appendValue appendFloat m.2)) true = .ok body) :
    ReadsAs (.obj (members.map fun m => (m.1, m.2.normalize))) ([0x7B] ++ body ++ [0x7D]) := by
  refine ⟨⟨0x7B, body ++ [0x7D], rfl, by decide, by decide⟩, fun fuel rest hfu _ => ?_⟩
  obtain ⟨fuel, rfl⟩ := exists_eq_succ_of_ne_zero (ne_zero_of_lt hfu)
  have ht : [0x7B] ++ body ++ [0x7D] ++ rest = 0x7B :: (body ++ 0x7D :: rest) := by simp
  rw [ht]
  by_cases hn : members = []
  · subst hn
    cases h
    rfl
  have hhd : ∃ tail, body = 0x22 :: tail := by
    obtain ⟨m, members, rfl⟩ := exists_cons_of_ne_nil hn
    rw [map_cons, appendFields] at h
    obtain ⟨nameText, hnm, h⟩ := bind_eq_ok.mp h
    obtain ⟨valueText, -, h⟩ := bind_eq_ok.mp h
    obtain ⟨others, -, h⟩ := bind_eq_ok.mp h
    cases h
    obtain ⟨-, rfl⟩ := appendEscaped_eq_ok hnm
    exact ⟨_, rfl⟩
  obtain ⟨tail, hb⟩ := hhd
  have hsk : skipSpace (body ++ 0x7D :: rest) = body ++ 0x7D :: rest := by
    rw [hb]
    exact skipSpace_cons (by decide) _
  show (if (skipSpace (body ++ 0x7D :: rest)).head? = some 0x7D then _
    else (readMembers fuel (skipSpace (body ++ 0x7D :: rest))).map _) = _
  rw [hsk, if_neg (by rw [hb]; simp), readMembers_appendFields hn hm h fuel
    (by simp at hfu; omega)]
  rfl

/-! ## The normal form is written in the same way -/

variable {first : Bool}

theorem appendItems_normalize
    (his : ∀ v ∈ items, ∀ text, appendValue appendFloat v = .ok text →
      appendValue appendFloat v.normalize = .ok text)
    (h : appendItems appendFloat items first = .ok body) :
    appendItems appendFloat (normalizeItems items) first = .ok body := by
  induction items generalizing first body with
  | nil => exact h
  | cons item items ih =>
    rw [appendItems] at h
    obtain ⟨text, ht, h⟩ := bind_eq_ok.mp h
    obtain ⟨rest, hr, h⟩ := bind_eq_ok.mp h
    rw [normalizeItems, appendItems, his item mem_cons_self text ht,
      ih (fun v hv => his v (mem_cons_of_mem item hv)) hr]
    exact h

theorem appendFields_normalize
    (hm : ∀ m ∈ members, ∀ text, appendValue appendFloat m.2 = .ok text →
      appendValue appendFloat m.2.normalize = .ok text)
    (h : appendFields (members.map fun m => (m.1, appendValue appendFloat m.2)) first = .ok body) :
    appendFields (members.map fun m => (m.1, appendValue appendFloat m.2.normalize)) first
      = .ok body := by
  induction members generalizing first body with
  | nil => exact h
  | cons m members ih =>
    rw [map_cons, appendFields] at h ⊢
    obtain ⟨name, hnm, h⟩ := bind_eq_ok.mp h
    obtain ⟨text, ht, h⟩ := bind_eq_ok.mp h
    obtain ⟨rest, hr, h⟩ := bind_eq_ok.mp h
    rw [hnm, hm m mem_cons_self text ht,
      ih (fun n hn => hm n (mem_cons_of_mem m hn)) hr]
    exact h

/-- What writing an object does: its members are sorted and have distinct
names. -/
theorem appendObject_eq_ok (h : appendObject (memberTexts appendFloat members) = .ok text) :
    hasAdjacentEqual (sortMembers members) = false
      ∧ ∃ body, appendFields
          ((sortMembers members).map fun m => (m.1, appendValue appendFloat m.2)) true = .ok body
        ∧ text = [0x7B] ++ body ++ [0x7D] := by
  unfold appendObject at h
  rw [memberTexts_eq_map, sortMembers_map (appendValue appendFloat)] at h
  dsimp only at h
  rw [hasAdjacentEqual_map (appendValue appendFloat)] at h
  split at h
  · cases h
  rename_i hd
  obtain ⟨body, hb, h⟩ := bind_eq_ok.mp h
  cases h
  exact ⟨eq_false_iff.mpr hd, body, hb, rfl⟩

theorem written_of_appendItems (h : appendItems appendFloat items first = .ok body) :
    ∀ v ∈ items, ∃ text, appendValue appendFloat v = .ok text := by
  induction items generalizing first body with
  | nil =>
    intro v hv
    cases hv
  | cons item items ih =>
    rw [appendItems] at h
    obtain ⟨text, ht, h⟩ := bind_eq_ok.mp h
    obtain ⟨rest, hr, -⟩ := bind_eq_ok.mp h
    exact forall_mem_cons.mpr ⟨⟨text, ht⟩, ih hr⟩

theorem written_of_appendFields
    (h : appendFields (members.map fun m => (m.1, appendValue appendFloat m.2)) first = .ok body) :
    ∀ m ∈ members, ∃ text, appendValue appendFloat m.2 = .ok text := by
  induction members generalizing first body with
  | nil =>
    intro m hm
    cases hm
  | cons m members ih =>
    rw [map_cons, appendFields] at h
    obtain ⟨name, -, h⟩ := bind_eq_ok.mp h
    obtain ⟨text, ht, h⟩ := bind_eq_ok.mp h
    obtain ⟨rest, hr, -⟩ := bind_eq_ok.mp h
    exact forall_mem_cons.mpr ⟨⟨text, ht⟩, ih hr⟩

/-- **Writing a value.** -/
theorem appendValue_spec (hf : v.FloatFree) (h : appendValue appendFloat v = .ok text) :
    v.NoDuplicates ∧ ReadsAs v.normalize text
      ∧ appendValue appendFloat v.normalize = .ok text := by
  induction v using Json.ind generalizing text with
  | null =>
    cases h
    exact ⟨trivial, readsAs_word rfl (by decide) (by decide) fun _ _ => rfl, rfl⟩
  | bool b =>
    cases h
    cases b with
    | true | false => exact ⟨trivial, readsAs_word rfl (by decide) (by decide) fun _ _ => rfl, rfl⟩
  | uint n =>
    cases h
    obtain ⟨b, tail, ht, -⟩ := decimalText_head n.toNat
    have hdig : isDigit b = true :=
      isDigit_of_mem_decimalText (n := n.toNat) (by rw [ht]; exact mem_cons_self)
    exact ⟨trivial, readsAs_number ht (.inl hdig) fun rest => readNumber_uint n, rfl⟩
  | sint n =>
    cases h
    by_cases hn : 0 ≤ n
    · have hnat : n.toInt.toNat = n.toUInt64.toNat := (Int64.toNat_toUInt64_of_le hn).symm
      obtain ⟨b, tail, ht, -⟩ := decimalText_head n.toUInt64.toNat
      have hdig : isDigit b = true :=
        isDigit_of_mem_decimalText (n := n.toUInt64.toNat) (by rw [ht]; exact mem_cons_self)
      rw [Json.normalize, if_pos hn, if_pos hn, hnat]
      exact ⟨trivial, readsAs_number ht (.inl hdig) fun rest => readNumber_uint _, rfl⟩
    · rw [Json.normalize, if_neg hn, if_neg hn]
      refine ⟨trivial, readsAs_number rfl (.inr rfl) fun rest => readNumber_sint hn, ?_⟩
      rw [appendValue, if_neg hn]
  | real bits => exact absurd hf id
  | str s => exact ⟨trivial, readsAs_str h, h⟩
  | arr items ih =>
    have his := (allItems_iff items).mp hf.2
    rw [appendValue] at h
    obtain ⟨body, hb, h⟩ := bind_eq_ok.mp h
    cases h
    have hsp : ∀ v ∈ items, ∀ text, appendValue appendFloat v = .ok text →
        v.NoDuplicates ∧ ReadsAs v.normalize text
          ∧ appendValue appendFloat v.normalize = .ok text :=
      fun v hv text h => ih v hv (his v hv) h
    have hwr := written_of_appendItems hb
    refine ⟨⟨trivial, (allItems_iff items).mpr fun v hv => ?_⟩, ?_, ?_⟩
    · obtain ⟨text, ht⟩ := hwr v hv
      exact (hsp v hv text ht).1
    · exact readsAs_arr (fun v hv text h => (hsp v hv text h).2.1) hb
    · rw [Json.normalize, appendValue,
        appendItems_normalize (fun v hv text h => (hsp v hv text h).2.2) hb]
      rfl
  | obj members ih =>
    have hmbr := (allMembers_iff members).mp hf.2
    rw [appendValue] at h
    obtain ⟨hd, body, hb, rfl⟩ := appendObject_eq_ok h
    have hp := sortMembers_perm members
    have hsp : ∀ m ∈ sortMembers members, ∀ text, appendValue appendFloat m.2 = .ok text →
        m.2.NoDuplicates ∧ ReadsAs m.2.normalize text
          ∧ appendValue appendFloat m.2.normalize = .ok text :=
      fun m hm text h => ih m (hp.mem_iff.mp hm) (hmbr m (hp.mem_iff.mp hm)) h
    have hwr := written_of_appendFields hb
    have hs := sortMembers_pairwise members
    have hnd := nodup_of_not_hasAdjacentEqual hs hd
    refine ⟨⟨(hp.map Prod.fst).nodup_iff.mp hnd,
      (allMembers_iff members).mpr fun m hm => ?_⟩, ?_, ?_⟩
    · have hm := hp.mem_iff.mpr hm
      obtain ⟨text, ht⟩ := hwr m hm
      exact (hsp m hm text ht).1
    · rw [Json.normalize, normalizeMembers_eq_map, sortMembers_map Json.normalize]
      exact readsAs_obj (fun m hm text h => (hsp m hm text h).2.1) hb
    · rw [Json.normalize, normalizeMembers_eq_map, sortMembers_map Json.normalize, appendValue]
      unfold appendObject
      have htx : memberTexts appendFloat
            ((sortMembers members).map fun m => (m.1, normalize m.2))
          = (sortMembers members).map fun m => (m.1, appendValue appendFloat m.2.normalize) := by
        rw [memberTexts_eq_map, map_map]
        rfl
      have hpairwise : ((sortMembers members).map
          fun m => (m.1, appendValue appendFloat m.2.normalize)).Pairwise fun m n => m.1 ≤ n.1 :=
        pairwise_map.mpr hs
      rw [htx, sortMembers_of_pairwise hpairwise]
      dsimp only
      rw [hasAdjacentEqual_map (fun v => appendValue appendFloat (normalize v)), hd,
        if_neg Bool.false_ne_true,
        appendFields_normalize (fun m hm text h => (hsp m hm text h).2.2) hb]
      rfl

end NeoGraph.CanonicalJson
