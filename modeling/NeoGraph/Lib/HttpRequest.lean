import Mathlib
import NeoGraph.Lib.Ascii
import NeoGraph.Lib.Lists

/-!
# HTTP requests on the wire

The grammar of an HTTP/1.1 request: a request line, field lines, an empty
line, and a body whose length the fields decide. `Reads text r rest` says that
a byte string derives the request `r` and what is left behind it.

A request without a transfer coding is derived in one way only
(`Reads.unique`), so whoever reads the bytes by the grammar finds the same
request, and the next one at the same place.

The target of a request is read as a run of visible bytes, which is how the
request line is taken apart. `IsOriginForm` is the stricter grammar of a
path with a query.
-/

namespace Http

open NeoGraph List

/-! ## Characters -/

scoped instance decidableBAll (l : Bytes) (p : UInt8 → Prop) [DecidablePred p] :
    Decidable (∀ b ∈ l, p b) :=
  List.decidableBAll p l

def isAlpha (b : UInt8) : Bool := (65 ≤ b && b ≤ 90) || (97 ≤ b && b ≤ 122)

/-- The capital letters in lower case. -/
def lower (b : UInt8) : UInt8 := if 65 ≤ b && b ≤ 90 then b + 32 else b

/-- The characters of a token. -/
def isTokenChar (b : UInt8) : Bool :=
  isAlpha b || isDigit b || (ascii "!#$%&'*+-.^_`|~").contains b

/-- Space and horizontal tab. -/
def isBlank (b : UInt8) : Bool := b = 32 || b = 9

/-- A byte of a field value: no control character but the tab. -/
def isFieldChar (b : UInt8) : Bool := b = 9 || (32 ≤ b && b ≠ 127)

/-- A visible byte, or one above ASCII. -/
def isVisible (b : UInt8) : Bool := 32 < b && b ≠ 127

def isHexDigit (b : UInt8) : Bool :=
  isDigit b || (65 ≤ b && b ≤ 70) || (97 ≤ b && b ≤ 102)

/-- A byte that a path or a query has without an escape. -/
def isPathChar (b : UInt8) : Bool :=
  isAlpha b || isDigit b || (ascii "-._~!$&'()*+,;=:@/?").contains b

/-- Path characters, and escapes of two hexadecimal digits. -/
def isPathText : List UInt8 → Bool
  | [] => true
  | 37 :: high :: low :: rest => isHexDigit high && isHexDigit low && isPathText rest
  | b :: rest => isPathChar b && isPathText rest

/-- **The origin form of a target**: an absolute path with an optional query. -/
def IsOriginForm (target : List UInt8) : Prop :=
  target.head? = some 47 ∧ isPathText target = true

instance : DecidablePred IsOriginForm := fun _ => inferInstanceAs (Decidable (_ ∧ _))

theorem isVisible_of_isPathText {target : Bytes} (h : isPathText target = true) :
    ∀ b ∈ target, isVisible b = true := by
  have hpt : ∀ b, isPathChar b = true → isVisible b = true := by
    intro b hb
    unfold isPathChar at hb
    rw [Bool.or_eq_true, List.contains_iff_mem] at hb
    have hmks : ∀ c ∈ ascii "-._~!$&'()*+,;=:@/?", isVisible c = true := by decide
    refine hb.elim (fun hb => ?_) (hmks b)
    simp only [isAlpha, isDigit, isVisible, Bool.or_eq_true, Bool.and_eq_true, decide_eq_true_eq,
      UInt8.lt_iff_toNat_lt, UInt8.le_iff_toNat_le, ne_eq, ← UInt8.toNat_inj,
      UInt8.reduceToNat] at *
    omega
  have hhex : ∀ b, isHexDigit b = true → isVisible b = true := by
    intro b hb
    simp only [isHexDigit, isDigit, isVisible, Bool.or_eq_true, Bool.and_eq_true,
      decide_eq_true_eq, UInt8.lt_iff_toNat_lt, UInt8.le_iff_toNat_le, ne_eq, ← UInt8.toNat_inj,
      UInt8.reduceToNat] at *
    omega
  fun_induction isPathText target with
  | case1 => exact nofun
  | case2 high low rest ih =>
    simp only [Bool.and_eq_true] at h
    exact List.forall_mem_cons.mpr ⟨rfl, List.forall_mem_cons.mpr ⟨hhex _ h.1.1,
      List.forall_mem_cons.mpr ⟨hhex _ h.1.2, ih h.2⟩⟩⟩
  | case3 b rest hescape ih =>
    rw [Bool.and_eq_true] at h
    exact List.forall_mem_cons.mpr ⟨hpt b h.1, ih h.2⟩

/-- A value without the blanks around it. -/
def trim (value : List UInt8) : List UInt8 := (value.dropWhile isBlank).rdropWhile isBlank

theorem isFieldChar_of_isBlank {b : UInt8} (h : isBlank b = true) : isFieldChar b = true := by
  simp only [isBlank, Bool.or_eq_true, decide_eq_true_eq] at h
  obtain rfl | rfl := h <;> rfl

/-- A value is what its trimmed form is, with blanks around it. -/
theorem exists_trim (value : Bytes) :
    ∃ before after, value = before ++ (trim value ++ after)
      ∧ (∀ b ∈ before, isBlank b = true) ∧ ∀ b ∈ after, isBlank b = true :=
  ⟨value.takeWhile isBlank, (value.dropWhile isBlank).rtakeWhile isBlank,
    by rw [trim, rdropWhile_append_rtakeWhile, takeWhile_append_dropWhile],
    fun _ hb => mem_takeWhile_imp hb, fun _ hb => mem_rtakeWhile_imp hb⟩

theorem forall_mem_trim_iff {value : Bytes} :
    (∀ b ∈ trim value, isFieldChar b = true) ↔ ∀ b ∈ value, isFieldChar b = true := by
  obtain ⟨before, after, hv, hbef, haft⟩ := exists_trim value
  constructor
  · intro h b hb
    rw [hv, mem_append, mem_append] at hb
    obtain hb | hb | hb := hb
    · exact isFieldChar_of_isBlank (hbef b hb)
    · exact h b hb
    · exact isFieldChar_of_isBlank (haft b hb)
  · intro h b hb
    refine h b ?_
    rw [hv]
    exact mem_append_right _ (mem_append_left _ hb)

theorem trim_cons_blank (value : Bytes) : trim (32 :: value) = trim value := rfl

/-- A trimmed value has no blanks around it. -/
theorem trim_trim (value : Bytes) : trim (trim value) = trim value := by
  have hs : (trim value).dropWhile isBlank = trim value := by
    cases htrim : trim value with
    | nil => rfl
    | cons b rest =>
      refine dropWhile_cons_of_neg ?_
      obtain ⟨after, hdr⟩ := rdropWhile_prefix isBlank (l := value.dropWhile isBlank)
      have hhd := head?_dropWhile_not isBlank value
      rw [← hdr, show (value.dropWhile isBlank).rdropWhile isBlank = b :: rest from htrim] at hhd
      rw [Bool.not_eq_true]
      exact hhd
  show ((trim value).dropWhile isBlank).rdropWhile isBlank = trim value
  rw [hs]
  exact rdropWhile_idempotent _ _

/-! ## Fields -/

/-- A field as it is written: its name and what stands between the colon and
the end of the line. -/
structure FieldLine where
  name : List UInt8
  raw : List UInt8
deriving DecidableEq

def crlf : List UInt8 := [13, 10]

/-- The line as it is sent. -/
def FieldLine.text (line : FieldLine) : List UInt8 := line.name ++ 58 :: (line.raw ++ crlf)

/-- The name and the value of a field. -/
def FieldLine.field (line : FieldLine) : List UInt8 × List UInt8 := (line.name, trim line.raw)

def FieldLine.WellFormed (line : FieldLine) : Prop :=
  line.name ≠ [] ∧ (∀ b ∈ line.name, isTokenChar b = true) ∧ ∀ b ∈ line.raw, isFieldChar b = true

/-- The values of the fields of a name, which is given in lower case. -/
def valuesOf (name : String) (fields : List (List UInt8 × List UInt8)) : List (List UInt8) :=
  (fields.filter fun field => field.1.map lower = ascii name).map Prod.snd

theorem valuesOf_append (name : String) (fields fields' : List (Bytes × Bytes)) :
    valuesOf name (fields ++ fields') = valuesOf name fields ++ valuesOf name fields' := by
  unfold valuesOf
  rw [filter_append, map_append]

theorem valuesOf_cons (name : String) (key value : Bytes) (fields : List (Bytes × Bytes)) :
    valuesOf name ((key, value) :: fields)
      = if key.map lower = ascii name then value :: valuesOf name fields
        else valuesOf name fields := by
  unfold valuesOf
  rw [filter_cons]
  by_cases h : key.map lower = ascii name
  · rw [if_pos (decide_eq_true h), if_pos h, map_cons]
  · rw [if_neg (by simpa using h), if_neg h]

variable {fields : List (Bytes × Bytes)}

theorem valuesOf_eq_nil_iff {name : String} :
    valuesOf name fields = [] ↔ ∀ field ∈ fields, field.1.map lower ≠ ascii name := by
  unfold valuesOf
  rw [map_eq_nil_iff, filter_eq_nil_iff]
  simp only [decide_eq_true_eq, ne_eq]

/-! ## Bodies -/

/-- The number that hexadecimal digits stand for. -/
def hexadecimal (digits : List UInt8) : ℕ :=
  digits.foldl (fun n b => 16 * n + (if isDigit b then b.toNat - 48 else b.toNat % 32 + 9)) 0

/-- A chunk's size and extensions, without the end of the line. -/
def IsChunkHead (size : ℕ) (head : List UInt8) : Prop :=
  ∃ digits extensions, head = digits ++ extensions ∧ digits ≠ []
    ∧ (∀ b ∈ digits, isHexDigit b = true) ∧ hexadecimal digits = size
    ∧ (extensions = [] ∨ extensions.head? = some 59) ∧ ∀ b ∈ extensions, isFieldChar b = true

/-- A body in chunks, with its trailer. -/
inductive Chunked : List UInt8 → Prop where
  | last (head : List UInt8) (trailer : List FieldLine) : IsChunkHead 0 head →
      (∀ line ∈ trailer, line.WellFormed) →
      Chunked (head ++ crlf ++ trailer.flatMap FieldLine.text ++ crlf)
  | chunk (head data rest : List UInt8) : data ≠ [] → IsChunkHead data.length head →
      Chunked rest → Chunked (head ++ crlf ++ data ++ crlf ++ rest)

/-- **How long a body is**: without framing fields it is empty, a content
length is its length, and a chunked one ends with its last chunk. -/
inductive Framed (fields : List (List UInt8 × List UInt8)) : List UInt8 → Prop where
  | empty : valuesOf "transfer-encoding" fields = [] → valuesOf "content-length" fields = [] →
      Framed fields []
  | length (body : List UInt8) : valuesOf "transfer-encoding" fields = [] →
      valuesOf "content-length" fields ≠ [] →
      (∀ value ∈ valuesOf "content-length" fields, value ≠ [] ∧ (∀ b ∈ value, isDigit b = true)
        ∧ decimal value = body.length) →
      Framed fields body
  | chunked (body : List UInt8) :
      (valuesOf "transfer-encoding" fields).map (map lower) = [ascii "chunked"] →
      valuesOf "content-length" fields = [] → Chunked body → Framed fields body

variable {body : Bytes}

theorem Chunked.ne_nil (h : Chunked body) : body ≠ [] := by
  cases h with
  | last => exact append_ne_nil_of_right_ne_nil _ (cons_ne_nil _ _)
  | chunk head data rest hd =>
    refine append_ne_nil_of_left_ne_nil (append_ne_nil_of_right_ne_nil _ ?_) _
    exact cons_ne_nil _ _

/-- Framing reads two names only. -/
theorem Framed.congr {fields' : List (Bytes × Bytes)}
    (hcod : valuesOf "transfer-encoding" fields = valuesOf "transfer-encoding" fields')
    (hl : valuesOf "content-length" fields = valuesOf "content-length" fields')
    (h : Framed fields body) : Framed fields' body := by
  cases h with
  | empty hn hn' => exact .empty (hcod ▸ hn) (hl ▸ hn')
  | length _ hn hs hvs =>
    exact .length body (hcod ▸ hn) (hl ▸ hs) (hl ▸ hvs)
  | chunked _ hc hn hb =>
    exact .chunked body (hcod ▸ hc) (hl ▸ hn) hb

/-- An empty body has no transfer coding. -/
theorem Framed.coding_eq_nil (h : Framed fields []) : valuesOf "transfer-encoding" fields = [] := by
  cases h with
  | empty hn | length _ hn => exact hn
  | chunked _ _ _ hb => exact absurd rfl hb.ne_nil

/-! ## Requests -/

/-- What a receiver has read. -/
structure Request where
  method : List UInt8
  target : List UInt8
  fields : List (List UInt8 × List UInt8)
  body : List UInt8
deriving DecidableEq

/-- A request as it is written. -/
structure Message where
  method : List UInt8
  target : List UInt8
  lines : List FieldLine
  body : List UInt8

namespace Message

/-- What a receiver should read. -/
def request (m : Message) : Request :=
  { method := m.method, target := m.target, fields := m.lines.map FieldLine.field, body := m.body }

/-- The message as it is sent. -/
def text (m : Message) : List UInt8 :=
  m.method ++ 32 :: (m.target ++ 32 :: (ascii "HTTP/1.1" ++ crlf
    ++ (m.lines.flatMap FieldLine.text ++ (crlf ++ m.body))))

/-- A message that a receiver reads as it was meant. -/
structure WellFormed (m : Message) : Prop where
  method_ne : m.method ≠ []
  method : ∀ b ∈ m.method, isTokenChar b = true
  target_ne : m.target ≠ []
  target : ∀ b ∈ m.target, isVisible b = true
  lines : ∀ line ∈ m.lines, line.WellFormed
  framed : Framed m.request.fields m.body

end Message

/-- **A byte string derives a request**, and `rest` is behind it. -/
def Reads (text : List UInt8) (r : Request) (rest : List UInt8) : Prop :=
  ∃ m : Message, m.WellFormed ∧ text = m.text ++ rest ∧ r = m.request

/-- The bytes are exactly one request, however they are read. -/
def IsExactly (text : List UInt8) (r : Request) : Prop :=
  Reads text r [] ∧ ∀ r' rest, Reads text r' rest → r' = r ∧ rest = []

/-! ## One reading -/

theorem notMem_of_all {p : UInt8 → Bool} {c : UInt8} {l : Bytes}
    (h : ∀ b ∈ l, p b = true) (hc : p c = false) : c ∉ l := by
  intro hm
  rw [h c hm] at hc
  cases hc

variable {line line' : FieldLine} {s t : Bytes}

theorem FieldLine.text_append_inj (h : line.WellFormed) (h' : line'.WellFormed)
    (heq : line.text ++ s = line'.text ++ t) : line = line' ∧ s = t := by
  obtain ⟨-, hnm, hraw⟩ := h
  obtain ⟨-, hnm', hraw'⟩ := h'
  unfold FieldLine.text crlf at heq
  simp only [append_assoc, cons_append, nil_append] at heq
  obtain ⟨hn, heq⟩ := append_cons_inj_left (notMem_of_all hnm rfl)
    (notMem_of_all hnm' rfl) heq
  obtain ⟨hraws, ht⟩ := append_cons_inj_left (notMem_of_all hraw rfl)
    (notMem_of_all hraw' rfl) heq
  cases line
  cases line'
  cases hn
  cases hraws
  exact ⟨rfl, (List.cons.inj ht).2⟩

/-- A field line does not start with the end of a line. -/
theorem FieldLine.text_ne_crlf (h : line.WellFormed) : line.text ++ s ≠ crlf ++ t := by
  obtain ⟨hne, hnm, -⟩ := h
  obtain ⟨b, name, hb⟩ := exists_cons_of_ne_nil hne
  intro heq
  unfold FieldLine.text at heq
  rw [hb, cons_append, cons_append] at heq
  have htok := hnm b (by rw [hb]; exact mem_cons_self)
  rw [(List.cons.inj heq).1] at htok
  cases htok

/-- Field lines up to the empty line are taken apart in one way. -/
theorem lines_append_inj {lines lines' : List FieldLine} (h : ∀ line ∈ lines, line.WellFormed)
    (h' : ∀ line ∈ lines', line.WellFormed) (heq : lines.flatMap FieldLine.text ++ (crlf ++ s)
      = lines'.flatMap FieldLine.text ++ (crlf ++ t)) : lines = lines' ∧ s = t := by
  induction lines generalizing lines' with
  | nil =>
    cases lines' with
    | nil => exact ⟨rfl, append_cancel_left heq⟩
    | cons line' lines' =>
      rw [flatMap_cons, append_assoc] at heq
      exact absurd heq.symm (FieldLine.text_ne_crlf (h' _ mem_cons_self))
  | cons line lines ih =>
    rw [flatMap_cons, append_assoc] at heq
    cases lines' with
    | nil => exact absurd heq (FieldLine.text_ne_crlf (h _ mem_cons_self))
    | cons line' lines' =>
      rw [flatMap_cons, append_assoc] at heq
      obtain ⟨rfl, hlns⟩ := FieldLine.text_append_inj (h _ mem_cons_self) (h' _ mem_cons_self) heq
      obtain ⟨rfl, hr⟩ := ih (fun l hl => h l (mem_cons_of_mem _ hl))
        (fun l hl => h' l (mem_cons_of_mem _ hl)) hlns
      exact ⟨rfl, hr⟩

/-- Without a transfer coding the fields decide where the body ends. -/
theorem Framed.append_inj {body' : Bytes} (h : Framed fields body) (h' : Framed fields body')
    (hcod : valuesOf "transfer-encoding" fields = []) (heq : body ++ s = body' ++ t) :
    body = body' ∧ s = t := by
  refine List.append_inj heq ?_
  have hnot : (valuesOf "transfer-encoding" fields).map (map lower) ≠ [ascii "chunked"] := by
    rw [hcod]
    exact cons_ne_nil _ _ |>.symm
  cases h with
  | chunked _ hc => exact absurd hc hnot
  | empty _ hn =>
    cases h' with
    | chunked _ hc => exact absurd hc hnot
    | empty => rfl
    | length _ _ hs => exact absurd hn hs
  | length _ _ hs hl =>
    cases h' with
    | chunked _ hc => exact absurd hc hnot
    | empty _ hn => exact absurd hn hs
    | length _ _ _ hl' =>
      obtain ⟨value, rest, hvs⟩ := exists_cons_of_ne_nil hs
      have hm : value ∈ valuesOf "content-length" fields := by
        rw [hvs]
        exact mem_cons_self
      exact (hl value hm).2.2.symm.trans (hl' value hm).2.2

/-- **One reading**: a request without a transfer coding is derived in one way
only. -/
theorem Reads.unique {text rest rest' : Bytes} {r r' : Request} (h : Reads text r rest)
    (hcod : valuesOf "transfer-encoding" r.fields = []) (h' : Reads text r' rest') :
    r' = r ∧ rest' = rest := by
  obtain ⟨m, hm, rfl, rfl⟩ := h
  obtain ⟨m', hm', heq, rfl⟩ := h'
  unfold Message.text at heq
  simp only [append_assoc, cons_append] at heq
  obtain ⟨hmt, heq⟩ := append_cons_inj_left (notMem_of_all hm.method rfl)
    (notMem_of_all hm'.method rfl) heq
  obtain ⟨ht, heq⟩ := append_cons_inj_left (notMem_of_all hm.target rfl)
    (notMem_of_all hm'.target rfl) heq
  obtain ⟨hlns, heq⟩ := lines_append_inj hm.lines hm'.lines
    (append_cancel_left (append_cancel_left heq))
  have hframed := hm'.framed
  obtain ⟨method, target, lines, body⟩ := m
  obtain ⟨method', target', lines', body'⟩ := m'
  cases hmt
  cases ht
  cases hlns
  obtain ⟨rfl, rfl⟩ := hm.framed.append_inj hframed hcod heq
  exact ⟨rfl, rfl⟩

theorem Reads.isExactly {text : Bytes} {r : Request} (h : Reads text r [])
    (hcod : valuesOf "transfer-encoding" r.fields = []) : IsExactly text r :=
  ⟨h, fun _ _ h' => h.unique hcod h'⟩

end Http
