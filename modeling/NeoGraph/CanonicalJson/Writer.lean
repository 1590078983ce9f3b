import NeoGraph.Basic
import NeoGraph.Lib.Ascii
import NeoGraph.Lib.Json

/-!
# Canonical JSON

Every content identity of a program is a hash of the canonical bytes of a
JSON value: members sorted by the bytes of their names, no white space, and
one way to escape each byte of a string. Before anything is written the
nesting depth and the size of the value are bounded.

Strings are bytes here – a document may hold text that is not UTF-8, and
the writer rejects it. Two scans, for a byte that has to be escaped and for
a byte outside ASCII, skip eight bytes at a time: `word` is the `memcpy` of
eight bytes into an integer. How a floating-point number is written is left
open (`appendFloat`).
-/

namespace NeoGraph.CanonicalJson

/-! ## Scanning by words -/

/-- Eight bytes as a machine word, the first one lowest. -/
def word (bytes : Bytes) : UInt64 :=
  UInt64.ofNat ((bytes.take 8).foldr (fun b n => b.toNat + 256 * n) 0)

/-- A one in every byte. -/
def byteOnes : UInt64 := 0x0101010101010101

/-- The highest bit of every byte. -/
def byteHighs : UInt64 := 0x8080808080808080

/-- Some byte of the word is zero. -/
def hasZeroByte (w : UInt64) : Bool := ((w - byteOnes) &&& ~~~w &&& byteHighs) != 0

/-- A byte that a string does not hold as it is. -/
def needsJsonEscape (b : UInt8) : Bool := b < 0x20 || b = 0x22 || b = 0x5C

/-- The number of bytes skipped in whole words, up to a word that may hold
a byte to stop at. -/
def skipWords (stop : UInt64 → Bool) : ℕ → Bytes → ℕ
  | 0, _ => 0
  | fuel + 1, value =>
    if 8 ≤ value.length && !stop (word value) then 8 + skipWords stop fuel (value.drop 8) else 0

/-- The length of a prefix of admitted bytes: whole words first, then the
bytes one by one. -/
def wordPrefix (stop : UInt64 → Bool) (admitted : UInt8 → Bool) (value : Bytes) : ℕ :=
  let count := skipWords stop value.length value
  count + ((value.drop count).takeWhile admitted).length

/-- The word may hold a byte that has to be escaped. -/
def stopsEscape (w : UInt64) : Bool :=
  ((w - 0x2020202020202020) &&& ~~~w &&& byteHighs) != 0
    || hasZeroByte (w ^^^ 0x2222222222222222) || hasZeroByte (w ^^^ 0x5C5C5C5C5C5C5C5C)

/-- How many bytes can be copied as they are. -/
def unescapedPrefix (value : Bytes) : ℕ :=
  wordPrefix stopsEscape (fun b => !needsJsonEscape b) value

/-- How many bytes are below 128. -/
def asciiPrefix (value : Bytes) : ℕ :=
  wordPrefix (fun w => w &&& byteHighs != 0) (fun b => b < 0x80) value

/-! ## Limits -/

/-- The largest text, 16 MiB. -/
def maxJsonBytes : ℕ := 16 * 1024 * 1024

/-- The deepest nesting. -/
def maxJsonDepth : ℕ := 256

def depthExceeded : Exn :=
  .invalidArgument "Program JSON exceeds the maximum nesting depth"

/-- The size so far with a part more, up to the largest. -/
def checkedJsonSize (current additional : ℕ) : Except Exn ℕ :=
  if maxJsonBytes - current < additional then
    .error (.invalidArgument "Program JSON exceeds the 16 MiB materialized limit")
  else .ok (current + additional)

/-- The comma before every part but the first. -/
def checkedSeparator (size : ℕ) (first : Bool) : Except Exn ℕ :=
  if first then .ok size else checkedJsonSize size 1

/-- The loop over a string: six bytes are charged for every control
character, two for a quote and a backslash. -/
def escapedSizeLoop : ℕ → Bytes → ℕ → Except Exn ℕ
  | 0, _, size => .ok size
  | fuel + 1, value, size =>
    match value with
    | [] => .ok size
    | b :: rest =>
      if !needsJsonEscape b then
        escapedSizeLoop fuel (value.drop (unescapedPrefix value)) size
      else do
        let size ← checkedJsonSize size (if b < 0x20 then 5 else 1)
        escapedSizeLoop fuel rest size

/-- The size of a string with its quotes. -/
def escapedJsonStringSize (value : Bytes) : Except Exn ℕ := do
  let size ← checkedJsonSize 2 value.length
  escapedSizeLoop value.length value size

mutual

/-- The size a value is charged with, if it and its depth are within the
limits. -/
def validateJsonValueLimits : Json Bytes → ℕ → Except Exn ℕ
  | value, depth =>
    if maxJsonDepth < depth then .error depthExceeded
    else match value with
      | .null => .ok 4
      | .bool b => .ok (if b then 4 else 5)
      | .uint _ => .ok 32
      | .sint _ => .ok 32
      | .real _ => .ok 32
      | .str s => escapedJsonStringSize s
      | .arr items => validateItems items (depth + 1) 2 true
      | .obj members => validateMembers members (depth + 1) 2 true

def validateItems : List (Json Bytes) → ℕ → ℕ → Bool → Except Exn ℕ
  | [], _, size, _ => .ok size
  | item :: items, depth, size, first => do
    let size ← checkedSeparator size first
    let additional ← validateJsonValueLimits item depth
    let size ← checkedJsonSize size additional
    validateItems items depth size false

def validateMembers : List (Bytes × Json Bytes) → ℕ → ℕ → Bool → Except Exn ℕ
  | [], _, size, _ => .ok size
  | (name, item) :: members, depth, size, first => do
    let size ← checkedSeparator size first
    let additional ← escapedJsonStringSize name
    let size ← checkedJsonSize size additional
    let size ← checkedJsonSize size 1
    let additional ← validateJsonValueLimits item depth
    let size ← checkedJsonSize size additional
    validateMembers members depth size false

end

/-! ## UTF-8 -/

def invalidUtf8 : Exn := .invalidArgument "Program canonical JSON rejects invalid UTF-8"

/-- The byte at an offset continues a character. -/
def requireContinuation (value : Bytes) (offset : ℕ) : Except Exn Unit :=
  match value[offset]? with
  | none => .error invalidUtf8
  | some b => if b &&& 0xC0 ≠ 0x80 then .error invalidUtf8 else .ok ()

/-- The second byte of a character whose first byte narrows its range. -/
def requireSecond (value : Bytes) (low high : UInt8) : Except Exn Unit :=
  match value[1]? with
  | none => .error invalidUtf8
  | some b => if b < low || high < b then .error invalidUtf8 else .ok ()

/-- The length of the characters validated at the head of a string: a run
of ASCII, or one longer character. It is only asked for a string that is
not empty. -/
def validatedUtf8PrefixLength (value : Bytes) : Except Exn ℕ :=
  match value with
  | [] => .ok 0
  | lead :: _ =>
    if lead < 0x80 then .ok (asciiPrefix value)
    else if 0xC2 ≤ lead && lead ≤ 0xDF then do
      requireContinuation value 1
      .ok 2
    else if lead = 0xE0 then do
      requireSecond value 0xA0 0xBF
      requireContinuation value 2
      .ok 3
    else if 0xE1 ≤ lead && lead ≤ 0xEC || 0xEE ≤ lead && lead ≤ 0xEF then do
      requireContinuation value 1
      requireContinuation value 2
      .ok 3
    else if lead = 0xED then do
      requireSecond value 0x80 0x9F
      requireContinuation value 2
      .ok 3
    else if lead = 0xF0 then do
      requireSecond value 0x90 0xBF
      requireContinuation value 2
      requireContinuation value 3
      .ok 4
    else if 0xF1 ≤ lead && lead ≤ 0xF3 then do
      requireContinuation value 1
      requireContinuation value 2
      requireContinuation value 3
      .ok 4
    else if lead = 0xF4 then do
      requireSecond value 0x80 0x8F
      requireContinuation value 2
      requireContinuation value 3
      .ok 4
    else .error invalidUtf8

/-- One character at a time. -/
def validateUtf8Loop : ℕ → Bytes → Except Exn Unit
  | 0, _ => .ok ()
  | fuel + 1, value =>
    if value = [] then .ok ()
    else do
      let count ← validatedUtf8PrefixLength value
      validateUtf8Loop fuel (value.drop count)

/-- The bytes are text. -/
def validateUtf8Impl (value : Bytes) : Except Exn Unit :=
  validateUtf8Loop value.length value

/-! ## Writing -/

/-- A lowercase hexadecimal digit. -/
def hexByte (n : UInt8) : UInt8 := if n < 10 then 48 + n else 87 + n

/-- The escape of a byte that needs one. -/
def escapeByte (b : UInt8) : Bytes :=
  if b = 0x22 then ascii "\\\""
  else if b = 0x5C then ascii "\\\\"
  else if b = 0x08 then ascii "\\b"
  else if b = 0x0C then ascii "\\f"
  else if b = 0x0A then ascii "\\n"
  else if b = 0x0D then ascii "\\r"
  else if b = 0x09 then ascii "\\t"
  else if b < 0x20 then ascii "\\u00" ++ [hexByte (b >>> 4), hexByte (b &&& 0x0F)]
  else [b]

/-- Runs of plain bytes are copied whole. -/
def escapeLoop : ℕ → Bytes → Bytes
  | 0, _ => []
  | fuel + 1, value =>
    match value with
    | [] => []
    | b :: rest =>
      if !needsJsonEscape b then
        value.take (unescapedPrefix value)
          ++ escapeLoop fuel (value.drop (unescapedPrefix value))
      else escapeByte b ++ escapeLoop fuel rest

/-- A string in quotes. -/
def appendEscaped (value : Bytes) : Except Exn Bytes := do
  validateUtf8Impl value
  .ok ([0x22] ++ escapeLoop value.length value ++ [0x22])

/-- Two neighbours of the sorted members have the same name. -/
def hasAdjacentEqual {α : Type} : List (Bytes × α) → Bool
  | [] => false
  | [_] => false
  | m :: n :: members => m.1 = n.1 || hasAdjacentEqual (n :: members)

/-- The text of the members in their sorted order, given what writing each
value gives. -/
def appendFields : List (Bytes × Except Exn Bytes) → Bool → Except Exn Bytes
  | [], _ => .ok []
  | (name, value) :: fields, first => do
    let name ← appendEscaped name
    let value ← value
    let rest ← appendFields fields false
    .ok ((if first then [] else [0x2C]) ++ name ++ [0x3A] ++ value ++ rest)

/-- An object: its members are sorted first, and equal neighbours are
rejected. -/
def appendObject (fields : List (Bytes × Except Exn Bytes)) : Except Exn Bytes :=
  let fields := sortMembers fields
  if hasAdjacentEqual fields then
    .error (.invalidArgument "Program canonical JSON rejects duplicate object member names")
  else do
    let body ← appendFields fields true
    .ok ([0x7B] ++ body ++ [0x7D])

variable (appendFloat : UInt64 → Except Exn Bytes)

mutual

/-- The canonical text of a value. -/
def appendValue : Json Bytes → Except Exn Bytes
  | .null => .ok (ascii "null")
  | .bool b => .ok (if b then ascii "true" else ascii "false")
  | .uint n => .ok (decimalText n.toNat)
  | .sint n =>
    .ok (if 0 ≤ n then decimalText n.toInt.toNat else [0x2D] ++ decimalText n.toInt.natAbs)
  | .real bits => appendFloat bits
  | .str s => appendEscaped s
  | .arr items => do
    let body ← appendItems items true
    .ok ([0x5B] ++ body ++ [0x5D])
  | .obj members => appendObject (memberTexts members)

def appendItems : List (Json Bytes) → Bool → Except Exn Bytes
  | [], _ => .ok []
  | item :: items, first => do
    let text ← appendValue item
    let rest ← appendItems items false
    .ok ((if first then [] else [0x2C]) ++ text ++ rest)

/-- What writing the value of each member gives. -/
def memberTexts :
    List (Bytes × Json Bytes) → List (Bytes × Except Exn Bytes)
  | [] => []
  | (name, item) :: members => (name, appendValue item) :: memberTexts members

end

/-- **The canonical bytes of a JSON value.** -/
def canonicalJsonBytes (value : Json Bytes) : Except Exn Bytes := do
  let _ ← validateJsonValueLimits value 1
  appendValue appendFloat value

end NeoGraph.CanonicalJson
