import Mathlib
import NeoGraph.Compiler.Topology

/-!
# Numbers, names and slots

The values a topology document is made of: integers, which a document
library keeps signed or unsigned, floating-point numbers, lists of names,
and the slots of a join.

A join waits for slots. A slot is a name or `{"any_of": [names]}`; all slots
of a join are disjoint, and they are kept in the order of their first name.
A join whose slots are single names is a barrier.
-/

namespace NeoGraph.Compiler

/-! ## Numbers -/

/-- The conversions of floating-point numbers, on the bits of doubles.
Narrowing to single precision rounds to a number that is kept by narrowing
again. -/
structure FloatOps where
  ofUInt64 : UInt64 → UInt64
  ofInt64 : Int64 → UInt64
  /-- The nearest single-precision number. -/
  toFloat : UInt64 → UInt64
  toFloat_toFloat : ∀ bits, toFloat (toFloat bits) = toFloat bits
  toFloat_two : toFloat 0x4000000000000000 = 0x4000000000000000

/-- The bits of 2.0. -/
def two : UInt64 := 0x4000000000000000

/-- The number is between 1.0 and 10.0. -/
def betweenOneAndTen (bits : UInt64) : Bool :=
  0x3ff0000000000000 ≤ bits && bits ≤ 0x4024000000000000

/-- The number is finite and in the range of single precision. -/
def withinFloatRange (bits : UInt64) : Bool :=
  bits &&& 0x7fffffffffffffff ≤ 0x47efffffe0000000

/-- The value of an integer, as 64 signed bits. -/
def int64? : Document → Option ℤ
  | .uint n => some n.toInt64.toInt
  | .sint n => some n.toInt
  | _ => none

/-- The value of an integer. -/
def int? : Document → Option ℤ
  | .uint n => some n.toNat
  | .sint n => some n.toInt
  | _ => none

/-- The value of a number, as a double. -/
def double? (f : FloatOps) : Document → Option UInt64
  | .uint n => some (f.ofUInt64 n)
  | .sint n => some (f.ofInt64 n)
  | .real bits => some bits
  | _ => none

/-- An integer, as the compiler prints it. -/
def ofInt (n : ℤ) : Document := .sint (Int64.ofInt n)

/-! ## Names -/

/-- Text. -/
def string? : Document → Option String
  | .str s => some s
  | _ => none

/-- A set of names, in order. -/
def printNames (names : Finset String) : Document :=
  .arr ((names.sort (· ≤ ·)).map .str)

/-! ## Slots -/

/-- The first name of a slot; a slot without names comes first. -/
def slotKey (slot : Finset String) : WithBot String :=
  match slot.sort (· ≤ ·) with
  | [] => ⊥
  | name :: _ => name

/-- Slots in the order of their first names. -/
def canonicalSlots (slots : List (Finset String)) : List (Finset String) :=
  slots.insertionSort fun a b => slotKey a ≤ slotKey b

/-- All slots are single names. -/
def legacySlots (slots : List (Finset String)) : Bool := slots.all fun slot => slot.card = 1

/-- A slot, as it is written. -/
def printSlot (slot : Finset String) : Document :=
  match slot.sort (· ≤ ·) with
  | [name] => .str name
  | names => .obj [("any_of", .arr (names.map .str))]

/-- The slots of a join, as they are written. -/
def printWaitFor (slots : List (Finset String)) : Document :=
  .arr ((canonicalSlots slots).map printSlot)

/-- Some slot is written with alternatives. -/
def usesSlotSyntax : Document → Bool
  | .arr items => items.any Json.isObject
  | _ => false

/-- A finding about a slot. -/
def slotFinding (display pointer message : String) : Checked Unit :=
  .report "GC_BARRIER" pointer (display ++ ": " ++ message)

/-- The alternatives of a slot, which are distinct names. -/
def readAlternatives (display pointer : String) :
    Finset String → List Document → Checked (Finset String × Bool)
  | slot, [] => pure (slot, true)
  | slot, .str s :: rest =>
    if s.isEmpty then do
      slotFinding display pointer "'any_of' alternatives must be nonempty node names"
      let (slot, _) ← readAlternatives display pointer slot rest
      pure (slot, false)
    else if s ∈ slot then do
      slotFinding display pointer ("'" ++ s ++ "' is repeated in one slot")
      let (slot, _) ← readAlternatives display pointer slot rest
      pure (slot, false)
    else readAlternatives display pointer (insert s slot) rest
  | slot, v :: rest => do
    slotFinding display pointer
      (if v.contains "any_of" then "'any_of' slots cannot be nested"
       else "'any_of' alternatives must be nonempty node names")
    let (slot, _) ← readAlternatives display pointer slot rest
    pure (slot, false)

/-- One slot. -/
def readSlot (display pointer : String) : Document → Checked (Option (Finset String))
  | .str s =>
    if s.isEmpty then do
      slotFinding display pointer "wait_for entries must not be empty"
      pure none
    else pure (some {s})
  | .obj members => do
    let others := members.filter fun m => m.1 ≠ "any_of"
    let _ ← Checked.collect others fun m => do
      slotFinding display pointer ("a wait_for slot holds only 'any_of', not '" ++ m.1 ++ "'")
      pure (none : Option Unit)
    match members.lookup "any_of" with
    | some (.arr (v :: items)) => do
      let (slot, shaped) ← readAlternatives display pointer ∅ (v :: items)
      pure (if shaped && others.isEmpty then some slot else none)
    | _ => do
      slotFinding display pointer "'any_of' must be a nonempty array of node names"
      pure none
  | _ => do
    slotFinding display pointer
      "wait_for entries must be node names or \x7b\"any_of\": [node names]\x7d"
    pure none

/-- The slots of a list; a name is in one slot only. -/
def readSlots (display pointer : String) :
    ℕ → Finset String → List Document → Checked (List (Finset String))
  | _, _, [] => pure []
  | index, seen, entry :: rest => do
    let place := pointer ++ "/wait_for/" ++ toString index
    let slot ← readSlot display place entry
    match slot with
    | none => readSlots display pointer (index + 1) seen rest
    | some slot => do
      let _ ← Checked.collect (slot.sort (· ≤ ·)) fun source => do
        Checked.ensure (source ∉ seen) "GC_BARRIER" place
          (display ++ ": '" ++ source ++ "' appears in more than one slot")
        pure (none : Option Unit)
      let slots ← readSlots display pointer (index + 1) (seen ∪ slot) rest
      pure (slot :: slots)

/-- The slots a strict document declares. -/
def parseWaitForSlots (waitFor : Document) (display pointer : String) :
    Checked (Option (List (Finset String))) :=
  let read := readSlots display pointer 0 ∅ waitFor.elements
  if read.diagnostics.isEmpty then
    match read.value with
    | [] => do
      slotFinding display pointer "'wait_for' is empty"
      pure none
    | slots => pure (some (canonicalSlots slots))
  else ⟨read.diagnostics, none⟩

/-- How deep a value may be nested. -/
def maxParseDepth : ℕ := 256

end NeoGraph.Compiler
