import Mathlib

/-!
# Lines of a byte stream

A byte stream is read as lines that end with CRLF, LF or CR, after one
leading UTF-8 byte order mark has been stripped. `splitLines` says this of
a whole stream; bytes after the last line end belong to no line.

`LineScanner` is the incremental reading: it takes one byte at a time and
remembers the bytes of the unfinished line and whether an LF that comes
next belongs to a CR already seen. `scan_lines` says that it finds the
same lines, and since it is a fold it does so however the stream is cut.
-/

namespace LineStream

open List

/-- Carriage return. -/
def cr : UInt8 := 13

/-- Line feed. -/
def lf : UInt8 := 10

/-- The UTF-8 byte order mark. -/
def byteOrderMark : List UInt8 := [0xEF, 0xBB, 0xBF]

/-- A byte that ends a line. -/
def isLineEnd (b : UInt8) : Bool := b = cr || b = lf

/-! ## Whole streams -/

/-- The lines of a stream, given the bytes of its first line that have
already been read. -/
def splitLinesFrom (line : List UInt8) : List UInt8 → List (List UInt8)
  | [] => []
  | [b] => if isLineEnd b then [line] else []
  | b :: c :: rest =>
    if b = cr then
      line :: (if c = lf then splitLinesFrom [] rest else splitLinesFrom [] (c :: rest))
    else if b = lf then line :: splitLinesFrom [] (c :: rest)
    else splitLinesFrom (line ++ [b]) (c :: rest)

/-- **The lines of a stream.** -/
def splitLines (bytes : List UInt8) : List (List UInt8) := splitLinesFrom [] bytes

/-- The stream without one leading byte order mark. -/
def stripByteOrderMark (bytes : List UInt8) : List UInt8 :=
  if byteOrderMark.isPrefixOf bytes then bytes.drop byteOrderMark.length else bytes

theorem stripByteOrderMark_append (rest : List UInt8) :
    stripByteOrderMark (byteOrderMark ++ rest) = rest := by
  unfold stripByteOrderMark
  rw [if_pos (List.isPrefixOf_iff_prefix.mpr (prefix_append _ _)), drop_left]

variable {held missing : List UInt8}

/-- A stream that leaves the byte order mark at some byte keeps all of its
bytes. -/
theorem stripByteOrderMark_of_mismatch {m b : UInt8}
    (hmk : byteOrderMark = held ++ m :: missing) (hb : b ≠ m) (rest : List UInt8) :
    stripByteOrderMark (held ++ b :: rest) = held ++ b :: rest := by
  unfold stripByteOrderMark
  refine if_neg fun hp => hb ?_
  have hp := isPrefixOf_iff_prefix.mp hp
  rw [hmk, prefix_append_right_inj, cons_prefix_cons] at hp
  exact hp.1.symm

/-- A part of a byte order mark is not stripped. -/
theorem stripByteOrderMark_of_proper
    (hmk : byteOrderMark = held ++ missing) (hne : missing ≠ []) :
    stripByteOrderMark held = held := by
  unfold stripByteOrderMark
  refine if_neg fun hp => ?_
  have hl := (List.isPrefixOf_iff_prefix.mp hp).length_le
  rw [hmk, length_append] at hl
  have := length_pos_iff.mpr hne
  omega

/-! ## Byte by byte -/

/-- The state of an incremental reading of lines. -/
structure LineScanner where
  /-- The lines read so far. -/
  lines : List (List UInt8)
  /-- The bytes of the unfinished line. -/
  raw : List UInt8
  /-- An LF that comes next ends no line. -/
  skipLf : Bool

namespace LineScanner

/-- Nothing read yet. -/
def start : LineScanner := ⟨[], [], false⟩

/-- One more byte. -/
def step (s : LineScanner) (b : UInt8) : LineScanner :=
  if s.skipLf && b = lf then { s with skipLf := false }
  else if isLineEnd b then ⟨s.lines ++ [s.raw], [], b = cr⟩
  else ⟨s.lines, s.raw ++ [b], false⟩

/-- More bytes. -/
def scan (s : LineScanner) (bytes : List UInt8) : LineScanner := bytes.foldl step s

theorem scan_append (s : LineScanner) (a b : List UInt8) :
    s.scan (a ++ b) = (s.scan a).scan b := foldl_append

/-- The stream after an LF that ends no line. -/
def dropLf : List UInt8 → List UInt8
  | [] => []
  | b :: rest => if b = lf then rest else b :: rest

/-- **The scanner finds the lines of the stream**, from the middle of a
line and right after a CR. -/
theorem scan_lines (bytes : List UInt8) :
    (∀ lines raw, (scan ⟨lines, raw, false⟩ bytes).lines = lines ++ splitLinesFrom raw bytes)
      ∧ ∀ lines, (scan ⟨lines, [], true⟩ bytes).lines
          = lines ++ splitLinesFrom [] (dropLf bytes) := by
  induction bytes with
  | nil => exact ⟨fun lines raw => (append_nil lines).symm,
      fun lines => (append_nil lines).symm⟩
  | cons b rest ih =>
    have hf : ∀ lines raw, (scan ⟨lines, raw, false⟩ (b :: rest)).lines
        = lines ++ splitLinesFrom raw (b :: rest) := by
      intro lines raw
      show (scan (step ⟨lines, raw, false⟩ b) rest).lines = _
      by_cases hcr : b = cr
      · have hs : step ⟨lines, raw, false⟩ b = ⟨lines ++ [raw], [], true⟩ := by
          simp [step, isLineEnd, hcr]
        rw [hs, ih.2, append_assoc]
        cases rest with
        | nil => simp [splitLinesFrom, dropLf, isLineEnd, hcr]
        | cons c rest =>
          rw [splitLinesFrom, if_pos hcr, dropLf]
          split <;> rfl
      by_cases hlf : b = lf
      · have hs : step ⟨lines, raw, false⟩ b = ⟨lines ++ [raw], [], false⟩ := by
          simp [step, isLineEnd, hlf, lf, cr]
        rw [hs, ih.1, append_assoc]
        cases rest with
        | nil => simp [splitLinesFrom, isLineEnd, hlf]
        | cons c rest =>
          rw [splitLinesFrom, if_neg hcr, if_pos hlf]
          rfl
      · have hs : step ⟨lines, raw, false⟩ b = ⟨lines, raw ++ [b], false⟩ := by
          simp [step, isLineEnd, hcr, hlf]
        rw [hs, ih.1]
        cases rest with
        | nil => simp [splitLinesFrom, isLineEnd, hcr, hlf]
        | cons c rest => rw [splitLinesFrom, if_neg hcr, if_neg hlf]
    refine ⟨hf, fun lines => ?_⟩
    by_cases hlf : b = lf
    · have hs : step ⟨lines, [], true⟩ b = ⟨lines, [], false⟩ := by simp [step, hlf]
      show (scan (step ⟨lines, [], true⟩ b) rest).lines = _
      rw [hs, ih.1, dropLf, if_pos hlf]
    · -- any other byte is read as if no CR had come before it
      have hs : step ⟨lines, [], true⟩ b = step ⟨lines, [], false⟩ b := by simp [step, hlf]
      show (scan (step ⟨lines, [], true⟩ b) rest).lines = _
      rw [hs, dropLf, if_neg hlf]
      exact hf lines []

theorem start_scan_lines (bytes : List UInt8) : (start.scan bytes).lines = splitLines bytes :=
  ((scan_lines bytes).1 [] []).trans (nil_append _)

/-- Bytes that end no line extend the unfinished one. -/
theorem scan_of_not_lineEnd (lines : List (List UInt8)) (raw bytes : List UInt8)
    (h : ∀ b ∈ bytes, isLineEnd b = false) :
    scan ⟨lines, raw, false⟩ bytes = ⟨lines, raw ++ bytes, false⟩ := by
  induction bytes generalizing raw with
  | nil => rw [append_nil]; rfl
  | cons b rest ih =>
    have hs : step ⟨lines, raw, false⟩ b = ⟨lines, raw ++ [b], false⟩ := by
      simp [step, h b mem_cons_self]
    show scan (step ⟨lines, raw, false⟩ b) rest = _
    rw [hs, ih (raw ++ [b]) (fun c hc => h c (mem_cons_of_mem b hc)), append_assoc]
    rfl

end LineScanner

end LineStream
