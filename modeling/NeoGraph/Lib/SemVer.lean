import NeoGraph.Lib.Ascii
import NeoGraph.Lib.Lists

/-!
# Semantic versions

The grammar of Semantic Versioning 2.0.0 over bytes: a version is
MAJOR.MINOR.PATCH, then optionally a hyphen and dot-separated pre-release
identifiers, then optionally a plus sign and dot-separated build
identifiers. The parts are lists here, and an empty list is a part that is
left out, with its sign.
-/

namespace NeoGraph.SemVer

open List

def isLetter (b : UInt8) : Bool := (0x41 ≤ b && b ≤ 0x5A) || (0x61 ≤ b && b ≤ 0x7A)

/-- A number without leading zeros. -/
structure NumericIdentifier (identifier : Bytes) : Prop where
  nonempty : identifier ≠ []
  digits : ∀ b ∈ identifier, isDigit b = true
  no_leading_zero : identifier.head? = some 0x30 → identifier = [0x30]

/-- Letters, digits and hyphens. -/
structure BuildIdentifier (identifier : Bytes) : Prop where
  nonempty : identifier ≠ []
  letters : ∀ b ∈ identifier, isDigit b = true ∨ isLetter b = true ∨ b = 0x2D

/-- Letters, digits and hyphens, and a number if there are only digits. -/
structure PrereleaseIdentifier (identifier : Bytes) : Prop
    extends BuildIdentifier identifier where
  numeric : (∀ b ∈ identifier, isDigit b = true) → NumericIdentifier identifier

/-- Parts separated by dots. -/
def dotted (parts : List Bytes) : Bytes := [0x2E].intercalate parts

/-- A part with its sign, or nothing. -/
def signed (sign : UInt8) (parts : List Bytes) : Bytes :=
  if parts = [] then [] else sign :: dotted parts

/-- **The grammar of versions.** -/
def IsVersion (value : Bytes) : Prop :=
  ∃ major minor patch, ∃ prerelease build : List Bytes,
    NumericIdentifier major ∧ NumericIdentifier minor ∧ NumericIdentifier patch
      ∧ (∀ identifier ∈ prerelease, PrereleaseIdentifier identifier)
      ∧ (∀ identifier ∈ build, BuildIdentifier identifier)
      ∧ value = dotted [major, minor, patch] ++ signed 0x2D prerelease ++ signed 0x2B build

/-! ## Joining and splitting -/

theorem dotted_singleton (part : Bytes) : dotted [part] = part := append_nil part

variable {parts : List Bytes}

theorem dotted_cons (part : Bytes) (h : parts ≠ []) :
    dotted (part :: parts) = part ++ 0x2E :: dotted parts := by
  cases parts with
  | nil => exact absurd rfl h
  | cons next parts => rfl

theorem signed_of_ne_nil (sign : UInt8) (h : parts ≠ []) :
    signed sign parts = sign :: dotted parts := if_neg h

theorem mem_dotted {b : UInt8} (h : b ∈ dotted parts) : b = 0x2E ∨ ∃ part ∈ parts, b ∈ part := by
  induction parts with
  | nil => exact absurd h not_mem_nil
  | cons part parts ih =>
    by_cases hn : parts = []
    · subst hn
      rw [dotted_singleton] at h
      exact .inr ⟨part, mem_cons_self, h⟩
    · rw [dotted_cons part hn, mem_append, mem_cons] at h
      obtain h | h | h := h
      · exact .inr ⟨part, mem_cons_self, h⟩
      · exact .inl h
      · obtain h | ⟨next, hnx, h⟩ := ih h
        · exact .inl h
        · exact .inr ⟨next, mem_cons_of_mem part hnx, h⟩

/-- A list of parts, each with a property, separated by dots. -/
def DottedList (P : Bytes → Prop) (value : Bytes) : Prop :=
  ∃ parts, parts ≠ [] ∧ (∀ part ∈ parts, P part) ∧ value = dotted parts

section Split

variable {P : Bytes → Prop} (hP : ∀ part, P part → (0x2E : UInt8) ∉ part)
include hP

variable {value : Bytes}

omit hP in
/-- A text without a dot is one part. -/
theorem dottedList_of_idxOf?_none (hdot : value.idxOf? 0x2E = none) :
    DottedList P value ↔ P value := by
  constructor
  · rintro ⟨parts, hne, hpts, rfl⟩
    obtain ⟨part, parts, rfl⟩ := exists_cons_of_ne_nil hne
    by_cases hn : parts = []
    · subst hn
      rw [dotted_singleton]
      exact hpts part mem_cons_self
    · -- a second part would come after a dot
      rw [dotted_cons part hn, idxOf?_eq_none_iff] at hdot
      exact absurd (mem_append_right part mem_cons_self) hdot
  · intro h
    exact ⟨[value], cons_ne_nil _ _, by simpa using h, (dotted_singleton value).symm⟩

/-- The first part ends at the first dot. -/
theorem dottedList_of_idxOf?_some {dot : ℕ} (hdot : value.idxOf? 0x2E = some dot) :
    DottedList P value ↔ P (value.take dot) ∧ DottedList P (value.drop (dot + 1)) := by
  constructor
  · rintro ⟨parts, hne, hpts, hv⟩
    obtain ⟨part, parts, rfl⟩ := exists_cons_of_ne_nil hne
    have hpt := hpts part mem_cons_self
    by_cases hn : parts = []
    · rw [hn, dotted_singleton] at hv
      rw [hv, idxOf?_eq_none_iff.mpr (hP part hpt)] at hdot
      cases hdot
    · rw [dotted_cons part hn] at hv
      rw [hv, idxOf?_append_cons (hP part hpt)] at hdot
      cases hdot
      rw [hv, take_left, drop_length_add_append]
      exact ⟨hpt, parts, hn, fun p hp => hpts p (mem_cons_of_mem part hp), rfl⟩
  · rintro ⟨hpt, parts, hne, hpts, hdr⟩
    refine ⟨value.take dot :: parts, cons_ne_nil _ _,
      forall_mem_cons.mpr ⟨hpt, hpts⟩, ?_⟩
    rw [dotted_cons _ hne, ← hdr]
    exact (eq_append_of_idxOf? hdot).1

end Split

end NeoGraph.SemVer
