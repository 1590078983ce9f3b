import NeoGraph.Lib.SemVer

/-!
# Semantic versions

A version is checked by taking it apart from the right: what follows the
first plus sign is the build, what follows the first hyphen before it the
pre-release, and the rest has to be three numbers between two dots. A
hyphen may stand in a build or a pre-release, so the order of the two
searches matters; neither sign may stand in what is left.

The check accepts exactly the versions of the grammar
(`isSemanticVersion_iff`).
-/

namespace NeoGraph.CanonicalJson

open SemVer List

def asciiDigit (value : UInt8) : Bool := 0x30 ≤ value && value ≤ 0x39

def asciiAlnum (value : UInt8) : Bool :=
  asciiDigit value || (0x41 ≤ value && value ≤ 0x5A) || (0x61 ≤ value && value ≤ 0x7A)

/-- Digits without a leading zero. -/
def validNumericIdentifier (value : Bytes) : Bool :=
  if value = [] || (1 < value.length && value.head? = some 0x30) then false
  else value.all asciiDigit

/-- An identifier of a prerelease or of a build. -/
def validIdentifier (value : Bytes) (prerelease : Bool) : Bool :=
  if value = [] then false
  else
    let numeric := value.all asciiDigit
    if prerelease && numeric && 1 < value.length && value.head? = some 0x30 then false
    else value.all fun c => asciiAlnum c || c = 0x2D

/-- The loop over identifiers, each up to the next dot. -/
def validDotLoop (prerelease : Bool) : ℕ → Bytes → Bool
  | 0, _ => false
  | fuel + 1, value =>
    match value.idxOf? 0x2E with
    | none => validIdentifier value prerelease
    | some dot =>
      if !validIdentifier (value.take dot) prerelease then false
      else validDotLoop prerelease fuel (value.drop (dot + 1))

/-- Every turn of the loop drops a dot, so there are no more turns than the
text has bytes, and one. -/
def validDotIdentifiers (value : Bytes) (prerelease : Bool) : Bool :=
  if value = [] then false else validDotLoop prerelease (value.length + 1) value

/-- The position of a byte, from a position on. -/
def findFrom (value : Bytes) (b : UInt8) (start : ℕ) : Option ℕ :=
  ((value.drop start).idxOf? b).map (start + ·)

/-- What is left of a version: three numbers between two dots. -/
def isCoreVersion (value : Bytes) : Bool :=
  match value.idxOf? 0x2E with
  | none => false
  | some first =>
    match findFrom value 0x2E (first + 1) with
    | none => false
    | some second =>
      if (findFrom value 0x2E (second + 1)).isSome then false
      else validNumericIdentifier (value.take first)
        && validNumericIdentifier ((value.drop (first + 1)).take (second - first - 1))
        && validNumericIdentifier (value.drop (second + 1))

/-- A version without its build. -/
def isReleaseVersion (value : Bytes) : Bool :=
  match value.idxOf? 0x2D with
  | none => isCoreVersion value
  | some dash =>
    if !validDotIdentifiers (value.drop (dash + 1)) true then false
    else isCoreVersion (value.take dash)

/-- A version: a core, perhaps a prerelease, perhaps a build. -/
def isSemanticVersion (value : Bytes) : Bool :=
  match value.idxOf? 0x2B with
  | none => isReleaseVersion value
  | some plus =>
    if !validDotIdentifiers (value.drop (plus + 1)) false then false
    else isReleaseVersion (value.take plus)

/-! ## Identifiers -/

theorem asciiAlnum_or_hyphen {c : UInt8} : (asciiAlnum c || decide (c = 0x2D)) = true
    ↔ isDigit c = true ∨ isLetter c = true ∨ c = 0x2D := by
  unfold asciiAlnum isLetter
  rw [Bool.or_eq_true, Bool.or_assoc, Bool.or_eq_true, decide_eq_true_eq, or_assoc]
  exact Iff.rfl

variable {value : Bytes}

/-- A number of more than one digit may not begin with a zero. -/
theorem leadingZero_iff : (1 < value.length ∧ value.head? = some 0x30)
      ↔ ¬(value.head? = some 0x30 → value = [0x30]) := by
  constructor
  · rintro ⟨hl, hhd⟩ h
    rw [h hhd] at hl
    exact absurd hl (Nat.lt_irrefl 1)
  · intro h
    obtain ⟨hhd, hne⟩ := Classical.not_imp.mp h
    refine ⟨?_, hhd⟩
    obtain ⟨rest, rfl⟩ := head?_eq_some_iff.mp hhd
    cases rest with
    | nil => exact absurd rfl hne
    | cons b rest => exact Nat.succ_lt_succ (Nat.succ_pos _)

theorem validNumericIdentifier_iff :
    validNumericIdentifier value = true ↔ NumericIdentifier value := by
  unfold validNumericIdentifier
  constructor
  · intro h
    split at h
    · cases h
    · rename_i hc
      simp only [Bool.or_eq_true, Bool.and_eq_true, decide_eq_true_eq, not_or] at hc
      exact ⟨hc.1, List.all_eq_true.mp h, not_not.mp (mt leadingZero_iff.mpr hc.2)⟩
  · rintro ⟨hne, hdig, hz⟩
    rw [if_neg]
    · exact List.all_eq_true.mpr hdig
    · simp only [Bool.or_eq_true, Bool.and_eq_true, decide_eq_true_eq, not_or]
      exact ⟨hne, mt leadingZero_iff.mp (not_not.mpr hz)⟩

theorem validIdentifier_build_iff : validIdentifier value false = true ↔ BuildIdentifier value := by
  unfold validIdentifier
  simp only [Bool.false_and, if_neg Bool.false_ne_true]
  constructor
  · intro h
    split at h
    · cases h
    · rename_i hne
      exact ⟨hne, fun b hb => asciiAlnum_or_hyphen.mp (all_eq_true.mp h b hb)⟩
  · rintro ⟨hne, hletters⟩
    rw [if_neg hne]
    exact all_eq_true.mpr fun b hb => asciiAlnum_or_hyphen.mpr (hletters b hb)

/-- The identifiers of a prerelease. -/
theorem validIdentifier_prerelease_iff :
    validIdentifier value true = true ↔ PrereleaseIdentifier value := by
  have hn : value.all asciiDigit = true ↔ ∀ b ∈ value, isDigit b = true := all_eq_true
  rw [show PrereleaseIdentifier value ↔ BuildIdentifier value
      ∧ ((∀ b ∈ value, isDigit b = true) → NumericIdentifier value) from
    ⟨fun h => ⟨h.toBuildIdentifier, h.numeric⟩, fun h => ⟨h.1, h.2⟩⟩, ← validIdentifier_build_iff]
  unfold validIdentifier
  simp only [Bool.true_and, Bool.false_and, if_neg Bool.false_ne_true]
  by_cases hne : value = []
  · rw [if_pos hne, if_pos hne]
    exact ⟨fun h => absurd h Bool.false_ne_true, fun h => absurd h.1 Bool.false_ne_true⟩
  rw [if_neg hne, if_neg hne]
  by_cases hdig : value.all asciiDigit = true
  · rw [hdig, Bool.true_and]
    by_cases hz : value.head? = some 0x30 → value = [0x30]
    · rw [if_neg]
      · exact ⟨fun h => ⟨h, fun ha => ⟨hne, ha, hz⟩⟩, fun h => h.1⟩
      · simp only [Bool.and_eq_true, decide_eq_true_eq]
        exact mt leadingZero_iff.mp (not_not.mpr hz)
    · rw [if_pos]
      · exact ⟨fun h => absurd h Bool.false_ne_true,
          fun h => absurd (h.2 (hn.mp hdig)).no_leading_zero hz⟩
      · simp only [Bool.and_eq_true, decide_eq_true_eq]
        exact leadingZero_iff.mpr hz
  · rw [if_neg (by simp [hdig])]
    exact ⟨fun h => ⟨h, fun ha => absurd (hn.mpr ha) hdig⟩, fun h => h.1⟩

/-! ## Dots -/

variable {b : UInt8} {prerelease : Bool}

theorem notMem_of_validIdentifier (h : validIdentifier value prerelease = true)
    (hb : (asciiAlnum b || decide (b = 0x2D)) = false) : b ∉ value := by
  have hletters : BuildIdentifier value := by
    cases prerelease with
    | false => exact validIdentifier_build_iff.mp h
    | true => exact (validIdentifier_prerelease_iff.mp h).toBuildIdentifier
  intro hm
  exact absurd (asciiAlnum_or_hyphen.mpr (hletters.letters b hm)) (by simp [hb])

/-- The loop accepts the parts one by one. -/
theorem validDotLoop_iff {fuel : ℕ} (hfu : value.length < fuel) :
    validDotLoop prerelease fuel value = true
      ↔ DottedList (fun part => validIdentifier part prerelease = true) value := by
  have hnotMem : ∀ part, validIdentifier part prerelease = true → (0x2E : UInt8) ∉ part :=
    fun part h => notMem_of_validIdentifier h (by decide)
  induction fuel generalizing value with
  | zero => exact absurd hfu (Nat.not_lt_zero _)
  | succ fuel ih =>
    rw [validDotLoop]
    cases hdot : value.idxOf? 0x2E with
    | none =>
      exact (dottedList_of_idxOf?_none (P := fun part => validIdentifier part prerelease = true)
        hdot).symm
    | some dot =>
      have hl := congrArg length (eq_append_of_idxOf? hdot).1
      rw [length_append, length_cons] at hl
      have ih := @ih (value.drop (dot + 1)) (by omega)
      rw [dottedList_of_idxOf?_some hnotMem hdot]
      dsimp only
      by_cases hv : validIdentifier (value.take dot) prerelease = true
      · rw [if_neg (by simp [hv])]
        exact ⟨fun h => ⟨hv, ih.mp h⟩, fun h => ih.mpr h.2⟩
      · rw [if_pos (by simpa using hv)]
        exact iff_of_false Bool.false_ne_true fun h => hv h.1

theorem validDotIdentifiers_iff : validDotIdentifiers value prerelease = true
      ↔ DottedList (fun part => validIdentifier part prerelease = true) value := by
  unfold validDotIdentifiers
  rw [← validDotLoop_iff (Nat.lt_succ_self _)]
  by_cases hn : value = []
  · subst hn
    exact iff_of_false Bool.false_ne_true (by cases prerelease <;> decide)
  · rw [if_neg hn]

/-! ## The three numbers -/

theorem notMem_of_numericIdentifier (h : NumericIdentifier value) (hb : isDigit b = false) :
    b ∉ value := fun hm =>
  absurd (h.digits b hm) (by simp [hb])

/-- A core is three numbers with dots between them. -/
theorem isCoreVersion_iff : isCoreVersion value = true
    ↔ ∃ major minor patch, NumericIdentifier major ∧ NumericIdentifier minor
      ∧ NumericIdentifier patch ∧ value = dotted [major, minor, patch] := by
  have hdots : ∀ major minor patch : Bytes,
      dotted [major, minor, patch] = major ++ 0x2E :: (minor ++ 0x2E :: patch) := by
    intro major minor patch
    rw [dotted_cons _ (cons_ne_nil _ _), dotted_cons _ (cons_ne_nil _ _), dotted_singleton]
  have hdot : ∀ {part}, NumericIdentifier part → (0x2E : UInt8) ∉ part := fun h =>
    notMem_of_numericIdentifier h (by decide)
  unfold isCoreVersion findFrom
  constructor
  · intro h
    cases hf : value.idxOf? 0x2E with
    | none =>
      rw [hf] at h
      cases h
    | some first =>
      rw [hf] at h
      dsimp only at h
      cases hsec : (value.drop (first + 1)).idxOf? 0x2E with
      | none =>
        rw [hsec] at h
        cases h
      | some second =>
        rw [hsec] at h
        dsimp only [Option.map_some] at h
        split at h
        · cases h
        rw [Bool.and_eq_true, Bool.and_eq_true, validNumericIdentifier_iff,
          validNumericIdentifier_iff, validNumericIdentifier_iff,
          show first + 1 + second - first - 1 = second by omega] at h
        have hdr : value.drop (first + 1 + second + 1)
            = (value.drop (first + 1)).drop (second + 1) := by
          rw [drop_drop, Nat.add_assoc (first + 1)]
        refine ⟨_, _, _, h.1.1, h.1.2, h.2, ?_⟩
        rw [hdots, hdr, ← (eq_append_of_idxOf? hsec).1]
        exact (eq_append_of_idxOf? hf).1
  · rintro ⟨major, minor, patch, hm, hmn, hp, rfl⟩
    have hsec : (dotted [major, minor, patch]).drop (major.length + 1)
        = minor ++ 0x2E :: patch := by
      rw [hdots, drop_length_add_append]
      rfl
    have ht : (dotted [major, minor, patch]).drop (major.length + 1 + minor.length + 1)
        = patch := by
      rw [Nat.add_assoc (major.length + 1), ← drop_drop, hsec, drop_length_add_append]
      rfl
    rw [show (dotted [major, minor, patch]).idxOf? 0x2E = some major.length by
      rw [hdots, idxOf?_append_cons (hdot hm)]]
    dsimp only
    rw [hsec, idxOf?_append_cons (hdot hmn)]
    dsimp only [Option.map_some]
    rw [ht, idxOf?_eq_none_iff.mpr (hdot hp), if_neg (by simp),
      show major.length + 1 + minor.length - major.length - 1 = minor.length by omega,
      take_left, hdots, take_left, validNumericIdentifier_iff.mpr hm,
      validNumericIdentifier_iff.mpr hmn, validNumericIdentifier_iff.mpr hp]
    rfl

/-! ## The signs -/

/-- **A part after the first sign.** What stands before it may not hold the
sign itself; what follows it may. -/
theorem signed_iff {sign : UInt8} {rest : Bytes → Bool}
    (hr : ∀ head, rest head = true → sign ∉ head) :
    (match value.idxOf? sign with
      | none => rest value
      | some i => if !validDotIdentifiers (value.drop (i + 1)) prerelease then false
        else rest (value.take i)) = true
      ↔ ∃ head parts, rest head = true
        ∧ (∀ part ∈ parts, validIdentifier part prerelease = true)
        ∧ value = head ++ signed sign parts := by
  constructor
  · intro h
    cases hs : value.idxOf? sign with
    | none =>
      rw [hs] at h
      exact ⟨value, [], h, forall_mem_nil _, (append_nil value).symm⟩
    | some i =>
      rw [hs] at h
      dsimp only at h
      split at h
      · cases h
      rename_i hv
      rw [Bool.not_eq_true', Bool.not_eq_false, validDotIdentifiers_iff] at hv
      obtain ⟨parts, hne, hpts, hdr⟩ := hv
      refine ⟨value.take i, parts, h, hpts, ?_⟩
      rw [signed_of_ne_nil sign hne, ← hdr]
      exact (eq_append_of_idxOf? hs).1
  · rintro ⟨head, parts, hhd, hpts, rfl⟩
    have hnotMem := hr head hhd
    by_cases hn : parts = []
    · subst hn
      rw [signed, if_pos rfl, append_nil, idxOf?_eq_none_iff.mpr hnotMem]
      exact hhd
    · have hv : validDotIdentifiers (dotted parts) prerelease = true :=
        validDotIdentifiers_iff.mpr ⟨parts, hn, hpts, rfl⟩
      rw [signed_of_ne_nil sign hn, idxOf?_append_cons hnotMem]
      dsimp only
      rw [drop_length_add_append, take_left, drop_one, tail_cons, if_neg (by simp [hv])]
      exact hhd

theorem notMem_of_isCoreVersion (h : isCoreVersion value = true) (hdot : b ≠ 0x2E)
    (hdig : isDigit b = false) : b ∉ value := by
  obtain ⟨major, minor, patch, hmj, hmn, hpt, rfl⟩ := isCoreVersion_iff.mp h
  intro hm
  obtain hb | ⟨part, hp, hb⟩ := mem_dotted hm
  · exact hdot hb
  have hn : NumericIdentifier part := by
    simp only [List.mem_cons, List.not_mem_nil, or_false] at hp
    obtain rfl | rfl | rfl := hp
    · exact hmj
    · exact hmn
    · exact hpt
  exact notMem_of_numericIdentifier hn hdig hb

theorem isReleaseVersion_iff : isReleaseVersion value = true
    ↔ ∃ head parts, isCoreVersion head = true
      ∧ (∀ part ∈ parts, validIdentifier part true = true)
      ∧ value = head ++ signed 0x2D parts :=
  signed_iff fun _ hhd => notMem_of_isCoreVersion hhd (by decide) (by decide)

/-- A plus cannot stand before the build. -/
theorem notMem_of_isReleaseVersion (h : isReleaseVersion value = true) :
    (0x2B : UInt8) ∉ value := by
  obtain ⟨head, parts, hhd, hpts, rfl⟩ := isReleaseVersion_iff.mp h
  intro hm
  obtain hm | hm := mem_append.mp hm
  · exact notMem_of_isCoreVersion hhd (by decide) (by decide) hm
  unfold signed at hm
  split at hm
  · exact absurd hm not_mem_nil
  obtain hs | hm := mem_cons.mp hm
  · exact absurd hs (by decide)
  · obtain hdot | ⟨part, hp, hb⟩ := mem_dotted hm
    · exact absurd hdot (by decide)
    · exact notMem_of_validIdentifier (hpts part hp) (by decide) hb

/-- **The check accepts exactly the semantic versions.** -/
theorem isSemanticVersion_iff (value : List UInt8) :
    isSemanticVersion value = true ↔ IsVersion value := by
  have hsigned : isSemanticVersion value = true
      ↔ ∃ head parts, isReleaseVersion head = true
        ∧ (∀ part ∈ parts, validIdentifier part false = true)
        ∧ value = head ++ signed 0x2B parts :=
    signed_iff fun _ hhd => notMem_of_isReleaseVersion hhd
  rw [hsigned]
  constructor
  · rintro ⟨release, build, hr, hbuild, rfl⟩
    obtain ⟨core, prerelease, hc, hprerelease, rfl⟩ := isReleaseVersion_iff.mp hr
    obtain ⟨major, minor, patch, hm, hmn, hpt, rfl⟩ := isCoreVersion_iff.mp hc
    exact ⟨major, minor, patch, prerelease, build, hm, hmn, hpt,
      fun part hp => validIdentifier_prerelease_iff.mp (hprerelease part hp),
      fun part hp => validIdentifier_build_iff.mp (hbuild part hp), rfl⟩
  · rintro ⟨major, minor, patch, prerelease, build, hm, hmn, hpt, hprerelease, hbuild,
      rfl⟩
    have hc : isCoreVersion (dotted [major, minor, patch]) = true :=
      isCoreVersion_iff.mpr ⟨major, minor, patch, hm, hmn, hpt, rfl⟩
    exact ⟨_, build, isReleaseVersion_iff.mpr ⟨_, prerelease, hc,
      fun part hp => validIdentifier_prerelease_iff.mpr (hprerelease part hp), rfl⟩,
      fun part hp => validIdentifier_build_iff.mpr (hbuild part hp), rfl⟩

/-- Hyphens belong to the part they stand in: `1.0.0+a-b` has no pre-release. -/
example : isSemanticVersion (ascii "1.0.0+a-b") = true
    ∧ isSemanticVersion (ascii "1.0.0-01+a") = false := by decide

end NeoGraph.CanonicalJson
