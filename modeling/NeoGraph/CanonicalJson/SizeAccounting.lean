import NeoGraph.CanonicalJson.TextLimits

/-!
# The charge bounds the text

The size of a value is checked by a recursion of its own, before anything is
written. Each step of it subtracts the size charged so far from the limit,
in unsigned numbers of the machine: with a size above the limit the
difference would wrap around, and the check would pass on anything.

To say that this never happens the recursion is written once more, with the
check of a step as a parameter (`limitsBy`). With a check that first raises
an error of its own when the difference would wrap around, it returns what
the check of the program returns, whatever that error is
(`limitsBy_guardedJsonSize`). So what is charged is a number within the
limit, and no canonical text is longer (`length_canonicalJsonBytes_le`).
-/

namespace NeoGraph.CanonicalJson

open List

/-! ## The recursion over a check -/

section Check

variable (check : ℕ → ℕ → Except Exn ℕ)

/-- The functions of the writer, with the check of the size as a parameter. -/
def separatorBy (size : ℕ) (first : Bool) : Except Exn ℕ :=
  if first then .ok size else check size 1

def escapedSizeLoopBy : ℕ → Bytes → ℕ → Except Exn ℕ
  | 0, _, size => .ok size
  | fuel + 1, value, size =>
    match value with
    | [] => .ok size
    | b :: rest =>
      if !needsJsonEscape b then
        escapedSizeLoopBy fuel (value.drop (unescapedPrefix value)) size
      else do
        let size ← check size (if b < 0x20 then 5 else 1)
        escapedSizeLoopBy fuel rest size

def escapedSizeBy (value : Bytes) : Except Exn ℕ := do
  let size ← check 2 value.length
  escapedSizeLoopBy check value.length value size

mutual

/-- The size a value is charged with, where every sum is left to `check`. -/
def limitsBy : Json Bytes → ℕ → Except Exn ℕ
  | value, depth =>
    if maxJsonDepth < depth then .error depthExceeded
    else match value with
      | .null => .ok 4
      | .bool b => .ok (if b then 4 else 5)
      | .uint _ => .ok 32
      | .sint _ => .ok 32
      | .real _ => .ok 32
      | .str s => escapedSizeBy check s
      | .arr items => limitsItemsBy items (depth + 1) 2 true
      | .obj members => limitsMembersBy members (depth + 1) 2 true

def limitsItemsBy : List (Json Bytes) → ℕ → ℕ → Bool → Except Exn ℕ
  | [], _, size, _ => .ok size
  | item :: items, depth, size, first => do
    let size ← separatorBy check size first
    let additional ← limitsBy item depth
    let size ← check size additional
    limitsItemsBy items depth size false

def limitsMembersBy : List (Bytes × Json Bytes) → ℕ → ℕ → Bool → Except Exn ℕ
  | [], _, size, _ => .ok size
  | (name, item) :: members, depth, size, first => do
    let size ← separatorBy check size first
    let additional ← escapedSizeBy check name
    let size ← check size additional
    let size ← check size 1
    let additional ← limitsBy item depth
    let size ← check size additional
    limitsMembersBy members depth size false

end

end Check

/-! ## Checks that agree up to the limit -/

theorem bind_congr_ok {α β ε : Type} {x : Except ε α} {f g : α → Except ε β}
    (h : ∀ a, x = .ok a → f a = g a) : (x >>= f) = (x >>= g) := by
  cases x with
  | error e => rfl
  | ok a => exact h a rfl

variable {n size : ℕ}

theorem le_of_checkedJsonSize {current additional : ℕ} (hc : current ≤ maxJsonBytes)
    (h : checkedJsonSize current additional = .ok n) : n ≤ maxJsonBytes := by
  obtain ⟨hle, rfl⟩ := (checkedJsonSize_eq_ok hc).mp h
  exact hle

theorem le_of_checkedSeparator {first : Bool} (hsz : size ≤ maxJsonBytes)
    (h : checkedSeparator size first = .ok n) : n ≤ maxJsonBytes := by
  obtain ⟨hle, rfl⟩ := (checkedSeparator_eq_ok hsz).mp h
  exact hle

variable {check : ℕ → ℕ → Except Exn ℕ}
  (hcheck : ∀ current additional, current ≤ maxJsonBytes →
    check current additional = checkedJsonSize current additional)
include hcheck

theorem separatorBy_eq (hsz : size ≤ maxJsonBytes) (first : Bool) :
    separatorBy check size first = checkedSeparator size first := by
  unfold separatorBy checkedSeparator
  rw [hcheck size 1 hsz]

theorem escapedSizeLoopBy_eq (fuel : ℕ) (value : Bytes) (hsz : size ≤ maxJsonBytes) :
    escapedSizeLoopBy check fuel value size = escapedSizeLoop fuel value size := by
  induction fuel generalizing value size with
  | zero => rfl
  | succ fuel ih =>
    cases value with
    | nil => rfl
    | cons b rest =>
      rw [escapedSizeLoopBy, escapedSizeLoop, hcheck _ _ hsz, ih _ hsz]
      refine if_congr Iff.rfl rfl ?_
      exact bind_congr_ok fun size' hsz' => ih rest (le_of_checkedJsonSize hsz hsz')

theorem escapedSizeBy_eq (value : Bytes) :
    escapedSizeBy check value = escapedJsonStringSize value := by
  have hm : 2 ≤ maxJsonBytes := by decide
  unfold escapedSizeBy escapedJsonStringSize
  rw [hcheck _ _ hm]
  exact bind_congr_ok fun size hsz =>
    escapedSizeLoopBy_eq hcheck _ value (le_of_checkedJsonSize hm hsz)

theorem limitsItemsBy_eq {items : List (Json Bytes)}
    (his : ∀ v ∈ items, ∀ depth, limitsBy check v depth = validateJsonValueLimits v depth)
    (depth : ℕ) {size : ℕ} (first : Bool) (hsz : size ≤ maxJsonBytes) :
    limitsItemsBy check items depth size first = validateItems items depth size first := by
  induction items generalizing size first with
  | nil => rfl
  | cons item items ih =>
    have ih := @ih fun v hv => his v (mem_cons_of_mem item hv)
    rw [limitsItemsBy, validateItems, separatorBy_eq hcheck hsz, his item mem_cons_self]
    refine bind_congr_ok fun size₁ hsz₁ => bind_congr_ok fun additional _ => ?_
    have hle₁ := le_of_checkedSeparator hsz hsz₁
    rw [hcheck _ _ hle₁]
    exact bind_congr_ok fun size₂ hsz₂ => ih false (le_of_checkedJsonSize hle₁ hsz₂)

/-- With a check that agrees within the limit, members are checked as by the
source. -/
theorem limitsMembersBy_eq {members : List (Bytes × Json Bytes)} (hmbr : ∀ m ∈ members, ∀ depth,
      limitsBy check m.2 depth = validateJsonValueLimits m.2 depth)
    (depth : ℕ) {size : ℕ} (first : Bool) (hsz : size ≤ maxJsonBytes) :
    limitsMembersBy check members depth size first
      = validateMembers members depth size first := by
  induction members generalizing size first with
  | nil => rfl
  | cons m members ih =>
    obtain ⟨name, item⟩ := m
    have hi : ∀ depth, limitsBy check item depth = validateJsonValueLimits item depth :=
      hmbr (name, item) mem_cons_self
    have ih := @ih fun m hm => hmbr m (mem_cons_of_mem _ hm)
    rw [limitsMembersBy, validateMembers, separatorBy_eq hcheck hsz, escapedSizeBy_eq hcheck,
      hi]
    refine bind_congr_ok fun size₁ hsz₁ => bind_congr_ok fun additional _ => ?_
    have hle₁ := le_of_checkedSeparator hsz hsz₁
    rw [hcheck _ _ hle₁]
    refine bind_congr_ok fun size₂ hsz₂ => ?_
    have hle₂ := le_of_checkedJsonSize hle₁ hsz₂
    rw [hcheck _ _ hle₂]
    refine bind_congr_ok fun size₃ hsz₃ => bind_congr_ok fun additional _ => ?_
    have hle₃ := le_of_checkedJsonSize hle₂ hsz₃
    rw [hcheck _ _ hle₃]
    exact bind_congr_ok fun size₄ hsz₄ => ih false (le_of_checkedJsonSize hle₃ hsz₄)

/-- **A check is only asked about sizes within the limit**, so the recursion
does not see what it does above. -/
theorem limitsBy_eq (v : Json Bytes) (depth : ℕ) :
    limitsBy check v depth = validateJsonValueLimits v depth := by
  have hm : 2 ≤ maxJsonBytes := by decide
  induction v using Json.ind generalizing depth with rw [limitsBy, validateJsonValueLimits]
  | str s => exact if_congr Iff.rfl rfl (escapedSizeBy_eq hcheck s)
  | arr items ih => exact if_congr Iff.rfl rfl (limitsItemsBy_eq hcheck ih (depth + 1) true hm)
  | obj members ih =>
    exact if_congr Iff.rfl rfl (limitsMembersBy_eq hcheck ih (depth + 1) true hm)

omit hcheck

/-! ## No difference wraps around -/

/-- The check of a step, which first raises an error of its own when the
size charged so far is above the limit. -/
def guardedJsonSize (underflow : Exn) (current additional : ℕ) : Except Exn ℕ :=
  if maxJsonBytes < current then .error underflow else checkedJsonSize current additional

/-- **No difference wraps around**, in a check that passes or in one that
does not: the error that would tell is raised for no value, whatever error
that is. -/
theorem limitsBy_guardedJsonSize (underflow : Exn) (v : Json Bytes) (depth : ℕ) :
    limitsBy (guardedJsonSize underflow) v depth = validateJsonValueLimits v depth :=
  limitsBy_eq (fun _ _ hle => if_neg (not_lt.mpr hle)) v depth

/-! ## The bound -/

variable {appendFloat : UInt64 → Except Exn Bytes}

/-- **The charge bounds the text.** What a value within the limits is
charged with is at most the limit and at least the length of its canonical
text, and no difference of sizes wraps around on the way. -/
theorem length_canonicalJsonBytes_le
    (hs : ∀ bits text, appendFloat bits = .ok text → text.length ≤ 32)
    {v : Json (List UInt8)} {n : ℕ} (h : validateJsonValueLimits v 1 = .ok n) :
    n ≤ maxJsonBytes
      ∧ (∀ bytes, canonicalJsonBytes appendFloat v = .ok bytes → bytes.length ≤ n)
      ∧ ∀ underflow, limitsBy (guardedJsonSize underflow) v 1 = .ok n := by
  obtain ⟨-, hm, rfl⟩ := (checked v 1 n).mp h
  refine ⟨hm, fun bytes hbs => ?_, fun underflow => ?_⟩
  · exact length_appendValue_le hs (canonicalJsonBytes_eq_ok.mp hbs).2
  · rw [limitsBy_guardedJsonSize, h]

/-- The text of a zero, the only number that is written here. -/
def zeroText (bits : UInt64) : Except Exn Bytes :=
  if bits <<< 1 = 0 then .ok [0x30]
  else .error (.invalidArgument "Program canonical JSON failed to encode number")

/-- The charge of `["\n", 0.0]`, which is written in eight bytes. -/
theorem length_canonicalJsonBytes_le_newline :
    (43 ≤ maxJsonBytes
      ∧ (∀ bytes, canonicalJsonBytes zeroText (.arr [.str [0x0A], .real 0]) = .ok bytes →
        bytes.length ≤ 43)
      ∧ ∀ underflow,
        limitsBy (guardedJsonSize underflow) (.arr [.str [0x0A], .real 0]) 1 = .ok 43)
    ∧ canonicalJsonBytes zeroText (.arr [.str [0x0A], .real 0])
      = .ok [0x5B, 0x22, 0x5C, 0x6E, 0x22, 0x2C, 0x30, 0x5D] := by
  refine ⟨length_canonicalJsonBytes_le (fun bits text ht => ?_) ?_, ?_⟩
  · unfold zeroText at ht
    split at ht
    · cases ht
      decide
    · cases ht
  · rfl
  · rfl

end NeoGraph.CanonicalJson
