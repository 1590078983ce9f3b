import Mathlib
import NeoGraph.Lib.Fips180

/-!
# The portable compression of SHA-256

`compress_portable` hashes blocks into an array of eight words: it reads the words
of a block, extends them to the message schedule in place, and runs the rounds on
local variables. Arrays are lists here; of the bytes of the blocks each turn drops
64.
-/

namespace NeoGraph.Sha256

open List

open Fips180 (Hash rotr)

/-- `SHA256_K`. -/
def roundConstants : List UInt32 := [
  0x428a2f98, 0x71374491, 0xb5c0fbcf, 0xe9b5dba5, 0x3956c25b, 0x59f111f1, 0x923f82a4,
  0xab1c5ed5, 0xd807aa98, 0x12835b01, 0x243185be, 0x550c7dc3, 0x72be5d74, 0x80deb1fe,
  0x9bdc06a7, 0xc19bf174, 0xe49b69c1, 0xefbe4786, 0x0fc19dc6, 0x240ca1cc, 0x2de92c6f,
  0x4a7484aa, 0x5cb0a9dc, 0x76f988da, 0x983e5152, 0xa831c66d, 0xb00327c8, 0xbf597fc7,
  0xc6e00bf3, 0xd5a79147, 0x06ca6351, 0x14292967, 0x27b70a85, 0x2e1b2138, 0x4d2c6dfc,
  0x53380d13, 0x650a7354, 0x766a0abb, 0x81c2c92e, 0x92722c85, 0xa2bfe8a1, 0xa81a664b,
  0xc24b8b70, 0xc76c51a3, 0xd192e819, 0xd6990624, 0xf40e3585, 0x106aa070, 0x19a4c116,
  0x1e376c08, 0x2748774c, 0x34b0bcb5, 0x391c0cb3, 0x4ed8aa4a, 0x5b9cca4f, 0x682e6ff3,
  0x748f82ee, 0x78a5636f, 0x84c87814, 0x8cc70208, 0x90befffa, 0xa4506ceb, 0xbef9a3f7,
  0xc67178f2]

/-- The words of a block, the first of a zeroed array. -/
def loadWords (block : List UInt8) : List UInt32 :=
  (range 16).foldl (fun words i =>
    let base := i * 4
    words.set i
      (((block.getD base 0).toUInt32 <<< 24) ||| ((block.getD (base + 1) 0).toUInt32 <<< 16)
        ||| ((block.getD (base + 2) 0).toUInt32 <<< 8) ||| (block.getD (base + 3) 0).toUInt32))
    (replicate 64 0)

/-- The words behind them. -/
def extendWords (words : List UInt32) : List UInt32 :=
  (range' 16 48).foldl (fun words i =>
    let w15 := words.getD (i - 15) 0
    let w2 := words.getD (i - 2) 0
    let s0 := rotr w15 7 ^^^ rotr w15 18 ^^^ (w15 >>> 3)
    let s1 := rotr w2 17 ^^^ rotr w2 19 ^^^ (w2 >>> 10)
    words.set i (words.getD (i - 16) 0 + s0 + words.getD (i - 7) 0 + s1)) words

/-- A round, from the variables `a` to `h`. -/
def round (words : List UInt32) (v : Hash) (i : ℕ) : Hash :=
  let s1 := rotr v.e 6 ^^^ rotr v.e 11 ^^^ rotr v.e 25
  let choose := (v.e &&& v.f) ^^^ (~~~v.e &&& v.g)
  let t1 := v.h + s1 + choose + roundConstants.getD i 0 + words.getD i 0
  let s0 := rotr v.a 2 ^^^ rotr v.a 13 ^^^ rotr v.a 22
  let majority := (v.a &&& v.b) ^^^ (v.a &&& v.c) ^^^ (v.b &&& v.c)
  let t2 := s0 + majority
  { a := t1 + t2, b := v.a, c := v.b, d := v.c, e := v.d + t1, f := v.e, g := v.f, h := v.g }

/-- The state behind a number of blocks. -/
def compressPortable (state : Hash) (data : List UInt8) : ℕ → Hash
  | 0 => state
  | blocks + 1 =>
    let words := extendWords (loadWords data)
    let v := (range 64).foldl (round words) state
    compressPortable
      { a := state.a + v.a, b := state.b + v.b, c := state.c + v.c, d := state.d + v.d
        e := state.e + v.e, f := state.f + v.f, g := state.g + v.g, h := state.h + v.h }
      (data.drop 64) blocks

/-! ## The words -/

/-- What a loop of assignments leaves, when each value follows from those before
it. -/
theorem foldl_set_getD {w : ℕ → UInt32} {value : List UInt32 → ℕ → UInt32} {first n : ℕ}
    {words : List UInt32} (hl : first + n ≤ words.length)
    (hw : ∀ i < first, words.getD i 0 = w i)
    (hv : ∀ (words : List UInt32) i, first ≤ i → i < first + n →
      (∀ j < i, words.getD j 0 = w j) → value words i = w i) :
    ((range' first n).foldl (fun words i => words.set i (value words i)) words).length
        = words.length
      ∧ ∀ i < first + n, ((range' first n).foldl
        (fun words i => words.set i (value words i)) words).getD i 0 = w i := by
  induction n with
  | zero => exact ⟨rfl, hw⟩
  | succ n ih =>
    obtain ⟨hl', ih⟩ := ih (by omega) fun words i hi hlt => hv words i hi (by omega)
    rw [range'_1_concat, foldl_append, foldl_cons, foldl_nil]
    refine ⟨by rw [length_set, hl'], fun i hi => ?_⟩
    rw [getD_eq_getElem?_getD]
    by_cases h : first + n = i
    · rw [h, getElem?_set_self (by omega), Option.getD_some]
      exact hv _ _ (by omega) hi fun j hj => ih j (by omega)
    · rw [getElem?_set_ne h, ← getD_eq_getElem?_getD]
      exact ih i (by omega)

/-- A byte shifted to its place in a word. -/
theorem toNat_toUInt32_shiftLeft (b : UInt8) {n : ℕ} (h : n ≤ 24) :
    (b.toUInt32 <<< UInt32.ofNat n).toNat = 2 ^ n * b.toNat := by
  have hb := b.toNat_lt
  have hpow : 2 ^ n ≤ 2 ^ 24 := Nat.pow_le_pow_right (by decide) h
  have hlt : b.toNat * 2 ^ n < 2 ^ 32 :=
    calc b.toNat * 2 ^ n ≤ 255 * 2 ^ 24 := Nat.mul_le_mul (by omega) hpow
      _ < 2 ^ 32 := by decide
  rw [UInt32.toNat_shiftLeft, UInt32.toNat_ofNat', Nat.shiftLeft_eq, UInt8.toNat_toUInt32,
    Nat.mod_eq_of_lt (show n < 2 ^ 32 by omega), Nat.mod_eq_of_lt (show n < 32 by omega),
    Nat.mod_eq_of_lt hlt, Nat.mul_comm]

/-- Bytes shifted into their places make a word. -/
theorem or_shiftLeft_eq_bigEndian (b₀ b₁ b₂ b₃ : UInt8) :
    (b₀.toUInt32 <<< 24) ||| (b₁.toUInt32 <<< 16) ||| (b₂.toUInt32 <<< 8) ||| b₃.toUInt32
      = Fips180.bigEndian b₀ b₁ b₂ b₃ := by
  have h₁ := b₁.toNat_lt
  have h₂ := b₂.toNat_lt
  have h₃ := b₃.toNat_lt
  have hb₀ : (b₀.toUInt32 <<< 24).toNat = 2 ^ 24 * b₀.toNat :=
    toNat_toUInt32_shiftLeft b₀ (Nat.le_refl 24)
  have hb₁ : (b₁.toUInt32 <<< 16).toNat = 2 ^ 16 * b₁.toNat :=
    toNat_toUInt32_shiftLeft b₁ (by decide)
  have hb₂ : (b₂.toUInt32 <<< 8).toNat = 2 ^ 8 * b₂.toNat :=
    toNat_toUInt32_shiftLeft b₂ (by decide)
  rw [← UInt32.toNat_inj, UInt32.toNat_or, UInt32.toNat_or, UInt32.toNat_or, hb₀, hb₁, hb₂,
    UInt8.toNat_toUInt32, Nat.or_assoc, Nat.or_assoc, ← Nat.two_pow_add_eq_or_of_lt h₃,
    ← Nat.two_pow_add_eq_or_of_lt (show 2 ^ 8 * b₂.toNat + b₃.toNat < 2 ^ 16 by omega),
    ← Nat.two_pow_add_eq_or_of_lt
      (show 2 ^ 16 * b₁.toNat + (2 ^ 8 * b₂.toNat + b₃.toNat) < 2 ^ 24 by omega)]
  have h₀ := b₀.toNat_lt
  unfold Fips180.bigEndian
  rw [UInt32.toNat_ofNat', Nat.mod_eq_of_lt (by omega)]
  omega

/-- The first words are those of the block. -/
theorem loadWords_spec (block : List UInt8) : (loadWords block).length = 64
      ∧ ∀ i < 16, (loadWords block).getD i 0 = Fips180.word block i := by
  have hl := @foldl_set_getD (Fips180.word block) (fun _ i =>
      ((block.getD (i * 4) 0).toUInt32 <<< 24) ||| ((block.getD (i * 4 + 1) 0).toUInt32 <<< 16)
        ||| ((block.getD (i * 4 + 2) 0).toUInt32 <<< 8) ||| (block.getD (i * 4 + 3) 0).toUInt32)
    0 16 (replicate 64 0) (by rw [length_replicate]; decide)
    (fun i hi => absurd hi (Nat.not_lt_zero i))
    fun _ i _ _ _ => by
      rw [or_shiftLeft_eq_bigEndian, Nat.mul_comm]
      rfl
  rw [length_replicate, ← range_eq_range'] at hl
  exact hl

/-- **The words are the message schedule.** -/
theorem extendWords_loadWords (block : List UInt8) {i : ℕ} (h : i < 64) :
    (extendWords (loadWords block)).getD i 0
      = Fips180.schedule (Fips180.word block) i := by
  obtain ⟨hlen, hl⟩ := loadWords_spec block
  refine (foldl_set_getD (by omega) (fun i hi => ?_) (fun words i hi hlt hw => ?_)).2 i
    (by omega)
  · rw [hl i hi, Fips180.schedule_of_lt _ hi]
  · rw [hw _ (by omega), hw _ (by omega), hw _ (by omega), hw _ (by omega),
      Fips180.schedule_of_le _ hi]
    unfold Fips180.smallSigma0 Fips180.smallSigma1
    ac_rfl

/-! ## The rounds -/

theorem round_eq (words : List UInt32) (v : Hash) (i : ℕ) :
    round words v i = Fips180.round (Fips180.constant i + words.getD i 0) v := by
  unfold round Fips180.round
  dsimp only
  rw [UInt32.add_assoc _ (roundConstants.getD i 0)]
  rfl

/-- **The portable compression is that of SHA-256.** -/
theorem compressPortable_eq (state : Hash) (data : List UInt8) (blocks : ℕ) :
    compressPortable state data blocks = Fips180.hashBlocks state data blocks := by
  induction blocks generalizing state data with
  | zero => rfl
  | succ blocks ih =>
    have hr : (range 64).foldl (round (extendWords (loadWords data))) state
        = Fips180.rounds (Fips180.word data) state 64 := by
      unfold Fips180.rounds
      refine foldl_ext _ _ _ fun v i hi => ?_
      rw [round_eq, extendWords_loadWords data (mem_range.mp hi)]
    unfold compressPortable Fips180.hashBlocks Fips180.compress
    dsimp only
    rw [ih, hr, Hash.add_comm]
    rfl

example : (compressPortable Fips180.initial (Fips180.pad [0x61, 0x62, 0x63]) 1).words =
    [0xba7816bf, 0x8f01cfea, 0x414140de, 0x5dae2223, 0xb00361a3, 0x96177a9c, 0xb410ff61,
      0xf20015ad] := by
  decide +kernel

end NeoGraph.Sha256
