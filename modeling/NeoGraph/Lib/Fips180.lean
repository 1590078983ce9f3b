import Mathlib

/-!
# The hash function SHA-256

SHA-256 of FIPS 180-4, over messages that are whole bytes: the padding of a
message, the message schedule of a block, the 64 rounds of a block and the hash
values from block to block.

A block is read off the front of a list of bytes, so that a message of several
blocks is hashed by dropping 64 bytes at a time (`hashBlocks`).
-/

namespace NeoGraph.Fips180

open List

/-! ## Functions on words -/

def rotr (x n : UInt32) : UInt32 := (x >>> n) ||| (x <<< (32 - n))

/-- The functions of the standard. -/
def ch (x y z : UInt32) : UInt32 := (x &&& y) ^^^ (~~~x &&& z)

def maj (x y z : UInt32) : UInt32 := (x &&& y) ^^^ (x &&& z) ^^^ (y &&& z)

/-- `Σ₀`. -/
def bigSigma0 (x : UInt32) : UInt32 := rotr x 2 ^^^ rotr x 13 ^^^ rotr x 22

/-- `Σ₁`. -/
def bigSigma1 (x : UInt32) : UInt32 := rotr x 6 ^^^ rotr x 11 ^^^ rotr x 25

/-- `σ₀`. -/
def smallSigma0 (x : UInt32) : UInt32 := rotr x 7 ^^^ rotr x 18 ^^^ (x >>> 3)

/-- `σ₁`. -/
def smallSigma1 (x : UInt32) : UInt32 := rotr x 17 ^^^ rotr x 19 ^^^ (x >>> 10)

/-! ## Constants -/

/-- The first 32 bits of the fractional parts of cube roots of primes. -/
def constants : List UInt32 := [
  0x428a2f98, 0x71374491, 0xb5c0fbcf, 0xe9b5dba5, 0x3956c25b, 0x59f111f1, 0x923f82a4, 0xab1c5ed5,
  0xd807aa98, 0x12835b01, 0x243185be, 0x550c7dc3, 0x72be5d74, 0x80deb1fe, 0x9bdc06a7, 0xc19bf174,
  0xe49b69c1, 0xefbe4786, 0x0fc19dc6, 0x240ca1cc, 0x2de92c6f, 0x4a7484aa, 0x5cb0a9dc, 0x76f988da,
  0x983e5152, 0xa831c66d, 0xb00327c8, 0xbf597fc7, 0xc6e00bf3, 0xd5a79147, 0x06ca6351, 0x14292967,
  0x27b70a85, 0x2e1b2138, 0x4d2c6dfc, 0x53380d13, 0x650a7354, 0x766a0abb, 0x81c2c92e, 0x92722c85,
  0xa2bfe8a1, 0xa81a664b, 0xc24b8b70, 0xc76c51a3, 0xd192e819, 0xd6990624, 0xf40e3585, 0x106aa070,
  0x19a4c116, 0x1e376c08, 0x2748774c, 0x34b0bcb5, 0x391c0cb3, 0x4ed8aa4a, 0x5b9cca4f, 0x682e6ff3,
  0x748f82ee, 0x78a5636f, 0x84c87814, 0x8cc70208, 0x90befffa, 0xa4506ceb, 0xbef9a3f7, 0xc67178f2]

/-- The constant of a round. -/
def constant (t : ℕ) : UInt32 := constants.getD t 0

/-- The first 64 primes. -/
def primes : List ℕ := [
  2, 3, 5, 7, 11, 13, 17, 19, 23, 29, 31, 37, 41, 43, 47, 53, 59, 61, 67, 71, 73, 79, 83, 89, 97,
  101, 103, 107, 109, 113, 127, 131, 137, 139, 149, 151, 157, 163, 167, 173, 179, 181, 191, 193,
  197, 199, 211, 223, 227, 229, 233, 239, 241, 251, 257, 263, 269, 271, 277, 281, 283, 293, 307,
  311]

/-- **The constants are the first 32 bits of the fractional parts** of the cube
roots of the primes. -/
theorem constants_spec : Forall₂ (fun p (k : UInt32) =>
    ∃ q < 8, (2 ^ 32 * q + k.toNat) ^ 3 ≤ p * 2 ^ 96 ∧ p * 2 ^ 96 < (2 ^ 32 * q + k.toNat + 1) ^ 3)
    primes constants := by
  decide +kernel

/-! ## Blocks -/

/-- The eight words of a hash value, and the working variables. -/
@[ext] structure Hash where
  a : UInt32
  b : UInt32
  c : UInt32
  d : UInt32
  e : UInt32
  f : UInt32
  g : UInt32
  h : UInt32
deriving DecidableEq

/-- The first hash value: the first 32 bits of the fractional parts of the square
roots of the first eight primes. -/
def initial : Hash where
  a := 0x6a09e667
  b := 0xbb67ae85
  c := 0x3c6ef372
  d := 0xa54ff53a
  e := 0x510e527f
  f := 0x9b05688c
  g := 0x1f83d9ab
  h := 0x5be0cd19

def Hash.words (v : Hash) : List UInt32 := [v.a, v.b, v.c, v.d, v.e, v.f, v.g, v.h]

theorem initial_spec : Forall₂ (fun p (k : UInt32) =>
    ∃ q < 5, (2 ^ 32 * q + k.toNat) ^ 2 ≤ p * 2 ^ 64 ∧ p * 2 ^ 64 < (2 ^ 32 * q + k.toNat + 1) ^ 2)
    (primes.take 8) initial.words := by
  decide +kernel

def Hash.add (v w : Hash) : Hash where
  a := v.a + w.a
  b := v.b + w.b
  c := v.c + w.c
  d := v.d + w.d
  e := v.e + w.e
  f := v.f + w.f
  g := v.g + w.g
  h := v.h + w.h

theorem Hash.add_comm (v w : Hash) : v.add w = w.add v := by
  unfold add
  simp only [UInt32.add_comm]

/-- A round with the sum of its constant and its word of the schedule. -/
def round (k : UInt32) (v : Hash) : Hash :=
  let t₁ := v.h + bigSigma1 v.e + ch v.e v.f v.g + k
  let t₂ := bigSigma0 v.a + maj v.a v.b v.c
  { a := t₁ + t₂, b := v.a, c := v.b, d := v.c, e := v.d + t₁, f := v.e, g := v.f, h := v.g }

/-- The word of four bytes, the most significant first. -/
def bigEndian (b₀ b₁ b₂ b₃ : UInt8) : UInt32 :=
  UInt32.ofNat (b₀.toNat * 2 ^ 24 + b₁.toNat * 2 ^ 16 + b₂.toNat * 2 ^ 8 + b₃.toNat)

/-- A word of the first block of the bytes. -/
def word (bytes : List UInt8) (t : ℕ) : UInt32 :=
  bigEndian (bytes.getD (4 * t) 0) (bytes.getD (4 * t + 1) 0) (bytes.getD (4 * t + 2) 0)
    (bytes.getD (4 * t + 3) 0)

/-- The message schedule. -/
def schedule (m : ℕ → UInt32) (t : ℕ) : UInt32 :=
  if t < 16 then m t
  else
    smallSigma1 (schedule m (t - 2)) + schedule m (t - 7) + smallSigma0 (schedule m (t - 15))
      + schedule m (t - 16)
termination_by t

/-- The working variables after the first rounds of a block. -/
def rounds (m : ℕ → UInt32) (v : Hash) (n : ℕ) : Hash :=
  (range n).foldl (fun v t => round (constant t + schedule m t) v) v

/-- The hash value behind a block. -/
def compress (v : Hash) (bytes : List UInt8) : Hash := (rounds (word bytes) v 64).add v

/-- The hash value behind the first blocks of the bytes. -/
def hashBlocks (v : Hash) (bytes : List UInt8) : ℕ → Hash
  | 0 => v
  | n + 1 => hashBlocks (compress v bytes) (bytes.drop 64) n

variable {t n m : ℕ}

theorem schedule_of_lt (m : ℕ → UInt32) (h : t < 16) : schedule m t = m t := by
  rw [schedule, if_pos h]

theorem schedule_of_le (m : ℕ → UInt32) (h : 16 ≤ t) :
    schedule m t = smallSigma1 (schedule m (t - 2)) + schedule m (t - 7)
      + smallSigma0 (schedule m (t - 15)) + schedule m (t - 16) := by
  rw [schedule, if_neg (Nat.not_lt.mpr h)]

/-- The schedule depends on the first sixteen words. -/
theorem schedule_congr {m m' : ℕ → UInt32} (h : ∀ t < 16, m t = m' t) (t : ℕ) :
    schedule m t = schedule m' t := by
  induction t using Nat.strongRecOn with
  | ind t ih =>
    by_cases ht : t < 16
    · rw [schedule_of_lt m ht, schedule_of_lt m' ht, h t ht]
    · rw [schedule_of_le m (by omega), schedule_of_le m' (by omega), ih (t - 2) (by omega),
        ih (t - 7) (by omega), ih (t - 15) (by omega), ih (t - 16) (by omega)]

variable (v : Hash) {bytes bytes' l : List UInt8}

/-- A block is read from its 64 bytes. -/
theorem compress_congr (h : ∀ i < 64, bytes.getD i 0 = bytes'.getD i 0) :
    compress v bytes = compress v bytes' := by
  have hw : ∀ t < 16, word bytes t = word bytes' t := by
    intro t ht
    unfold word
    rw [h _ (by omega), h _ (by omega), h _ (by omega), h _ (by omega)]
  unfold compress rounds
  simp only [schedule_congr hw]

/-- Only the bytes of the blocks matter. -/
theorem hashBlocks_congr (h : ∀ i < 64 * n, bytes.getD i 0 = bytes'.getD i 0) :
    hashBlocks v bytes n = hashBlocks v bytes' n := by
  induction n generalizing v bytes bytes' with
  | zero => rfl
  | succ n ih =>
    unfold hashBlocks
    rw [compress_congr v fun i hi => h i (by omega)]
    refine ih _ fun i hi => ?_
    have := h (64 + i) (by omega)
    simpa only [getD_eq_getElem?_getD, getElem?_drop] using this

/-- **Blocks are hashed one after the other.** -/
theorem hashBlocks_add (bytes : List UInt8) (m n : ℕ) :
    hashBlocks v bytes (m + n) = hashBlocks (hashBlocks v bytes m) (bytes.drop (64 * m)) n := by
  induction m generalizing v bytes with
  | zero => rw [Nat.zero_add, Nat.mul_zero, drop_zero]; rfl
  | succ m ih =>
    rw [Nat.add_right_comm, hashBlocks, ih, drop_drop, hashBlocks]
    congr 2
    omega

/-- Bytes behind the blocks do not matter. -/
theorem hashBlocks_append_left (l' : List UInt8) (h : 64 * n ≤ l.length) :
    hashBlocks v (l ++ l') n = hashBlocks v l n := by
  refine hashBlocks_congr v fun i hi => ?_
  rw [getD_append _ _ _ _ (by omega)]

/-- Blocks in front of others are hashed as they are alone. -/
theorem hashBlocks_append (l' : List UInt8) (h : l.length = 64 * m) (n : ℕ) :
    hashBlocks v (l ++ l') (m + n) = hashBlocks (hashBlocks v l m) l' n := by
  rw [hashBlocks_add, hashBlocks_append_left v l' (by omega), ← h, drop_left]

/-- The blocks of a list that is cut behind whole blocks. -/
theorem hashBlocks_take_append (l l' : List UInt8) (h : 64 * m ≤ l.length) (n : ℕ) :
    hashBlocks v (l.take (64 * m) ++ l') (m + n) = hashBlocks (hashBlocks v l m) l' n := by
  have hl : (l.take (64 * m)).length = 64 * m := by
    rw [length_take, Nat.min_eq_left h]
  have hf := hashBlocks_append_left v (l.drop (64 * m)) (Nat.le_of_eq hl.symm)
  rw [take_append_drop] at hf
  rw [hashBlocks_append v l' hl, hf]

/-! ## Messages -/

/-- The bytes of a word, the most significant first. -/
def wordBytes (x : UInt32) : List UInt8 :=
  [(x >>> 24).toUInt8, (x >>> 16).toUInt8, (x >>> 8).toUInt8, x.toUInt8]

/-- A length in eight bytes, the most significant first. -/
def lengthBytes (n : ℕ) : List UInt8 :=
  (range 8).map fun i => UInt8.ofNat (n / 2 ^ (8 * (7 - i)))

/-- How many zero bytes the padding has. -/
def zeros (n : ℕ) : ℕ := (119 - n % 64) % 64

/-- A message, padded to whole blocks: the bit 1, zeros and the length in bits. -/
def pad (message : List UInt8) : List UInt8 :=
  message ++ 0x80 :: (replicate (zeros message.length) 0 ++ lengthBytes (8 * message.length))

/-- **SHA-256** of a message. -/
def sha256 (message : List UInt8) : List UInt8 :=
  (hashBlocks initial (pad message) ((pad message).length / 64)).words.flatMap wordBytes

/-- **The zeros are the fewest** that make whole blocks. -/
theorem zeros_spec (n : ℕ) :
    (n + 1 + zeros n + 8) % 64 = 0 ∧ ∀ k, (n + 1 + k + 8) % 64 = 0 → zeros n ≤ k := by
  unfold zeros
  refine ⟨by omega, fun k hk => by omega⟩

theorem length_lengthBytes (n : ℕ) : (lengthBytes n).length = 8 := by
  unfold lengthBytes
  rw [length_map, length_range]

theorem length_pad (message : List UInt8) :
    (pad message).length = message.length + 1 + zeros message.length + 8 := by
  unfold pad
  rw [length_append, length_cons, length_append, length_replicate, length_lengthBytes]
  omega

end NeoGraph.Fips180
