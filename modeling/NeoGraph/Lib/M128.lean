import NeoGraph.Lib.Fips180

/-!
# Vectors of 128 bits

The vector operations of x86 that an implementation of SHA-256 is made of, under
the names of the intrinsics and with the meaning the manufacturer documents: a
vector is four words of 32 bits, or sixteen bytes, the least significant first.

The words of the results are computed for arguments that are given word by word.
The operations of the SHA extensions are two rounds of SHA-256
(`sha256rnds2_epu32_abef`) and the next four words of a schedule
(`sha256msg2_epu32_schedule`).
-/

namespace NeoGraph

open Fips180

/-- A vector, the least significant word first. -/
@[ext] structure M128 where
  w0 : UInt32
  w1 : UInt32
  w2 : UInt32
  w3 : UInt32
deriving DecidableEq

namespace M128

open Fips180 (Hash)

/-! ## Words and bytes -/

/-- The words, from the lowest. -/
def word (v : M128) : ℕ → UInt32
  | 0 => v.w0
  | 1 => v.w1
  | 2 => v.w2
  | _ => v.w3

/-- The bytes, from the lowest. -/
def byte (v : M128) (j : ℕ) : UInt8 := (v.word (j / 4) >>> UInt32.ofNat (j % 4 * 8)).toUInt8

/-- The vector of sixteen bytes. -/
def ofBytes (b : ℕ → UInt8) : M128 where
  w0 := bigEndian (b 3) (b 2) (b 1) (b 0)
  w1 := bigEndian (b 7) (b 6) (b 5) (b 4)
  w2 := bigEndian (b 11) (b 10) (b 9) (b 8)
  w3 := bigEndian (b 15) (b 14) (b 13) (b 12)

/-! ## The operations -/

def set_epi64x (e1 e0 : UInt64) : M128 where
  w0 := e0.toUInt32
  w1 := (e0 >>> 32).toUInt32
  w2 := e1.toUInt32
  w3 := (e1 >>> 32).toUInt32

/-- Sixteen bytes of memory. -/
def loadu (bytes : List UInt8) (offset : ℕ) : M128 := ofBytes fun j => bytes.getD (offset + j) 0

/-- Four words of an array: the memory holds the least significant byte first. -/
def loaduWords (words : List UInt32) (offset : ℕ) : M128 where
  w0 := words.getD offset 0
  w1 := words.getD (offset + 1) 0
  w2 := words.getD (offset + 2) 0
  w3 := words.getD (offset + 3) 0

/-- The words that the fields of two bits of the immediate name. -/
def shuffle_epi32 (a : M128) (imm8 : ℕ) : M128 where
  w0 := a.word (imm8 % 4)
  w1 := a.word (imm8 / 4 % 4)
  w2 := a.word (imm8 / 16 % 4)
  w3 := a.word (imm8 / 64 % 4)

/-- The bytes that the low four bits of the bytes of `b` name, and zero where the
high bit is set. -/
def shuffle_epi8 (a b : M128) : M128 :=
  ofBytes fun j => if 128 ≤ (b.byte j).toNat then 0 else a.byte ((b.byte j).toNat % 16)

/-- `a` and behind it `b`, shifted right by bytes. -/
def alignr_epi8 (a b : M128) (imm8 : ℕ) : M128 :=
  ofBytes fun j =>
    if j + imm8 < 16 then b.byte (j + imm8)
    else if j + imm8 < 32 then a.byte (j + imm8 - 16)
    else 0

/-- The halves of words of `b` whose bit of the immediate is set, and those of
`a`. -/
def blend_epi16 (a b : M128) (imm8 : ℕ) : M128 :=
  ofBytes fun j => if imm8.testBit (j / 2) then b.byte j else a.byte j

def add_epi32 (a b : M128) : M128 where
  w0 := a.w0 + b.w0
  w1 := a.w1 + b.w1
  w2 := a.w2 + b.w2
  w3 := a.w3 + b.w3

/-- Two rounds on the state whose words `C D G H` are in `a` and `A B E F` in `b`,
with the low words of `k`: the words `A B E F` behind them. -/
def sha256rnds2_epu32 (a b k : M128) : M128 :=
  let v := round k.w1 (round k.w0
    { a := b.w3, b := b.w2, c := a.w3, d := a.w2, e := b.w1, f := b.w0, g := a.w1, h := a.w0 })
  { w0 := v.f, w1 := v.e, w2 := v.b, w3 := v.a }

/-- The first half of the next words of the message. -/
def sha256msg1_epu32 (a b : M128) : M128 where
  w0 := a.w0 + smallSigma0 a.w1
  w1 := a.w1 + smallSigma0 a.w2
  w2 := a.w2 + smallSigma0 a.w3
  w3 := a.w3 + smallSigma0 b.w0

/-- The second half. -/
def sha256msg2_epu32 (a b : M128) : M128 :=
  let w16 := a.w0 + smallSigma1 b.w2
  let w17 := a.w1 + smallSigma1 b.w3
  let w18 := a.w2 + smallSigma1 w16
  let w19 := a.w3 + smallSigma1 w17
  { w0 := w16, w1 := w17, w2 := w18, w3 := w19 }

/-! ## Bytes of words -/

/-- A word is made of its bytes. -/
theorem bigEndian_bytes (x : UInt32) :
    Fips180.bigEndian (x >>> UInt32.ofNat 24).toUInt8 (x >>> UInt32.ofNat 16).toUInt8
      (x >>> UInt32.ofNat 8).toUInt8 (x >>> UInt32.ofNat 0).toUInt8 = x := by
  have hx := x.toNat_lt
  rw [← UInt32.toNat_inj]
  unfold Fips180.bigEndian
  simp only [UInt32.toNat_ofNat', UInt32.toNat_toUInt8, UInt32.toNat_shiftRight,
    Nat.shiftRight_eq_div_pow, Nat.reducePow, Nat.reduceMod]
  omega

variable {i : ℕ}

/-- The bytes of a word that is made of bytes. -/
theorem toUInt8_bigEndian (b : ℕ → UInt8) (h : i < 4) :
    (Fips180.bigEndian (b 3) (b 2) (b 1) (b 0) >>> UInt32.ofNat (i * 8)).toUInt8 = b i := by
  have h0 := (b 0).toNat_lt
  have h1 := (b 1).toNat_lt
  have h2 := (b 2).toNat_lt
  have h3 := (b 3).toNat_lt
  rw [← UInt8.toNat_inj]
  unfold bigEndian
  rw [UInt32.toNat_toUInt8, UInt32.toNat_shiftRight, UInt32.toNat_ofNat', UInt32.toNat_ofNat',
    Nat.shiftRight_eq_div_pow]
  match i, h with
  | 0, _ => simp only [Nat.reducePow, Nat.reduceMod, Nat.reduceMul]; omega
  | 1, _ => simp only [Nat.reducePow, Nat.reduceMod, Nat.reduceMul]; omega
  | 2, _ => simp only [Nat.reducePow, Nat.reduceMod, Nat.reduceMul]; omega
  | 3, _ => simp only [Nat.reducePow, Nat.reduceMod, Nat.reduceMul]; omega

theorem word_ofBytes (b : ℕ → UInt8) (h : i < 4) : (ofBytes b).word i
      = bigEndian (b (4 * i + 3)) (b (4 * i + 2)) (b (4 * i + 1)) (b (4 * i)) := by
  match i, h with
  | 0, _ => rfl
  | 1, _ => rfl
  | 2, _ => rfl
  | 3, _ => rfl

/-- The bytes of a vector of bytes. -/
theorem byte_ofBytes (b : ℕ → UInt8) {j : ℕ} (h : j < 16) : (ofBytes b).byte j = b j := by
  have hby := toUInt8_bigEndian (fun i => b (4 * (j / 4) + i)) (Nat.mod_lt j (by decide))
  rw [Nat.div_add_mod] at hby
  unfold byte
  rw [word_ofBytes b (by omega)]
  exact hby

/-- A word whose bytes are those of a word of a vector. -/
theorem bigEndian_byte (v : M128) (h : i < 4) :
    bigEndian (v.byte (4 * i + 3)) (v.byte (4 * i + 2)) (v.byte (4 * i + 1))
      (v.byte (4 * i)) = v.word i := by
  match i, h with
  | 0, _ => exact bigEndian_bytes v.w0
  | 1, _ => exact bigEndian_bytes v.w1
  | 2, _ => exact bigEndian_bytes v.w2
  | 3, _ => exact bigEndian_bytes v.w3

/-! ## Results word by word -/

variable (u v : M128)

/-- A shift by one word. -/
theorem alignr_epi8_four : alignr_epi8 u v 4 = { w0 := v.w1, w1 := v.w2, w2 := v.w3, w3 := u.w0 } :=
  M128.ext (bigEndian_byte v (i := 1) (by decide)) (bigEndian_byte v (i := 2) (by decide))
    (bigEndian_byte v (i := 3) (by decide)) (bigEndian_byte u (i := 0) (by decide))

/-- A shift by two words. -/
theorem alignr_epi8_eight :
    alignr_epi8 u v 8 = { w0 := v.w2, w1 := v.w3, w2 := u.w0, w3 := u.w1 } :=
  M128.ext (bigEndian_byte v (i := 2) (by decide)) (bigEndian_byte v (i := 3) (by decide))
    (bigEndian_byte u (i := 0) (by decide)) (bigEndian_byte u (i := 1) (by decide))

/-- The low words of the one and the high words of the other. -/
theorem blend_epi16_high :
    blend_epi16 u v 0xf0 = { w0 := u.w0, w1 := u.w1, w2 := v.w2, w3 := v.w3 } :=
  M128.ext (bigEndian_byte u (i := 0) (by decide)) (bigEndian_byte u (i := 1) (by decide))
    (bigEndian_byte v (i := 2) (by decide)) (bigEndian_byte v (i := 3) (by decide))

/-- The bytes of the words in the other order. -/
theorem shuffle_epi8_swap (b : ℕ → UInt8) :
    shuffle_epi8 (ofBytes b) (set_epi64x 0x0c0d0e0f08090a0b 0x0405060700010203) =
      { w0 := bigEndian (b 0) (b 1) (b 2) (b 3)
        w1 := bigEndian (b 4) (b 5) (b 6) (b 7)
        w2 := bigEndian (b 8) (b 9) (b 10) (b 11)
        w3 := bigEndian (b 12) (b 13) (b 14) (b 15) } := by
  have hs : ∀ j < 16, ((set_epi64x 0x0c0d0e0f08090a0b 0x0405060700010203).byte j).toNat
      = 4 * (j / 4) + (3 - j % 4) := by
    decide
  have hby : ∀ j < 16, (if 128 ≤ ((set_epi64x 0x0c0d0e0f08090a0b 0x0405060700010203).byte j).toNat
      then 0 else (ofBytes b).byte
        (((set_epi64x 0x0c0d0e0f08090a0b 0x0405060700010203).byte j).toNat % 16))
      = b (4 * (j / 4) + (3 - j % 4)) := by
    intro j hj
    rw [hs j hj, if_neg (by omega), Nat.mod_eq_of_lt (by omega), byte_ofBytes b (by omega)]
  unfold shuffle_epi8
  rw [ofBytes]
  simp only [hby, Nat.reduceLT, Nat.reduceDiv, Nat.reduceMod, Nat.reduceMul, Nat.reduceAdd,
    Nat.reduceSub]

/-! ## The extensions -/

/-- The words `A B E F` of a state. -/
def abef (v : Hash) : M128 where
  w0 := v.f
  w1 := v.e
  w2 := v.b
  w3 := v.a

/-- The words `C D G H` of a state. -/
def cdgh (v : Hash) : M128 where
  w0 := v.h
  w1 := v.g
  w2 := v.d
  w3 := v.c

/-- **Two rounds.** -/
theorem sha256rnds2_epu32_abef (v : Hash) (k : M128) :
    sha256rnds2_epu32 (cdgh v) (abef v) k = abef (round k.w1 (round k.w0 v)) :=
  rfl

/-- Behind two rounds the words `A B E F` are the words `C D G H`. -/
theorem cdgh_round_round (v : Hash) (k k' : UInt32) : cdgh (round k' (round k v)) = abef v :=
  rfl

/-- Four words of a schedule. -/
def fourWords (m : ℕ → UInt32) (t : ℕ) : M128 where
  w0 := schedule m t
  w1 := schedule m (t + 1)
  w2 := schedule m (t + 2)
  w3 := schedule m (t + 3)

/-- **The next four words** of a schedule from the sixteen before them. -/
theorem sha256msg2_epu32_schedule (m : ℕ → UInt32) (t : ℕ) : sha256msg2_epu32
        (add_epi32 (sha256msg1_epu32 (fourWords m t) (fourWords m (t + 4)))
          (alignr_epi8 (fourWords m (t + 12)) (fourWords m (t + 8)) 4)) (fourWords m (t + 12))
      = fourWords m (t + 16) := by
  have hw : ∀ i, schedule m (t + i)
      + smallSigma0 (schedule m (t + (i + 1))) + schedule m (t + (i + 9))
      + smallSigma1 (schedule m (t + (i + 14)))
      = schedule m (t + (i + 16)) := by
    intro i
    rw [schedule_of_le m (show 16 ≤ t + (i + 16) by omega),
      show t + (i + 16) - 2 = t + (i + 14) by omega, show t + (i + 16) - 7 = t + (i + 9) by omega,
      show t + (i + 16) - 15 = t + (i + 1) by omega, show t + (i + 16) - 16 = t + i by omega]
    ac_rfl
  have h0 := hw 0
  have h1 := hw 1
  have h2 := hw 2
  have h3 := hw 3
  rw [alignr_epi8_four]
  unfold sha256msg2_epu32 add_epi32 sha256msg1_epu32 fourWords
  simp only [Nat.add_assoc, Nat.reduceAdd, Nat.add_zero] at h0 h1 h2 h3 ⊢
  rw [h0, h1, h2, h3]

end M128

end NeoGraph
