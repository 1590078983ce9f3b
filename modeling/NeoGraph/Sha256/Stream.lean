import NeoGraph.Basic
import NeoGraph.Sha256.Portable

/-!
# Hashing a stream

`Sha256Stream` hashes a message that comes in pieces. It keeps the bytes that do
not fill a block, compresses whole blocks where they lie, and pads the rest of the
message in `finish`.

The invariant of a stream is what it has hashed of the message so far
(`Sha256Stream.Holds`): the state is the hash value behind the whole blocks, and
the buffer begins with the bytes behind them. A compressor is any function with
the values of the portable one.
-/

namespace NeoGraph.Sha256

open List UInt64 Fips180

open Fips180 (Hash)

/-! ## The stream -/

/-- A way to compress blocks. -/
abbrev Compressor := Hash → List UInt8 → ℕ → Hash

/-- Bytes copied over those at an offset. -/
def memcpy (dst : List UInt8) (offset : ℕ) (src : List UInt8) : List UInt8 :=
  dst.take offset ++ src ++ dst.drop (offset + src.length)

/-- A digest that is being computed. -/
structure Sha256Stream where
  compress : Compressor
  state : Hash
  block : List UInt8 := replicate 64 0
  filled : ℕ := 0
  length : UInt64 := 0
  finished : Bool := false

namespace Sha256Stream

/-- A stream of a compressor. -/
def ofCompressor (compress : Compressor) : Sha256Stream where
  compress := compress
  state :=
    { a := 0x6a09e667, b := 0xbb67ae85, c := 0x3c6ef372, d := 0xa54ff53a
      e := 0x510e527f, f := 0x9b05688c, g := 0x1f83d9ab, h := 0x5be0cd19 }

/-- Whole blocks are compressed where they lie, and the rest is kept. -/
def absorb (s : Sha256Stream) (data : List UInt8) : Sha256Stream :=
  let blocks := data.length / s.block.length
  let s := if blocks ≠ 0 then { s with state := s.compress s.state data blocks } else s
  let data := data.drop (blocks * s.block.length)
  if data ≠ [] then { s with block := memcpy s.block 0 data, filled := data.length } else s

/-- Blocks are compressed as they fill up. -/
def update (s : Sha256Stream) (input : List UInt8) : Except Exn Sha256Stream :=
  if s.finished then .error (.logicError "SHA-256 hash is finished")
  else if input = [] then .ok s
  else
    let s := { s with length := s.length + ofNat input.length }
    if s.filled ≠ 0 then
      let take := min input.length (s.block.length - s.filled)
      let s := { s with
        block := memcpy s.block s.filled (input.take take), filled := s.filled + take }
      if s.filled < s.block.length then .ok s
      else
        .ok (absorb { s with state := s.compress s.state s.block 1, filled := 0 }
          (input.drop take))
    else .ok (s.absorb input)

/-- The last blocks of the message. -/
def tail (s : Sha256Stream) (tailSize : ℕ) : List UInt8 :=
  let tail := (memcpy (replicate 128 0) 0 (s.block.take s.filled)).set s.filled 0x80
  let bitLength := s.length * 8
  (range 8).foldl
    (fun tail i => tail.set (tailSize - 1 - i) (bitLength >>> ofNat (i * 8)).toUInt8) tail

/-- The padding, and the digest. -/
def finish (s : Sha256Stream) : Except Exn (List UInt8 × Sha256Stream) :=
  if s.finished then .error (.logicError "SHA-256 hash is finished")
  else
    let tailSize := if s.filled < 56 then 64 else 128
    let state := s.compress s.state (s.tail tailSize) (tailSize / 64)
    .ok (state.words.flatMap fun (word : UInt32) =>
        [(word >>> 24).toUInt8, (word >>> 16).toUInt8, (word >>> 8).toUInt8, word.toUInt8],
      { s with state := state, finished := true })

end Sha256Stream

/-! ## What a stream has hashed -/

/-- The values of the portable compression. -/
def Compressor.Correct (compress : Compressor) : Prop :=
  ∀ state data blocks, compress state data blocks = compressPortable state data blocks

/-- **A stream has hashed a message** up to its last whole block, and keeps the
rest. -/
structure Sha256Stream.Holds (s : Sha256Stream) (message : List UInt8) : Prop where
  compress : s.compress.Correct
  state : s.state = hashBlocks initial message (message.length / 64)
  block_length : s.block.length = 64
  block : s.block.take s.filled = message.drop (64 * (message.length / 64))
  filled : s.filled = message.length % 64
  length : s.length = ofNat message.length
  finished : s.finished = false

theorem length_memcpy {dst src : List UInt8} {offset : ℕ}
    (h : offset + src.length ≤ dst.length) : (memcpy dst offset src).length = dst.length := by
  unfold memcpy
  rw [length_append, length_append, length_take, length_drop]
  omega

/-- The bytes up to the end of the copy. -/
theorem take_memcpy {dst src : List UInt8} {offset : ℕ} (h : offset ≤ dst.length) :
    (memcpy dst offset src).take (offset + src.length) = dst.take offset ++ src := by
  unfold memcpy
  rw [take_left']
  rw [length_append, length_take, Nat.min_eq_left h]

namespace Sha256Stream.Holds

theorem ofCompressor {compress : Compressor} (h : compress.Correct) :
    (ofCompressor compress).Holds [] where
  compress := h
  state := rfl
  block_length := length_replicate
  block := rfl
  filled := rfl
  length := rfl
  finished := rfl

end Sha256Stream.Holds

/-- **A stream behind whole blocks**, with an empty buffer. -/
structure Sha256Stream.Aligned (s : Sha256Stream) (message : List UInt8) : Prop where
  compress : s.compress.Correct
  whole : 64 * (message.length / 64) = message.length
  state : s.state = hashBlocks initial message (message.length / 64)
  block_length : s.block.length = 64
  filled : s.filled = 0
  finished : s.finished = false

variable {s : Sha256Stream} {message : List UInt8}

/-- A correct compressor is the standard's. -/
theorem Compressor.Correct.eq_hashBlocks {compress : Compressor} (h : compress.Correct)
    (state : Hash) (data : List UInt8) (blocks : ℕ) :
    compress state data blocks = hashBlocks state data blocks :=
  (h state data blocks).trans (compressPortable_eq state data blocks)

namespace Sha256Stream

/-- What is compressed and what is kept. -/
theorem Aligned.absorb_eq (h : s.Aligned message) (data : List UInt8) :
    s.absorb data =
      let s' := { s with state := hashBlocks s.state data (data.length / 64) }
      let rest := data.drop (data.length / 64 * 64)
      if rest = [] then s'
      else { s' with block := memcpy s.block 0 rest, filled := rest.length } := by
  unfold Sha256Stream.absorb
  by_cases hz : data.length / 64 = 0
  · simp [hz, h.block_length, hashBlocks]
  · simp only [ne_eq, hz, not_false_eq_true, if_true, h.block_length, h.compress.eq_hashBlocks,
      ite_not]

/-- **Whole blocks and a rest** behind whole blocks. -/
theorem Aligned.absorb (h : s.Aligned message) (data : List UInt8)
    (hl : s.length = ofNat (message ++ data).length) :
    (s.absorb data).Holds (message ++ data) := by
  have hw := h.whole
  have hb : (message ++ data).length / 64 = message.length / 64 + data.length / 64 := by
    rw [length_append]
    omega
  have hfil : (data.drop (data.length / 64 * 64)).length = (message ++ data).length % 64 := by
    rw [length_append, length_drop]
    omega
  have hst : hashBlocks s.state data (data.length / 64)
      = hashBlocks initial (message ++ data) ((message ++ data).length / 64) := by
    rw [hb, hashBlocks_append _ _ hw.symm, h.state]
  have hr : data.drop (data.length / 64 * 64)
      = (message ++ data).drop (64 * ((message ++ data).length / 64)) := by
    rw [hb, Nat.mul_add, hw, drop_length_add_append, Nat.mul_comm]
  have hlt : (data.drop (data.length / 64 * 64)).length < 64 := by omega
  rw [h.absorb_eq]
  dsimp only
  split_ifs with hn
  · rw [hn] at hr hfil
    exact { h with
      state := hst
      block := by
        rw [← hr]
        show s.block.take s.filled = []
        rw [h.filled, take_zero]
      filled := h.filled.trans hfil
      length := hl }
  · exact { h with
      state := hst
      block_length := by
        show (memcpy _ _ _).length = 64
        rw [length_memcpy (by rw [h.block_length]; omega), h.block_length]
      block := by
        rw [← hr]
        show (memcpy s.block 0 _).take (data.drop _).length = _
        have htk := @take_memcpy s.block (data.drop (data.length / 64 * 64)) 0 (Nat.zero_le _)
        rwa [Nat.zero_add, take_zero, nil_append] at htk
      filled := hfil
      length := hl }

/-- **A piece of the message.** -/
theorem Holds.update (h : s.Holds message) (input : List UInt8) :
    ∃ s', s.update input = .ok s' ∧ s'.Holds (message ++ input) := by
  unfold Sha256Stream.update
  rw [if_neg (by rw [h.finished]; exact Bool.false_ne_true)]
  split
  · rename_i he
    exact ⟨s, rfl, by rwa [he, append_nil]⟩
  have hl : s.length + ofNat input.length
      = ofNat (message ++ input).length := by
    rw [h.length, length_append, ofNat_add]
  dsimp only
  split
  · -- the buffer is filled first
    have hfil := h.filled
    have hp : 64 * (message.length / 64) ≤ message.length := Nat.mul_div_le _ _
    generalize htk : min input.length (64 - s.filled) = n
    have hn : (input.take n).length = n := by
      rw [length_take]
      omega
    have hbl : (memcpy s.block s.filled (input.take n)).take (s.filled + n)
        = message.drop (64 * (message.length / 64)) ++ input.take n := by
      have hcopied := @take_memcpy s.block (input.take n) s.filled (by rw [h.block_length]; omega)
      rwa [hn, h.block] at hcopied
    have hblock_length : (memcpy s.block s.filled (input.take n)).length = 64 := by
      rw [length_memcpy (by rw [hn, h.block_length]; omega), h.block_length]
    rw [h.block_length, htk, hblock_length]
    split
    · -- the message still ends in the buffer
      rename_i hlt
      have ha : input.take n = input := take_of_length_le (by omega)
      have hb : (message ++ input).length / 64 = message.length / 64 := by
        rw [length_append]
        omega
      rw [ha] at hbl hblock_length hn ⊢
      exact ⟨_, rfl, { h with
        state := by rw [hb, hashBlocks_append_left _ _ hp, ← h.state]
        block_length := hblock_length
        block := by rw [hb, drop_append_of_le_length hp]; exact hbl
        filled := by
          show s.filled + n = _
          rw [length_append]
          omega
        length := hl }⟩
    · -- the buffer is a block behind the whole blocks before
      rename_i hf
      have hspl : message ++ input = (message ++ input.take n) ++ input.drop n := by
        rw [append_assoc, take_append_drop]
      have hw : (message ++ input.take n).length = 64 * (message.length / 64 + 1) := by
        rw [length_append, hn]
        omega
      rw [take_of_length_le (by omega)] at hbl
      have hmsg : message ++ input.take n = message.take (64 * (message.length / 64))
          ++ memcpy s.block s.filled (input.take n) := by
        rw [hbl, ← append_assoc, take_append_drop]
      have haligned : Aligned { s with
          length := s.length + ofNat input.length
          block := memcpy s.block s.filled (input.take n)
          state := s.compress s.state (memcpy s.block s.filled (input.take n)) 1
          filled := 0 } (message ++ input.take n) :=
        { h with
          whole := by rw [hw]; omega
          state := by
            rw [hw, Nat.mul_div_cancel_left _ (by decide), hmsg,
              hashBlocks_take_append _ _ _ hp, ← h.state]
            exact h.compress.eq_hashBlocks _ _ _
          block_length := hblock_length
          filled := rfl }
      refine ⟨_, rfl, ?_⟩
      rw [hspl]
      exact haligned.absorb (input.drop n) (by rw [← hspl]; exact hl)
  · rename_i hfil
    have hz := Decidable.not_not.mp hfil
    have hw : 64 * (message.length / 64) = message.length := by
      have := h.filled.symm.trans hz
      omega
    have haligned : Aligned { s with length := s.length + ofNat input.length } message :=
      { h with whole := hw, filled := hz }
    exact ⟨_, rfl, haligned.absorb input hl⟩

/-- **The pieces of the message**, one after the other. -/
theorem Holds.foldlM_update (h : s.Holds message) (chunks : List (List UInt8)) :
    ∃ s', chunks.foldlM Sha256Stream.update s = .ok s' ∧ s'.Holds (message ++ chunks.flatten) := by
  induction chunks generalizing s message with
  | nil => exact ⟨s, rfl, by rwa [flatten_nil, append_nil]⟩
  | cons chunk chunks ih =>
    obtain ⟨s₁, hu, h₁⟩ := h.update chunk
    obtain ⟨s₂, hr, h₂⟩ := ih h₁
    refine ⟨s₂, ?_, by rwa [flatten_cons, ← append_assoc]⟩
    rw [foldlM_cons, hu]
    exact hr

end Sha256Stream

/-! ## The padding -/

theorem set_length_add (l l' : List UInt8) (k : ℕ) (b : UInt8) :
    (l ++ l').set (l.length + k) b = l ++ l'.set k b := by
  rw [set_append_right _ _ (Nat.le_add_right _ _), Nat.add_sub_cancel_left]

/-- Bytes written from the last one backwards. -/
theorem foldl_set_backwards (l l' : List UInt8) (byte : ℕ → UInt8) :
    (range 8).foldl (fun tail i => tail.set (l.length + 8 - 1 - i) (byte i))
        (l ++ (replicate 8 0 ++ l'))
      = l ++ ((range 8).map (fun i => byte (7 - i)) ++ l') := by
  have hs : ∀ i < 8, ∀ l'' : List UInt8,
      (l ++ l'').set (l.length + 8 - 1 - i) (byte i) = l ++ l''.set (7 - i) (byte i) := by
    intro i hi l''
    rw [← set_length_add]
    congr 1
    omega
  show ((((((((l ++ (replicate 8 0 ++ l')).set _ _).set _ _).set _ _).set _ _).set _ _).set
    _ _).set _ _).set _ _ = _
  rw [hs 0 (by decide), hs 1 (by decide), hs 2 (by decide), hs 3 (by decide),
    hs 4 (by decide), hs 5 (by decide), hs 6 (by decide), hs 7 (by decide)]
  rfl

/-- A byte of the length in bits. -/
theorem toUInt8_bitLength {n : ℕ} (h : n < 2 ^ 61) {i : ℕ} (hi : i < 8) :
    ((UInt64.ofNat n * 8) >>> UInt64.ofNat (i * 8)).toUInt8
      = UInt8.ofNat (8 * n / 2 ^ (8 * i)) := by
  rw [← UInt8.toNat_inj, UInt64.toNat_toUInt8, UInt64.toNat_shiftRight, UInt64.toNat_mul,
    UInt64.toNat_ofNat', UInt64.toNat_ofNat', UInt8.toNat_ofNat', Nat.shiftRight_eq_div_pow,
    Nat.mod_eq_of_lt (show n < 2 ^ 64 by omega), Nat.mod_eq_of_lt (show i * 8 < 2 ^ 64 by omega),
    Nat.mod_eq_of_lt (show i * 8 < 64 by omega), Nat.mul_comm i 8, Nat.mul_comm n]
  show 8 * n % 2 ^ 64 / 2 ^ (8 * i) % 2 ^ 8 = _
  rw [Nat.mod_eq_of_lt (show 8 * n < 2 ^ 64 by omega)]

namespace Sha256Stream

/-- **The last blocks** are the rest of the message and the padding, and zeros. -/
theorem Holds.tail_eq (h : s.Holds message) (hl : message.length < 2 ^ 61) :
    s.tail (if s.filled < 56 then 64 else 128) = (message.drop (64 * (message.length / 64)) ++ 0x80
        :: (replicate (zeros message.length) 0
          ++ lengthBytes (8 * message.length)))
      ++ replicate (128 - (if s.filled < 56 then 64 else 128)) 0 := by
  have hfil := h.filled
  have hr : (message.drop (64 * (message.length / 64))).length = s.filled := by
    rw [length_drop]
    omega
  have hzeros : s.filled + 1 + zeros message.length + 8
      = if s.filled < 56 then 64 else 128 := by
    unfold zeros
    split <;> omega
  have hle : (if s.filled < 56 then 64 else 128) ≤ 128 := by
    split <;> decide
  generalize (if s.filled < 56 then 64 else 128) = tailSize at hzeros hle ⊢
  -- the rest and the marked byte, in front of zeros
  have hmk : (memcpy (replicate 128 0) 0 (s.block.take s.filled)).set s.filled 0x80
      = (message.drop (64 * (message.length / 64))
          ++ 0x80 :: replicate (zeros message.length) 0)
        ++ (replicate 8 0 ++ replicate (128 - tailSize) 0) := by
    have hs := set_length_add (message.drop (64 * (message.length / 64)))
      (replicate (128 - s.filled) 0) 0 0x80
    rw [Nat.add_zero, hr] at hs
    unfold memcpy
    rw [h.block, hr, take_zero, nil_append, drop_replicate, Nat.zero_add, hs,
      show 128 - s.filled = (zeros message.length + (8 + (128 - tailSize))) + 1 by omega,
      replicate_succ, replicate_add, replicate_add]
    simp
  have hsz : tailSize = (message.drop (64 * (message.length / 64))
      ++ 0x80 :: replicate (zeros message.length) 0).length + 8 := by
    rw [length_append, length_cons, length_replicate, hr]
    omega
  have hbs : (range 8).map (fun i => ((s.length * 8) >>> ofNat ((7 - i) * 8)).toUInt8)
      = lengthBytes (8 * message.length) := by
    unfold lengthBytes
    refine map_congr_left fun i hi => ?_
    rw [h.length]
    exact toUInt8_bitLength hl (Nat.lt_of_le_of_lt (Nat.sub_le 7 i) (by decide))
  unfold Sha256Stream.tail
  rw [hmk, hsz, foldl_set_backwards, hbs]
  simp only [append_assoc, cons_append]

/-- **The digest** of the message. -/
theorem Holds.finish (h : s.Holds message) (hlen : message.length < 2 ^ 61) :
    ∃ s', s.finish = .ok (sha256 message, s') := by
  have hp : 64 * (message.length / 64) ≤ message.length := Nat.mul_div_le _ _
  have hfil := h.filled
  generalize hsz : (if s.filled < 56 then 64 else 128) = tailSize
  have ht := h.tail_eq hlen
  rw [hsz] at ht
  have hb : (pad message).length / 64 = message.length / 64 + tailSize / 64 := by
    rw [length_pad, ← hsz]
    unfold zeros
    split <;> omega
  have hpad : pad message = message.take (64 * (message.length / 64))
      ++ (message.drop (64 * (message.length / 64)) ++ 0x80
        :: (replicate (zeros message.length) 0
          ++ lengthBytes (8 * message.length))) := by
    rw [← append_assoc, take_append_drop]
    rfl
  have hl : 64 * (tailSize / 64) ≤ (message.drop (64 * (message.length / 64)) ++ 0x80
      :: (replicate (zeros message.length) 0
        ++ lengthBytes (8 * message.length))).length := by
    have := congrArg List.length hpad
    rw [length_append, length_take, Nat.min_eq_left hp] at this
    omega
  unfold Sha256Stream.finish
  rw [if_neg (by rw [h.finished]; exact Bool.false_ne_true)]
  dsimp only
  rw [hsz, ht, h.compress.eq_hashBlocks, hashBlocks_append_left _ _ hl, h.state,
    ← hashBlocks_take_append _ _ _ hp, ← hpad, ← hb]
  exact ⟨_, rfl⟩

end Sha256Stream

end NeoGraph.Sha256
