import NeoGraph.Lib.M128
import NeoGraph.Sha256.Stream

/-!
# The compression of SHA-256 on x86

`compress_x86_sha` keeps the state in two vectors, `ABEF` and `CDGH`, and the last
sixteen words of the message schedule in four vectors that rotate: sixteen times
four rounds, of which the first twelve extend the schedule.

A state of the registers is reached by whole rounds (`Registers.Holds`): the two
vectors are the working variables of SHA-256 behind four rounds each turn, and the
vectors of the message are the words that later rounds read.

A stream hashes with this compression where the processor has the instructions,
and with the portable one elsewhere.
-/

namespace NeoGraph.Sha256

open List M128 Fips180

open Fips180 (Hash)

open M128

/-! ## The compression -/

/-- The registers of a block. -/
structure Registers where
  abef : M128
  cdgh : M128
  m0 : M128
  m1 : M128
  m2 : M128
  m3 : M128

/-- Four rounds from a round on. -/
def Registers.rounds (r : Registers) (round : ℕ) : Registers :=
  let message := add_epi32 r.m0 (loaduWords roundConstants round)
  let cdgh := sha256rnds2_epu32 r.cdgh r.abef message
  let message := shuffle_epi32 message 0x0e
  let abef := sha256rnds2_epu32 r.abef cdgh message
  if round < 48 then
    let next := sha256msg1_epu32 r.m0 r.m1
    let next := add_epi32 next (alignr_epi8 r.m3 r.m2 4)
    let next := sha256msg2_epu32 next r.m3
    { abef := abef, cdgh := cdgh, m0 := r.m1, m1 := r.m2, m2 := r.m3, m3 := next }
  else { r with abef := abef, cdgh := cdgh, m0 := r.m1, m1 := r.m2, m2 := r.m3 }

/-- The vectors `ABEF` and `CDGH` behind a number of blocks. -/
def compressX86Blocks (abef cdgh : M128) (data : List UInt8) : ℕ → M128 × M128
  | 0 => (abef, cdgh)
  | blocks + 1 =>
    let swap := set_epi64x 0x0c0d0e0f08090a0b 0x0405060700010203
    let r := (range 16).foldl (fun (r : Registers) i => r.rounds (4 * i))
      { abef := abef
        cdgh := cdgh
        m0 := shuffle_epi8 (loadu data 0) swap
        m1 := shuffle_epi8 (loadu data 16) swap
        m2 := shuffle_epi8 (loadu data 32) swap
        m3 := shuffle_epi8 (loadu data 48) swap }
    compressX86Blocks (add_epi32 r.abef abef) (add_epi32 r.cdgh cdgh) (data.drop 64) blocks

/-- **The compression** with the instructions of the processor. -/
def compressX86Sha (state : Hash) (data : List UInt8) (blocks : ℕ) : Hash :=
  let tmp := loaduWords state.words 0
  let cdgh := loaduWords state.words 4
  let tmp := shuffle_epi32 tmp 0xb1
  let cdgh := shuffle_epi32 cdgh 0x1b
  let abef := alignr_epi8 tmp cdgh 8
  let cdgh := blend_epi16 cdgh tmp 0xf0
  let (abef, cdgh) := compressX86Blocks abef cdgh data blocks
  let tmp := shuffle_epi32 abef 0x1b
  let cdgh := shuffle_epi32 cdgh 0xb1
  let abef := blend_epi16 tmp cdgh 0xf0
  let cdgh := alignr_epi8 cdgh tmp 8
  { a := abef.w0, b := abef.w1, c := abef.w2, d := abef.w3
    e := cdgh.w0, f := cdgh.w1, g := cdgh.w2, h := cdgh.w3 }

/-! ## Four rounds -/

variable {m : ℕ → UInt32} {v : Hash} {r : Registers}

/-- **The registers behind the first rounds** of a block: of the vectors of the
message, those that are still read are words of the schedule. -/
structure Registers.Holds (m : ℕ → UInt32) (v : Hash) (r : Registers) (turn : ℕ) : Prop where
  abef : r.abef = M128.abef (Fips180.rounds m v (4 * turn))
  cdgh : r.cdgh = M128.cdgh (Fips180.rounds m v (4 * turn))
  m0 : turn < 16 → r.m0 = fourWords m (4 * turn)
  m1 : turn < 15 → r.m1 = fourWords m (4 * turn + 4)
  m2 : turn < 14 → r.m2 = fourWords m (4 * turn + 8)
  m3 : turn < 13 → r.m3 = fourWords m (4 * turn + 12)

theorem rounds_succ (m : ℕ → UInt32) (v : Hash) (n : ℕ) : Fips180.rounds m v (n + 1)
      = Fips180.round (constant n + schedule m n) (Fips180.rounds m v n) := by
  unfold Fips180.rounds
  rw [range_succ, foldl_append, foldl_cons, foldl_nil]

/-- **A turn is four rounds.** -/
theorem Registers.Holds.rounds {turn : ℕ} (h : Registers.Holds m v r turn) (ht : turn < 16) :
    Registers.Holds m v (r.rounds (4 * turn)) (turn + 1) := by
  have hr : Fips180.rounds m v (4 * (turn + 1))
      = Fips180.round (schedule m (4 * turn + 3) + constant (4 * turn + 3))
        (Fips180.round (schedule m (4 * turn + 2) + constant (4 * turn + 2))
          (Fips180.round (schedule m (4 * turn + 1) + constant (4 * turn + 1))
            (Fips180.round (schedule m (4 * turn) + constant (4 * turn))
              (Fips180.rounds m v (4 * turn))))) := by
    rw [Nat.mul_succ, rounds_succ, rounds_succ, rounds_succ, rounds_succ]
    simp only [UInt32.add_comm]
  have hcdgh : sha256rnds2_epu32 r.cdgh r.abef
      (add_epi32 r.m0 (loaduWords roundConstants (4 * turn)))
      = M128.cdgh (Fips180.rounds m v (4 * (turn + 1))) := by
    rw [h.abef, h.cdgh, h.m0 ht, sha256rnds2_epu32_abef, hr, cdgh_round_round]
    rfl
  have habef : sha256rnds2_epu32 r.abef (M128.cdgh (Fips180.rounds m v (4 * (turn + 1))))
      (shuffle_epi32 (add_epi32 r.m0 (loaduWords roundConstants (4 * turn))) 0x0e)
      = M128.abef (Fips180.rounds m v (4 * (turn + 1))) := by
    rw [h.abef, h.m0 ht, hr, cdgh_round_round, ← cdgh_round_round _
      (schedule m (4 * turn) + constant (4 * turn))
      (schedule m (4 * turn + 1) + constant (4 * turn + 1)),
      sha256rnds2_epu32_abef]
    rfl
  unfold Registers.rounds
  dsimp only
  rw [hcdgh, habef]
  split
  · -- the schedule is extended
    rename_i hlt
    exact
      { abef := rfl
        cdgh := rfl
        m0 := fun _ => h.m1 (by omega)
        m1 := fun _ => h.m2 (by omega)
        m2 := fun _ => h.m3 (by omega)
        m3 := fun _ => by
          rw [h.m0 ht, h.m1 (by omega), h.m2 (by omega), h.m3 (by omega)]
          exact sha256msg2_epu32_schedule m (4 * turn) }
  · exact
      { abef := rfl
        cdgh := rfl
        m0 := fun _ => h.m1 (by omega)
        m1 := fun _ => h.m2 (by omega)
        m2 := fun _ => h.m3 (by omega)
        m3 := fun _ => absurd ‹turn + 1 < 13› (by omega) }

/-- **A block** is all its rounds. -/
theorem Registers.Holds.foldl_rounds (h : Registers.Holds m v r 0) (n : ℕ) (hn : n ≤ 16) :
    Registers.Holds m v ((range n).foldl (fun (r : Registers) i => r.rounds (4 * i)) r) n := by
  induction n with
  | zero => exact h
  | succ n ih =>
    rw [range_succ, foldl_append, foldl_cons, foldl_nil]
    exact (ih (by omega)).rounds (by omega)

/-! ## Blocks -/

/-- The words of a block, loaded and swapped. -/
theorem shuffle_epi8_loadu (data : List UInt8) {t : ℕ} (h : t + 3 < 16) :
    shuffle_epi8 (loadu data (4 * t)) (set_epi64x 0x0c0d0e0f08090a0b 0x0405060700010203)
      = fourWords (word data) t := by
  unfold loadu
  rw [shuffle_epi8_swap]
  unfold fourWords
  rw [schedule_of_lt _ (by omega), schedule_of_lt _ (by omega),
    schedule_of_lt _ (by omega), schedule_of_lt _ (by omega)]
  rfl

/-- The sum of two states in registers. -/
theorem add_epi32_abef (v w : Hash) : add_epi32 (abef v) (abef w) = abef (v.add w) :=
  rfl

theorem add_epi32_cdgh (v w : Hash) : add_epi32 (cdgh v) (cdgh w) = cdgh (v.add w) :=
  rfl

/-- **The blocks of the two vectors** are the blocks of SHA-256. -/
theorem compressX86Blocks_eq (v : Hash) (data : List UInt8) (blocks : ℕ) :
    compressX86Blocks (abef v) (cdgh v) data blocks
      = (abef (hashBlocks v data blocks), cdgh (hashBlocks v data blocks)) := by
  induction blocks generalizing v data with
  | zero => rfl
  | succ blocks ih =>
    have hb := Registers.Holds.foldl_rounds (m := word data) (v := v) (r :=
        { abef := abef v
          cdgh := cdgh v
          m0 := shuffle_epi8 (loadu data 0) _
          m1 := shuffle_epi8 (loadu data 16) _
          m2 := shuffle_epi8 (loadu data 32) _
          m3 := shuffle_epi8 (loadu data 48) _ })
      { abef := rfl
        cdgh := rfl
        m0 := fun _ => shuffle_epi8_loadu data (t := 0) (by decide)
        m1 := fun _ => shuffle_epi8_loadu data (t := 4) (by decide)
        m2 := fun _ => shuffle_epi8_loadu data (t := 8) (by decide)
        m3 := fun _ => shuffle_epi8_loadu data (t := 12) (by decide) } 16 (Nat.le_refl 16)
    unfold compressX86Blocks hashBlocks compress
    dsimp only
    rw [← ih, ← add_epi32_abef, ← add_epi32_cdgh, ← hb.abef, ← hb.cdgh]

/-- The words `A B E F` on the way in. -/
theorem alignr_epi8_words (state : Hash) :
    alignr_epi8 (shuffle_epi32 (loaduWords state.words 0) 0xb1)
      (shuffle_epi32 (loaduWords state.words 4) 0x1b) 8 = abef state := by
  rw [alignr_epi8_eight]
  rfl

/-- The words `C D G H` on the way in. -/
theorem blend_epi16_words (state : Hash) :
    blend_epi16 (shuffle_epi32 (loaduWords state.words 4) 0x1b)
      (shuffle_epi32 (loaduWords state.words 0) 0xb1) 0xf0 = cdgh state := by
  rw [blend_epi16_high]
  rfl

theorem compressX86Sha_eq_hashBlocks (state : Hash) (data : List UInt8) (blocks : ℕ) :
    compressX86Sha state data blocks = hashBlocks state data blocks := by
  unfold compressX86Sha
  dsimp only
  rw [alignr_epi8_words, blend_epi16_words, compressX86Blocks_eq]
  -- the way out is the permutation back
  dsimp only
  rw [alignr_epi8_eight, blend_epi16_high]
  rfl

/-- **The two compressions agree** on every state and every number of blocks. -/
theorem compressX86Sha_eq (state : Hash) (data : List UInt8) (blocks : ℕ) :
    compressX86Sha state data blocks = compressPortable state data blocks :=
  (compressX86Sha_eq_hashBlocks state data blocks).trans
    (compressPortable_eq state data blocks).symm

/-! ## Backends -/

/-- Which compression is asked for. -/
inductive Sha256Backend where
  | automatic
  | portable
  | x86Sha
  | arm64Sha

/-- What `x86_sha_available` answers decides the fastest compressor, in a build
without the instructions of the other architecture. -/
def automaticCompressor (x86ShaAvailable : Bool) : Compressor :=
  if x86ShaAvailable then compressX86Sha else compressPortable

namespace Sha256Stream

/-- The stream of a backend. -/
def ofBackend (x86ShaAvailable : Bool) : Sha256Backend → Except Exn Sha256Stream
  | .automatic => .ok (ofCompressor (automaticCompressor x86ShaAvailable))
  | .portable => .ok (ofCompressor compressPortable)
  | .x86Sha =>
    if x86ShaAvailable then .ok (ofCompressor compressX86Sha)
    else .error (.invalidArgument "SHA-256 hardware backend is unavailable")
  | .arm64Sha => .error (.invalidArgument "SHA-256 hardware backend is unavailable")

/-- Every stream starts with a compressor of SHA-256. -/
theorem holds_of_ofBackend {x86ShaAvailable : Bool} {backend : Sha256Backend} {s : Sha256Stream}
    (h : ofBackend x86ShaAvailable backend = .ok s) : s.Holds [] := by
  have hportable : (ofCompressor compressPortable).Holds [] := .ofCompressor fun _ _ _ => rfl
  have hx86 : (ofCompressor compressX86Sha).Holds [] := .ofCompressor fun state data blocks =>
    (compressX86Sha_eq_hashBlocks state data blocks).trans
      (compressPortable_eq state data blocks).symm
  cases backend with
  | automatic =>
    cases h
    cases x86ShaAvailable with
    | false => exact hportable
    | true => exact hx86
  | portable =>
    cases h
    exact hportable
  | x86Sha =>
    cases x86ShaAvailable with
    | false => cases h
    | true =>
      cases h
      exact hx86
  | arm64Sha => cases h

/-- **Streaming SHA-256 is SHA-256**: in whatever pieces a message of less than
`2 ^ 61` bytes comes, every stream finishes with its digest. -/
theorem finish_foldlM_update {x86ShaAvailable : Bool} {backend : Sha256Backend}
    {s : Sha256Stream} (h : ofBackend x86ShaAvailable backend = .ok s)
    (chunks : List (List UInt8)) (hl : chunks.flatten.length < 2 ^ 61) :
    ∃ s' s'', chunks.foldlM update s = .ok s'
      ∧ s'.finish = .ok (sha256 chunks.flatten, s'') := by
  obtain ⟨s', hu, hh⟩ := (holds_of_ofBackend h).foldlM_update chunks
  obtain ⟨s'', hf⟩ := hh.finish hl
  exact ⟨s', s'', hu, hf⟩

/-- Three pieces, one of them empty. -/
theorem finish_foldlM_update_abc : ∃ s' s'',
    [[0x61], [], [0x62, 0x63]].foldlM update (ofCompressor compressX86Sha) = .ok s'
      ∧ s'.finish = .ok (sha256 [0x61, 0x62, 0x63], s'') :=
  @finish_foldlM_update true .automatic _ rfl [[0x61], [], [0x62, 0x63]] (by decide)

end Sha256Stream

end NeoGraph.Sha256
