import Mathlib
import NeoGraph.Sse.EventStream

/-!
# Chunks are read byte by byte

`feed` works on whole chunks: it looks for line ends, checks a limit for a
whole fragment and looks ahead for the LF of a CRLF. `step` is the same
parser on a single byte, and `feed_eq_foldlM` says that feeding a chunk is
feeding its bytes – with the same exception, if there is one. Cutting a
stream into chunks is then cutting a fold (`feed_append`).
-/

namespace NeoGraph.Sse

open LineStream List

variable (options : SseParserOptions)

/-! ## The parser on one byte -/

/-- A byte of a line, or one that ends it. -/
def stepLine (s : SseState) (b : UInt8) : Except SseFailure SseState :=
  if isLineEnd b then do
    ensureCanAdd s s.raw.length 0 options.maxPartialLineBytes partialLineText
    let s' ← consumeLine options s s.raw
    .ok { s' with raw := [], skipLf := b = cr }
  else do
    ensureCanAdd s s.raw.length 1 options.maxPartialLineBytes partialLineText
    .ok { s with raw := s.raw ++ [b] }

/-- A byte after the start of the stream. -/
def stepBody (s : SseState) (b : UInt8) : Except SseFailure SseState :=
  if s.skipLf && b = lf then .ok { s with skipLf := false }
  else stepLine options { s with skipLf := false } b

/-- Bytes held back for a byte order mark become the start of a line. -/
def releaseHeld (s : SseState) : Except SseFailure SseState := do
  let s := { s with atStart := false }
  if s.raw.isEmpty then .ok s
  else
    ensureCanAdd s 0 s.raw.length options.maxPartialLineBytes partialLineText
    .ok s

/-- A byte. -/
def step (s : SseState) (b : UInt8) : Except SseFailure SseState :=
  if s.atStart then
    if byteOrderMark[s.raw.length]? = some b then
      if s.raw.length + 1 = byteOrderMark.length then
        .ok { s with raw := [], atStart := false }
      else .ok { s with raw := s.raw ++ [b] }
    else do
      let s ← releaseHeld options s
      stepBody options s b
  else stepBody options s b

/-! ## Limits -/

theorem ensureCanAdd_eq (s : SseState) (current addition limit : ℕ) (message : String) :
    ensureCanAdd s current addition limit message
      = if current + addition ≤ limit then .ok () else .error (failLimit s message) := by
  unfold ensureCanAdd
  by_cases h : current + addition ≤ limit
  · rw [if_pos h, if_neg (by omega)]
  · rw [if_neg h, if_pos (by omega)]

theorem failLimit_raw (s : SseState) (raw : Bytes) (message : String) :
    failLimit { s with raw := raw } message = failLimit s message := rfl

variable {options}

/-! ## Lines -/

variable {s s' : SseState}

/-- What a blank line does. -/
theorem finishEvent_eq_ok (h : finishEvent options s = .ok s') :
    (s.curHasData = false ∧ s' = { s with curEvent := [], curEventBytes := 0 })
      ∨ (s.curHasData = true
        ∧ s' = { s with
            pending := s.pending ++ [⟨s.curEvent, s.curData, s.lastId⟩],
            pendingBytes := s.pendingBytes + (s.curEventBytes + s.lastId.length),
            curEvent := [], curData := [], curEventBytes := 0, curHasData := false }) := by
  unfold finishEvent at h
  cases hd : s.curHasData with
  | false =>
    rw [hd] at h
    cases h
    exact .inl ⟨rfl, rfl⟩
  | true =>
    rw [hd] at h
    obtain ⟨-, h⟩ := bind_unit_eq_ok.mp h
    obtain ⟨-, h⟩ := bind_unit_eq_ok.mp h
    cases h
    exact .inr ⟨rfl, rfl⟩

variable {value : Bytes}

theorem consumeData_eq_ok (h : consumeData options s value = .ok s') : s' = { s with
      curData := (if s.curHasData then s.curData ++ [lf] else s.curData) ++ value,
      curEventBytes := s.curEventBytes + (if s.curHasData then 1 else 0) + value.length,
      curHasData := true } := by
  obtain ⟨-, h⟩ := bind_unit_eq_ok.mp h
  obtain ⟨-, h⟩ := bind_unit_eq_ok.mp h
  cases h
  rfl

theorem consumeEvent_eq_ok (h : consumeEvent options s value = .ok s') : s' = { s with
      curEvent := value,
      curEventBytes := s.curEventBytes - s.curEvent.length + value.length } := by
  obtain ⟨-, h⟩ := bind_unit_eq_ok.mp h
  cases h
  rfl

theorem consumeId_eq_ok (h : consumeId options s value = .ok s') :
    s' = if value.contains 0 then s else { s with lastId := value } := by
  unfold consumeId at h
  split_ifs at h with hnul
  · cases h
    rw [if_pos hnul]
  · obtain ⟨-, h⟩ := bind_unit_eq_ok.mp h
    cases h
    rw [if_neg hnul]

/-- The part of the state that reading a line leaves alone. -/
structure SameReader (s s' : SseState) : Prop where
  raw : s'.raw = s.raw
  skipLf : s'.skipLf = s.skipLf
  atStart : s'.atStart = s.atStart
  failed : s'.failed = s.failed

theorem consumeLine_sameReader {line : Bytes} (h : consumeLine options s line = .ok s') :
    SameReader s s' := by
  unfold consumeLine at h
  split at h
  · obtain ⟨-, rfl⟩ | ⟨-, rfl⟩ := finishEvent_eq_ok h <;> exact ⟨rfl, rfl, rfl, rfl⟩
  split at h
  · cases h
    exact ⟨rfl, rfl, rfl, rfl⟩
  dsimp only at h
  split at h
  · rw [consumeData_eq_ok h]
    exact ⟨rfl, rfl, rfl, rfl⟩
  split at h
  · rw [consumeEvent_eq_ok h]
    exact ⟨rfl, rfl, rfl, rfl⟩
  split at h
  · rw [consumeId_eq_ok h]
    split <;> exact ⟨rfl, rfl, rfl, rfl⟩
  split at h
  · cases h
    unfold consumeRetry
    split <;> exact ⟨rfl, rfl, rfl, rfl⟩
  · cases h
    exact ⟨rfl, rfl, rfl, rfl⟩

/-! ## Fragments of a line -/

theorem stepBody_of_skipLf_eq_false (hsk : s.skipLf = false) (b : UInt8) :
    stepBody options s b = stepLine options s b := by
  obtain ⟨⟩ := s
  cases hsk
  rfl

variable {b : UInt8}

theorem stepLine_of_not_lineEnd (hb : isLineEnd b = false) :
    stepLine options s b = (if s.raw.length + 1 ≤ options.maxPartialLineBytes then
      .ok { s with raw := s.raw ++ [b] } else .error (failLimit s partialLineText)) := by
  unfold stepLine
  rw [if_neg (by simp [hb]), ensureCanAdd_eq]
  split <;> rfl

variable {fragment : Bytes}

/-- Bytes that end no line extend the unfinished one, within the limit. -/
theorem foldlM_stepBody_fragment (hsk : s.skipLf = false)
    (hne : fragment ≠ []) (hf : ∀ b ∈ fragment, isLineEnd b = false) :
    fragment.foldlM (stepBody options) s
      = (if s.raw.length + fragment.length ≤ options.maxPartialLineBytes then
          .ok { s with raw := s.raw ++ fragment } else .error (failLimit s partialLineText)) := by
  induction fragment generalizing s with
  | nil => exact absurd rfl hne
  | cons b rest ih =>
    rw [foldlM_cons, stepBody_of_skipLf_eq_false hsk,
      stepLine_of_not_lineEnd (hf b mem_cons_self)]
    by_cases hl : s.raw.length + 1 ≤ options.maxPartialLineBytes
    · rw [if_pos hl]
      show rest.foldlM (stepBody options) { s with raw := s.raw ++ [b] } = _
      cases rest with
      | nil =>
        rw [if_pos (by exact hl)]
        rfl
      | cons c rest =>
        rw [ih (s := { s with raw := s.raw ++ [b] }) hsk (cons_ne_nil c rest)
          (fun d hd => hf d (mem_cons_of_mem b hd)), failLimit_raw]
        simp only [length_append, length_cons, length_nil, append_assoc,
          singleton_append, Nat.zero_add, Nat.add_assoc, Nat.add_comm 1]
    · rw [if_neg hl, if_neg (by rw [length_cons]; omega)]
      rfl

/-- A fragment and the byte that ends its line. -/
theorem foldlM_stepBody_line (hsk : s.skipLf = false) (hf : ∀ b ∈ fragment, isLineEnd b = false)
    {terminator : UInt8} (ht : isLineEnd terminator = true) (rest : Bytes) :
    (fragment ++ terminator :: rest).foldlM (stepBody options) s
      = (if s.raw.length + fragment.length ≤ options.maxPartialLineBytes then do
          let s' ← consumeLine options { s with raw := s.raw ++ fragment } (s.raw ++ fragment)
          rest.foldlM (stepBody options) { s' with raw := [], skipLf := terminator = cr }
        else .error (failLimit s partialLineText)) := by
  have he : ∀ s : SseState, s.skipLf = false → s.raw.length ≤ options.maxPartialLineBytes →
      (terminator :: rest).foldlM (stepBody options) s = (do
        let s' ← consumeLine options s s.raw
        rest.foldlM (stepBody options) { s' with raw := [], skipLf := terminator = cr }) := by
    intro s hsk hl
    rw [foldlM_cons, stepBody_of_skipLf_eq_false hsk]
    unfold stepLine
    rw [if_pos ht, ensureCanAdd_eq, if_pos (by omega)]
    show ((consumeLine options s s.raw >>= _) >>= _) = _
    rw [bind_assoc]
    rfl
  by_cases hn : fragment = []
  · subst hn
    by_cases hl : s.raw.length + 0 ≤ options.maxPartialLineBytes
    · rw [nil_append, he s hsk hl, if_pos (by exact hl), append_nil]
    rw [nil_append, foldlM_cons, stepBody_of_skipLf_eq_false hsk]
    unfold stepLine
    rw [if_pos ht, ensureCanAdd_eq, if_neg hl, if_neg (by exact hl)]
    rfl
  · rw [foldlM_append, foldlM_stepBody_fragment hsk hn hf]
    by_cases hl : s.raw.length + fragment.length ≤ options.maxPartialLineBytes
    · rw [if_pos hl, if_pos hl]
      exact he { s with raw := s.raw ++ fragment } hsk (by rw [length_append]; exact hl)
    · rw [if_neg hl, if_neg hl]
      rfl

theorem stepBody_atStart (h : stepBody options s b = .ok s') :
    s'.atStart = s.atStart ∧ s'.failed = s.failed := by
  unfold stepBody at h
  split at h
  · cases h
    exact ⟨rfl, rfl⟩
  unfold stepLine at h
  split at h
  · obtain ⟨-, h⟩ := bind_unit_eq_ok.mp h
    obtain ⟨s₁, hln, h⟩ := bind_eq_ok.mp h
    cases h
    have hsm := consumeLine_sameReader hln
    exact ⟨hsm.atStart, hsm.failed⟩
  · obtain ⟨-, h⟩ := bind_unit_eq_ok.mp h
    cases h
    exact ⟨rfl, rfl⟩

/-! ## Chunks -/

/-- After a CR an LF is dropped and any other byte is read as usual. -/
theorem foldlM_stepBody_skip (hsk : s.skipLf = false) (b : UInt8) (rest : Bytes) :
    (b :: rest).foldlM (stepBody options) { s with skipLf := true }
      = (if b = lf then rest else b :: rest).foldlM (stepBody options) s := by
  have hs : { s with skipLf := false } = s := by
    obtain ⟨⟩ := s
    cases hsk
    rfl
  rw [foldlM_cons]
  unfold stepBody
  by_cases hb : b = lf
  · rw [if_pos (by simp [hb]), if_pos hb]
    show rest.foldlM _ { s with skipLf := false } = _
    rw [hs]
  · rw [if_neg (by simp [hb]), if_neg hb, foldlM_cons, if_neg (by simp [hb])]

/-- Feeding bytes at once is feeding them one by one. -/
theorem feedLoop_eq_foldlM (fuel : ℕ) (s : SseState) (bytes : Bytes)
    (hfu : bytes.length ≤ fuel) (hsk : s.skipLf = false) :
    feedLoop options fuel s bytes = bytes.foldlM (stepBody options) s := by
  induction fuel generalizing s bytes with
  | zero =>
    rw [length_eq_zero_iff.mp (Nat.le_zero.mp hfu)]
    rfl
  | succ fuel ih =>
    unfold feedLoop
    by_cases hn : bytes = []
    · rw [if_pos hn, hn]
      rfl
    rw [if_neg hn]
    dsimp only
    rw [ensureCanAdd_eq]
    have hfragment : ∀ b ∈ bytes.takeWhile (!isLineEnd ·), isLineEnd b = false := by
      intro b hb
      simpa using mem_takeWhile_imp hb
    have hspl := takeWhile_append_dropWhile (p := (!isLineEnd ·)) (l := bytes)
    cases hr : bytes.dropWhile (!isLineEnd ·) with
    | nil =>
      rw [hr, append_nil] at hspl
      rw [hspl] at hfragment ⊢
      rw [foldlM_stepBody_fragment hsk hn hfragment]
      split <;> rfl
    | cons terminator rest =>
      have ht : isLineEnd terminator = true := by
        have hhd := head_dropWhile_not (!isLineEnd ·)
          (show bytes.dropWhile _ ≠ [] by rw [hr]; exact cons_ne_nil _ _)
        simpa [hr] using hhd
      rw [hr] at hspl
      have hl : rest.length ≤ fuel := by
        have := congrArg length hspl
        rw [length_append, length_cons] at this
        omega
      conv_rhs => rw [← hspl, foldlM_stepBody_line hsk hfragment ht]
      split
      · cases hln : consumeLine options { s with raw := s.raw ++ bytes.takeWhile (!isLineEnd ·) }
            (s.raw ++ bytes.takeWhile (!isLineEnd ·)) with
        | error e => rfl
        | ok s' =>
          have hsk' : s'.skipLf = false := (consumeLine_sameReader hln).skipLf.trans hsk
          show afterLine (feedLoop options fuel) { s' with raw := [] } terminator rest
            = rest.foldlM (stepBody options) { s' with raw := [], skipLf := terminator = cr }
          unfold afterLine
          by_cases hcr : terminator = cr
          · rw [if_pos hcr]
            cases rest with
            | nil => simp [hcr]; rfl
            | cons c rest =>
              have hl' : (if c = lf then rest else c :: rest).length ≤ fuel := by
                split
                · exact (Nat.le_succ _).trans hl
                · exact hl
              dsimp only
              rw [ih _ _ hl' (by exact hsk'), show decide (terminator = cr) = true by simp [hcr]]
              exact (foldlM_stepBody_skip (s := { s' with raw := [] }) hsk' c rest).symm
          · rw [if_neg hcr, ih _ _ hl (by exact hsk'),
              show decide (terminator = cr) = false by simp [hcr], ← hsk']
      · rfl

theorem feedLines_eq_foldlM (s : SseState) (bytes : Bytes) :
    feedLines options s bytes = bytes.foldlM (stepBody options) s := by
  unfold feedLines
  cases hsk : s.skipLf with
  | false =>
    rw [if_neg Bool.false_ne_true]
    exact feedLoop_eq_foldlM bytes.length s bytes le_rfl hsk
  | true =>
    rw [if_pos rfl]
    cases bytes with
    | nil => rfl
    | cons b rest =>
      have hl : (if b = lf then rest else b :: rest).length ≤ (b :: rest).length := by
        split
        · exact Nat.le_succ _
        · exact le_rfl
      dsimp only
      rw [feedLoop_eq_foldlM (b :: rest).length { s with skipLf := false } _ hl rfl,
        ← foldlM_stepBody_skip (s := { s with skipLf := false }) rfl b rest, ← hsk]

/-- **What holds of a parser in use**: it has not failed, and at the start
of the stream it holds back a proper part of a byte order mark. -/
structure SseState.Ready (s : SseState) : Prop where
  notFailed : s.failed = false
  held : s.atStart = true → s.skipLf = false
    ∧ ∃ missing, missing ≠ [] ∧ byteOrderMark = s.raw ++ missing
  data : s.curHasData = false → s.curData = []

theorem ready_start : SseState.Ready {} :=
  ⟨rfl, fun _ => ⟨rfl, byteOrderMark, cons_ne_nil _ _, rfl⟩, fun _ => rfl⟩

/-- After the start of the stream only the body of the parser is used. -/
theorem foldlM_step_of_not_start (h : s.atStart = false) (bytes : Bytes) :
    bytes.foldlM (step options) s = bytes.foldlM (stepBody options) s := by
  induction bytes generalizing s with
  | nil => rfl
  | cons b rest ih =>
    rw [foldlM_cons, foldlM_cons]
    have hs : step options s b = stepBody options s b := by
      unfold step
      rw [if_neg (by rw [h]; exact Bool.false_ne_true)]
    rw [hs]
    cases hb : stepBody options s b with
    | error e => rfl
    | ok s' => exact ih ((stepBody_atStart hb).1.trans h)

theorem holdByteOrderMark_complete {raw : Bytes} (h : raw.length = byteOrderMark.length)
    (bytes : Bytes) : holdByteOrderMark raw bytes = (raw, bytes) := by
  cases bytes with
  | nil => rfl
  | cons b rest =>
    unfold holdByteOrderMark
    rw [h, getElem?_eq_none le_rfl, if_neg (fun h => by cases h)]

/-- Bytes held back contain no line end, so releasing them only checks the
limit of a line. -/
theorem feedHeld_eq_releaseHeld (h : s.Ready) (hs : s.atStart = true) :
    feedHeld options { s with raw := [], atStart := false } s.raw = releaseHeld options s := by
  obtain ⟨hsk, missing, -, hmk⟩ := h.held hs
  have he : ∀ b ∈ s.raw, isLineEnd b = false := by
    have ha : ∀ b ∈ byteOrderMark, isLineEnd b = false := by
      simp [byteOrderMark, isLineEnd, cr, lf]
    intro b hb
    exact ha b (hmk ▸ mem_append_left missing hb)
  unfold feedHeld releaseHeld
  dsimp only
  by_cases hraw : s.raw = []
  · rw [hraw]
    rfl
  rw [if_neg (by simpa using hraw), if_neg (by simpa using hraw), feedLines_eq_foldlM,
    foldlM_stepBody_fragment (by exact hsk) hraw he, ensureCanAdd_eq]
  show (if 0 + s.raw.length ≤ _ then _ else _) = _
  split <;> rfl

theorem step_of_match (hs : s.atStart = true) (hb : byteOrderMark[s.raw.length]? = some b) :
    step options s b = if s.raw.length + 1 = byteOrderMark.length then
        .ok { s with raw := [], atStart := false }
      else .ok { s with raw := s.raw ++ [b] } := by
  unfold step
  rw [if_pos hs, if_pos hb]

theorem step_of_mismatch (hs : s.atStart = true) (hb : byteOrderMark[s.raw.length]? ≠ some b) :
    step options s b = releaseHeld options s >>= fun s => stepBody options s b := by
  unfold step
  rw [if_pos hs, if_neg hb]

theorem releaseHeld_eq_ok (h : releaseHeld options s = .ok s') :
    s' = { s with atStart := false } := by
  unfold releaseHeld at h
  dsimp only at h
  split at h
  · cases h
    rfl
  · obtain ⟨-, h⟩ := bind_unit_eq_ok.mp h
    cases h
    rfl

/-- **A chunk is read byte by byte.** -/
theorem feed_eq_foldlM (h : s.Ready) (bytes : Bytes) :
    feed options s bytes = bytes.foldlM (step options) s := by
  cases hs : s.atStart with
  | false =>
    unfold feed
    rw [if_neg (by simp [h.notFailed]), if_neg (by simp [hs]), feedLines_eq_foldlM,
      foldlM_step_of_not_start hs]
  | true =>
    induction bytes generalizing s with
    | nil =>
      obtain ⟨-, missing, hne, hmk⟩ := h.held hs
      have hl : s.raw.length ≠ byteOrderMark.length := by
        rw [hmk, length_append]
        have := length_pos_iff.mpr hne
        omega
      unfold feed
      rw [if_neg (by simp [h.notFailed]), if_pos hs]
      show (if s.raw.length = byteOrderMark.length then _ else _) = _
      rw [if_neg hl]
      rfl
    | cons b rest ih =>
      obtain ⟨hsk, missing, hne, hmk⟩ := h.held hs
      rw [foldlM_cons]
      unfold feed
      rw [if_neg (by simp [h.notFailed]), if_pos hs]
      unfold holdByteOrderMark
      by_cases hb : byteOrderMark[s.raw.length]? = some b
      · rw [if_pos hb, step_of_match hs hb]
        by_cases hl : s.raw.length + 1 = byteOrderMark.length
        · have hf : (s.raw ++ [b]).length = byteOrderMark.length := by
            rw [length_append]
            exact hl
          rw [if_pos hl, holdByteOrderMark_complete hf]
          dsimp only
          rw [if_pos hf, feedLines_eq_foldlM]
          exact (foldlM_step_of_not_start rfl rest).symm
        · rw [if_neg hl]
          -- one byte less is missing, and the rest of the chunk is read from there
          have hr : SseState.Ready { s with raw := s.raw ++ [b] } := by
            refine ⟨h.notFailed, fun _ => ⟨hsk, ?_⟩, h.data⟩
            obtain ⟨m, missing, rfl⟩ := exists_cons_of_ne_nil hne
            have hm : m = b := by
              rw [hmk, getElem?_append_right le_rfl] at hb
              simpa using hb
            subst hm
            refine ⟨missing, fun hn => hl ?_, by rw [hmk, append_assoc]; rfl⟩
            rw [hmk, hn, length_append]
            rfl
          have hnx := ih hr hs
          unfold feed at hnx
          rw [if_neg (by simp [h.notFailed]), if_pos (by exact hs)] at hnx
          exact hnx
      · rw [if_neg hb, step_of_mismatch hs hb]
        dsimp only
        have hl : s.raw.length ≠ byteOrderMark.length := by
          rw [hmk, length_append]
          have := length_pos_iff.mpr hne
          omega
        rw [if_neg hl, if_pos (by rfl), feedHeld_eq_releaseHeld h hs, bind_assoc]
        cases hrel : releaseHeld options s with
        | error e => rfl
        | ok s' =>
          have hs' : s'.atStart = false := by rw [releaseHeld_eq_ok hrel]
          show feedLines options s' (b :: rest)
            = stepBody options s' b >>= fun s'' => rest.foldlM (step options) s''
          rw [feedLines_eq_foldlM, foldlM_cons]
          cases hbd : stepBody options s' b with
          | error e => rfl
          | ok s'' =>
            exact (foldlM_step_of_not_start ((stepBody_atStart hbd).1.trans hs') rest).symm

end NeoGraph.Sse
