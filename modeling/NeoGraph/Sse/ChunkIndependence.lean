import NeoGraph.Sse.Bytewise

/-!
# Chunk independence

However a stream is cut into chunks, and wherever completed events are
drained in between, the parser gives what the event stream rules give for
the whole stream – as long as no limit is exceeded.

The state of the parser determines the buffers of the interpretation
(`toStream`): the data buffer of the rules is the parser's data with the
LF after its last line. Reading a line does to them what the rules say
(`toStream_consumeLine`). `Tracks` relates a parser to the bytes it has
been fed: the line scanner of the stream without its byte order mark is at
the same place, and the buffers are those of the lines found. One byte
keeps this (`Tracks.step`), hence every chunk and every sequence of calls
does.
-/

namespace NeoGraph.Sse

open LineStream EventStream List LineScanner

variable {options : SseParserOptions}

/-- The reconnection times a parser can hold. -/
def fitsUInt64 (n : ℕ) : Bool := n < 2 ^ 64

/-- The buffers of the interpretation, with the events already drained. -/
def toStream (drained : List SseEvent) (s : SseState) : EventStream where
  data := if s.curHasData then s.curData ++ [lf] else []
  eventType := s.curEvent
  lastEventId := s.lastId
  retry := s.retryMs
  events := drained ++ s.pending

/-! ## Lines -/

/-- The fields of a line. -/
theorem splitField_eq_field (line : Bytes) : splitField line = field line := by
  unfold splitField field
  have hspl := takeWhile_append_dropWhile (p := fun b : UInt8 => decide (b ≠ 58)) (l := line)
  cases hr : line.dropWhile (fun b : UInt8 => decide (b ≠ 58)) with
  | nil =>
    rw [hr, append_nil] at hspl
    have hno : line.contains 58 = false := by
      rw [← hspl]
      simp only [contains_eq_mem, decide_eq_false_iff_not]
      intro hm
      simpa using mem_takeWhile_imp hm
    rw [hno, if_neg Bool.false_ne_true]
    exact Prod.ext hspl rfl
  | cons c value =>
    have hc : c = 58 := by
      have hhd := head_dropWhile_not (fun b : UInt8 => decide (b ≠ 58))
        (show line.dropWhile _ ≠ [] by rw [hr]; exact cons_ne_nil _ _)
      simpa only [hr, head_cons, decide_eq_false_iff_not, not_not] using hhd
    rw [hr] at hspl
    have hyes : line.contains 58 = true := by
      rw [← hspl, hc]
      simp
    have hdr : line.drop ((line.takeWhile (fun b : UInt8 => decide (b ≠ 58))).length + 1)
        = value := by
      refine (congrArg (drop _) hspl.symm).trans ?_
      rw [drop_append, drop_of_length_le (Nat.le_succ _), Nat.add_sub_cancel_left]
      rfl
    rw [hyes, if_pos rfl]
    dsimp only
    rw [hdr]

variable {s s' : SseState}

theorem toStream_finishEvent (drained : List SseEvent) (h : finishEvent options s = .ok s') :
    toStream drained s' = (toStream drained s).dispatch := by
  obtain ⟨hd, rfl⟩ | ⟨hd, rfl⟩ := finishEvent_eq_ok h
  all_goals
    simp [toStream, EventStream.dispatch, hd]

/-- **Reading a line does what the rules say.** -/
theorem toStream_consumeLine {line : Bytes} (drained : List SseEvent)
    (hd : s.curHasData = false → s.curData = []) (h : consumeLine options s line = .ok s') :
    toStream drained s' = (toStream drained s).interpretLine fitsUInt64 line := by
  unfold consumeLine at h
  unfold interpretLine processField
  rw [splitField_eq_field] at h
  split at h
  · rename_i hln
    rw [if_pos hln]
    exact toStream_finishEvent drained h
  rename_i hln
  rw [if_neg hln]
  split at h
  · rename_i hc
    rw [if_pos hc]
    cases h
    rfl
  rename_i hc
  rw [if_neg hc]
  dsimp only at h
  split at h
  · rename_i hnm
    rw [if_pos hnm, consumeData_eq_ok h]
    cases hhas : s.curHasData with
    | true => simp [toStream, hhas]
    | false => simp [toStream, hhas, hd hhas]
  rename_i hnm
  rw [if_neg hnm]
  split at h
  · rename_i hnm
    rw [if_pos hnm, consumeEvent_eq_ok h]
    rfl
  rename_i hnm
  rw [if_neg hnm]
  split at h
  · rename_i hnm
    rw [if_pos hnm, consumeId_eq_ok h]
    split <;> rfl
  rename_i hnm
  rw [if_neg hnm]
  split_ifs at h with hnm
  · rw [if_pos hnm]
    cases h
    unfold consumeRetry fitsUInt64
    split <;> rfl
  · rw [if_neg hnm]
    cases h
    rfl

/-- Without a data line there is no data. -/
theorem data_consumeLine {line : Bytes} (hd : s.curHasData = false → s.curData = [])
    (h : consumeLine options s line = .ok s') : s'.curHasData = false → s'.curData = [] := by
  unfold consumeLine at h
  split at h
  · obtain ⟨-, rfl⟩ | ⟨-, rfl⟩ := finishEvent_eq_ok h
    · exact hd
    · exact fun _ => rfl
  split at h
  · cases h
    exact hd
  dsimp only at h
  split at h
  · rw [consumeData_eq_ok h]
    exact fun hno => absurd hno.symm Bool.false_ne_true
  split at h
  · rw [consumeEvent_eq_ok h]
    exact hd
  split at h
  · rw [consumeId_eq_ok h]
    split <;> exact hd
  split at h
  · cases h
    unfold consumeRetry
    split <;> exact hd
  · cases h
    exact hd

/-! ## Bytes -/

/-- The parser is where the scanner is after `body`, and its buffers are
those of the lines found there. -/
structure Follows (body : Bytes) (drained : List SseEvent) (s : SseState) : Prop where
  raw : s.raw = (start.scan body).raw
  skipLf : s.skipLf = (start.scan body).skipLf
  stream : toStream drained s
    = interpret fitsUInt64 (start.scan body).lines
  data : s.curHasData = false → s.curData = []

variable {drained : List SseEvent}

/-- The state follows the bytes that were fed. -/
theorem Follows.stepBody {body : Bytes} (h : Follows body drained s) {b : UInt8}
    (hs : stepBody options s b = .ok s') : Follows (body ++ [b]) drained s' := by
  have hsc : start.scan (body ++ [b]) = (start.scan body).step b :=
    scan_append _ _ _
  unfold Sse.stepBody at hs
  split at hs
  · rename_i hlf
    cases hs
    have hnx : (start.scan body).step b
        = { start.scan body with
            skipLf := false } := if_pos (h.skipLf ▸ hlf)
    refine ⟨?_, ?_, ?_, h.data⟩
    · rw [hsc, hnx]
      exact h.raw
    · rw [hsc, hnx]
    · rw [hsc, hnx]
      exact h.stream
  rename_i hlf
  unfold stepLine at hs
  split_ifs at hs with he
  · have hnx : (start.scan body).step b
        = ⟨(start.scan body).lines ++ [s.raw], [], b = cr⟩ := by
      unfold LineScanner.step
      rw [if_neg (h.skipLf ▸ hlf), if_pos he, h.raw]
    simp only [↓bind_unit_eq_ok, bind_eq_ok] at hs
    obtain ⟨-, s₁, hln, hs⟩ := hs
    cases hs
    have hd : { s with skipLf := false }.curHasData = false → s.curData = [] := h.data
    have hd' := data_consumeLine hd hln
    refine ⟨?_, ?_, ?_, hd'⟩
    · rw [hsc, hnx]
    · rw [hsc, hnx]
    rw [hsc, hnx]
    show toStream drained s₁ = _
    rw [toStream_consumeLine drained hd hln, interpret_snoc, ← h.stream]
    rfl
  · have hnx : (start.scan body).step b
        = ⟨(start.scan body).lines, s.raw ++ [b], false⟩ := by
      unfold LineScanner.step
      rw [if_neg (h.skipLf ▸ hlf), if_neg he, h.raw]
    obtain ⟨-, hs⟩ := bind_unit_eq_ok.mp hs
    cases hs
    refine ⟨?_, ?_, ?_, h.data⟩
    · rw [hsc, hnx]
    · rw [hsc, hnx]
    · rw [hsc, hnx]
      exact h.stream

/-- **A parser and the bytes it has been fed.** At the start of the stream
all of them are held back; later the parser follows the stream without its
byte order mark, whatever still comes. -/
structure Tracks (fed : Bytes) (drained : List SseEvent) (s : SseState) : Prop where
  ready : s.Ready
  waiting : s.atStart = true → s.raw = fed ∧ toStream drained s = {}
  started : s.atStart = false → ∃ body, (∀ more, stripByteOrderMark (fed ++ more) = body ++ more)
    ∧ Follows body drained s

theorem tracks_start : Tracks [] [] {} :=
  ⟨ready_start, fun _ => ⟨rfl, rfl⟩, fun h => absurd h.symm Bool.false_ne_true⟩

/-- A parser that follows a body is ready for more. -/
theorem Follows.tracks {fed body : Bytes} (h : Follows body drained s)
    (hf : s.failed = false) (hst : s.atStart = false)
    (hb : ∀ more, stripByteOrderMark (fed ++ more) = body ++ more) : Tracks fed drained s :=
  ⟨⟨hf, fun hs => absurd (hst.symm.trans hs) Bool.false_ne_true, h.data⟩,
    fun hs => absurd (hst.symm.trans hs) Bool.false_ne_true, fun _ => ⟨body, hb, h⟩⟩

/-- A byte order mark has no line end. -/
theorem not_isLineEnd_of_mark {held missing : Bytes}
    (hmk : byteOrderMark = held ++ missing) : ∀ b ∈ held, isLineEnd b = false := by
  have ha : ∀ b ∈ byteOrderMark, isLineEnd b = false := by
    simp [byteOrderMark, isLineEnd, cr, lf]
  intro b hb
  exact ha b (hmk ▸ mem_append_left missing hb)

/-- Bytes held back are the beginning of the first line when no byte order
mark comes. -/
theorem Tracks.follows_held {fed : Bytes} (h : Tracks fed drained s)
    (hs : s.atStart = true) : Follows fed drained { s with atStart := false } := by
  obtain ⟨hraw, hstm⟩ := h.waiting hs
  obtain ⟨hsk, missing, -, hmk⟩ := h.ready.held hs
  have hsc : start.scan fed = ⟨[], fed, false⟩ := by
    rw [hraw] at hmk
    exact scan_of_not_lineEnd [] [] fed (not_isLineEnd_of_mark hmk)
  refine ⟨?_, ?_, ?_, h.ready.data⟩
  · rw [hsc]
    exact hraw
  · rw [hsc]
    exact hsk
  · rw [hsc]
    exact hstm

/-- **One byte.** -/
theorem Tracks.step {fed : Bytes} (h : Tracks fed drained s) {b : UInt8}
    (hst : step options s b = .ok s') : Tracks (fed ++ [b]) drained s' := by
  have hco : ∀ more, fed ++ [b] ++ more = fed ++ b :: more := fun more => by
    rw [append_assoc]
    rfl
  cases hstart : s.atStart with
  | false =>
    obtain ⟨body, hbd, hf⟩ := h.started hstart
    unfold Sse.step at hst
    rw [if_neg (by simp [hstart])] at hst
    obtain ⟨hstart', hf'⟩ := stepBody_atStart hst
    refine (hf.stepBody hst).tracks (hf'.trans h.ready.notFailed)
      (hstart'.trans hstart) fun more => ?_
    rw [hco, hbd, append_assoc]
    rfl
  | true =>
    obtain ⟨hraw, hstm⟩ := h.waiting hstart
    obtain ⟨hsk, missing, hne, hmk⟩ := h.ready.held hstart
    obtain ⟨m, missing, rfl⟩ := exists_cons_of_ne_nil hne
    have hg : byteOrderMark[s.raw.length]? = some m := by
      rw [hmk, getElem?_append_right le_rfl, Nat.sub_self]
      rfl
    by_cases hb : byteOrderMark[s.raw.length]? = some b
    · cases hg.symm.trans hb
      rw [step_of_match hstart hb] at hst
      split_ifs at hst with hl
      · -- the mark is complete, and the lines start after it
        cases hst
        have hn : missing = [] := by
          rw [hmk, length_append, length_cons] at hl
          exact length_eq_zero_iff.mp (by omega)
        subst hn
        have hf : Follows [] drained { s with raw := [], atStart := false } :=
          ⟨rfl, hsk, hstm, h.ready.data⟩
        refine hf.tracks h.ready.notFailed rfl fun more => ?_
        rw [← hraw, ← hmk, stripByteOrderMark_append]
        rfl
      · cases hst
        refine ⟨⟨h.ready.notFailed, fun _ => ⟨hsk, missing, ?_, ?_⟩, h.ready.data⟩,
          fun _ => ⟨by rw [hraw], hstm⟩,
          fun hs => absurd (hstart.symm.trans hs).symm Bool.false_ne_true⟩
        · rintro rfl
          exact hl (by rw [hmk, length_append]; rfl)
        · rw [hmk, append_assoc]
          rfl
    · rw [step_of_mismatch hstart hb] at hst
      obtain ⟨s₁, hr, hst⟩ := bind_eq_ok.mp hst
      cases releaseHeld_eq_ok hr
      obtain ⟨hstart', hf'⟩ := stepBody_atStart hst
      refine ((h.follows_held hstart).stepBody hst).tracks (hf'.trans h.ready.notFailed)
        hstart' fun more => ?_
      rw [hco, ← hraw]
      exact stripByteOrderMark_of_mismatch hmk (fun heq => hb (hg.trans (congrArg some heq.symm)))
        more

/-! ## Calls -/

theorem Tracks.feed {fed : Bytes} (h : Tracks fed drained s) {bytes : Bytes}
    (hf : feed options s bytes = .ok s') : Tracks (fed ++ bytes) drained s' := by
  rw [feed_eq_foldlM h.ready] at hf
  induction bytes generalizing fed s with
  | nil =>
    cases hf
    rw [append_nil]
    exact h
  | cons b rest ih =>
    rw [foldlM_cons] at hf
    obtain ⟨s₁, hs, hf⟩ := bind_eq_ok.mp hf
    have hr := ih (h.step hs) hf
    rw [append_assoc] at hr
    exact hr

variable {events : List SseEvent}

theorem Tracks.drain {fed : Bytes} (h : Tracks fed drained s)
    (hd : drain s = .ok (events, s')) :
    Tracks fed (drained ++ events) s' ∧ s'.pending = [] := by
  unfold Sse.drain at hd
  rw [if_neg (by simp [h.ready.notFailed])] at hd
  cases hd
  -- events only move from the parser to its caller
  have hstm : toStream (drained ++ s.pending) { s with pending := [], pendingBytes := 0 }
      = toStream drained s := by
    unfold toStream
    rw [append_nil]
  refine ⟨⟨⟨h.ready.notFailed, h.ready.held, h.ready.data⟩, fun hs => ?_, fun hs => ?_⟩, rfl⟩
  · rw [hstm]
    exact h.waiting hs
  · obtain ⟨body, hb, hf⟩ := h.started hs
    exact ⟨body, hb, hf.raw, hf.skipLf, hstm.trans hf.stream, hf.data⟩

/-- **Any sequence of calls.** -/
theorem Tracks.runCalls {calls : List SseCall} {before : Bytes} (h : Tracks before drained s)
    (hr : runCalls options s calls = .ok (events, s')) :
    Tracks (before ++ fed calls) (drained ++ events) s' := by
  induction calls generalizing before drained events s with
  | nil =>
    cases hr
    rw [fed, append_nil, append_nil]
    exact h
  | cons call calls ih =>
    cases call with
    | feed bytes =>
      obtain ⟨s₁, hf, hr⟩ := bind_eq_ok.mp hr
      rw [fed, ← append_assoc]
      exact ih (h.feed hf) hr
    | drain =>
      obtain ⟨⟨first, s₁⟩, hd, hr⟩ := bind_eq_ok.mp hr
      obtain ⟨⟨later, s₂⟩, hr, hl⟩ := bind_eq_ok.mp hr
      cases hl
      rw [fed, ← append_assoc]
      exact ih (h.drain hd).1 hr

/-- The buffers of a parser are those of the whole stream. -/
theorem Tracks.toStream_eq {fed : Bytes} (h : Tracks fed drained s) :
    toStream drained s = decode fitsUInt64 fed := by
  unfold decode
  rw [← start_scan_lines]
  cases hs : s.atStart with
  | true =>
    obtain ⟨hraw, -⟩ := h.waiting hs
    obtain ⟨-, missing, hne, hmk⟩ := h.ready.held hs
    rw [← hraw, stripByteOrderMark_of_proper hmk hne, hraw]
    exact (h.follows_held hs).stream
  | false =>
    obtain ⟨body, hb, hf⟩ := h.started hs
    have hst := hb []
    rw [append_nil, append_nil] at hst
    rw [hst]
    exact hf.stream

theorem feed_append {fed : Bytes} (h : Tracks fed drained s) (a b : Bytes) :
    feed options s (a ++ b) = feed options s a >>= fun s => feed options s b := by
  rw [feed_eq_foldlM h.ready, foldlM_append, ← feed_eq_foldlM h.ready]
  cases hf : feed options s a with
  | error e => rfl
  | ok s' => exact (feed_eq_foldlM (h.feed hf).ready b).symm

/-- A final `drain` leaves nothing pending. -/
theorem pending_of_getLast_drain {calls : List SseCall} (hl : calls.getLast? = some .drain)
    (hr : runCalls options s calls = .ok (events, s')) : s'.pending = [] := by
  induction calls generalizing s events with
  | nil => cases hl
  | cons call calls ih =>
    cases call with
    | feed bytes =>
      obtain ⟨s₁, -, hr⟩ := bind_eq_ok.mp hr
      cases calls with
      | nil => cases hl
      | cons next calls => exact ih (by rwa [getLast?_cons_cons] at hl) hr
    | drain =>
      obtain ⟨⟨first, s₁⟩, hd, hr⟩ := bind_eq_ok.mp hr
      obtain ⟨⟨later, s₂⟩, hr, he⟩ := bind_eq_ok.mp hr
      cases he
      cases calls with
      | nil =>
        cases hr
        unfold Sse.drain at hd
        split at hd
        · cases hd
        · cases hd
          rfl
      | cons next calls => exact ih (by rwa [getLast?_cons_cons] at hl) hr

/-- **Chunk independence.** Whatever the chunks and wherever events are
drained, as long as no limit is exceeded the drained events, followed by
those still pending, and the reconnection time are the ones of the whole
stream; a final `drain` leaves nothing pending. And for a parser in any
state it can be brought into, feeding two chunks is feeding their
concatenation, limit errors included. -/
theorem chunk_independence (options : SseParserOptions) {calls : List SseCall}
    {drained : List SseEvent} {s : SseState} (hr : runCalls options {} calls = .ok (drained, s)) :
    drained ++ s.pending = (decode fitsUInt64 (fed calls)).events
      ∧ s.retryMs = (decode fitsUInt64 (fed calls)).retry
      ∧ (calls.getLast? = some .drain → s.pending = [])
      ∧ ∀ a b, feed options s (a ++ b) = feed options s a >>= fun s => feed options s b := by
  have htr := tracks_start.runCalls hr
  rw [nil_append, nil_append] at htr
  have hstm := htr.toStream_eq
  exact ⟨congrArg events hstm, congrArg retry hstm,
    fun hl => pending_of_getLast_drain hl hr, feed_append htr⟩

/-- A byte order mark cut in two, a CRLF cut in two, and an event drained
before the stream ends. -/
def cutCalls : List SseCall :=
  [.feed [0xEF, 0xBB], .feed ([0xBF] ++ ascii "id: 7\r"), .feed [],
    .feed (ascii "\ndata: a\rdata:b\n\n"), .drain, .feed (ascii "retry: 30\ndata: rest"), .drain]

theorem chunk_independence_cut :
    (decode fitsUInt64 (fed cutCalls)).events
        = [⟨[], ascii "a" ++ [lf] ++ ascii "b", ascii "7"⟩]
      ∧ (decode fitsUInt64 (fed cutCalls)).retry = some 30 := by
  have hr : runCalls .default {} cutCalls
      = .ok ([⟨[], ascii "a" ++ [lf] ++ ascii "b", ascii "7"⟩],
          { raw := ascii "data: rest", lastId := ascii "7", retryMs := some 30,
            atStart := false }) := by
    decide +kernel
  obtain ⟨he, hrty, -, -⟩ := chunk_independence .default hr
  exact ⟨he.symm, hrty.symm⟩

/-- **A reconnection time of 2^64 is not kept**, though the rules set it. -/
theorem retry_beyond_uint64 :
    ∃ drained s, runCalls .default {} [.feed (ascii "retry: 18446744073709551616\n")]
        = .ok (drained, s)
      ∧ s.retryMs = none
      ∧ (decode (fun _ => true)
          (fed [.feed (ascii "retry: 18446744073709551616\n")])).retry
        = some 18446744073709551616 := by
  refine ⟨[], { atStart := false }, ?_, rfl, ?_⟩ <;> decide +kernel

end NeoGraph.Sse
