import NeoGraph.Basic
import NeoGraph.Lib.Ascii
import NeoGraph.Lib.LineStream

/-!
# The incremental SSE parser

`SseEventParser` turns the chunks of a response body into server-sent
events. `feed` takes a chunk, completed events wait in `pending` until
`drain` takes them, and everything in between – a possible byte order
mark, the bytes of an unfinished line, a CR whose LF may still come, the
event in progress – is state.

Four limits bound what is kept. Exceeding one throws and leaves the parser
failed, with its buffers gone: `SseFailure` holds the exception together
with the state it leaves.
-/

namespace NeoGraph.Sse

open LineStream

/-- A dispatched event. -/
structure SseEvent where
  event : Bytes
  data : Bytes
  id : Bytes
deriving DecidableEq

/-- The limits of a parser, none of which may be zero. -/
structure SseParserOptions where
  maxPartialLineBytes : ℕ
  maxEventBytes : ℕ
  maxPendingEvents : ℕ
  maxPendingBytes : ℕ
  partialLine_pos : 0 < maxPartialLineBytes
  event_pos : 0 < maxEventBytes
  pendingEvents_pos : 0 < maxPendingEvents
  pendingBytes_pos : 0 < maxPendingBytes

/-- The default limits. -/
def SseParserOptions.default : SseParserOptions where
  maxPartialLineBytes := 64 * 1024
  maxEventBytes := 1024 * 1024
  maxPendingEvents := 1024
  maxPendingBytes := 8 * 1024 * 1024
  partialLine_pos := by decide
  event_pos := by decide
  pendingEvents_pos := by decide
  pendingBytes_pos := by decide

/-- The state of a parser. -/
structure SseState where
  raw : Bytes := []
  curData : Bytes := []
  curEvent : Bytes := []
  lastId : Bytes := []
  retryMs : Option ℕ := none
  curEventBytes : ℕ := 0
  curHasData : Bool := false
  skipLf : Bool := false
  atStart : Bool := true
  pending : List SseEvent := []
  pendingBytes : ℕ := 0
  failed : Bool := false
deriving DecidableEq

/-- An exception and the state the parser is left in. -/
structure SseFailure where
  what : Exn
  left : SseState
deriving DecidableEq

/-- A limit violation drops the buffers and leaves the parser failed. -/
def failLimit (s : SseState) (message : String) : SseFailure :=
  ⟨.lengthError message,
    { s with failed := true, raw := [], curData := [], curEvent := [], pending := [],
             curEventBytes := 0, pendingBytes := 0, curHasData := false }⟩

/-- The check of a limit before something is added. -/
def ensureCanAdd (s : SseState) (current addition limit : ℕ) (message : String) :
    Except SseFailure Unit :=
  if limit < current ∨ limit - current < addition then .error (failLimit s message)
  else .ok ()

/-- The name and the value of a field line. One space after the colon is
dropped, and a line without a colon is a field with an empty value. -/
def splitField (line : Bytes) : Bytes × Bytes :=
  let name := line.takeWhile (· ≠ 58)
  match line.dropWhile (· ≠ 58) with
  | [] => (name, [])
  | _ :: value => (name, if value.head? = some 32 then value.drop 1 else value)

/-- Dispatch of the event in progress at a blank line. -/
def finishEvent (options : SseParserOptions) (s : SseState) : Except SseFailure SseState := do
  if !s.curHasData then
    .ok { s with curEvent := [], curEventBytes := 0 }
  else
    let eventBytes := s.curEventBytes + s.lastId.length
    ensureCanAdd s s.pending.length 1 options.maxPendingEvents
      "SSE pending event count exceeds configured limit"
    ensureCanAdd s s.pendingBytes eventBytes options.maxPendingBytes
      "SSE pending event bytes exceed configured limit"
    .ok { s with
            pending := s.pending ++ [⟨s.curEvent, s.curData, s.lastId⟩],
            pendingBytes := s.pendingBytes + eventBytes,
            curEvent := [], curData := [], curEventBytes := 0, curHasData := false }

/-- A `data` field: lines of data are joined with LF. -/
def consumeData (options : SseParserOptions) (s : SseState) (value : Bytes) :
    Except SseFailure SseState := do
  let separatorBytes := if s.curHasData then 1 else 0
  ensureCanAdd s (s.curEventBytes + s.lastId.length) separatorBytes options.maxEventBytes
    "SSE event exceeds configured byte limit"
  let bytesWithSeparator := s.curEventBytes + separatorBytes
  ensureCanAdd s (bytesWithSeparator + s.lastId.length) value.length options.maxEventBytes
    "SSE event exceeds configured byte limit"
  .ok { s with
          curData := (if s.curHasData then s.curData ++ [lf] else s.curData) ++ value,
          curEventBytes := bytesWithSeparator + value.length, curHasData := true }

/-- An `event` field replaces the event type. -/
def consumeEvent (options : SseParserOptions) (s : SseState) (value : Bytes) :
    Except SseFailure SseState := do
  let retainedBytes := s.curEventBytes - s.curEvent.length
  ensureCanAdd s (retainedBytes + s.lastId.length) value.length options.maxEventBytes
    "SSE event exceeds configured byte limit"
  .ok { s with curEvent := value, curEventBytes := retainedBytes + value.length }

/-- An `id` field sets the last event ID unless it contains NUL. -/
def consumeId (options : SseParserOptions) (s : SseState) (value : Bytes) :
    Except SseFailure SseState := do
  if value.contains 0 then .ok s
  else
    ensureCanAdd s s.curEventBytes value.length options.maxEventBytes
      "SSE event exceeds configured byte limit"
    .ok { s with lastId := value }

/-- A `retry` field of decimal digits sets the reconnection time, unless
the number does not fit into 64 bits. -/
def consumeRetry (s : SseState) (value : Bytes) : SseState :=
  if !value.isEmpty && value.all isDigit && decimal value < 2 ^ 64 then
    { s with retryMs := some (decimal value) }
  else s

/-- One complete line. -/
def consumeLine (options : SseParserOptions) (s : SseState) (line : Bytes) :
    Except SseFailure SseState :=
  if line = [] then finishEvent options s
  else if line.head? = some 58 then .ok s
  else
    let field := splitField line
    if field.1 = ascii "data" then consumeData options s field.2
    else if field.1 = ascii "event" then consumeEvent options s field.2
    else if field.1 = ascii "id" then consumeId options s field.2
    else if field.1 = ascii "retry" then .ok (consumeRetry s field.2)
    else .ok s

/-- The text of the line limit. -/
def partialLineText : String := "SSE partial line exceeds configured byte limit"

/-- What follows a line: an LF after a CR belongs to the same line end, also
when it only comes with the next chunk. -/
def afterLine (loop : SseState → Bytes → Except SseFailure SseState) (s : SseState)
    (terminator : UInt8) (rest : Bytes) : Except SseFailure SseState :=
  if terminator = cr then
    match rest with
    | [] => .ok { s with skipLf := true }
    | c :: rest' => loop s (if c = lf then rest' else c :: rest')
  else loop s rest

/-- The loop over the lines of a chunk. The fuel is the number of bytes:
every round takes at least the line end. -/
def feedLoop (options : SseParserOptions) : ℕ → SseState → Bytes → Except SseFailure SseState
  | 0, s, _ => .ok s
  | fuel + 1, s, bytes =>
    if bytes = [] then .ok s
    else do
      let fragment := bytes.takeWhile (!isLineEnd ·)
      ensureCanAdd s s.raw.length fragment.length options.maxPartialLineBytes partialLineText
      match bytes.dropWhile (!isLineEnd ·) with
      | [] => .ok { s with raw := s.raw ++ fragment }
      | terminator :: rest =>
        -- the line is consumed in place when nothing of it was kept before;
        -- `raw` is cleared either way
        let s' ← consumeLine options { s with raw := s.raw ++ fragment } (s.raw ++ fragment)
        afterLine (feedLoop options fuel) { s' with raw := [] } terminator rest

/-- The part of a chunk after a byte order mark. -/
def feedLines (options : SseParserOptions) (s : SseState) (bytes : Bytes) :
    Except SseFailure SseState :=
  if s.skipLf then
    match bytes with
    | [] => .ok s
    | b :: rest =>
      feedLoop options bytes.length { s with skipLf := false } (if b = lf then rest else bytes)
  else feedLoop options bytes.length s bytes

/-- The bytes at the start of the stream that may still become a byte order
mark, and the rest of the chunk. -/
def holdByteOrderMark (raw : Bytes) : Bytes → Bytes × Bytes
  | [] => (raw, [])
  | b :: rest =>
    if byteOrderMark[raw.length]? = some b then holdByteOrderMark (raw ++ [b]) rest
    else (raw, b :: rest)

/-- Bytes held back for a byte order mark that did not come are ordinary
input. -/
def feedHeld (options : SseParserOptions) (s : SseState) (held : Bytes) :
    Except SseFailure SseState :=
  if held.isEmpty then .ok s else feedLines options s held

/-- **A chunk from the wire.** At the start of the stream bytes that may
still become a byte order mark are held back. -/
def feed (options : SseParserOptions) (s : SseState) (bytes : Bytes) :
    Except SseFailure SseState := do
  if s.failed then
    .error ⟨.lengthError "SSE parser is in a failed state; call reset() before reuse", s⟩
  else if s.atStart then
    let (held, rest) := holdByteOrderMark s.raw bytes
    if held.length = byteOrderMark.length then
      feedLines options { s with raw := [], atStart := false } rest
    else if !rest.isEmpty then
      let s ← feedHeld options { s with raw := [], atStart := false } held
      feedLines options s rest
    else .ok { s with raw := held }
  else feedLines options s bytes

/-- Every event completed since the last call. -/
def drain (s : SseState) : Except SseFailure (List SseEvent × SseState) :=
  if s.failed then
    .error ⟨.lengthError "SSE parser is in a failed state; call reset() before reuse", s⟩
  else .ok (s.pending, { s with pending := [], pendingBytes := 0 })

/-! ## Uses of a parser -/

/-- A call on a parser. -/
inductive SseCall where
  | feed (bytes : Bytes)
  | drain

/-- The bytes a sequence of calls feeds. -/
def fed : List SseCall → Bytes
  | [] => []
  | .feed bytes :: calls => bytes ++ fed calls
  | .drain :: calls => fed calls

/-- A sequence of calls: the events drained, in order, and the state of the
parser at the end. -/
def runCalls (options : SseParserOptions) :
    SseState → List SseCall → Except SseFailure (List SseEvent × SseState)
  | s, [] => .ok ([], s)
  | s, .feed bytes :: calls => do
    let s ← feed options s bytes
    runCalls options s calls
  | s, .drain :: calls => do
    let (events, s) ← drain s
    let (later, s) ← runCalls options s calls
    .ok (events ++ later, s)

end NeoGraph.Sse
