import NeoGraph.Sse.Parser

/-!
# Interpreting an event stream

The WHATWG rules for a whole stream: strip one leading byte order mark,
split the rest into lines, and interpret them one after the other. The
interpretation has four buffers – data, event type, last event ID and the
reconnection time – and dispatches an event at a blank line when a data
line was seen. Bytes after the last line end, and an event that the stream
ends in the middle of, are discarded.

A reconnection time is a natural number there. A parser that keeps it in a
machine word cannot hold all of them, so `decode` is told which ones can be
represented; the rules themselves are `decode fun _ => true`.
-/

namespace NeoGraph.Sse

open LineStream

/-- The buffers of the interpretation and the events dispatched so far. -/
structure EventStream where
  data : Bytes := []
  eventType : Bytes := []
  lastEventId : Bytes := []
  retry : Option ℕ := none
  events : List SseEvent := []
deriving DecidableEq

namespace EventStream

/-- Dispatch at a blank line. Without data only the buffers are reset; with
data, the LF after the last data line is not part of the event. -/
def dispatch (st : EventStream) : EventStream :=
  if st.data = [] then { st with eventType := [] }
  else
    { st with
        data := [], eventType := [],
        events := st.events ++ [⟨st.eventType, st.data.dropLast, st.lastEventId⟩] }

/-- The field of a line: its name up to the first colon, and its value
without one leading space. -/
def field (line : Bytes) : Bytes × Bytes :=
  if line.contains 58 then
    let value := line.drop ((line.takeWhile (· ≠ 58)).length + 1)
    (line.takeWhile (· ≠ 58), if value.head? = some 32 then value.drop 1 else value)
  else (line, [])

variable (representable : ℕ → Bool)

/-- What a field does to the buffers. -/
def processField (st : EventStream) (name value : Bytes) : EventStream :=
  if name = ascii "data" then { st with data := st.data ++ value ++ [lf] }
  else if name = ascii "event" then { st with eventType := value }
  else if name = ascii "id" then
    if value.contains 0 then st else { st with lastEventId := value }
  else if name = ascii "retry" then
    if !value.isEmpty && value.all isDigit && representable (decimal value) then
      { st with retry := some (decimal value) }
    else st
  else st

/-- What a line does: a blank line dispatches, a line that starts with a
colon is a comment, every other line is a field. -/
def interpretLine (st : EventStream) (line : Bytes) : EventStream :=
  if line = [] then st.dispatch
  else if line.head? = some 58 then st
  else st.processField representable (field line).1 (field line).2

/-- What a sequence of lines does to empty buffers. -/
def interpret (lines : List Bytes) : EventStream :=
  lines.foldl (interpretLine representable) {}

/-- One line more. -/
theorem interpret_snoc (lines : List Bytes) (line : Bytes) :
    interpret representable (lines ++ [line])
      = (interpret representable lines).interpretLine representable line := by
  unfold interpret
  rw [List.foldl_append]
  rfl

/-- **The interpretation of a whole stream.** -/
def decode (bytes : Bytes) : EventStream :=
  interpret representable (splitLines (stripByteOrderMark bytes))

end EventStream

end NeoGraph.Sse
