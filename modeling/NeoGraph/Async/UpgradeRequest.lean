import NeoGraph.Async.BuildRequest

/-!
# Upgrade requests

The request that opens a WebSocket connection. The names that the handshake
owns are refused among the caller's fields, and the length of the whole text
is bounded; no other string is looked at before it is written.

So the bytes are the upgrade request that was asked for exactly when the
caller's strings stay within their places in the grammar
(`isUpgradeRequest_iff`): a value that ends its line starts a field of its
own.
-/

namespace NeoGraph.Async

open Http FieldLine List

/-! ## The builder -/

/-- Equal up to the case of letters. -/
def ieq (a b : Bytes) : Bool := a.map lower = b.map lower

/-- A name that the handshake owns. -/
def isReservedHeader (k : Bytes) : Bool :=
  ieq k (ascii "Upgrade") || ieq k (ascii "Connection") || ieq k (ascii "Host")
    || (14 ≤ k.length && ieq (k.take 14) (ascii "Sec-WebSocket-"))

/-- More text, within the limit. -/
def appendWithin (maxBytes : ℕ) (req value : Bytes) : Except Exn Bytes :=
  if maxBytes < req.length || maxBytes - req.length < value.length then
    .error (.runtimeError "ws: upgrade request exceeds configured handshake limit")
  else .ok (req ++ value)

/-- The parts of a text, one after the other. -/
def appendAll (maxBytes : ℕ) (req : Bytes) (values : List Bytes) :
    Except Exn Bytes :=
  values.foldlM (appendWithin maxBytes) req

/-- One field of the caller; whether it names the user agent is kept beside the
text. -/
def appendExtra (maxBytes : ℕ) (state : Bytes × Bool) (field : Bytes × Bytes) :
    Except Exn (Bytes × Bool) :=
  if isReservedHeader field.1 then
    .error (.runtimeError
      ("ws: handshake-reserved header in extra headers: " ++ bytesText field.1))
  else do
    let req ← appendAll maxBytes state.1 [field.1, ascii ": ", field.2, ascii "\r\n"]
    .ok (req, state.2 || ieq field.1 (ascii "User-Agent"))

/-- **The text of an upgrade request**, or why none is sent. -/
def buildUpgradeRequest (host path secKey : Bytes)
    (extraHeaders : List (Bytes × Bytes)) (maxBytes : ℕ) : Except Exn Bytes := do
  let req ← appendAll maxBytes [] [ascii "GET ", path, ascii " HTTP/1.1\r\n", ascii "Host: ", host,
    ascii "\r\n", ascii "Upgrade: websocket\r\n", ascii "Connection: Upgrade\r\n",
    ascii "Sec-WebSocket-Key: ", secKey, ascii "\r\n", ascii "Sec-WebSocket-Version: 13\r\n"]
  let (req, callerSetUserAgent) ← extraHeaders.foldlM (appendExtra maxBytes) (req, false)
  appendAll maxBytes req ((if callerSetUserAgent then []
    else [ascii "User-Agent: neograph-ws/1.0\r\n"]) ++ [ascii "\r\n"])

/-! ## What was asked for -/

/-- The caller's fields, without the blanks around their values, and a user
agent if there is none among them. -/
def extraFields (extraHeaders : List (Bytes × Bytes)) : List (Bytes × Bytes) :=
  extraHeaders.map (fun field => (field.1, trim field.2))
    ++ if extraHeaders.any fun field => ieq field.1 (ascii "User-Agent") then []
      else [(ascii "User-Agent", ascii "neograph-ws/1.0")]

/-- The upgrade request that a caller asks for. -/
def upgradeRequestOf (host path secKey : Bytes)
    (extraHeaders : List (Bytes × Bytes)) : Request where
  method := ascii "GET"
  target := path
  fields := [(ascii "Host", host), (ascii "Upgrade", ascii "websocket"),
    (ascii "Connection", ascii "Upgrade"), (ascii "Sec-WebSocket-Key", secKey),
    (ascii "Sec-WebSocket-Version", ascii "13")] ++ extraFields extraHeaders
  body := []

/-- **The bytes are exactly the upgrade request**: read by the grammar they are
the request for the path and nothing else, and each field of the handshake is
there once. -/
structure IsUpgradeRequest (host path secKey : Bytes)
    (extraHeaders : List (Bytes × Bytes)) (out : Bytes) : Prop where
  exactly : IsExactly out (upgradeRequestOf host path secKey extraHeaders)
  target : IsOriginForm path
  once : ∀ name ∈ ["host", "upgrade", "connection", "sec-websocket-key", "sec-websocket-version"],
    (valuesOf name (upgradeRequestOf host path secKey extraHeaders).fields).length = 1

/-- A value that a line can hold, with no blanks around it. -/
def IsValue (value : Bytes) : Prop := (∀ b ∈ value, isFieldChar b = true) ∧ trim value = value

/-- The caller's strings stay within their places, and no field of the caller
announces a body. -/
structure StaysInPlace (host path secKey : Bytes)
    (extraHeaders : List (Bytes × Bytes)) : Prop where
  host : IsValue host
  target : IsOriginForm path
  secKey : IsValue secKey
  extra : ∀ field ∈ extraHeaders, WellFormed ⟨field.1, field.2⟩
  framed : Framed (extraHeaders.map fun field => (field.1, trim field.2)) []

/-! ## The written text -/

variable {maxBytes : ℕ} {req out host path secKey : Bytes}
  {extraHeaders : List (Bytes × Bytes)}

theorem appendAll_eq_ok {values : List Bytes} (h : appendAll maxBytes req values = .ok out) :
    out = req ++ values.flatten := by
  induction values generalizing req with
  | nil =>
    cases h
    simp
  | cons value values ih =>
    unfold appendAll at h
    rw [foldlM_cons] at h
    obtain ⟨next, hnx, h⟩ := bind_eq_ok.mp h
    unfold appendWithin at hnx
    split at hnx
    · cases hnx
    · cases hnx
      rw [ih h, flatten_cons, append_assoc]

/-- The lines of an upgrade request, as they are written. -/
def upgradeMessageOf (host path secKey : Bytes)
    (extraHeaders : List (Bytes × Bytes)) : Message where
  method := ascii "GET"
  target := path
  lines := [⟨ascii "Host", 32 :: host⟩, ⟨ascii "Upgrade", ascii " websocket"⟩,
    ⟨ascii "Connection", ascii " Upgrade"⟩, ⟨ascii "Sec-WebSocket-Key", 32 :: secKey⟩,
    ⟨ascii "Sec-WebSocket-Version", ascii " 13"⟩]
    ++ (extraHeaders.map (fun field => ⟨field.1, 32 :: field.2⟩)
    ++ if extraHeaders.any fun field => ieq field.1 (ascii "User-Agent") then []
      else [⟨ascii "User-Agent", ascii " neograph-ws/1.0"⟩])
  body := []

/-- Headers that are let through are none of the reserved ones, and are sent as
they are. -/
theorem foldlM_appendExtra {state state' : Bytes × Bool}
    (h : extraHeaders.foldlM (appendExtra maxBytes) state = .ok state') :
    (∀ field ∈ extraHeaders, isReservedHeader field.1 = false)
      ∧ state' = (state.1 ++ (extraHeaders.map fun field =>
          FieldLine.mk field.1 (32 :: field.2)).flatMap text,
        state.2 || extraHeaders.any fun field => ieq field.1 (ascii "User-Agent")) := by
  induction extraHeaders generalizing state with
  | nil =>
    cases h
    exact ⟨nofun, by simp⟩
  | cons field headers ih =>
    rw [foldlM_cons] at h
    obtain ⟨next, hnx, h⟩ := bind_eq_ok.mp h
    unfold appendExtra at hnx
    split at hnx
    · cases hnx
    rename_i hfr
    obtain ⟨text, ht, hnx⟩ := bind_eq_ok.mp hnx
    cases hnx
    obtain ⟨hh, rfl⟩ := ih h
    refine ⟨forall_mem_cons.mpr ⟨Bool.eq_false_iff.mpr hfr, hh⟩, ?_⟩
    rw [map_cons, flatMap_cons, any_cons, appendAll_eq_ok ht, append_assoc, Bool.or_assoc]
    rfl

/-- **What the builder writes.** -/
theorem buildUpgradeRequest_eq_ok
    (h : buildUpgradeRequest host path secKey extraHeaders maxBytes = .ok out) :
    (∀ field ∈ extraHeaders, isReservedHeader field.1 = false)
      ∧ out = (upgradeMessageOf host path secKey extraHeaders).text := by
  obtain ⟨first, hf, h⟩ := bind_eq_ok.mp h
  obtain ⟨⟨text, agent⟩, he, h⟩ := bind_eq_ok.mp h
  obtain ⟨hfr, hst⟩ := foldlM_appendExtra he
  cases hst
  refine ⟨hfr, ?_⟩
  rw [appendAll_eq_ok h, appendAll_eq_ok hf]
  unfold Message.text upgradeMessageOf
  rw [show ascii " HTTP/1.1\r\n" = 32 :: (ascii "HTTP/1.1" ++ crlf) from rfl,
    show ascii "GET " = ascii "GET" ++ [32] from rfl,
    show ascii "Host: " = ascii "Host" ++ [58, 32] from rfl,
    show ascii "Sec-WebSocket-Key: " = ascii "Sec-WebSocket-Key" ++ [58, 32] from rfl,
    show ascii "Upgrade: websocket\r\n" = text ⟨ascii "Upgrade", ascii " websocket"⟩
      from rfl,
    show ascii "Connection: Upgrade\r\n" = text ⟨ascii "Connection", ascii " Upgrade"⟩
      from rfl,
    show ascii "Sec-WebSocket-Version: 13\r\n"
      = text ⟨ascii "Sec-WebSocket-Version", ascii " 13"⟩ from rfl,
    show ascii "User-Agent: neograph-ws/1.0\r\n"
      = text ⟨ascii "User-Agent", ascii " neograph-ws/1.0"⟩ from rfl,
    show ascii "\r\n" = crlf from rfl, Bool.false_or]
  split <;> simp [text]

/-! ## The fields -/

/-- The reserved headers, by their names in lower case. -/
theorem isReservedHeader_eq_false {k : Bytes} (h : isReservedHeader k = false) :
    k.map lower ≠ ascii "upgrade" ∧ k.map lower ≠ ascii "connection" ∧ k.map lower ≠ ascii "host"
      ∧ k.map lower ≠ ascii "sec-websocket-key" ∧ k.map lower ≠ ascii "sec-websocket-version" := by
  unfold isReservedHeader ieq at h
  simp only [Bool.or_eq_false_iff, Bool.and_eq_false_iff, decide_eq_false_iff_not, not_le] at h
  obtain ⟨⟨⟨hupgrade, hc⟩, hho⟩, hsecure⟩ := h
  have hsecure' : ∀ name : String, 14 ≤ (ascii name).length →
      (ascii name).take 14 = ascii "sec-websocket-" → k.map lower ≠ ascii name := by
    intro name hl htk heq
    obtain hs | hn := hsecure
    · rw [← heq, length_map] at hl
      exact absurd hs (Nat.not_lt.mpr hl)
    · rw [map_take, heq, htk] at hn
      exact hn rfl
  exact ⟨hupgrade, hc, hho, hsecure' _ (by decide) (by decide),
    hsecure' _ (by decide) (by decide)⟩

/-- Each field of the handshake is there once. -/
theorem valuesOf_upgradeRequestOf (hfr : ∀ field ∈ extraHeaders, isReservedHeader field.1 = false) :
    (∀ name ∈ ["host", "upgrade", "connection", "sec-websocket-key", "sec-websocket-version"],
      (valuesOf name (upgradeRequestOf host path secKey extraHeaders).fields).length = 1)
      ∧ ∀ name ∈ ["transfer-encoding", "content-length"],
        valuesOf name (upgradeRequestOf host path secKey extraHeaders).fields
          = valuesOf name (extraHeaders.map fun field => (field.1, trim field.2)) := by
  have ha : ∀ name ∈ ["host", "upgrade", "connection", "sec-websocket-key",
      "sec-websocket-version", "transfer-encoding", "content-length"],
      valuesOf name (if extraHeaders.any fun field => ieq field.1 (ascii "User-Agent") then []
        else [(ascii "User-Agent", ascii "neograph-ws/1.0")]) = [] := by
    split
    · exact fun _ _ => rfl
    · decide
  have hf : ∀ name ∈ ["host", "upgrade", "connection", "sec-websocket-key",
      "sec-websocket-version"], valuesOf name (extraFields extraHeaders) = [] := by
    intro name hnm
    unfold extraFields
    rw [valuesOf_append, ha name (mem_append_left ["transfer-encoding", "content-length"] hnm),
      append_nil, valuesOf_eq_nil_iff, forall_mem_map]
    intro field hfld
    obtain ⟨hupgrade, hc, hho, hk, hv⟩ :=
      isReservedHeader_eq_false (hfr field hfld)
    simp only [mem_cons, not_mem_nil, or_false] at hnm
    obtain rfl | rfl | rfl | rfl | rfl := hnm <;> assumption
  unfold upgradeRequestOf
  constructor
  · intro name hnm
    rw [valuesOf_append, hf name hnm, append_nil]
    simp only [mem_cons, not_mem_nil, or_false] at hnm
    obtain rfl | rfl | rfl | rfl | rfl := hnm <;> rfl
  · intro name hnm
    unfold extraFields
    rw [valuesOf_append, valuesOf_append, ha name (mem_append_right ["host", "upgrade",
      "connection", "sec-websocket-key", "sec-websocket-version"] hnm), append_nil]
    simp only [mem_cons, not_mem_nil, or_false] at hnm
    obtain rfl | rfl := hnm <;> rfl

/-- Framing looks at the caller's fields only. -/
theorem framed_upgradeRequestOf_iff
    (hfr : ∀ field ∈ extraHeaders, isReservedHeader field.1 = false) :
    Framed (upgradeRequestOf host path secKey extraHeaders).fields []
      ↔ Framed (extraHeaders.map fun field => (field.1, trim field.2)) [] := by
  obtain ⟨-, hsm⟩ := @valuesOf_upgradeRequestOf host path secKey extraHeaders hfr
  have hcod := hsm "transfer-encoding" (by simp)
  have hl := hsm "content-length" (by simp)
  exact ⟨Framed.congr hcod hl, Framed.congr hcod.symm hl.symm⟩

/-! ## Exactly the upgrade request -/

/-- A receiver reads the upgrade as it was meant. -/
theorem request_upgradeMessageOf (hho : trim host = host) (hk : trim secKey = secKey) :
    (upgradeMessageOf host path secKey extraHeaders).request
      = upgradeRequestOf host path secKey extraHeaders := by
  unfold Message.request upgradeMessageOf upgradeRequestOf extraFields
  simp only [map_cons, map_append, map_map, apply_ite (map field),
    map_nil, field, trim_cons_blank, hho, hk]
  rfl

/-- The lines are well formed when the caller's strings stay in place. -/
theorem StaysInPlace.wellFormed (h : StaysInPlace host path secKey extraHeaders)
    (hfr : ∀ field ∈ extraHeaders, isReservedHeader field.1 = false) :
    (upgradeMessageOf host path secKey extraHeaders).WellFormed where
  method_ne := cons_ne_nil _ _
  method := by
    show ∀ b ∈ ascii "GET", isTokenChar b = true
    decide
  target_ne := by
    intro he
    have hs := h.target.1
    rw [show path = [] from he] at hs
    cases hs
  target := isVisible_of_isPathText h.target.2
  lines := by
    have hbl : ∀ raw : Bytes, (∀ b ∈ raw, isFieldChar b = true) →
        ∀ b ∈ 32 :: raw, isFieldChar b = true :=
      fun raw hraw => forall_mem_cons.mpr ⟨rfl, hraw⟩
    have hf : ∀ (name raw : Bytes), name ≠ [] → name.all isTokenChar = true →
        (∀ b ∈ raw, isFieldChar b = true) → WellFormed ⟨name, raw⟩ :=
      fun name raw hne hnm hraw => ⟨hne, all_eq_true.mp hnm, hraw⟩
    unfold upgradeMessageOf
    rw [forall_mem_append, forall_mem_append]
    refine ⟨?_, ?_, ?_⟩
    · simp only [forall_mem_cons]
      exact ⟨hf _ _ (by decide) (by decide) (hbl _ h.host.1),
        hf _ _ (by decide) (by decide) (by decide),
        hf _ _ (by decide) (by decide) (by decide),
        hf _ _ (by decide) (by decide) (hbl _ h.secKey.1),
        hf _ _ (by decide) (by decide) (by decide), nofun⟩
    · rw [forall_mem_map]
      intro field hfld
      obtain ⟨hne, hnm, hv⟩ := h.extra field hfld
      exact ⟨hne, hnm, hbl _ hv⟩
    · split
      · exact nofun
      · exact forall_mem_singleton.mpr (hf _ _ (by decide) (by decide) (by decide))
  framed := by
    rw [request_upgradeMessageOf h.host.2 h.secKey.2]
    exact (framed_upgradeRequestOf_iff hfr).mpr h.framed

/-- What a reading of the upgrade request says about the caller's strings. -/
theorem staysInPlace_of_reads (h : Reads out (upgradeRequestOf host path secKey extraHeaders) [])
    (ht : IsOriginForm path)
    (hfr : ∀ field ∈ extraHeaders, isReservedHeader field.1 = false) :
    StaysInPlace host path secKey extraHeaders := by
  obtain ⟨m, hm, -, hreq⟩ := h
  have hln : ∀ field ∈ (upgradeRequestOf host path secKey extraHeaders).fields,
      ∃ line : FieldLine, line.WellFormed ∧ line.name = field.1 ∧ trim line.raw = field.2 := by
    intro field hfld
    rw [hreq] at hfld
    obtain ⟨line, hmm, rfl⟩ := mem_map.mp hfld
    exact ⟨line, hm.lines line hmm, rfl, rfl⟩
  have hv : ∀ name value, (name, value)
      ∈ (upgradeRequestOf host path secKey extraHeaders).fields → IsValue value := by
    intro name value hfld
    obtain ⟨line, ⟨-, -, hraw⟩, -, rfl⟩ := hln _ hfld
    exact ⟨forall_mem_trim_iff.mpr hraw, trim_trim _⟩
  refine ⟨hv (ascii "Host") _ (by simp [upgradeRequestOf]), ht,
    hv (ascii "Sec-WebSocket-Key") _ (by simp [upgradeRequestOf]), fun field hfld => ?_, ?_⟩
  · obtain ⟨line, ⟨hne, hnm, hraw⟩, heq, htrim⟩ := hln (field.1, trim field.2)
      (mem_append_right _ (mem_append_left _ (mem_map_of_mem hfld)))
    have hraw := forall_mem_trim_iff.mpr hraw
    rw [htrim] at hraw
    exact ⟨heq ▸ hne, heq ▸ hnm, forall_mem_trim_iff.mp hraw⟩
  · have hframed := hm.framed
    rw [← hreq, show m.body = [] from (congrArg Request.body hreq).symm] at hframed
    exact (framed_upgradeRequestOf_iff hfr).mp hframed

/-- **When a built text is the upgrade request**: exactly when every string of
the caller stays in its place. -/
theorem isUpgradeRequest_iff
    (h : buildUpgradeRequest host path secKey extraHeaders maxBytes = .ok out) :
    IsUpgradeRequest host path secKey extraHeaders out
      ↔ StaysInPlace host path secKey extraHeaders := by
  obtain ⟨hfr, rfl⟩ := buildUpgradeRequest_eq_ok h
  constructor
  · rintro ⟨he, ht, -⟩
    exact staysInPlace_of_reads he.1 ht hfr
  · intro hs
    have hrd : Reads (upgradeMessageOf host path secKey extraHeaders).text
        (upgradeRequestOf host path secKey extraHeaders) [] :=
      ⟨_, hs.wellFormed hfr, (append_nil _).symm,
        (request_upgradeMessageOf hs.host.2 hs.secKey.2).symm⟩
    have hcod : valuesOf "transfer-encoding"
        (upgradeRequestOf host path secKey extraHeaders).fields = [] :=
      ((framed_upgradeRequestOf_iff hfr).mpr hs.framed).coding_eq_nil
    exact ⟨hrd.isExactly hcod, hs.target, (valuesOf_upgradeRequestOf hfr).1⟩

/-- A plain upgrade request. -/
theorem isUpgradeRequest_iff_plain :
    ∃ out, buildUpgradeRequest (ascii "localhost") (ascii "/") (ascii "key")
        [(ascii "X-A", ascii "b")] 4096 = .ok out
      ∧ IsUpgradeRequest (ascii "localhost") (ascii "/") (ascii "key")
        [(ascii "X-A", ascii "b")] out := by
  obtain ⟨out, ho⟩ : ∃ out, buildUpgradeRequest (ascii "localhost") (ascii "/") (ascii "key")
      [(ascii "X-A", ascii "b")] 4096 = .ok out :=
    exists_of_isOk (by decide +kernel)
  refine ⟨out, ho, (isUpgradeRequest_iff ho).mpr ⟨⟨?_, ?_⟩, ?_, ⟨?_, ?_⟩, ?_, ?_⟩⟩
  · decide
  · decide
  · decide
  · decide
  · decide
  · exact forall_mem_singleton.mpr ⟨by decide, by decide, by decide⟩
  · exact .empty (by decide) (by decide)

/-- A value that ends its line: what follows is read as another host. -/
theorem smuggled_host :
    ∃ out, buildUpgradeRequest (ascii "localhost") (ascii "/") (ascii "key")
        [(ascii "X-A", ascii "b\r\nHost: evil")] 4096 = .ok out
      ∧ ¬IsUpgradeRequest (ascii "localhost") (ascii "/") (ascii "key")
        [(ascii "X-A", ascii "b\r\nHost: evil")] out := by
  obtain ⟨out, ho⟩ : ∃ out, buildUpgradeRequest (ascii "localhost") (ascii "/") (ascii "key")
      [(ascii "X-A", ascii "b\r\nHost: evil")] 4096 = .ok out :=
    exists_of_isOk (by decide +kernel)
  refine ⟨out, ho, fun h => ?_⟩
  obtain ⟨hfr, -⟩ := buildUpgradeRequest_eq_ok ho
  have hv := (staysInPlace_of_reads h.exactly.1 h.target hfr).extra _ mem_cons_self
  have hreturn := hv.2.2 13 (by decide)
  cases hreturn

end NeoGraph.Async
