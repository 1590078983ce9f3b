import NeoGraph.Basic
import NeoGraph.Lib.HttpRequest

/-!
# Built requests

The client writes a request from strings of its caller: the method, the
target, the host with its port, fields and a body. Each string is checked
before it is written, and a field that would change where the message ends is
refused.

What is written is exactly one request (`buildRequest_isExactly`): whoever
reads it by the grammar finds the method, the target, one host, the caller's
fields and the body, and nothing behind it. The check of a target is wider
than the grammar of a path, so a target outside that grammar is written as it
is.
-/

namespace NeoGraph.Async

open Http List FieldLine

abbrev Bytes := List UInt8

/-- What the request asks of the connection after it. -/
inductive ConnDirective where
  | keepAlive
  | close
deriving DecidableEq

/-! ## Checks -/

def isHttpTokenChar (c : UInt8) : Bool :=
  isAlpha c || isDigit c || (ascii "!#$%&'*+-.^_`|~").contains c

/-- A name must be a token. -/
def validateRequestHeaderName (name : Bytes) : Except Exn Unit :=
  if name = [] || !name.all isHttpTokenChar then
    .error (.runtimeError "async HTTP: invalid request header name")
  else .ok ()

/-- A value must not contain control characters other than tabs. -/
def validateRequestHeaderValue (value : Bytes) : Except Exn Unit :=
  if value.any fun c => c = 127 || (c < 32 && c ≠ 9) then
    .error (.runtimeError "async HTTP: invalid request header value")
  else .ok ()

/-- A target is a path or an asterisk, without blanks, controls or a fragment.
-/
def validateRequestTarget (path : Bytes) : Except Exn Unit :=
  if path = [] then .ok ()
  else if path.head? ≠ some 47 && path ≠ ascii "*" then
    .error (.runtimeError "async HTTP: request target must use origin-form")
  else if path.any fun c => c = 127 || c ≤ 32 || c = 35 then
    .error (.runtimeError "async HTTP: invalid request target")
  else .ok ()

/-- A host is not empty and has nothing that ends it. -/
def validateRequestHost (host : Bytes) : Except Exn Unit :=
  if host = [] then .error (.runtimeError "async HTTP: empty request host")
  else if host.any fun c => c ≤ 32 || c = 127 || (ascii "@/\\?#").contains c then
    .error (.runtimeError "async HTTP: invalid request host")
  else .ok ()

def asciiLower (value : Bytes) : Bytes := value.map lower

/-- A text that is a number of 32 bits, and nothing else. -/
def fromChars (text : Bytes) : Option ℕ :=
  if text ≠ [] && text.all isDigit && decimal text < 2 ^ 32 then some (decimal text) else none

/-- The port in canonical form, or nothing when it is none. -/
def effectivePort (port : Bytes) (tls uriPort : Bool) : Option Bytes :=
  if port = [] then some (ascii (if tls then "443" else "80"))
  else if !uriPort && asciiLower port = ascii "https" then some (ascii "443")
  else if !uriPort && asciiLower port = ascii "http" then some (ascii "80")
  else
    match fromChars port with
    | some numeric =>
      if numeric = 0 || 65535 < numeric then none else some (decimalText numeric)
    | none =>
      if uriPort then none
      else if (asciiLower port).all fun c => isAlpha c || isDigit c || c = 45 || c = 95 then
        some (asciiLower port)
      else none

/-- The port is left out when it is the default one. -/
def hostHeaderValue (host port : Bytes) (tls : Bool) : Except Exn Bytes := do
  validateRequestHost host
  match effectivePort port tls false with
  | none => .error (.runtimeError "async HTTP: invalid request port")
  | some normalized =>
    let bracketed := 2 ≤ host.length && host.head? = some 91 && host.getLast? = some 93
    let name := if host.contains 58 && !bracketed then 91 :: (host ++ [93]) else host
    .ok (if normalized ≠ ascii (if tls then "443" else "80") then name ++ 58 :: normalized
      else name)

/-! ## The request -/

/-- A field that decides where a message ends, or whom it is for. -/
def isFramingField (lowerName : Bytes) : Bool :=
  lowerName = ascii "content-length" || lowerName = ascii "host"
    || lowerName = ascii "connection" || lowerName = ascii "transfer-encoding"

/-- One field of the caller is written; whether a content type was seen is
kept beside the text. -/
def appendField (state : Bytes × Bool) (field : Bytes × Bytes) : Except Exn (Bytes × Bool) := do
  validateRequestHeaderName field.1
  validateRequestHeaderValue field.2
  if isFramingField (asciiLower field.1) then
    .error (.runtimeError "async HTTP: caller must not override request framing headers")
  else
    .ok (state.1 ++ (field.1 ++ (ascii ": " ++ (field.2 ++ ascii "\r\n"))),
      state.2 || asciiLower field.1 = ascii "content-type")

def connectionLine : ConnDirective → Bytes
  | .keepAlive => ascii "Connection: keep-alive\r\n"
  | .close => ascii "Connection: close\r\n"

/-- **The text of a request**, or why none is sent. -/
def buildRequest (host port path body : Bytes) (headers : List (Bytes × Bytes)) (tls : Bool)
    (directive : ConnDirective) (method : Bytes := ascii "POST") : Except Exn Bytes := do
  validateRequestHost host
  validateRequestTarget path
  validateRequestHeaderName method
  let isGet := method = ascii "GET"
  let hostValue ← hostHeaderValue host port tls
  let out := method ++ (ascii " " ++ ((if path = [] then ascii "/" else path)
    ++ (ascii " HTTP/1.1\r\n" ++ (ascii "Host: " ++ (hostValue ++ ascii "\r\n")))))
  let out := if isGet then out
    else out ++ (ascii "Content-Length: " ++ (decimalText body.length ++ ascii "\r\n"))
  let (out, hasCtype) ← headers.foldlM appendField (out ++ connectionLine directive, false)
  let out := if !isGet && !hasCtype then out ++ ascii "Content-Type: application/json\r\n" else out
  .ok (out ++ ascii "\r\n" ++ if isGet then [] else body)

/-! ## What a request says -/

/-- The request that a caller asks for. -/
def requestOf (hostValue path body : Bytes) (headers : List (Bytes × Bytes))
    (directive : ConnDirective) (method : Bytes) : Request where
  method := method
  target := if path = [] then ascii "/" else path
  fields :=
    (ascii "Host", hostValue)
      :: ((if method = ascii "GET" then [] else [(ascii "Content-Length", decimalText body.length)])
      ++ (ascii "Connection", ascii (if directive = .keepAlive then "keep-alive" else "close"))
      :: (headers.map (fun field => (field.1, trim field.2))
      ++ if method ≠ ascii "GET"
          ∧ ¬headers.any (fun field => asciiLower field.1 = ascii "content-type") then
          [(ascii "Content-Type", ascii "application/json")]
        else []))
  body := if method = ascii "GET" then [] else body

/-- The target is in a form that a request to an origin server may have. -/
def IsRequestTarget (target : Bytes) : Prop := target = ascii "*" ∨ IsOriginForm target

instance : DecidablePred IsRequestTarget := fun _ => inferInstanceAs (Decidable (_ ∨ _))

/-- A field that the builder accepts from its caller. -/
structure FieldAccepted (field : Bytes × Bytes) : Prop where
  name_ne : field.1 ≠ []
  name : ∀ b ∈ field.1, isTokenChar b = true
  value : ∀ b ∈ field.2, isFieldChar b = true
  free : isFramingField (asciiLower field.1) = false

/-- The names that are let through are the tokens. -/
theorem validateRequestHeaderName_eq_ok {name : Bytes} : validateRequestHeaderName name = .ok ()
      ↔ name ≠ [] ∧ ∀ b ∈ name, isTokenChar b = true := by
  unfold validateRequestHeaderName
  split_ifs with h
  · simp only [Bool.or_eq_true, decide_eq_true_eq, Bool.not_eq_true', List.all_eq_false] at h
    refine ⟨nofun, fun h' => ?_⟩
    obtain rfl | ⟨b, hb, hn⟩ := h
    · exact absurd rfl h'.1
    · exact absurd (h'.2 b hb) hn
  · simp only [Bool.or_eq_true, decide_eq_true_eq, Bool.not_eq_true', not_or,
      Bool.not_eq_false, List.all_eq_true] at h
    exact ⟨fun _ => h, fun _ => rfl⟩

variable {b : UInt8}

theorem fieldChar_of_not (h : ¬(b = 127 ∨ b < 32 ∧ b ≠ 9)) : isFieldChar b = true := by
  unfold isFieldChar
  simp only [Bool.or_eq_true, Bool.and_eq_true, decide_eq_true_eq]
  rw [not_or, not_and, not_not] at h
  by_cases hb : b < 32
  · exact .inl (h.2 hb)
  · exact .inr ⟨UInt8.not_lt.mp hb, h.1⟩

variable {value : Bytes}

theorem validateRequestHeaderValue_eq_ok
    (h : validateRequestHeaderValue value = .ok ()) : ∀ b ∈ value, isFieldChar b = true := by
  unfold validateRequestHeaderValue at h
  split at h
  · cases h
  rename_i hany
  simp only [List.any_eq_true, Bool.or_eq_true, Bool.and_eq_true, decide_eq_true_eq,
    not_exists, not_and] at hany
  exact fun b hb => fieldChar_of_not (hany b hb)

variable {state state' : Bytes × Bool}

/-- What a header that is let through adds to the request. -/
theorem appendField_eq_ok {field : Bytes × Bytes} (h : appendField state field = .ok state') :
    FieldAccepted field
      ∧ state' = (state.1 ++ text ⟨field.1, 32 :: field.2⟩,
        state.2 || asciiLower field.1 = ascii "content-type") := by
  obtain ⟨hnm, h⟩ := bind_unit_eq_ok.mp h
  obtain ⟨hv, h⟩ := bind_unit_eq_ok.mp h
  split at h
  · cases h
  rename_i hfr
  cases h
  obtain ⟨hne, hnm⟩ := validateRequestHeaderName_eq_ok.mp hnm
  exact ⟨⟨hne, hnm, validateRequestHeaderValue_eq_ok hv, Bool.eq_false_iff.mpr hfr⟩, rfl⟩

/-- The fields of a caller are written one after the other. -/
theorem foldlM_appendField {headers : List (Bytes × Bytes)}
    (h : headers.foldlM appendField state = .ok state') : (∀ field ∈ headers, FieldAccepted field)
      ∧ state' = (state.1 ++ (headers.map fun field =>
          FieldLine.mk field.1 (32 :: field.2)).flatMap text,
        state.2 || headers.any fun field => asciiLower field.1 = ascii "content-type") := by
  induction headers generalizing state with
  | nil =>
    cases h
    exact ⟨nofun, by simp⟩
  | cons field headers ih =>
    rw [foldlM_cons] at h
    obtain ⟨next, hnx, h⟩ := bind_eq_ok.mp h
    obtain ⟨hfld, rfl⟩ := appendField_eq_ok hnx
    obtain ⟨hh, rfl⟩ := ih h
    refine ⟨forall_mem_cons.mpr ⟨hfld, hh⟩, ?_⟩
    rw [List.map_cons, List.flatMap_cons, List.any_cons, List.append_assoc, Bool.or_assoc]

/-! ## The host -/

theorem isVisible_of_isPortChar
    (h : (isAlpha b || isDigit b || b = 45 || b = 95) = true) : isVisible b = true := by
  simp only [isAlpha, isDigit, isVisible, Bool.or_eq_true, Bool.and_eq_true, decide_eq_true_eq,
    UInt8.lt_iff_toNat_lt, UInt8.le_iff_toNat_le, ne_eq, ← UInt8.toNat_inj,
    UInt8.reduceToNat] at *
  omega

theorem isVisible_of_mem_decimalText {n : ℕ} (h : b ∈ decimalText n) : isVisible b = true :=
  isVisible_of_isPortChar (by simp [isDigit_of_mem_decimalText h])

theorem effectivePort_visible {port normalized : Bytes} {tls uriPort : Bool}
    (h : effectivePort port tls uriPort = some normalized) :
    ∀ b ∈ normalized, isVisible b = true := by
  unfold effectivePort at h
  split at h
  · cases h
    cases tls <;> decide
  split at h
  · cases h
    decide
  split at h
  · cases h
    decide
  split at h
  · split at h
    · cases h
    · cases h
      exact fun b hb => isVisible_of_mem_decimalText hb
  · split at h
    · cases h
    split at h
    · rename_i ha
      cases h
      exact fun b hb => isVisible_of_isPortChar (all_eq_true.mp ha b hb)
    · cases h

theorem validateRequestHost_visible {host : Bytes} (h : validateRequestHost host = .ok ()) :
    ∀ b ∈ host, isVisible b = true := by
  unfold validateRequestHost at h
  split_ifs at h with he hany
  intro b hb
  simp only [List.any_eq_true, Bool.or_eq_true, decide_eq_true_eq, not_exists, not_and,
    not_or] at hany
  obtain ⟨⟨hle, hne⟩, -⟩ := hany b hb
  simp only [isVisible, Bool.and_eq_true, decide_eq_true_eq]
  exact ⟨UInt8.not_le.mp hle, hne⟩

/-- The value of the host header has no blank. -/
theorem hostHeaderValue_visible {host port hostValue : Bytes} {tls : Bool}
    (h : hostHeaderValue host port tls = .ok hostValue) : ∀ b ∈ hostValue, isVisible b = true := by
  obtain ⟨hho, h⟩ := bind_unit_eq_ok.mp h
  have hho := validateRequestHost_visible hho
  split at h
  · cases h
  rename_i normalized hp
  have hp := effectivePort_visible hp
  cases h
  have hbracketed : ∀ b ∈ 91 :: (host ++ [93]), isVisible b = true := by
    intro b hb
    rw [mem_cons, mem_append, mem_singleton] at hb
    obtain rfl | hb | rfl := hb
    · rfl
    · exact hho b hb
    · rfl
  have hwith : ∀ name : Bytes, (∀ b ∈ name, isVisible b = true) →
      ∀ b ∈ name ++ 58 :: normalized, isVisible b = true := by
    intro name hnm b hb
    rw [mem_append, mem_cons] at hb
    obtain hb | rfl | hb := hb
    · exact hnm b hb
    · rfl
    · exact hp b hb
  have hnm : ∀ (c : Prop) [Decidable c],
      ∀ b ∈ if c then 91 :: (host ++ [93]) else host, isVisible b = true := by
    intro c _
    split
    · exact hbracketed
    · exact hho
  by_cases hd : normalized ≠ ascii (if tls then "443" else "80")
  · rw [if_pos hd]
    exact hwith _ (hnm _)
  · rw [if_neg hd]
    exact hnm _

theorem validateRequestTarget_visible {path : Bytes} (h : validateRequestTarget path = .ok ()) :
    ∀ b ∈ path, isVisible b = true := by
  unfold validateRequestTarget at h
  split_ifs at h with he hform hany
  · rw [he]
    exact nofun
  intro b hb
  simp only [List.any_eq_true, Bool.or_eq_true, decide_eq_true_eq, not_exists, not_and,
    not_or] at hany
  obtain ⟨⟨hne, hle⟩, -⟩ := hany b hb
  simp only [isVisible, Bool.and_eq_true, decide_eq_true_eq]
  exact ⟨UInt8.not_le.mp hle, hne⟩

/-! ## The written request -/

theorem isFieldChar_of_isVisible (h : isVisible b = true) : isFieldChar b = true := by
  simp only [isVisible, isFieldChar, Bool.and_eq_true, Bool.or_eq_true, decide_eq_true_eq] at h ⊢
  exact .inr ⟨UInt8.le_of_lt h.1, h.2⟩

/-- A visible text has no blanks around it. -/
theorem trim_of_visible (h : ∀ b ∈ value, isVisible b = true) : trim value = value := by
  have hbl : ∀ b ∈ value, ¬isBlank b = true := by
    intro b hb hbl
    have hv := h b hb
    simp only [isBlank, Bool.or_eq_true, decide_eq_true_eq] at hbl
    obtain rfl | rfl := hbl <;> cases hv
  unfold trim
  have hdr : value.dropWhile isBlank = value := by
    cases value with
    | nil => rfl
    | cons b rest => exact dropWhile_cons_of_neg (hbl b mem_cons_self)
  rw [hdr, rdropWhile_eq_self_iff]
  exact fun hne => hbl _ (getLast_mem hne)

/-- The lines of a request, as they are written. -/
def messageOf (hostValue path body : Bytes) (headers : List (Bytes × Bytes))
    (directive : ConnDirective) (method : Bytes) : Message where
  method := method
  target := if path = [] then ascii "/" else path
  lines :=
    ⟨ascii "Host", 32 :: hostValue⟩
      :: ((if method = ascii "GET" then []
        else [⟨ascii "Content-Length", 32 :: decimalText body.length⟩])
      ++ ⟨ascii "Connection", ascii (if directive = .keepAlive then " keep-alive" else " close")⟩
      :: (headers.map (fun field => ⟨field.1, 32 :: field.2⟩)
      ++ if method ≠ ascii "GET"
          ∧ ¬headers.any (fun field => asciiLower field.1 = ascii "content-type") then
          [⟨ascii "Content-Type", ascii " application/json"⟩]
        else []))
  body := if method = ascii "GET" then [] else body

variable {host port path body out hostValue method : Bytes} {headers : List (Bytes × Bytes)}
  {tls : Bool} {directive : ConnDirective}

/-- A receiver reads the message as it was meant. -/
theorem request_messageOf (hho : ∀ b ∈ hostValue, isVisible b = true) :
    (messageOf hostValue path body headers directive method).request
      = requestOf hostValue path body headers directive method := by
  have hl : trim (decimalText body.length) = decimalText body.length :=
    trim_of_visible fun b hb => isVisible_of_mem_decimalText hb
  unfold Message.request messageOf requestOf
  simp only [map_cons, map_append, map_map, apply_ite (map field),
    map_nil, field, trim_cons_blank, trim_of_visible hho, hl]
  congr 2
  cases directive <;> rfl

/-- **What the builder writes.** -/
theorem buildRequest_eq_ok
    (h : buildRequest host port path body headers tls directive method = .ok out) :
    hostHeaderValue host port tls = .ok hostValue → validateRequestTarget path = .ok ()
      ∧ validateRequestHeaderName method = .ok () ∧ (∀ field ∈ headers, FieldAccepted field)
      ∧ out = (messageOf hostValue path body headers directive method).text := by
  intro hv
  obtain ⟨-, h⟩ := bind_unit_eq_ok.mp h
  obtain ⟨ht, h⟩ := bind_unit_eq_ok.mp h
  obtain ⟨hm, h⟩ := bind_unit_eq_ok.mp h
  rw [hv] at h
  obtain ⟨_, hv, h⟩ := bind_eq_ok.mp h
  cases hv
  obtain ⟨⟨text, hasCtype⟩, hf, h⟩ := bind_eq_ok.mp h
  obtain ⟨ha, hst⟩ := foldlM_appendField hf
  cases hst
  cases h
  refine ⟨ht, hm, ha, ?_⟩
  rw [Bool.false_or]
  unfold Message.text messageOf
  rw [show ascii " HTTP/1.1\r\n" = 32 :: (ascii "HTTP/1.1" ++ crlf) from rfl,
    show ascii "Host: " = ascii "Host" ++ [58, 32] from rfl,
    show ascii "Content-Length: " = ascii "Content-Length" ++ [58, 32] from rfl,
    show ascii "\r\n" = crlf from rfl, show ascii " " = [32] from rfl]
  have hc : connectionLine directive = FieldLine.text ⟨ascii "Connection",
      ascii (if directive = .keepAlive then " keep-alive" else " close")⟩ := by
    cases directive <;> rfl
  have hty : ascii "Content-Type: application/json\r\n"
      = FieldLine.text ⟨ascii "Content-Type", ascii " application/json"⟩ := rfl
  rw [hc, hty]
  by_cases hg : method = ascii "GET"
  · simp [hg, FieldLine.text]
  · by_cases hctype : (headers.any fun field => asciiLower field.1 = ascii "content-type") = true
    all_goals
      simp [hg, hctype, FieldLine.text]

theorem valuesOf_headers (hh : ∀ field ∈ headers, FieldAccepted field) {name : String}
    (hnm : isFramingField (ascii name) = true) :
    valuesOf name (headers.map fun field => (field.1, trim field.2)) = [] := by
  rw [valuesOf_eq_nil_iff, forall_mem_map]
  intro field hfld heq
  have hfr := (hh field hfld).free
  rw [show asciiLower field.1 = ascii name from heq, hnm] at hfr
  cases hfr

/-- The framing fields of a request. -/
theorem valuesOf_requestOf (hh : ∀ field ∈ headers, FieldAccepted field) :
    let fields := (requestOf hostValue path body headers directive method).fields
    valuesOf "host" fields = [hostValue] ∧ (valuesOf "connection" fields).length = 1
      ∧ valuesOf "content-length" fields
        = (if method = ascii "GET" then [] else [decimalText body.length])
      ∧ valuesOf "transfer-encoding" fields = [] := by
  have hh := fun name => @valuesOf_headers _ hh name
  have hn : ∀ name, valuesOf name [] = [] := fun _ => rfl
  unfold requestOf
  refine ⟨?_, ?_, ?_, ?_⟩ <;> split_ifs <;>
    simp +decide [valuesOf_cons, valuesOf_append, hh, hn]

/-! ## One request -/

/-- The lines are well formed, and the fields decide the body. -/
theorem wellFormed_messageOf (hho : hostHeaderValue host port tls = .ok hostValue)
    (ht : validateRequestTarget path = .ok ())
    (hm : validateRequestHeaderName method = .ok ())
    (hh : ∀ field ∈ headers, FieldAccepted field) :
    (messageOf hostValue path body headers directive method).WellFormed where
  method_ne := (validateRequestHeaderName_eq_ok.mp hm).1
  method := (validateRequestHeaderName_eq_ok.mp hm).2
  target_ne := by
    show (if path = [] then ascii "/" else path) ≠ []
    split
    · decide
    · assumption
  target := by
    show ∀ b ∈ if path = [] then ascii "/" else path, isVisible b = true
    split
    · decide
    · exact validateRequestTarget_visible ht
  lines := by
    have hf : ∀ (name raw : Bytes), name ≠ [] → name.all isTokenChar = true →
        (∀ b ∈ raw, isFieldChar b = true) → WellFormed ⟨name, raw⟩ :=
      fun name raw hne hnm hraw => ⟨hne, all_eq_true.mp hnm, hraw⟩
    have hbl : ∀ raw : Bytes, (∀ b ∈ raw, isFieldChar b = true) →
        ∀ b ∈ 32 :: raw, isFieldChar b = true :=
      fun raw hraw => forall_mem_cons.mpr ⟨rfl, hraw⟩
    have hcallers : ∀ line ∈ headers.map fun field => FieldLine.mk field.1 (32 :: field.2),
        line.WellFormed := by
      rw [forall_mem_map]
      intro field hfld
      obtain ⟨hne, hnm, hv, -⟩ := hh field hfld
      exact ⟨hne, hnm, hbl _ hv⟩
    unfold messageOf
    rw [forall_mem_cons, forall_mem_append, forall_mem_cons, forall_mem_append]
    refine ⟨hf _ _ (by decide) (by decide) (hbl _ fun b hb =>
        isFieldChar_of_isVisible (hostHeaderValue_visible hho b hb)), ?_,
      hf _ _ (by decide) (by decide) (by cases directive <;> decide), hcallers, ?_⟩
    · split
      · exact nofun
      · exact forall_mem_singleton.mpr (hf _ _ (by decide) (by decide)
          (hbl _ fun b hb => isFieldChar_of_isVisible (isVisible_of_mem_decimalText hb)))
    · split
      · exact forall_mem_singleton.mpr (hf _ _ (by decide) (by decide) (by decide))
      · exact nofun
  framed := by
    rw [request_messageOf (hostHeaderValue_visible hho)]
    obtain ⟨-, -, hl, hcod⟩ := @valuesOf_requestOf path body hostValue method headers
      directive hh
    show Framed _ (if method = ascii "GET" then [] else body)
    split_ifs with hg
    · rw [if_pos hg] at hl
      exact .empty hcod hl
    rw [if_neg hg] at hl
    refine .length body hcod (by rw [hl]; exact cons_ne_nil _ _) ?_
    rw [hl, forall_mem_singleton]
    obtain ⟨b, rest, hdig, -⟩ := decimalText_head body.length
    exact ⟨by rw [hdig]; exact cons_ne_nil _ _,
      fun b hb => isDigit_of_mem_decimalText hb, decimal_decimalText _⟩

/-- What is written is exactly the request that was asked for. -/
theorem isExactly_of_buildRequest
    (h : buildRequest host port path body headers tls directive method = .ok out) :
    ∃ hostValue, hostHeaderValue host port tls = .ok hostValue
      ∧ (∀ field ∈ headers, FieldAccepted field)
      ∧ IsExactly out (requestOf hostValue path body headers directive method) := by
  obtain ⟨hostValue, hv⟩ : ∃ hostValue, hostHeaderValue host port tls = .ok hostValue := by
    obtain ⟨-, h⟩ := bind_unit_eq_ok.mp h
    obtain ⟨-, h⟩ := bind_unit_eq_ok.mp h
    obtain ⟨-, h⟩ := bind_unit_eq_ok.mp h
    obtain ⟨hostValue, hv, -⟩ := bind_eq_ok.mp h
    exact ⟨hostValue, hv⟩
  obtain ⟨ht, hm, hh, rfl⟩ := buildRequest_eq_ok h hv
  refine ⟨hostValue, hv, hh, ?_⟩
  have hrd : Reads (messageOf hostValue path body headers directive method).text
      (requestOf hostValue path body headers directive method) [] :=
    ⟨_, wellFormed_messageOf hv ht hm hh, (append_nil _).symm,
      (request_messageOf (hostHeaderValue_visible hv)).symm⟩
  exact hrd.isExactly (valuesOf_requestOf hh).2.2.2

/-- A target read off the written bytes is in the strict grammar if the
caller's is. -/
theorem exists_reads_isRequestTarget_iff
    (h : IsExactly out (requestOf hostValue path body headers directive method)) :
    (∃ r rest, Reads out r rest ∧ IsRequestTarget r.target) ↔ path = [] ∨ IsRequestTarget path := by
  have hpt : IsRequestTarget (if path = [] then ascii "/" else path)
      ↔ path = [] ∨ IsRequestTarget path := by
    split_ifs with he
    · exact ⟨fun _ => .inl he, fun _ => .inr (by decide)⟩
    · exact ⟨.inr, fun h => h.resolve_left he⟩
  rw [← hpt]
  constructor
  · rintro ⟨r, rest, hrd, ht⟩
    rw [(h.2 r rest hrd).1] at ht
    exact ht
  · exact fun ht => ⟨_, [], h.1, ht⟩

/-- **A built request is exactly one request**: the bytes are read in one way
only, as the request asked for, with one host, one connection directive, at
most one length and no transfer coding, and nothing is left behind it. By the
strict grammar of targets they are read if and only if the path is in it. -/
theorem buildRequest_isExactly
    (h : buildRequest host port path body headers tls directive method = .ok out) :
    ∃ hostValue, hostHeaderValue host port tls = .ok hostValue
      ∧ IsExactly out (requestOf hostValue path body headers directive method)
      ∧ (let fields := (requestOf hostValue path body headers directive method).fields
        valuesOf "host" fields = [hostValue] ∧ (valuesOf "connection" fields).length = 1
          ∧ (valuesOf "content-length" fields).length ≤ 1
          ∧ valuesOf "transfer-encoding" fields = [])
      ∧ ((∃ r rest, Reads out r rest ∧ IsRequestTarget r.target)
        ↔ path = [] ∨ IsRequestTarget path) := by
  obtain ⟨hostValue, hv, hh, he⟩ := isExactly_of_buildRequest h
  obtain ⟨hho, hc, hl, hcod⟩ := @valuesOf_requestOf path body hostValue method
    headers directive hh
  refine ⟨hostValue, hv, he, ⟨hho, hc, ?_, hcod⟩,
    exists_reads_isRequestTarget_iff he⟩
  rw [hl]
  split
  · exact Nat.zero_le 1
  · exact le_refl 1

/-- A request with a body, one field of the caller and another port. -/
theorem buildRequest_isExactly_posted :
    ∃ out, buildRequest (ascii "localhost") (ascii "8080") (ascii "/a?b") (ascii "\x7b\x7d")
        [(ascii "X-A", ascii " b ")] false .keepAlive = .ok out
      ∧ IsExactly out (requestOf (ascii "localhost:8080") (ascii "/a?b") (ascii "\x7b\x7d")
        [(ascii "X-A", ascii " b ")] .keepAlive (ascii "POST")) := by
  obtain ⟨out, ho⟩ : ∃ out, buildRequest (ascii "localhost") (ascii "8080") (ascii "/a?b")
      (ascii "\x7b\x7d") [(ascii "X-A", ascii " b ")] false .keepAlive = .ok out := ⟨_, rfl⟩
  obtain ⟨hostValue, hv, he, -⟩ := buildRequest_isExactly ho
  have hho : hostHeaderValue (ascii "localhost") (ascii "8080") false
      = .ok (ascii "localhost:8080") := rfl
  rw [hho] at hv
  cases hv
  exact ⟨out, ho, he⟩

/-- A target with a byte that no path has is written all the same: by the
strict grammar the bytes are no request. -/
theorem built_outside_strict_grammar :
    ∃ out, buildRequest (ascii "localhost") (ascii "80") (ascii "/<") [] [] false .close
        (ascii "GET") = .ok out
      ∧ ¬∃ r rest, Reads out r rest ∧ IsRequestTarget r.target := by
  obtain ⟨out, ho⟩ : ∃ out, buildRequest (ascii "localhost") (ascii "80") (ascii "/<") [] []
      false .close (ascii "GET") = .ok out := ⟨_, rfl⟩
  obtain ⟨hostValue, -, -, hex⟩ := isExactly_of_buildRequest ho
  refine ⟨out, ho, fun hrd => ?_⟩
  obtain he | hstr := (exists_reads_isRequestTarget_iff hex).mp hrd
  · cases he
  · exact absurd hstr (by decide)

end NeoGraph.Async
