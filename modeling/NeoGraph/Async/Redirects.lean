import NeoGraph.Async.BuildRequest

/-!
# Redirects

A call sends its request to a target, and once more to the target of each
redirect that it follows. The location of a redirect is a URL, an authority, a
path, a query or a name beside the current one; it is followed only if it
stays at the origin of the current target: the scheme, the host and the port.

`redirects_stay_iff`: every request of a call goes to the origin of the first,
and there are no more of them than redirects that may be followed and one. The
redirects are counted by an `int`, so the number is not bounded where all its
values may be.
-/

namespace NeoGraph.Async

open List

/-- Where a request goes. -/
structure HttpTarget where
  host : Bytes
  port : Bytes
  path : Bytes
  tls : Bool

/-- The host in lower case, without brackets or a dot at its end. -/
def normalizedHost (host : Bytes) : Option Bytes :=
  let host := if 2 ≤ host.length && host.head? = some 91 && host.getLast? = some 93
    then host.tail.dropLast else host
  if host = [] then none
  else
    let dotted := (asciiLower host).getLast? = some 46
    let out := if dotted then (asciiLower host).dropLast else asciiLower host
    if dotted && (out = [] || out.getLast? = some 46) then none
    else if out.head? = some 46 || out.tails.any (ascii "..").isPrefixOf then none
    else if out.any fun c => c ≤ 32 || 127 ≤ c || (ascii "@%/\\?#").contains c then none
    else some out

/-- Same scheme, host and port. -/
def sameOrigin (left right : HttpTarget) : Bool :=
  left.tls = right.tls
    && match normalizedHost left.host, normalizedHost right.host,
        effectivePort left.port left.tls false, effectivePort right.port right.tls false with
      | some leftHost, some rightHost, some leftPort, some rightPort =>
        leftHost = rightHost && leftPort = rightPort
      | _, _, _, _ => false

/-! ## The target of a redirect -/

/-- Where the pattern first stands in a text. -/
def find (pattern text : Bytes) : Option ℕ := text.tails.findIdx? pattern.isPrefixOf

/-- A host, with a port if there is one. -/
def splitAuthority (authority : Bytes) : Option (Bytes × Bytes) :=
  if authority.head? = some 91 then do
    let close ← authority.idxOf? 93
    let host := (authority.take close).tail
    if close + 1 < authority.length then
      let port := authority.drop (close + 2)
      if authority[close + 1]? ≠ some 58 || port = [] then none else some (host, port)
    else some (host, [])
  else
    match authority.idxOf? 58 with
    | none => some (authority, [])
    | some colon =>
      let port := authority.drop (colon + 1)
      if port.contains 58 || port = [] then none else some (authority.take colon, port)

/-- The target of an address that names its scheme. -/
def parseAbsoluteHttpUrl (url : Bytes) : Option HttpTarget := do
  let schemeEnd ← find (ascii "://") url
  let scheme := asciiLower (url.take schemeEnd)
  if scheme ≠ ascii "http" && scheme ≠ ascii "https" then none
  let tls := scheme = ascii "https"
  let rest := url.drop (schemeEnd + 3)
  let authority := rest.takeWhile fun c => !(ascii "/?#").contains c
  let suffix := (rest.drop authority.length).takeWhile fun c => c ≠ 35
  if authority = [] || authority.contains 64 then none
  let (host, port) ← splitAuthority authority
  let _ ← normalizedHost host
  let normalizedPort ← effectivePort port tls true
  some {
    host := host
    port := normalizedPort
    path := if suffix = [] then ascii "/"
      else if suffix.head? = some 63 then 47 :: suffix else suffix
    tls := tls }

/-- Where a redirect leads from a target. -/
def resolveRedirectTarget (current : HttpTarget) (location : Bytes) : Option HttpTarget :=
  if location = [] then none
  else if location.contains 13 || location.contains 10 then none
  else if (find (ascii "://") location).isSome then parseAbsoluteHttpUrl location
  else if (ascii "//").isPrefixOf location then
    parseAbsoluteHttpUrl (ascii (if current.tls then "https:" else "http:") ++ location)
  -- a colon before any slash ends a scheme
  else if (location.takeWhile fun c => c ≠ 47).contains 58 then none
  else
    let location := location.takeWhile fun c => c ≠ 35
    let beforeQuery := current.path.takeWhile fun c => c ≠ 63
    match location.head? with
    | none => some current
    | some 47 => some { current with path := location }
    | some 63 => some { current with path := beforeQuery ++ location }
    | some _ =>
      let folder := beforeQuery.rdropWhile fun c => c ≠ 47
      some { current with path := (if folder = [] then ascii "/" else folder) ++ location }

/-- A redirect must stay at its origin. -/
def checkedRedirectTarget (current : HttpTarget) (location : Bytes) : Except Exn HttpTarget :=
  match resolveRedirectTarget current location with
  | some next =>
    if current.tls && !next.tls || !sameOrigin current next then
      .error (.runtimeError "async HTTP: redirect rejected by same-origin policy")
    else .ok next
  | none => .error (.runtimeError "async HTTP: redirect rejected by same-origin policy")

/-! ## Calls -/

/-- The options of a request that a redirect hands on. -/
structure RequestOptions where
  timeout : ℤ := 0
  connectTimeout : ℤ := 0
  maxRedirects : Int32 := 0

/-- Timeouts and the number of redirects must not be negative. -/
def validateRequestOptions (opts : RequestOptions) : Except Exn Unit :=
  if opts.timeout < 0 then
    .error (.invalidArgument "async HTTP: timeout cannot be negative")
  else if opts.connectTimeout < 0 then
    .error (.invalidArgument "async HTTP: connect_timeout cannot be negative")
  else if opts.maxRedirects < 0 then
    .error (.invalidArgument "async HTTP: max_redirects cannot be negative")
  else .ok ()

/-- What a caller asks for. -/
structure Call where
  target : HttpTarget
  body : Bytes
  headers : List (Bytes × Bytes)
  opts : RequestOptions

def isRedirectStatus (status : ℤ) : Bool :=
  status = 301 || status = 302 || status = 303 || status = 307 || status = 308

/-- What a redirect depends on. -/
structure HttpResponse where
  status : ℤ
  location : Bytes

/-- A request that was sent, and where. -/
structure Sent where
  target : HttpTarget
  text : Bytes

/-- The requests of a call, and how it ends; it does not while a request is
not answered. -/
structure Run where
  sent : List Sent
  result : Option (Except Exn HttpResponse)

/-- The loop of a call, over the responses of the server. An exchange may
fail instead. -/
def exchanges (method : Bytes) (c : Call) :
    List (Except Exn HttpResponse) → HttpTarget → Int32 → Run
  | answers, cur, ho =>
    match buildRequest cur.host cur.port cur.path c.body c.headers cur.tls .close method with
    | .error e => ⟨[], some (.error e)⟩
    | .ok text =>
      match answers with
      | [] => ⟨[⟨cur, text⟩], none⟩
      | .error e :: _ => ⟨[⟨cur, text⟩], some (.error e)⟩
      | .ok resp :: answers =>
        if !isRedirectStatus resp.status || c.opts.maxRedirects ≤ 0 then
          ⟨[⟨cur, text⟩], some (.ok resp)⟩
        else if c.opts.maxRedirects < ho + 1 || resp.location = [] then
          ⟨[⟨cur, text⟩], some (.ok resp)⟩
        else
          match checkedRedirectTarget cur resp.location with
          | .error e => ⟨[⟨cur, text⟩], some (.error e)⟩
          | .ok next =>
            let rest := exchanges method c answers next (ho + 1)
            ⟨⟨cur, text⟩ :: rest.sent, rest.result⟩

/-- A request with the answers it gets, redirect after redirect. -/
def asyncRequest (method : Bytes) (c : Call) (answers : List (Except Exn HttpResponse)) : Run :=
  match validateRequestOptions c.opts with
  | .error e => ⟨[], some (.error e)⟩
  | .ok () => exchanges method c answers c.target 0

def asyncPost : Call → List (Except Exn HttpResponse) → Run := asyncRequest (ascii "POST")

def asyncGet (c : Call) : List (Except Exn HttpResponse) → Run :=
  asyncRequest (ascii "GET") { c with body := [] }

/-- The chunks of a response are handed on as they come; redirects are
followed alike. -/
def asyncPostStream : Call → List (Except Exn HttpResponse) → Run := asyncRequest (ascii "POST")

/-! ## The origin of requests -/

/-- Two targets at one origin. -/
structure AtOrigin (start target : HttpTarget) : Prop where
  tls : target.tls = start.tls
  host : normalizedHost target.host = normalizedHost start.host
  port : effectivePort target.port target.tls false = effectivePort start.port start.tls false

/-- The requests stay at the origin of the first, with the caller's headers
and body, and are not too many. -/
structure Stays (method : Bytes) (c : Call) (run : Run) : Prop where
  origin : ∀ r ∈ run.sent, AtOrigin c.target r.target
  built : ∀ r ∈ run.sent, buildRequest r.target.host r.target.port r.target.path c.body c.headers
    r.target.tls .close method = .ok r.text
  bounded : run.sent.length ≤ (c.opts.maxRedirects.toInt + 1).toNat

/-- Redirects of the first request may be followed, and as many as an `int`
can count. -/
structure Unlimited (method : Bytes) (c : Call) : Prop where
  valid : validateRequestOptions c.opts = .ok ()
  most : c.opts.maxRedirects = Int32.maxValue
  built : ∃ text, buildRequest c.target.host c.target.port c.target.path c.body c.headers
    c.target.tls .close method = .ok text
  origin : sameOrigin c.target c.target = true

theorem atOrigin_of_sameOrigin {left right : HttpTarget} (h : sameOrigin left right = true) :
    AtOrigin left right := by
  unfold sameOrigin at h
  obtain ⟨htls, h⟩ := Bool.and_eq_true_iff.mp h
  split at h
  · rename_i hl hr hp hp'
    obtain ⟨hho, hports⟩ := Bool.and_eq_true_iff.mp h
    exact ⟨(of_decide_eq_true htls).symm,
      by rw [hl, hr, of_decide_eq_true hho], by rw [hp, hp', of_decide_eq_true hports]⟩
  · cases h

theorem sameOrigin_self {left right : HttpTarget} (h : sameOrigin left right = true) :
    sameOrigin left left = true := by
  unfold sameOrigin at h ⊢
  obtain ⟨-, h⟩ := Bool.and_eq_true_iff.mp h
  split at h
  · rename_i hl _ hp _
    simp [hl, hp]
  · cases h

/-- A redirect that is followed stays at its origin. -/
theorem checkedRedirectTarget_eq_ok {current next : HttpTarget} {location : Bytes}
    (h : checkedRedirectTarget current location = .ok next) : sameOrigin current next = true := by
  unfold checkedRedirectTarget at h
  split at h
  · split_ifs at h with hrej
    cases h
    simp only [Bool.or_eq_true, not_or, Bool.not_eq_true', Bool.not_eq_false] at hrej
    exact hrej.2
  · cases h

variable (method : Bytes) (c : Call)

/-- **What one exchange does.** No request is sent, or one that is the last,
or a redirect to a target of the same origin is followed and counted. -/
theorem exchanges_cases (answers : List (Except Exn HttpResponse)) (cur : HttpTarget)
    (ho : Int32) : (exchanges method c answers cur ho).sent = []
      ∨ ∃ text, buildRequest cur.host cur.port cur.path c.body c.headers cur.tls .close method
            = .ok text
        ∧ ((exchanges method c answers cur ho).sent = [⟨cur, text⟩]
          ∨ ∃ answer rest next, answers = answer :: rest ∧ sameOrigin cur next = true
            ∧ ho + 1 ≤ c.opts.maxRedirects
            ∧ (exchanges method c answers cur ho).sent
              = ⟨cur, text⟩ :: (exchanges method c rest next (ho + 1)).sent) := by
  rw [exchanges]
  cases hb : buildRequest cur.host cur.port cur.path c.body c.headers cur.tls .close method with
  | error e => exact .inl rfl
  | ok text =>
    refine .inr ⟨text, rfl, ?_⟩
    rcases answers with _ | ⟨_ | resp, rest⟩
    · exact .inl rfl
    · exact .inl rfl
    dsimp only
    split_ifs with hfin hl
    · exact .inl rfl
    · exact .inl rfl
    cases hnx : checkedRedirectTarget cur resp.location with
    | error e => exact .inl rfl
    | ok next =>
      rw [Bool.or_eq_true, not_or, decide_eq_true_iff, Int32.not_lt] at hl
      exact .inr ⟨_, rest, next, rfl, checkedRedirectTarget_eq_ok hnx, hl.1, rfl⟩

/-- Every request goes to the first origin, and says what the first said. -/
theorem exchanges_origin (answers : List (Except Exn HttpResponse)) {cur : HttpTarget}
    {ho : Int32} (hc : AtOrigin c.target cur) :
    ∀ r ∈ (exchanges method c answers cur ho).sent, AtOrigin c.target r.target
      ∧ buildRequest r.target.host r.target.port r.target.path c.body c.headers r.target.tls .close
        method = .ok r.text := by
  intro r hr
  obtain hs | ⟨text, hb, hs | ⟨_, rest, next, rfl, hor, -, hs⟩⟩ :=
    exchanges_cases method c answers cur ho
  all_goals rw [hs] at hr
  · cases hr
  · rw [mem_singleton.mp hr]
    exact ⟨hc, hb⟩
  obtain rfl | hr := mem_cons.mp hr
  · exact ⟨hc, hb⟩
  · have hnx := atOrigin_of_sameOrigin hor
    exact exchanges_origin rest ⟨hnx.tls.trans hc.tls, hnx.host.trans hc.host,
      hnx.port.trans hc.port⟩ r hr
termination_by answers.length

/-- There are no more redirects than the options allow. -/
theorem exchanges_bounded (answers : List (Except Exn HttpResponse)) (cur : HttpTarget)
    {ho : Int32} (hp : 0 ≤ ho.toInt) (hhops : ho.toInt ≤ c.opts.maxRedirects.toInt)
    (hm : c.opts.maxRedirects ≠ Int32.maxValue) :
    ((exchanges method c answers cur ho).sent.length : ℤ)
      ≤ c.opts.maxRedirects.toInt - ho.toInt + 1 := by
  have hl := c.opts.maxRedirects.toInt_le
  have hne := mt Int32.toInt_inj.mp hm
  rw [Int32.toInt_maxValue] at hl hne
  obtain hs | ⟨text, -, hs | ⟨_, rest, next, rfl, -, hnx, hs⟩⟩ :=
    exchanges_cases method c answers cur ho
  all_goals rw [hs]
  · rw [length_nil]
    omega
  · rw [length_singleton]
    omega
  have hc : (ho + 1).toInt = ho.toInt + 1 := by
    rw [Int32.toInt_add, show (1 : Int32).toInt = 1 from rfl]
    exact Int.bmod_eq_of_le (by omega) (by omega)
  rw [Int32.le_iff_toInt_le, hc] at hnx
  have hr := exchanges_bounded rest next (by omega) (by omega : (ho + 1).toInt ≤ _) hm
  rw [length_cons]
  omega
termination_by answers.length

/-- A server that redirects each request to where it went. -/
def again : Except Exn HttpResponse := .ok ⟨307, ascii "#"⟩

variable {method c} in
/-- **The counter of redirects overflows.** -/
theorem length_sent_again {ho : Int32} (h : Unlimited method c) (n : ℕ) :
    (exchanges method c (replicate n again) c.target ho).sent.length = n + 1 := by
  obtain ⟨text, hb⟩ := h.built
  have hnx : checkedRedirectTarget c.target (ascii "#") = .ok c.target := by
    unfold checkedRedirectTarget
    rw [show resolveRedirectTarget c.target (ascii "#") = some c.target from rfl]
    dsimp only
    rw [h.origin]
    simp
  have hc : ∀ ho, ¬c.opts.maxRedirects < ho := fun ho => by
    rw [h.most, Int32.not_lt, Int32.le_iff_toInt_le]
    exact Int32.toInt_le _
  induction n generalizing ho with
  | zero =>
    unfold exchanges
    rw [hb]
    rfl
  | succ n ih =>
    rw [replicate_succ]
    unfold exchanges
    rw [hb]
    dsimp only [again]
    rw [if_neg (by rw [h.most]; decide), if_neg (by simp [hc]; decide), hnx]
    exact congrArg (· + 1) ih

theorem asyncRequest_origin (answers : List (Except Exn HttpResponse)) :
    ∀ r ∈ (asyncRequest method c answers).sent, AtOrigin c.target r.target
      ∧ buildRequest r.target.host r.target.port r.target.path c.body c.headers r.target.tls .close
        method = .ok r.text := by
  unfold asyncRequest
  split
  · nofun
  · exact exchanges_origin method c answers ⟨rfl, rfl, rfl⟩

/-- A call keeps to the number of redirects, unless its redirects are
unlimited. -/
theorem asyncRequest_stays_iff :
    (∀ answers, Stays method c (asyncRequest method c answers)) ↔ ¬Unlimited method c := by
  constructor
  · intro hst h
    have hbd := (hst (replicate (c.opts.maxRedirects.toInt + 1).toNat again)).bounded
    unfold asyncRequest at hbd
    rw [h.valid] at hbd
    dsimp only at hbd
    rw [length_sent_again h] at hbd
    exact absurd hbd (Nat.not_succ_le_self _)
  · intro h answers
    have ho := asyncRequest_origin method c answers
    refine ⟨fun r hr => (ho r hr).1, fun r hr => (ho r hr).2, ?_⟩
    unfold asyncRequest
    cases hv : validateRequestOptions c.opts with
    | error e => exact Nat.zero_le _
    | ok =>
      have hp : 0 ≤ c.opts.maxRedirects.toInt := by
        unfold validateRequestOptions at hv
        split_ifs at hv with _ _ hneg
        rwa [Int32.lt_iff_toInt_lt, not_lt] at hneg
      dsimp only
      by_cases hm : c.opts.maxRedirects = Int32.maxValue
      · obtain hs | ⟨text, hb, hs | ⟨_, _, _, -, hsm, -⟩⟩ :=
          exchanges_cases method c answers c.target 0
        · rw [hs]
          exact Nat.zero_le _
        · rw [hs, length_singleton]
          omega
        · exact absurd ⟨hv, hm, ⟨text, hb⟩, sameOrigin_self hsm⟩ h
      · have hbd := @exchanges_bounded method c answers c.target 0 le_rfl hp hm
        rw [show (0 : Int32).toInt = 0 from rfl] at hbd
        omega

/-- **Redirects never leave the origin**, and are no more than allowed, if and
only if their number is not the largest `int` or none can be followed. -/
theorem redirects_stay_iff (c : Call) :
    (∀ method answers, ∀ r ∈ (asyncRequest method c answers).sent, AtOrigin c.target r.target)
    ∧ ((∀ answers, Stays (ascii "POST") c (asyncPost c answers)) ↔ ¬Unlimited (ascii "POST") c)
    ∧ ((∀ answers, Stays (ascii "GET") { c with body := [] } (asyncGet c answers))
      ↔ ¬Unlimited (ascii "GET") { c with body := [] })
    ∧ ((∀ answers, Stays (ascii "POST") c (asyncPostStream c answers))
      ↔ ¬Unlimited (ascii "POST") c) :=
  ⟨fun method answers r hr => (asyncRequest_origin method c answers r hr).1,
    asyncRequest_stays_iff _ c, asyncRequest_stays_iff _ _, asyncRequest_stays_iff _ c⟩

/-- With the largest number of redirects there is no bound. -/
theorem redirects_unbounded :
    let target : HttpTarget := ⟨ascii "localhost", ascii "8080", ascii "/", false⟩
    let c : Call := ⟨target, [], [], { maxRedirects := Int32.maxValue }⟩
    ¬∀ answers, Stays (ascii "POST") c (asyncPost c answers) :=
  fun h => (asyncRequest_stays_iff _ _).mp h ⟨rfl, rfl, ⟨_, rfl⟩, by decide⟩

end NeoGraph.Async
