import VolundCode.Config.Layers
import VolundCode.Lib.Indexed
import VolundCode.Lib.Run
import VolundCode.Lib.SlidingWindow
import VolundCode.Lib.Utf8

/-!
# WebFetch

Calls of WebFetch on one tool, cut at every wait: for the resolver, the transport, the end of a body
that is thrown away and the pieces of a body that is read. What these answer is in the actions, and
so is the clock, which does not run backwards. A call can be aborted at any time.

Every request goes to an address out of the lookup of its own host name, in which none was
forbidden, to the origin that the permission was asked for, and has been admitted by the rate limit;
and neither the redirects, nor the requests to a host in a minute, nor the bytes of the body exceed
their limits (`vetted_of_run`).
-/

namespace Tools.WebFetch

open Config Run List Option

/-! ### URLs and addresses -/

/-- A URL of the scheme `http:` or `https:`. -/
structure URL where
  protocol : String
  username : String
  password : String
  hostname : String
  port : String
  pathname : String
  search : String
  hash : String
  deriving DecidableEq

namespace URL

def host (url : URL) : String :=
  if url.port = "" then url.hostname else url.hostname ++ ":" ++ url.port

def origin (url : URL) : String :=
  url.protocol ++ "//" ++ url.host

end URL

/-- What the platform does with texts: `new URL(value)`, `new URL(location, url).href`, `isIP`,
`toLowerCase`, and `Number(value)` where it is finite. -/
structure Platform where
  newURL : String → Option URL
  href : String → URL → Option String
  isIP : String → ℕ
  toLowerCase : String → String
  number : String → Option ℚ

structure WebFetchOptions where
  maxBytes : ℕ
  maxCharacters : ℕ
  maxRedirects : ℕ
  requestsPerMinute : ℕ

/-- The options a tool has unless it is given others. -/
def WebFetchOptions.default : WebFetchOptions where
  maxBytes := 1048576
  maxCharacters := 87500
  maxRedirects := 5
  requestsPerMinute := 10

def metadataHosts : List String :=
  ["metadata", "metadata.google.internal", "instance-data", "instance-data.ec2.internal"]

section Checks

variable (p : Platform)

def parseUrl (value : String) : Except VolundError URL :=
  match p.newURL value with
  | none => .error ⟨"web_fetch_url_invalid", "WebFetch requires a valid absolute URL"⟩
  | some url =>
    if url.protocol ≠ "http:" ∧ url.protocol ≠ "https:" then
      .error ⟨"web_fetch_url_invalid", "WebFetch only permits http: and https: URLs"⟩
    else if url.username ≠ "" ∨ url.password ≠ "" then
      .error ⟨"web_fetch_url_invalid", "WebFetch forbids URL credentials"⟩
    else .ok { url with hash := "" }

def canonicalWebOrigin (value : String) : Except VolundError String :=
  (parseUrl p value).map URL.origin

/-- `permissionSpec`: the URL for which the permission to fetch is asked, by the method `GET`. -/
def permissionSpec (input : String) : Except VolundError String :=
  canonicalWebOrigin p input

def ipv4Number (value : String) : Option ℕ :=
  if p.isIP value ≠ 4 then none
  else
    let octets := (value.toList.splitOn '.').map fun octet =>
      octet.foldl (fun out digit => out * 10 + (digit.toNat - '0'.toNat)) 0
    some (octets.foldl (fun out octet => out * 256 + octet) 0 % 2 ^ 32)

def inV4Range (value : ℕ) (base : String) (bits : ℕ) : Bool :=
  let start := (ipv4Number p base).getD 0
  let mask := if bits = 0 then 0 else 2 ^ 32 - 2 ^ (32 - bits)
  value &&& mask = start &&& mask

def normalizedIpv6 (value : String) : String :=
  String.ofList ((p.toLowerCase value).toList.takeWhile (· ≠ '%'))

/-- The ranges of version 4 that are not public. -/
def forbiddenRanges : List (String × ℕ) :=
  [("0.0.0.0", 8), ("10.0.0.0", 8), ("100.64.0.0", 10), ("127.0.0.0", 8), ("169.254.0.0", 16),
    ("172.16.0.0", 12), ("192.0.0.0", 24), ("192.0.2.0", 24), ("192.168.0.0", 16),
    ("198.18.0.0", 15), ("198.51.100.0", 24), ("203.0.113.0", 24), ("224.0.0.0", 4),
    ("240.0.0.0", 4)]

/-- `isForbiddenAddress` on an address of version 4. -/
def isForbiddenV4 (address : String) : Bool :=
  forbiddenRanges.any fun range => inV4Range p ((ipv4Number p address).getD 0) range.1 range.2

def isForbiddenAddress (address : String) : Bool :=
  if p.isIP address = 4 then isForbiddenV4 p address
  else if p.isIP address ≠ 6 then true
  else
    let value := normalizedIpv6 p address
    if Ecma.startsWith value "::ffff:" then
      let mapped := Ecma.slice value 7
      if p.isIP mapped = 4 then isForbiddenV4 p mapped else true
    else
      value = "::" || value = "::1" ||
        ["fc", "fd", "fe8", "fe9", "fea", "feb", "ff", "2001:db8:"].any (Ecma.startsWith value)

def validateHostname (hostname : String) : Except VolundError Unit :=
  let lower := p.toLowerCase hostname
  let normalized :=
    if Ecma.endsWith lower "." then String.ofList lower.toList.dropLast else lower
  if normalized = "localhost" ∨ Ecma.endsWith normalized ".localhost" ∨
      Ecma.endsWith normalized ".local" ∨ normalized ∈ metadataHosts then
    .error ⟨"web_fetch_target_forbidden", "WebFetch blocked a local or metadata hostname"⟩
  else .ok ()

/-! ### Responses -/

structure WebTransportResponse where
  status : ℤ
  headers : String → Option String

def allowedContentType (value : Option String) : Bool :=
  match value with
  | none | some "" => false
  | some value =>
    let type := p.toLowerCase (Ecma.trim (String.ofList (value.toList.takeWhile (· ≠ ';'))))
    Ecma.startsWith type "text/" || type = "application/json" || Ecma.endsWith type "+json" ||
      type = "application/xml" || Ecma.endsWith type "+xml" || type = "application/xhtml+xml"

/-- The checks of a response that is no redirect, before its body is read. -/
def checkResponse (o : WebFetchOptions) (response : WebTransportResponse) :
    Except VolundError Unit :=
  if response.status < 200 ∨ 300 ≤ response.status then
    .error ⟨"web_fetch_http_failed", "WebFetch received HTTP " ++ toString response.status⟩
  else if !allowedContentType p (response.headers "content-type") then
    .error ⟨"web_fetch_content_type_unsupported", "WebFetch rejected a non-text content type"⟩
  else if ((response.headers "content-encoding").map p.toLowerCase).any
      fun encoding => encoding ≠ "" ∧ encoding ≠ "identity" then
    .error ⟨"web_fetch_encoding_unsupported", "WebFetch rejected an encoded response"⟩
  else if ((response.headers "content-length").bind p.number).any
      fun declared => (o.maxBytes : ℚ) < declared then
    .error ⟨"web_fetch_response_too_large", "WebFetch response exceeds the byte limit"⟩
  else .ok ()

end Checks

/-- The text that a call returns for the bytes of a body. -/
def bodyText (o : WebFetchOptions) (body : List UInt8) : String :=
  let text := String.ofList (Utf8.decodeLossy body)
  if o.maxCharacters < (Ecma.units text).length then
    Ecma.sliceTo text o.maxCharacters ++ "\n[... WebFetch output truncated ...]"
  else text

/-! ### Calls -/

/-- Where a call is in its loop. -/
structure Hop where
  permittedOrigin : String
  redirect : ℕ
  url : URL

/-- What a call waits for, or how it has ended. -/
inductive Phase where
  | resolving (hop : Hop)
  | requesting (hop : Hop)
  | discarding (hop : Hop) (location : Option String)
  | reading (chunks : List (List UInt8))
  | returned (text : String)
  | failed (text : String)

/-- An answer of the resolver. -/
structure Lookup where
  redirect : ℕ
  hostname : String
  addresses : List String

/-- A request of the transport. -/
structure WebTransportRequest where
  redirect : ℕ
  url : URL
  address : String

/-- A call: its input, whether its signal is aborted, what it waits for, and what it has been
answered, has sent and has received. -/
structure Call where
  input : String
  aborted : Bool
  phase : Phase
  lookups : List Lookup
  sent : List WebTransportRequest
  received : List UInt8

/-- What the rate limit has admitted: a hop of a call, to a host, at a time. -/
structure Admission where
  call : ℕ
  redirect : ℕ
  hostname : String
  time : ℚ

/-- The tool with all of its calls. -/
structure World where
  requests : String → List ℚ
  clock : ℚ
  calls : List Call
  admissions : List Admission

/-- A tool that has not been called. -/
def World.start (clock : ℚ) : World where
  requests _ := []
  clock := clock
  calls := []
  admissions := []

inductive Action where
  | invoke (input : String) (aborted : Bool) (now : ℚ)
  | resolved (call : ℕ) (addresses : List String)
  | responded (call : ℕ) (response : WebTransportResponse)
  | discarded (call : ℕ) (now : ℚ)
  | chunk (call : ℕ) (bytes : List UInt8)
  | ended (call : ℕ)
  /-- What the call waits for throws. -/
  | rejected (call : ℕ) (message : String)
  | abort (call : ℕ)

/-- The result of a call that has thrown. -/
def failure (aborted : Bool) (message : String) : Phase :=
  .failed (if aborted then "WebFetch cancelled or timed out" else message)

section Step

variable (p : Platform) (o : WebFetchOptions)

/-- `#rateLimit`, for a hop of a call. -/
def rateLimit (w : World) (call redirect : ℕ) (hostname : String) (now : ℚ) : Option World :=
  (SlidingWindow.accept 60000 o.requestsPerMinute now (w.requests hostname)).map fun times =>
    { w with
      requests := Function.update w.requests hostname times
      admissions := w.admissions ++ [⟨call, redirect, hostname, now⟩] }

/-- The head of the loop, up to the call of the resolver. -/
def lookUp (aborted : Bool) (hop : Hop) : Phase :=
  if aborted then failure aborted ""
  else
    match validateHostname p hop.url.hostname with
    | .error e => failure aborted e.message
    | .ok () => .resolving hop

/-- A hop that is entered if the rate limit admits it: the phase of the call, and the tool. -/
def enter (w : World) (call : ℕ) (aborted : Bool) (hop : Hop) (now : ℚ) : World × Phase :=
  match rateLimit o w call hop.redirect hop.url.hostname now with
  | none => (w, failure aborted "WebFetch rate limit exceeded")
  | some w' => (w', lookUp p aborted hop)

/-- The start of a call, up to its first wait. -/
def invoke (w : World) (input : String) (aborted : Bool) (now : ℚ) : World × Phase :=
  match parseUrl p input with
  | .error e => (w, failure aborted e.message)
  | .ok url => enter p o w w.calls.length aborted ⟨url.origin, 0, url⟩ now

/-- The addresses of a host: the request is sent to the first, unless one of them is forbidden. -/
def onResolved (c : Call) (hop : Hop) (addresses : List String) : Call :=
  let lookup : Lookup := ⟨hop.redirect, hop.url.hostname, addresses⟩
  let c := { c with lookups := c.lookups ++ [lookup] }
  match if addresses.any (isForbiddenAddress p) then none else addresses.head? with
  | none =>
    { c with
      phase := failure c.aborted
        "WebFetch blocked a private, reserved, or unresolved address" }
  | some address =>
    let request : WebTransportRequest := ⟨hop.redirect, hop.url, address⟩
    { c with phase := .requesting hop, sent := c.sent ++ [request] }

/-- A response: a redirect, or the start of a body. -/
def onResponded (c : Call) (hop : Hop) (response : WebTransportResponse) : Phase :=
  if 300 ≤ response.status ∧ response.status < 400 then
    .discarding hop (response.headers "location")
  else
    match checkResponse p o response with
    | .error e => failure c.aborted e.message
    | .ok () => .reading []

/-- A redirect whose body has been thrown away. -/
def onDiscarded (w : World) (call : ℕ) (c : Call) (hop : Hop) (location : Option String)
    (now : ℚ) : World × Phase :=
  match location with
  | none | some "" => (w, failure c.aborted "WebFetch redirect omitted Location")
  | some location =>
    if o.maxRedirects ≤ hop.redirect then
      (w, failure c.aborted "WebFetch redirect limit exceeded")
    else
      match p.href location hop.url with
      | none => (w, failure c.aborted "Invalid URL")
      | some href =>
        match parseUrl p href with
        | .error e => (w, failure c.aborted e.message)
        | .ok url =>
          if url.origin ≠ hop.permittedOrigin then
            (w, failure c.aborted "WebFetch blocked a redirect outside the permitted origin")
          else enter p o w call c.aborted ⟨hop.permittedOrigin, hop.redirect + 1, url⟩ now

/-- A piece of the body. -/
def onChunk (c : Call) (chunks : List (List UInt8)) (bytes : List UInt8) : Call :=
  let c := { c with received := c.received ++ bytes }
  if o.maxBytes < (chunks ++ [bytes]).flatten.length then
    { c with phase := failure c.aborted "WebFetch response exceeds the byte limit" }
  else { c with phase := .reading (chunks ++ [bytes]) }

/-- The call is changed. -/
def World.put (w : World) (call : ℕ) (c : Call) : World :=
  { w with calls := w.calls.set call c }

/-- The tool after an action, if the action can happen. -/
def step (w : World) : Action → Option World
  | .invoke input aborted now =>
    if now < w.clock then none
    else
      let result := invoke p o { w with clock := now } input aborted now
      some { result.1 with
        calls := result.1.calls ++ [⟨input, aborted, result.2, [], [], []⟩] }
  | .resolved call addresses => do
    let c ← w.calls[call]?
    match c.phase with
    | .resolving hop => some (w.put call (onResolved p c hop addresses))
    | _ => none
  | .responded call response => do
    let c ← w.calls[call]?
    match c.phase with
    | .requesting hop => some (w.put call { c with phase := onResponded p o c hop response })
    | _ => none
  | .discarded call now => do
    let c ← w.calls[call]?
    match c.phase with
    | .discarding hop location =>
      if now < w.clock then none
      else
        let result := onDiscarded p o { w with clock := now } call c hop location now
        some (result.1.put call { c with phase := result.2 })
    | _ => none
  | .chunk call bytes => do
    let c ← w.calls[call]?
    match c.phase with
    | .reading chunks => some (w.put call (onChunk o c chunks bytes))
    | _ => none
  | .ended call => do
    let c ← w.calls[call]?
    match c.phase with
    | .reading chunks => some (w.put call { c with phase := .returned (bodyText o chunks.flatten) })
    | _ => none
  | .rejected call message => do
    let c ← w.calls[call]?
    match c.phase with
    | .returned _ | .failed _ => none
    | _ => some (w.put call { c with phase := failure c.aborted message })
  | .abort call => do
    let c ← w.calls[call]?
    match c.phase with
    | .returned _ | .failed _ => none
    -- a body that is thrown away is not waited for with the signal
    | .discarding _ _ => some (w.put call { c with aborted := true })
    | _ => some (w.put call { c with aborted := true, phase := failure true "" })

end Step

/-! ### Calls that are vetted -/

section Vetted

variable (p : Platform) (o : WebFetchOptions)

/-- The rate limit has admitted the hop of the call to the host. -/
def Admitted (admissions : List Admission) (call redirect : ℕ) (hostname : String) : Prop :=
  ∃ a ∈ admissions, a.call = call ∧ a.redirect = redirect ∧ a.hostname = hostname

/-- A request of the call goes to an address out of a lookup of its own host name without a
forbidden address, to the permitted origin, and has been admitted. -/
structure WebTransportRequest.Vetted (admissions : List Admission) (call : ℕ) (input : String)
    (lookups : List Lookup) (r : WebTransportRequest) : Prop where
  lookup : ∃ l ∈ lookups, l.redirect = r.redirect ∧ l.hostname = r.url.hostname ∧
    r.address ∈ l.addresses ∧ ∀ a ∈ l.addresses, isForbiddenAddress p a = false
  origin : permissionSpec p input = .ok r.url.origin
  admitted : Admitted admissions call r.redirect r.url.hostname

/-- A call has sent vetted requests, each in a hop of its own, no more than its redirects and one;
and the text it returns is that of the bytes it has received, which are within the limit. -/
structure Call.Vetted (admissions : List Admission) (call : ℕ) (c : Call) : Prop where
  requests : ∀ r ∈ c.sent, r.Vetted p admissions call c.input c.lookups
  redirects : c.sent.map WebTransportRequest.redirect = List.range c.sent.length
  few : c.sent.length ≤ o.maxRedirects + 1
  text : ∀ text, c.phase = .returned text →
    c.received.length ≤ o.maxBytes ∧ text = bodyText o c.received

/-- The times at which requests to a host have been admitted. -/
def admittedTimes (admissions : List Admission) (hostname : String) : List ℚ :=
  (admissions.filter fun a => a.hostname = hostname).map Admission.time

/-- All calls are vetted, and no window of a minute holds more admissions for a host than the
limit. -/
structure World.Vetted (w : World) : Prop where
  calls : ∀ (call : ℕ) (c : Call), w.calls[call]? = some c → c.Vetted p o w.admissions call
  window : ∀ hostname start,
    (SlidingWindow.within 60000 start (admittedTimes w.admissions hostname)).length ≤
      o.requestsPerMinute

/-! ### What holds while a call is under way -/

/-- A hop of a call that has been entered. -/
structure Hop.Entered (admissions : List Admission) (call : ℕ) (input : String) (hop : Hop) :
    Prop where
  permitted : permissionSpec p input = .ok hop.permittedOrigin
  origin : hop.url.origin = hop.permittedOrigin
  few : hop.redirect ≤ o.maxRedirects
  admitted : Admitted admissions call hop.redirect hop.url.hostname

/-- What holds of a call that waits for the next thing, or has ended. -/
def Call.InPhase (admissions : List Admission) (call : ℕ) (c : Call) : Phase → Prop
  | .resolving hop =>
    hop.Entered p o admissions call c.input ∧ c.sent.length = hop.redirect ∧ c.received = []
  | .requesting hop | .discarding hop _ =>
    hop.Entered p o admissions call c.input ∧ c.sent.length = hop.redirect + 1 ∧ c.received = []
  | .reading chunks => chunks.flatten = c.received ∧ c.received.length ≤ o.maxBytes
  | .returned text => c.received.length ≤ o.maxBytes ∧ text = bodyText o c.received
  | .failed _ => True

/-- What holds of a call at all times. -/
structure Call.Sound (admissions : List Admission) (call : ℕ) (c : Call) : Prop where
  requests : ∀ r ∈ c.sent, r.Vetted p admissions call c.input c.lookups
  redirects : c.sent.map WebTransportRequest.redirect = List.range c.sent.length
  few : c.sent.length ≤ o.maxRedirects + 1
  phase : c.InPhase p o admissions call c.phase

/-- What the rate limit keeps for each host. -/
def World.Limited (w : World) : Prop :=
  ∀ hostname, SlidingWindow.Kept 60000 o.requestsPerMinute
    (admittedTimes w.admissions hostname) (w.requests hostname) w.clock

/-- What holds of the tool at all times. -/
structure World.Sound (w : World) : Prop where
  calls : Indexed.Each (Call.Sound p o w.admissions) w.calls
  limited : w.Limited o

variable {p o} {w : World} {c : Call} {call redirect : ℕ} {hostname : String} {now : ℚ}
  {admissions admissions' : List Admission}

theorem Admitted.mono (hsub : admissions ⊆ admissions')
    (h : Admitted admissions call redirect hostname) :
  Admitted admissions' call redirect hostname
  := by
  obtain ⟨a, ha, hcall⟩ := h
  use a, hsub ha

variable {hop : Hop}

theorem Hop.Entered.mono (hsub : admissions ⊆ admissions') {input : String}
    (h : hop.Entered p o admissions call input) :
  hop.Entered p o admissions' call input
  := ⟨h.permitted, h.origin, h.few, h.admitted.mono hsub⟩

theorem Call.InPhase.mono {phase : Phase} (hsub : admissions ⊆ admissions')
    (h : c.InPhase p o admissions call phase) :
  c.InPhase p o admissions' call phase
  := by
  cases phase with
  | resolving hop | requesting hop | discarding hop location => exact ⟨h.1.mono hsub, h.2⟩
  | reading chunks | returned text | failed text => exact h

theorem Call.Sound.mono (hsub : admissions ⊆ admissions') (h : c.Sound p o admissions call) :
  c.Sound p o admissions' call
  := by
  constructor
  · intro r hr
    have hvetted := h.requests r hr
    exact ⟨hvetted.lookup, hvetted.origin, hvetted.admitted.mono hsub⟩
  · apply h.redirects
  · apply h.few
  · apply h.phase.mono hsub

/-- A call goes into another phase. -/
theorem Call.Sound.enter {phase : Phase} (h : c.Sound p o admissions call)
    (hphase : c.InPhase p o admissions call phase) :
  Call.Sound p o admissions call { c with phase := phase }
  := ⟨h.requests, h.redirects, h.few, hphase⟩

/-- A call whose signal is aborted. -/
theorem Call.Sound.aborted (h : c.Sound p o admissions call) :
  Call.Sound p o admissions call { c with aborted := true }
  := ⟨h.requests, h.redirects, h.few, h.phase⟩

@[simp]
theorem inPhase_failure (aborted : Bool) (message : String) :
  c.InPhase p o admissions call (failure aborted message)
  := True.intro

/-- A call that is sound is vetted. -/
theorem Call.Sound.vetted (h : c.Sound p o admissions call) :
  c.Vetted p o admissions call
  := by
  constructor
  · apply h.requests
  · apply h.redirects
  · apply h.few
  intro text htext
  have hphase := h.phase
  rw [htext] at hphase
  apply hphase

/-! ### Hops -/

/-- What the rate limit does to the tool: it may admit hops, and keeps the calls as they are. -/
structure Extends (o : WebFetchOptions) (w w' : World) : Prop where
  calls : w'.calls = w.calls
  admissions : w.admissions ⊆ w'.admissions
  limited : w.Limited o → w'.Limited o

theorem Extends.refl (w : World) :
  Extends o w w
  := ⟨rfl, List.Subset.refl _, id⟩

theorem admittedTimes_concat (a : Admission) :
  admittedTimes (admissions ++ [a]) hostname =
    admittedTimes admissions hostname ++ if a.hostname = hostname then [a.time] else []
  := by
  unfold admittedTimes
  rw [filter_append, map_append]
  split
  next h => rw [filter_cons_of_pos (by simpa using h)]; rfl
  next h => rw [filter_cons_of_neg (by simpa using h)]; rfl

/-- What the rate limit admits. -/
theorem rateLimit_eq_some {w' : World}
    (h : rateLimit o w call redirect hostname w.clock = some w') :
  Extends o w w' ∧ Admitted w'.admissions call redirect hostname
  := by
  obtain ⟨times, htimes, rfl⟩ := map_eq_some_iff.mp h
  refine ⟨⟨rfl, subset_append_left _ _, ?_⟩, _, mem_append_right _ mem_cons_self, rfl, rfl, rfl⟩
  intro hlimited host
  rw [admittedTimes_concat]
  dsimp only
  by_cases hhost : hostname = host
  · subst hhost
    rw [if_pos rfl, Function.update_self]
    apply (hlimited hostname).concat (le_refl _) htimes
  · rw [if_neg hhost, append_nil, Function.update_of_ne (Ne.symm hhost)]
    apply hlimited host

/-- A hop that is entered, by a call that has sent a request in each hop before it. -/
theorem enter_spec (aborted : Bool)
    (hpermitted : permissionSpec p c.input = .ok hop.permittedOrigin)
    (horigin : hop.url.origin = hop.permittedOrigin) (hfew : hop.redirect ≤ o.maxRedirects)
    (hsent : c.sent.length = hop.redirect) (hrecv : c.received = []) :
  Extends o w (enter p o w call aborted hop w.clock).1 ∧
    c.InPhase p o (enter p o w call aborted hop w.clock).1.admissions call
      (enter p o w call aborted hop w.clock).2
  := by
  unfold enter
  cases hlimit : rateLimit o w call hop.redirect hop.url.hostname w.clock with
  | none => exact ⟨Extends.refl w, inPhase_failure _ _⟩
  | some w' =>
  obtain ⟨hext, hadm⟩ := rateLimit_eq_some hlimit
  use hext
  dsimp only
  unfold lookUp
  split
  · apply inPhase_failure
  · split
    · apply inPhase_failure
    · exact ⟨⟨hpermitted, horigin, hfew, hadm⟩, hsent, hrecv⟩

/-! ### Steps -/

theorem permissionSpec_of_parseUrl {input : String} {url : URL} (h : parseUrl p input = .ok url) :
  permissionSpec p input = .ok url.origin
  := by
  unfold permissionSpec canonicalWebOrigin
  rw [h]
  rfl

/-- A call is changed. -/
theorem World.Sound.put (h : w.Sound p o) (hc : c.Sound p o w.admissions call) :
  (w.put call c).Sound p o
  := by
  constructor
  · apply h.calls.set hc
  · apply h.limited

/-- The rate limit admits hops, and time passes. -/
theorem World.Sound.extend {w' : World} (h : w.Sound p o) (hext : Extends o w w') :
  w'.Sound p o
  := by
  constructor
  · rw [hext.calls]
    exact h.calls.imp fun i c hc => hc.mono hext.admissions
  · apply hext.limited h.limited

theorem World.Sound.later (h : w.Sound p o) (hnow : w.clock ≤ now) :
  World.Sound p o { w with clock := now }
  := by
  constructor
  · apply h.calls
  · intro host
    apply (h.limited host).mono hnow

/-- A call that begins. -/
theorem invoke_spec (input : String) (aborted : Bool) :
  Extends o w (invoke p o w input aborted w.clock).1 ∧
    Call.Sound p o (invoke p o w input aborted w.clock).1.admissions w.calls.length
      ⟨input, aborted, (invoke p o w input aborted w.clock).2, [], [], []⟩
  := by
  have hnone : ∀ {phase : Phase} {admissions : List Admission},
      Call.InPhase p o admissions w.calls.length ⟨input, aborted, phase, [], [], []⟩ phase →
      Call.Sound p o admissions w.calls.length ⟨input, aborted, phase, [], [], []⟩ := by
    intro phase admissions hphase
    refine ⟨?_, rfl, Nat.zero_le _, hphase⟩
    intro r hr
    simp at hr
  unfold invoke
  cases hurl : parseUrl p input with
  | error e => exact ⟨Extends.refl w, hnone (inPhase_failure _ _)⟩
  | ok url =>
  dsimp only
  have henter : Extends o w (enter p o w w.calls.length aborted ⟨url.origin, 0, url⟩ w.clock).1 ∧
      Call.InPhase p o
        (enter p o w w.calls.length aborted ⟨url.origin, 0, url⟩ w.clock).1.admissions
        w.calls.length ⟨input, aborted, .failed "", [], [], []⟩
        (enter p o w w.calls.length aborted ⟨url.origin, 0, url⟩ w.clock).2 := by
    apply enter_spec aborted (permissionSpec_of_parseUrl hurl) rfl (Nat.zero_le _) rfl rfl
  exact ⟨henter.1, hnone henter.2⟩

/-- A lookup that is answered. -/
theorem Call.Sound.resolved (addresses : List String)
    (h : c.Sound p o admissions call) (hphase : c.phase = .resolving hop) :
  Call.Sound p o admissions call (onResolved p c hop addresses)
  := by
  have hold := h.phase
  rw [hphase] at hold
  obtain ⟨hentered, hsent, hrecv⟩ := hold
  have hlookups : ∀ r ∈ c.sent, ∀ l : Lookup,
      r.Vetted p admissions call c.input (c.lookups ++ [l]) := by
    intro r hr l
    obtain ⟨⟨l', hl', hfacts⟩, horigin, hadm⟩ := h.requests r hr
    exact ⟨⟨l', mem_append_left _ hl', hfacts⟩, horigin, hadm⟩
  unfold onResolved
  dsimp only
  split
  · exact ⟨fun r hr => hlookups r hr _, h.redirects, h.few, inPhase_failure _ _⟩
  next address hblocked =>
    split at hblocked
    · cases hblocked
    next hany =>
      have hallowed : ∀ a ∈ addresses, isForbiddenAddress p a = false := by
        simpa using hany
      constructor
      · intro r hr
        rcases mem_append.mp hr with hr | hr
        · apply hlookups r hr
        obtain rfl := mem_singleton.mp hr
        refine ⟨⟨_, mem_append_right _ mem_cons_self, rfl, rfl, ?_, hallowed⟩, ?_, ?_⟩
        · apply mem_of_head? hblocked
        · dsimp only
          rw [hentered.origin]
          apply hentered.permitted
        · apply hentered.admitted
      · dsimp only
        rw [map_append, h.redirects, length_append, length_singleton, range_succ, hsent]
        rfl
      · dsimp only
        rw [length_append, length_singleton, hsent]
        apply Nat.succ_le_succ hentered.few
      · refine ⟨hentered, ?_, hrecv⟩
        dsimp only
        rw [length_append, length_singleton, hsent]

/-- A redirect that is followed, unless it is refused. -/
theorem onDiscarded_spec {location : Option String}
    (h : c.InPhase p o w.admissions call (.discarding hop location)) :
  Extends o w (onDiscarded p o w call c hop location w.clock).1 ∧
    c.InPhase p o (onDiscarded p o w call c hop location w.clock).1.admissions call
      (onDiscarded p o w call c hop location w.clock).2
  := by
  obtain ⟨hentered, hsent, hrecv⟩ := h
  have hrefd : ∀ message : String,
      Extends o w w ∧ c.InPhase p o w.admissions call (failure c.aborted message) :=
    fun message => ⟨Extends.refl w, inPhase_failure _ _⟩
  unfold onDiscarded
  split
  · apply hrefd
  · apply hrefd
  split
  · apply hrefd
  next hredirect =>
    split
    · apply hrefd
    split
    · apply hrefd
    split
    · apply hrefd
    next horigin =>
      apply enter_spec
      · apply hentered.permitted
      · apply not_not.mp horigin
      · apply Nat.lt_of_not_le hredirect
      · apply hsent
      · apply hrecv

/-- A piece of a body. -/
theorem Call.Sound.chunk {chunks : List (List UInt8)} (bytes : List UInt8)
    (h : c.Sound p o admissions call) (hphase : c.phase = .reading chunks) :
  Call.Sound p o admissions call (onChunk o c chunks bytes)
  := by
  have hold := h.phase
  rw [hphase] at hold
  obtain ⟨hchunks, -⟩ := hold
  have hflat : (chunks ++ [bytes]).flatten = c.received ++ bytes := by
    rw [flatten_append, hchunks, flatten_singleton]
  unfold onChunk
  dsimp only
  split
  · exact ⟨h.requests, h.redirects, h.few, inPhase_failure _ _⟩
  next hfits =>
    refine ⟨h.requests, h.redirects, h.few, hflat, ?_⟩
    rw [hflat] at hfits
    apply Nat.le_of_not_lt hfits

theorem World.Sound.step {w' : World} {a : Action} (h : w.Sound p o)
    (hstep : step p o w a = some w') :
  w'.Sound p o
  := by
  cases a with
  | invoke input aborted now =>
    simp only [WebFetch.step] at hstep
    split at hstep
    · cases hstep
    next hnow =>
      cases hstep
      have hlater := h.later (le_of_not_gt hnow)
      obtain ⟨hext, hnew⟩ := invoke_spec (p := p) (o := o) (w := { w with clock := now })
        input aborted
      have hold := hlater.extend hext
      constructor
      · apply hold.calls.concat
        rw [hext.calls]
        apply hnew
      · apply hold.limited
  | resolved call addresses =>
    obtain ⟨c, hc, hstep⟩ := bind_eq_some_iff.mp hstep
    split at hstep
    next hop hphase =>
      cases hstep
      apply h.put
      apply (h.calls call c hc).resolved addresses hphase
    · cases hstep
  | responded call response =>
    obtain ⟨c, hc, hstep⟩ := bind_eq_some_iff.mp hstep
    split at hstep
    next hop hphase =>
      cases hstep
      have hsound := h.calls call c hc
      have hold := hsound.phase
      rw [hphase] at hold
      apply h.put
      apply hsound.enter
      unfold onResponded
      split
      · apply hold
      split
      · apply inPhase_failure
      · use hold.2.2.symm
        rw [hold.2.2]
        apply Nat.zero_le
    · cases hstep
  | discarded call now =>
    obtain ⟨c, hc, hstep⟩ := bind_eq_some_iff.mp hstep
    split at hstep
    next hop location hphase =>
      split at hstep
      · cases hstep
      next hnow =>
        cases hstep
        have hlater := h.later (le_of_not_gt hnow)
        have hsound := hlater.calls call c hc
        have hold := hsound.phase
        rw [hphase] at hold
        obtain ⟨hext, hphase'⟩ := onDiscarded_spec (w := { w with clock := now }) hold
        apply (hlater.extend hext).put
        apply (hsound.mono hext.admissions).enter hphase'
    · cases hstep
  | chunk call bytes =>
    obtain ⟨c, hc, hstep⟩ := bind_eq_some_iff.mp hstep
    split at hstep
    next chunks hphase =>
      cases hstep
      apply h.put
      apply (h.calls call c hc).chunk bytes hphase
    · cases hstep
  | ended call =>
    obtain ⟨c, hc, hstep⟩ := bind_eq_some_iff.mp hstep
    split at hstep
    next chunks hphase =>
      cases hstep
      have hsound := h.calls call c hc
      have hold := hsound.phase
      rw [hphase] at hold
      apply h.put
      apply hsound.enter
      use hold.2
      rw [hold.1]
    · cases hstep
  | rejected call message =>
    obtain ⟨c, hc, hstep⟩ := bind_eq_some_iff.mp hstep
    split at hstep
    · cases hstep
    · cases hstep
    cases hstep
    apply h.put
    apply (h.calls call c hc).enter
    apply inPhase_failure
  | abort call =>
  obtain ⟨c, hc, hstep⟩ := bind_eq_some_iff.mp hstep
  split at hstep
  · cases hstep
  · cases hstep
  · cases hstep
    apply h.put
    apply (h.calls call c hc).aborted
  cases hstep
  apply h.put
  apply (h.calls call c hc).aborted.enter
  apply inPhase_failure

/-- Every call on a tool is vetted, whatever the resolver, the transport and the bodies answer. -/
theorem vetted_of_run {clock : ℚ} {actions : List Action}
    (hrun : run (step p o) (World.start clock) actions = some w) :
  w.Vetted p o
  := by
  have hstart : (World.start clock).Sound p o :=
    ⟨Indexed.Each.nil, fun host => SlidingWindow.Kept.nil _ _ _⟩
  have hsound : w.Sound p o := run_invariant (fun w a w' h => h.step) hstart hrun
  constructor
  · intro call c hc
    apply (hsound.calls call c hc).vetted
  · intro host
    apply (hsound.limited host).bounded

end Vetted

/-- A platform on which the texts of one site are URLs. -/
def site : Platform where
  newURL value :=
    if value = "http://site.example/a" then
      some ⟨"http:", "", "", "site.example", "", "/a", "", ""⟩
    else if value = "http://site.example/b" then
      some ⟨"http:", "", "", "site.example", "", "/b", "", ""⟩
    else none
  href location _ := some ("http://site.example" ++ location)
  isIP value := if (value.toList.splitOn '.').length = 4 then 4 else 0
  toLowerCase value := String.ofList (value.toList.map Char.toLower)
  number value := if value = "2" then some 2 else none

/-- A page that is moved, and read at its new place. -/
def moved : List Action :=
  [.invoke "http://site.example/a" false 5, .resolved 0 ["93.184.216.34"],
    .responded 0 ⟨302, fun name => if name = "location" then some "/b" else none⟩,
    .discarded 0 6, .resolved 0 ["93.184.216.35"],
    .responded 0 ⟨200, fun name => if name = "content-type" then some "text/plain" else none⟩,
    .chunk 0 [111, 107], .ended 0]

theorem vetted_of_run_moved :
  (run (step site .default) (World.start 0) moved).isSome ∧
    ∀ w, run (step site .default) (World.start 0) moved = some w → w.Vetted site .default
  := by
  constructor
  · decide +kernel
  · intro w hrun
    apply vetted_of_run hrun

end Tools.WebFetch
