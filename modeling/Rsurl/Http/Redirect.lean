import Rsurl.Http.Request
import Rsurl.Http.Digest
import Rsurl.Library.Loop

/-!
# Redirects and digest answers

The loop that sends a request, answers a `Digest` challenge and walks through redirects. The servers
are a function of everything sent so far, so they may serve any responses in any order; a hop keeps
the list of the requests that were sent.
-/

namespace Rsurl.Http

open Text Hpack Library
open Library.Loop (Turn)
open Http2 (Url Response effectiveMethod)

def isRedirectStatus (status : Nat) : Bool :=
  status == 301 || status == 302 || status == 303 || status == 307 || status == 308

/-- An empty `Location` counts as none. -/
def redirectLocation (headers : List Header) : Option String :=
  ((headers.find? fun h => eqIgnoreAsciiCase h.1 "location").map fun h => trim h.2).filter (· ≠ "")

def isAuthorization (h : Header) : Bool := eqIgnoreAsciiCase h.1 "authorization"

def isCookie (h : Header) : Bool := eqIgnoreAsciiCase h.1 "cookie"

def isBodyHeader (h : Header) : Bool :=
  eqIgnoreAsciiCase h.1 "content-type" || eqIgnoreAsciiCase h.1 "content-length" ||
    eqIgnoreAsciiCase h.1 "transfer-encoding"

/-! ## Surroundings -/

/-- How a proxy resolver's choice is applied: an HTTP proxy, or a connector that tunnels. -/
inductive ProxySpec where
  | http (auth : Option (String × String))
  | tunnel
  deriving DecidableEq, Repr

/-- What a transfer meets. `J` is the type of cookie jars. -/
structure World (J : Type) where
  /-- The answer to the last of the requests sent so far. -/
  serve : List Request → Except Error Response
  /-- The transfer has been cancelled, or is out of time, after these requests. -/
  stopped : List Request → Option Error
  idna : String → Option String
  resolveProxy : Url → Option (Except Error ProxySpec)
  /-- The host is on the proxy's exception list. -/
  bypassed : Url → Bool
  hashes : Digest.Hashes
  /-- The client nonce of the next answer. -/
  cnonce : List Request → String
  purgeExpired : J → J
  cookieHeader : J → Url → Option String
  ingestResponse : J → Url → List Header → J

variable {J : Type}

def applyProxyResolver (w : World J) (req : Request) : Except Error Request :=
  if req.proxy || !req.connectorIsDirect || !req.proxyResolver then .ok req
  else match w.resolveProxy req.url with
    | none => .ok req
    | some (.error e) => .error e
    | some (.ok (.http auth)) => .ok { req with proxy := true, proxyAuth := auth }
    | some (.ok .tunnel) => .ok { req with connectorIsDirect := false }

/-- Replace the caller's cookies by the jar's. -/
def attachJarCookies (w : World J) (jar : J) (headers : List Header) (url : Url) :
    J × List Header :=
  let jar := w.purgeExpired jar
  let headers := headers.filter fun h => !isCookie h
  (jar, match w.cookieHeader jar url with
    | none => headers
    | some val => headers ++ [("Cookie", val)])

/-! ## The next hop -/

def sameOrigin (a b : Url) : Bool := a.host == b.host && a.port == b.port && a.scheme == b.scheme

def keepsPost (req : Request) (status : Nat) : Bool :=
  match status with
  | 301 => req.keepPost.1
  | 302 => req.keepPost.2.1
  | 303 => req.keepPost.2.2
  | _ => false

/-- The redirect turns the method into GET. -/
def toGet (req : Request) (status : Nat) : Bool :=
  let isPost := eqIgnoreAsciiCase req.method "POST"
  match status with
  | 301 | 302 => isPost && !keepsPost req status
  | 303 => !(eqIgnoreAsciiCase req.method "GET" || eqIgnoreAsciiCase req.method "HEAD" ||
      (isPost && keepsPost req status))
  | _ => false

/-- Credentials stay on the origin they were given for. -/
def dropCredentials (req : Request) : Request :=
  { req with
    headers := req.headers.filter fun h => !isAuthorization h && !isCookie h
    basicAuth := none }

def asGet (req : Request) : Request :=
  { req with
    method := "GET"
    body := []
    headers := req.headers.filter fun h => !isBodyHeader h }

def setReferer (req : Request) (prev : Url) : Request :=
  { req with
    headers := (req.headers.filter fun h => !eqIgnoreAsciiCase h.1 "referer") ++
      [("Referer", Url.toString prev)] }

/-- The request for the next hop. -/
def nextRequest (req : Request) (nextUrl : Url) (status : Nat) : Request :=
  let next := { req with url := nextUrl }
  let next := if req.autoReferer then setReferer next req.url else next
  let next := if !sameOrigin nextUrl req.url && !req.redirectTrusted then dropCredentials next
    else next
  if toGet req status then asGet next else next

def redirectRequest (w : World J) (req : Request) (status : Nat) (location : String) :
    Except Error Request :=
  match Url.resolve req.url location with
  | .error e => .error e
  | .ok nextUrl =>
    if nextUrl.scheme ≠ "http" ∧ nextUrl.scheme ≠ "https" then
      .error (.unsupportedScheme nextUrl.scheme)
    else match Url.setIdn w.idna nextUrl req.idn with
      | .error e => .error e
      | .ok nextUrl => .ok (nextRequest req nextUrl status)

theorem redirectRequest_ok {w : World J} {req next : Request} {status : Nat} {location : String}
    (h : redirectRequest w req status location = .ok next) :
    ∃ url, next = nextRequest req url status := by
  unfold redirectRequest at h
  split at h
  · cases h
  · split at h
    · cases h
    · split at h
      · cases h
      · cases h
        exact ⟨_, rfl⟩

@[simp] theorem nextRequest_url (req : Request) (url : Url) (status : Nat) :
    (nextRequest req url status).url = url := by
  unfold nextRequest asGet dropCredentials setReferer
  grind

@[simp] theorem nextRequest_redirectTrusted (req : Request) (url : Url) (status : Nat) :
    (nextRequest req url status).redirectTrusted = req.redirectTrusted := by
  unfold nextRequest asGet dropCredentials setReferer
  grind

/-! ## The loop -/

structure Hop (J : Type) where
  req : Request
  digestCreds : Option (String × String)
  /-- Digest answers so far: the first, and one more for a stale nonce. -/
  digestAttempts : Nat
  hopsLeft : Nat
  firstHop : Bool
  jar : Option J
  sent : List Request

namespace Hop

def useJar (s : Hop J) : Bool := s.req.jarThroughRedirects || s.firstHop

/-- The request as it is sent, with the cookies of the jar. -/
def snapshot (w : World J) (s : Hop J) : Hop J × Request :=
  let req := { s.req with proxyBypassed := w.bypassed s.req.url }
  match s.jar with
  | none => (s, req)
  | some jar =>
    if s.useJar then
      let (jar, headers) := attachJarCookies w jar req.headers req.url
      ({ s with jar := some jar }, { req with headers })
    else (s, req)

def ingest (w : World J) (s : Hop J) (resp : Response) : Hop J :=
  if s.useJar then { s with jar := s.jar.map fun j => w.ingestResponse j s.req.url resp.headers }
  else s

/-- The `Digest` challenge among the values of a 401. -/
def challenge (resp : Response) : Option String :=
  if resp.status = 401 then
    Digest.findChallenge
      ((resp.headers.filter fun h => eqIgnoreAsciiCase h.1 "www-authenticate").map Prod.snd)
  else none

def mayAnswer (s : Hop J) (chal : String) : Bool :=
  s.digestAttempts = 0 || (s.digestAttempts = 1 && Digest.isStale chal)

/-- The `Authorization` value that answers a response, if it is a challenge to be answered. -/
def digestAnswer (w : World J) (s : Hop J) (resp : Response) : Option String := do
  let chal ← challenge resp
  let (user, pass) ← s.digestCreds
  if s.mayAnswer chal then
    Digest.authorizationWithCnonce w.hashes user pass (effectiveMethod s.req.toRequest)
      s.req.url.path s.req.body chal (w.cnonce s.sent)
  else none

/-- Resend with the answer to a challenge. -/
def answered (s : Hop J) (value : String) : Hop J :=
  { s with
    req := { s.req with
      headers := (s.req.headers.filter fun h => !isAuthorization h) ++ [("Authorization", value)] }
    digestAttempts := s.digestAttempts + 1 }

def followRedirect (w : World J) (s : Hop J) (status : Nat) (location : String) :
    Except Error (Hop J) :=
  if s.hopsLeft = 0 then
    .error (.badResponse s!"maximum ({s.req.maxRedirs}) redirects followed")
  else match redirectRequest w s.req status location with
    | .error e => .error e
    | .ok req => .ok { s with req, hopsLeft := s.hopsLeft - 1, firstHop := false }

/-- What a response that is not answered leads to. -/
def receive (w : World J) (s : Hop J) (resp : Response) :
    Turn (Hop J) (List Request × Except Error Response) :=
  let final := { resp with finalUrl := Url.toString s.req.url }
  if !s.req.followRedirects || !isRedirectStatus resp.status then .done (s.sent, .ok final)
  else match redirectLocation resp.headers with
    | none => .done (s.sent, .ok final)
    | some location => match s.followRedirect w resp.status location with
      | .error e => .done (s.sent, .error e)
      | .ok s => .next s

/-- The hop once its request is on the way. -/
def dispatched (w : World J) (s : Hop J) : Hop J :=
  { (s.snapshot w).1 with sent := s.sent ++ [(s.snapshot w).2] }

def turn (w : World J) (s : Hop J) : Turn (Hop J) (List Request × Except Error Response) :=
  match w.stopped s.sent with
  | some e => .done (s.sent, .error e)
  | none =>
    let s := s.dispatched w
    match w.serve s.sent with
    | .error e => .done (s.sent, .error e)
    | .ok resp =>
      let s := s.ingest w resp
      match s.digestAnswer w resp with
      | some value => .next (s.answered value)
      | none => s.receive w resp

/-- Redirects and answers left. -/
def budget (s : Hop J) : Nat := s.hopsLeft + (2 - s.digestAttempts)

/-! ## One turn -/

@[simp] theorem dispatched_req (w : World J) (s : Hop J) : (s.dispatched w).req = s.req := by
  unfold dispatched snapshot
  split
  · rfl
  · split <;> rfl

@[simp] theorem dispatched_hopsLeft (w : World J) (s : Hop J) :
    (s.dispatched w).hopsLeft = s.hopsLeft := by
  unfold dispatched snapshot
  split
  · rfl
  · split <;> rfl

@[simp] theorem dispatched_digestAttempts (w : World J) (s : Hop J) :
    (s.dispatched w).digestAttempts = s.digestAttempts := by
  unfold dispatched snapshot
  split
  · rfl
  · split <;> rfl

@[simp] theorem dispatched_digestCreds (w : World J) (s : Hop J) :
    (s.dispatched w).digestCreds = s.digestCreds := by
  unfold dispatched snapshot
  split
  · rfl
  · split <;> rfl

theorem dispatched_sent (w : World J) (s : Hop J) :
    (s.dispatched w).sent = s.sent ++ [(s.snapshot w).2] := rfl

@[simp] theorem ingest_req (w : World J) (s : Hop J) (resp : Response) :
    (s.ingest w resp).req = s.req := by
  unfold ingest
  split <;> rfl

@[simp] theorem ingest_hopsLeft (w : World J) (s : Hop J) (resp : Response) :
    (s.ingest w resp).hopsLeft = s.hopsLeft := by
  unfold ingest
  split <;> rfl

@[simp] theorem ingest_digestAttempts (w : World J) (s : Hop J) (resp : Response) :
    (s.ingest w resp).digestAttempts = s.digestAttempts := by
  unfold ingest
  split <;> rfl

@[simp] theorem ingest_digestCreds (w : World J) (s : Hop J) (resp : Response) :
    (s.ingest w resp).digestCreds = s.digestCreds := by
  unfold ingest
  split <;> rfl

@[simp] theorem ingest_sent (w : World J) (s : Hop J) (resp : Response) :
    (s.ingest w resp).sent = s.sent := by
  unfold ingest
  split <;> rfl

/-- An answer needs an attempt to spare. -/
theorem digestAnswer_attempts {w : World J} {s : Hop J} {resp : Response} {value : String}
    (h : s.digestAnswer w resp = some value) : s.digestAttempts < 2 := by
  simp only [digestAnswer, mayAnswer, Option.bind_eq_bind, Option.bind_eq_some_iff] at h
  obtain ⟨chal, -, creds, -, h⟩ := h
  obtain ⟨hmay, -⟩ := Option.ite_none_right_eq_some.mp h
  simp only [Bool.or_eq_true, Bool.and_eq_true, decide_eq_true_eq] at hmay
  omega

/-- What a turn that goes on does: it sends the request, and then answers a challenge or follows a
redirect. -/
inductive Next (w : World J) (s : Hop J) : Hop J → Prop where
  | answer {resp : Response} {value : String} (hgo : w.stopped s.sent = none)
      (hresp : w.serve (s.dispatched w).sent = .ok resp)
      (ha : ((s.dispatched w).ingest w resp).digestAnswer w resp = some value) :
      Next w s (((s.dispatched w).ingest w resp).answered value)
  | redirect {resp : Response} {location : String} {req : Request}
      (hgo : w.stopped s.sent = none) (hresp : w.serve (s.dispatched w).sent = .ok resp)
      (hhops : 0 < s.hopsLeft) (hreq : redirectRequest w s.req resp.status location = .ok req) :
      Next w s { (s.dispatched w).ingest w resp with
        req, hopsLeft := s.hopsLeft - 1, firstHop := false }

/-- What a response that is followed leads to. -/
theorem receive_next {w : World J} {s s' : Hop J} {resp : Response}
    (h : s.receive w resp = .next s') : ∃ location req, 0 < s.hopsLeft ∧
      redirectRequest w s.req resp.status location = .ok req ∧
      s' = { s with req, hopsLeft := s.hopsLeft - 1, firstHop := false } := by
  unfold receive followRedirect at h
  split at h
  · cases h
  · split at h
    · cases h
    · split at h
      · cases h
      · rename_i location _ _ next hf
        cases h
        split at hf
        · cases hf
        · rename_i hhops
          split at hf
          · cases hf
          · rename_i req hreq
            cases hf
            exact ⟨location, req, Nat.pos_of_ne_zero hhops, hreq, rfl⟩

theorem turn_next {w : World J} {s s' : Hop J} (h : s.turn w = .next s') : Next w s s' := by
  unfold turn at h
  split at h
  · cases h
  · rename_i hgo
    simp only at h
    split at h
    · cases h
    · rename_i resp hresp
      split at h
      · rename_i value ha
        cases h
        exact .answer hgo hresp ha
      · obtain ⟨location, req, hhops, hreq, rfl⟩ := receive_next h
        simp only [ingest_req, dispatched_req, ingest_hopsLeft, dispatched_hopsLeft] at hhops hreq ⊢
        exact .redirect hgo hresp hhops hreq

/-- A run ends before its request is sent, or after it. -/
theorem turn_done {w : World J} {s : Hop J} {a : List Request × Except Error Response}
    (h : s.turn w = .done a) :
    (w.stopped s.sent ≠ none ∧ a.1 = s.sent) ∨
      (w.stopped s.sent = none ∧ a.1 = (s.dispatched w).sent) := by
  unfold turn at h
  split at h
  · rename_i e he
    cases h
    exact .inl ⟨by simp [he], rfl⟩
  · rename_i hgo
    refine .inr ⟨hgo, ?_⟩
    simp only at h
    split at h
    · cases h
      rfl
    · split at h
      · cases h
      · unfold receive at h
        split at h
        · cases h
          simp
        · split at h
          · cases h
            simp
          · split at h <;> cases h
            simp

theorem Next.sent_eq {w : World J} {s s' : Hop J} (h : Next w s s') :
    s'.sent = (s.dispatched w).sent := by
  cases h with
  | answer => simp [answered]
  | redirect => simp

theorem Next.budget_lt {w : World J} {s s' : Hop J} (h : Next w s s') : s'.budget < s.budget := by
  cases h with
  | answer hgo hresp ha =>
    have := digestAnswer_attempts ha
    simp only [ingest_digestAttempts, dispatched_digestAttempts] at this
    simp only [budget, answered, ingest_digestAttempts, dispatched_digestAttempts,
      ingest_hopsLeft, dispatched_hopsLeft]
    omega
  | redirect hgo hresp hhops =>
    simp only [budget, ingest_digestAttempts, dispatched_digestAttempts]
    omega

theorem turn_lowers (w : World J) : Loop.Lowers (turn w) budget :=
  fun _ _ h => (turn_next h).budget_lt

/-! ## The run -/

/-- The first hop: the host is ASCII, the proxy is chosen, and the credentials for digest answers
are taken out of the request. -/
def start (w : World J) (req : Request) (jar : Option J) : Except Error (Hop J) :=
  match Url.setIdn w.idna req.url req.idn with
  | .error e => .error e
  | .ok url => match applyProxyResolver w { req with url } with
    | .error e => .error e
    | .ok req =>
      .ok { req := if req.authDigest then { req with basicAuth := none } else req
            digestCreds := if req.authDigest then req.basicAuth else none
            digestAttempts := 0
            hopsLeft := req.maxRedirs
            firstHop := true
            jar
            sent := [] }

end Hop

/-- The requests that are sent, and how the transfer ends. -/
def sendToInner (w : World J) (req : Request) (jar : Option J) :
    List Request × Except Error Response :=
  match Hop.start w req jar with
  | .error e => ([], .error e)
  | .ok s => Loop.run (Hop.turn w) Hop.budget (Hop.turn_lowers w) s

/-- The hops of a transfer. -/
def hops (w : World J) (req : Request) (jar : Option J) : List (Hop J) :=
  match Hop.start w req jar with
  | .error _ => []
  | .ok s => Loop.visited (Hop.turn w) Hop.budget s

end Rsurl.Http
