import Rsurl.Http.Redirect

/-!
# The asynchronous client

Its redirect loop, which is a second one beside that of the blocking client. Every request goes out
on a connection of its own. The servers are a function of everything written so far.
-/

namespace Rsurl.Aio

open Text Hpack Library
open Library.Loop (Turn)
open Http2 (Url Codecs)
open Http (isRedirectStatus redirectLocation)

def maxRedirects : Nat := 10

structure Request where
  method : String
  url : String
  headers : List Header := []
  body : Bytes := []
  followRedirects : Bool := false
  decompress : Bool := true
  deriving DecidableEq, Repr

structure Response where
  status : Nat
  reason : String
  headers : List Header
  body : Bytes
  deriving DecidableEq, Repr

/-! ## One request -/

def hostHeader (u : Url) : String :=
  let default := if u.scheme = "https" then 443 else 80
  if u.port = default then u.host else s!"{u.host}:{u.port}"

/-- The fields of a request: the mandatory ones the caller did not give, and the caller's. -/
def buildHeaders (u : Url) (caller : List Header) (bodyLen : Nat) : List Header :=
  let has := fun name => caller.any fun h => eqIgnoreAsciiCase h.1 name
  (if has "Host" then [] else [("Host", hostHeader u)]) ++
    (if has "User-Agent" then [] else [("User-Agent", "rsurl")]) ++
    (if has "Accept" then [] else [("Accept", "*/*")]) ++
    (if has "Connection" then [] else [("Connection", "close")]) ++
    (if 0 < bodyLen && !has "Content-Length" && !has "Transfer-Encoding"
      then [("Content-Length", toString bodyLen)] else []) ++
    caller

/-- A request on the wire, and the URL it was made for. -/
structure Written where
  url : Url
  method : String
  target : String
  headers : List Header
  body : Bytes
  deriving DecidableEq, Repr

/-- What an exchange meets. -/
structure World where
  /-- Connecting to the host of a URL, or the TLS handshake there, fails. -/
  connect : List Written → Url → Option Error
  /-- The answer to the last of the requests written so far. -/
  serve : List Written → Except Error Response
  codecs : Codecs

/-- Why no request can be written for a URL. -/
def World.refuses (w : World) (sent : List Written) (url : Url) : Option Error :=
  match w.connect sent url with
  | some e => some e
  | none =>
    if url.scheme = "http" || url.scheme = "https" then none
    else some (.unsupportedScheme url.scheme)

/-! ## The final response -/

def headerValue (headers : List Header) (name : String) : Option String :=
  (headers.find? fun h => eqIgnoreAsciiCase h.1 name).map Prod.snd

/-- Decode the body, if asked for. -/
def finishResponse (codecs : Codecs) (resp : Response) (decompress : Bool) :
    Except Error Response :=
  if !decompress then .ok resp
  else match headerValue resp.headers "content-encoding" with
    | none => .ok resp
    | some encoding => match codecs.decodeBody resp.body encoding with
      | .error e => .error e
      | .ok out =>
        .ok { resp with
          headers := if out.decoded then Http2.headersAfterDecode resp.headers out
            else resp.headers
          body := out.body }

/-! ## The loop -/

structure Hop where
  url : Url
  method : String
  body : Bytes
  hops : Nat
  sent : List Written
  deriving DecidableEq, Repr

namespace Hop

variable (w : World) (req : Request)

/-- The request of this hop as it is written. -/
def written (s : Hop) : Written where
  url := s.url
  method := s.method
  target := if s.url.path = "" then "/" else s.url.path
  headers := buildHeaders s.url req.headers s.body.length
  body := s.body

/-- 301, 302 and 303 turn anything but a GET or a HEAD into a GET without a body. -/
def rewrites (s : Hop) (status : Nat) : Bool :=
  (301 ≤ status && status ≤ 303) && s.method ≠ "GET" && s.method ≠ "HEAD"

def redirected (s : Hop) (status : Nat) (url : Url) (sent : List Written) : Hop where
  url
  method := if s.rewrites status then "GET" else s.method
  body := if s.rewrites status then [] else s.body
  hops := s.hops + 1
  sent

def receive (s : Hop) (sent : List Written) (resp : Response) :
    Turn Hop (List Written × Except Error Response) :=
  if !req.followRedirects || !isRedirectStatus resp.status then
    .done (sent, finishResponse w.codecs resp req.decompress)
  else match redirectLocation resp.headers with
    | none => .done (sent, finishResponse w.codecs resp req.decompress)
    | some location =>
      if maxRedirects ≤ s.hops then
        .done (sent, .error (.badResponse s!"aio: maximum ({maxRedirects}) redirects followed"))
      else match Url.resolve s.url location with
        | .error e => .done (sent, .error e)
        | .ok url => .next (s.redirected resp.status url sent)

def turn (s : Hop) : Turn Hop (List Written × Except Error Response) :=
  match w.refuses s.sent s.url with
  | some e => .done (s.sent, .error e)
  | none =>
    match w.serve (s.sent ++ [s.written req]) with
    | .error e => .done (s.sent ++ [s.written req], .error e)
    | .ok resp => s.receive w req (s.sent ++ [s.written req]) resp

/-- Redirects left. -/
def budget (s : Hop) : Nat := maxRedirects - s.hops

/-- A turn that goes on follows a redirect. -/
structure Follows (s : Hop) (resp : Response) (location : String) (url : Url) : Prop where
  follow : req.followRedirects = true
  reached : w.refuses s.sent s.url = none
  answered : w.serve (s.sent ++ [s.written req]) = .ok resp
  status : isRedirectStatus resp.status = true
  located : redirectLocation resp.headers = some location
  hops : s.hops < maxRedirects
  resolved : Url.resolve s.url location = .ok url

variable {w req}

theorem turn_next_iff {s s' : Hop} :
    s.turn w req = .next s' ↔ ∃ resp location url, s.Follows w req resp location url ∧
      s' = s.redirected resp.status url (s.sent ++ [s.written req]) := by
  constructor
  · intro h
    unfold turn at h
    split at h
    · cases h
    · rename_i hreach
      split at h
      · cases h
      · rename_i resp hresp
        unfold receive at h
        split at h
        · cases h
        · rename_i hstatus
          simp only [Bool.or_eq_true, Bool.not_eq_true', not_or, Bool.not_eq_false] at hstatus
          split at h
          · cases h
          · rename_i location hloc
            split at h
            · cases h
            · rename_i hhops
              split at h
              · cases h
              · rename_i url hurl
                cases h
                exact ⟨resp, location, url, ⟨hstatus.1, hreach, hresp, hstatus.2, hloc,
                  Nat.lt_of_not_le hhops, hurl⟩, rfl⟩
  · rintro ⟨resp, location, url, h, rfl⟩
    have hhops : ¬maxRedirects ≤ s.hops := by
      have := h.hops
      omega
    simp [turn, h.reached, h.answered, receive, h.follow, h.status, h.located, hhops, h.resolved]

/-- A run ends before its last request is written, or after it. -/
theorem turn_done {s : Hop} {a : List Written × Except Error Response}
    (h : s.turn w req = .done a) :
    (w.refuses s.sent s.url ≠ none ∧ a.1 = s.sent) ∨
      (w.refuses s.sent s.url = none ∧ a.1 = s.sent ++ [s.written req]) := by
  unfold turn at h
  split at h
  · rename_i e he
    cases h
    exact .inl ⟨by simp [he], rfl⟩
  · rename_i hreach
    refine .inr ⟨hreach, ?_⟩
    split at h
    · cases h
      rfl
    · unfold receive at h
      grind

theorem turn_lowers : Loop.Lowers (turn w req) budget := by
  intro s s' h
  obtain ⟨resp, location, url, hf, rfl⟩ := turn_next_iff.mp h
  have := hf.hops
  simp only [budget, redirected]
  omega

end Hop

def start (req : Request) : Except Error Hop :=
  match Url.parse req.url with
  | .error e => .error e
  | .ok url => .ok ⟨url, toAsciiUppercase req.method, req.body, 0, []⟩

/-- The requests that are written, and how the exchange ends. -/
def exchange (w : World) (req : Request) : List Written × Except Error Response :=
  match start req with
  | .error e => ([], .error e)
  | .ok s => Loop.run (Hop.turn w req) Hop.budget Hop.turn_lowers s

/-- The hops of an exchange. -/
def hops (w : World) (req : Request) : List Hop :=
  match start req with
  | .error _ => []
  | .ok s => Loop.visited (Hop.turn w req) Hop.budget s

end Rsurl.Aio

/-!
## Credentials of the asynchronous client

The caller's fields go out with every request of an exchange. So credentials stay on their origin
only as long as no redirect leaves it.
-/

namespace Rsurl.Aio

open Text Hpack Library
open Http2 (Url Codecs)
open Http (sameOrigin isAuthorization isCookie)

def isCredential (h : Header) : Bool := isAuthorization h || isCookie h

def Written.CarriesCredentials (r : Written) : Prop := ∃ h ∈ r.headers, isCredential h = true

def Request.GivesCredentials (req : Request) : Prop := ∃ h ∈ req.headers, isCredential h = true

theorem carriesCredentials_written {req : Request} {s : Hop} :
    (s.written req).CarriesCredentials ↔ req.GivesCredentials := by
  have hauto : ∀ name ∈ ["Host", "User-Agent", "Accept", "Connection", "Content-Length"],
      ∀ value, isCredential (name, value) = false := by
    intro name hname value
    simp only [isCredential, isAuthorization, isCookie]
    revert name
    decide
  unfold Written.CarriesCredentials Request.GivesCredentials
  constructor
  · rintro ⟨h, hmem, hcred⟩
    refine ⟨h, ?_, hcred⟩
    by_contra hnot
    have hname : h.1 ∈ ["Host", "User-Agent", "Accept", "Connection", "Content-Length"] := by
      simp only [Hop.written, buildHeaders, List.mem_append] at hmem
      rcases hmem with ((((hmem | hmem) | hmem) | hmem) | hmem) | hmem
      all_goals
        first
        | exact absurd hmem hnot
        | split at hmem <;> simp_all
    have := hauto h.1 hname h.2
    rw [hcred] at this
    cases this
  · rintro ⟨h, hmem, hcred⟩
    exact ⟨h, List.mem_append_right _ hmem, hcred⟩

/-- Two requests in a row to one origin. -/
def SameOrigin (a b : Written) : Prop := sameOrigin b.url a.url = true

/-- Once a hop leaves its origin, no later request to the origin it goes to carries credentials. -/
def Confined (sent : List Written) : Prop :=
  ∀ i j (_ : i < j) (_ : j < sent.length), sameOrigin sent[i + 1].url sent[i].url = false →
    sameOrigin sent[j].url sent[i + 1].url = true → ¬sent[j].CarriesCredentials

theorem sameOrigin_self (u : Url) : sameOrigin u u = true := by simp [sameOrigin]

theorem confined_iff {req : Request} {sent : List Written}
    (h : ∀ r ∈ sent, r.CarriesCredentials ↔ req.GivesCredentials) :
    Confined sent ↔ (req.GivesCredentials → sent.IsChain SameOrigin) := by
  rw [List.isChain_iff_getElem]
  constructor
  · intro hconf hcred i hi
    by_contra hleaves
    refine hconf i (i + 1) (by omega) hi (by simpa [SameOrigin] using hleaves)
      (sameOrigin_self _) ?_
    exact (h _ (List.getElem_mem _)).mpr hcred
  · intro hchain i j hij hj hleaves _ hcarries
    have := hchain ((h _ (List.getElem_mem _)).mp hcarries) i (by omega)
    rw [SameOrigin, hleaves] at this
    cases this

/-! ## The run -/

namespace Hop

variable {w : World} {req : Request}

/-- The hop follows a redirect to another origin, and a request is written there. -/
def Leaves (w : World) (req : Request) (s : Hop) : Prop :=
  ∃ resp location url, s.Follows w req resp location url ∧ sameOrigin url s.url = false ∧
    w.refuses (s.sent ++ [s.written req]) url = none

theorem not_leaves_of_done {s : Hop} {a : List Written × Except Error Response}
    (h : s.turn w req = .done a) : ¬s.Leaves w req := by
  rintro ⟨resp, location, url, hf, -⟩
  rw [turn_next_iff.mpr ⟨resp, location, url, hf, rfl⟩] at h
  cases h

theorem leaves_iff {s : Hop} {resp : Http2.Url} {status : Nat}
    (h : s.turn w req = .next (s.redirected status resp (s.sent ++ [s.written req]))) :
    s.Leaves w req ↔ sameOrigin resp s.url = false ∧
      w.refuses (s.sent ++ [s.written req]) resp = none := by
  constructor
  · rintro ⟨resp', location, url, hf, horigin, hreach⟩
    have hnext := turn_next_iff.mpr ⟨resp', location, url, hf, rfl⟩
    rw [h] at hnext
    have hurl : resp = url := congrArg Hop.url (Loop.Turn.next.inj hnext)
    exact hurl ▸ ⟨horigin, hreach⟩
  · rintro ⟨horigin, hreach⟩
    obtain ⟨resp', location, url, hf, heq⟩ := turn_next_iff.mp h
    have hurl : resp = url := congrArg Hop.url heq
    exact ⟨resp', location, url, hf, hurl ▸ horigin, hurl ▸ hreach⟩

/-- What a run from a hop writes. -/
structure Writes (w : World) (req : Request) (s : Hop) (tail : List Written) : Prop where
  all : (Loop.run (turn w req) budget turn_lowers s).1 = s.sent ++ tail
  credentials : ∀ r ∈ tail, r.CarriesCredentials ↔ req.GivesCredentials
  first : ∀ r ∈ tail.head?, r.url = s.url
  nil : tail = [] ↔ w.refuses s.sent s.url ≠ none
  chain : tail.IsChain SameOrigin ↔ ∀ t ∈ Loop.visited (turn w req) budget s, ¬t.Leaves w req

theorem exists_writes (w : World) (req : Request) (s : Hop) : ∃ tail, Writes w req s tail := by
  induction hb : s.budget using Nat.strongRecOn generalizing s with
  | ind n ih =>
    cases hs : s.turn w req with
    | done a =>
      have hleaves := not_leaves_of_done hs
      rcases turn_done hs with ⟨hrefuse, ha⟩ | ⟨hreach, ha⟩
      · refine ⟨[], ?_, by simp, by simp, by simpa using hrefuse, ?_⟩
        · rw [Loop.run_done hs, ha, List.append_nil]
        · simp [Loop.visited_done hs, hleaves]
      · refine ⟨[s.written req], ?_, ?_, by simp [written], by simp [hreach], ?_⟩
        · rw [Loop.run_done hs, ha]
        · intro r hr
          cases List.mem_singleton.mp hr
          exact carriesCredentials_written
        · simp [Loop.visited_done hs, hleaves]
    | next s' =>
      have hlow := turn_lowers s s' hs
      obtain ⟨resp, location, url, hf, rfl⟩ := turn_next_iff.mp hs
      obtain ⟨tail, htail⟩ := ih _ (hb ▸ hlow) _ rfl
      refine ⟨s.written req :: tail, ?_, ?_, by simp [written], by simp [hf.reached], ?_⟩
      · rw [Loop.run_next hs, htail.all]
        simp [redirected]
      · intro r hr
        rcases List.mem_cons.mp hr with rfl | hr
        · exact carriesCredentials_written
        · exact htail.credentials r hr
      · rw [Loop.visited_next turn_lowers hs, List.isChain_cons, htail.chain,
          List.forall_mem_cons, leaves_iff hs]
        refine and_congr_left fun _ => ?_
        have hnil := htail.nil
        cases tail with
        | nil =>
          simp only [redirected, true_iff] at hnil
          simp [hnil]
        | cons r rest =>
          have hfirst := htail.first r rfl
          simp only [redirected] at hnil hfirst
          simp only [reduceCtorEq, ne_eq, false_iff, not_not] at hnil
          have hurl : (s.written req).url = s.url := rfl
          simp [SameOrigin, hfirst, hurl, hnil]

end Hop

/-- The credentials of the caller stay on their origin, along every chain of redirects, exactly when
the caller gave none or no hop leaves its origin. -/
theorem aio_credentials_confined (w : World) (req : Request) :
    Confined (exchange w req).1 ↔
      (req.GivesCredentials → ∀ s ∈ hops w req, ¬s.Leaves w req) := by
  unfold exchange hops
  cases hs : start req with
  | error e => simp [Confined]
  | ok s =>
    obtain ⟨tail, htail⟩ := Hop.exists_writes w req s
    have hsent : s.sent = [] := by
      unfold start at hs
      split at hs
      · cases hs
      · cases hs
        rfl
    have hall := htail.all
    rw [hsent, List.nil_append] at hall
    simp only [hall]
    rw [confined_iff htail.credentials, htail.chain]

/-- The first request is redirected to another host. -/
def redirecting : World where
  connect _ _ := none
  serve sent := .ok
    (if sent.length = 1 then ⟨302, "Found", [("Location", "http://elsewhere.test/")], []⟩
    else ⟨200, "OK", [], []⟩)
  codecs := .unavailable

def withToken : Request where
  method := "GET"
  url := "http://home.test/"
  headers := [("Authorization", "Bearer secret")]
  followRedirects := true

theorem token_leaves : ¬Confined (exchange redirecting withToken).1 := by
  intro h
  refine h 0 1 (by decide +kernel) (by decide +kernel) (by decide +kernel) (by decide +kernel) ?_
  exact ⟨("Authorization", "Bearer secret"), by decide +kernel, by decide +kernel⟩

end Rsurl.Aio
