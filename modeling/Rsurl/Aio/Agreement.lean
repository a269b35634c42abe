import Rsurl.Aio.Exchange
import Rsurl.Ascii

/-!
# Two clients, one network

The asynchronous client and the blocking one against servers that are a function of method, URL and
body. Both send the same requests and end the same way, as long as the chain stays clear of what
the asynchronous client does differently: it checks no method and no field, maps no host to ASCII,
turns a PUT into a GET after a 301 or a 302, and decodes the final response only.
-/

namespace Rsurl.Aio

open Text Hpack Library
open Library.Loop (Turn)
open Http2 (Url Codecs effectiveMethod maxBodyBytes maybeDecodeBody contentEncoding)
open Http (isRedirectStatus redirectLocation writeRequest viaPlainHttpProxy validateMethod
  validateHeader)

/-! ## The network -/

/-- A response as it is framed on the connection, its body not decoded. -/
structure RawResponse where
  status : Nat
  reason : String
  version : String
  headers : List Header
  body : Bytes
  deriving DecidableEq, Repr

structure Network where
  connect : Url → Option Error
  answer : String → Url → Bytes → Except Error RawResponse
  codecs : Codecs
  idna : String → Option String

/-- A request as the servers see it. -/
abbrev Seen := String × Url × Bytes

/-- The status, the fields and the body that a client hands out. -/
abbrev Result := Nat × List Header × Bytes

namespace Network

variable (n : Network)

/-- The asynchronous client buffers the body, and refuses a large one. -/
def readBuffered (raw : RawResponse) : Except Error Response :=
  if maxBodyBytes < raw.body.length then .error (.badResponse "body too large")
  else .ok ⟨raw.status, raw.reason, raw.headers, raw.body⟩

def async : World where
  connect _ url := n.connect url
  serve sent := match sent.getLast? with
    | none => .error .unexpectedEof
    | some r => match n.answer r.method r.url r.body with
      | .error e => .error e
      | .ok raw => readBuffered raw
  codecs := n.codecs

def isHttp (url : Url) : Bool := url.scheme = "http" || url.scheme = "https"

/-- The request as it is seen, if it can be written. -/
def seen (req : Http.Request) : Option Seen :=
  if !isHttp req.url || (n.connect req.url).isSome then none
  else match writeRequest req (viaPlainHttpProxy req) with
    | .error _ => none
    | .ok _ => some (effectiveMethod req.toRequest, req.url, req.body)

def decoded (codecs : Codecs) (raw : RawResponse) (decompress : Bool) :
    Except Error Http2.Response :=
  match maybeDecodeBody codecs raw.headers raw.body decompress with
  | .error e => .error e
  | .ok (headers, body) =>
    .ok { status := raw.status, reason := raw.reason, version := raw.version, headers, body
          finalUrl := "" }

/-- `send_once` on a direct HTTP/1.1 connection. -/
def sendOnce (req : Http.Request) : Except Error Http2.Response :=
  match n.connect req.url with
  | some e => .error e
  | none => match writeRequest req (viaPlainHttpProxy req) with
    | .error e => .error e
    | .ok _ => match n.answer (effectiveMethod req.toRequest) req.url req.body with
      | .error e => .error e
      | .ok raw => decoded n.codecs raw req.decompress

/-- The surroundings of a blocking transfer without cancellation, proxies and cookie jar. -/
def blocking : Http.World Unit where
  serve sent := match sent.getLast? with
    | none => .error .unexpectedEof
    | some req =>
      if isHttp req.url then n.sendOnce req
      else .error (.unsupportedScheme req.url.scheme)
  stopped _ := none
  idna := n.idna
  resolveProxy _ := none
  bypassed _ := false
  hashes := ⟨id, id⟩
  cnonce _ := ""
  purgeExpired := id
  cookieHeader _ _ := none
  ingestResponse j _ _ := j

def asyncOutcome (a : List Written × Except Error Response) : List Seen × Except Error Result :=
  (a.1.map fun r => (r.method, r.url, r.body),
    a.2.map fun resp => (resp.status, resp.headers, resp.body))

/-- What the asynchronous client sends, and what it hands out. -/
def runAsync (req : Request) : List Seen × Except Error Result :=
  asyncOutcome (exchange n.async req)

def blockingOutcome (a : List Http.Request × Except Error Http2.Response) :
    List Seen × Except Error Result :=
  (a.1.filterMap n.seen, a.2.map fun resp => (resp.status, resp.headers, resp.body))

end Network

/-- The same request for the blocking client, with its default options. -/
def Request.blocking (req : Request) (url : Url) : Http.Request :=
  { method := req.method, url, headers := req.headers, body := req.body
    followRedirects := req.followRedirects, decompress := req.decompress }

/-- What the blocking client sends, and what it hands out. -/
def Network.runBlocking (n : Network) (req : Request) : List Seen × Except Error Result :=
  match Url.parse req.url with
  | .error e => ([], .error e)
  | .ok url => n.blockingOutcome (Http.sendToInner n.blocking (req.blocking url) none)

/-- The same requests in the same order, and the same result unless both fail. -/
def Agree (a b : List Seen × Except Error Result) : Prop :=
  a.1 = b.1 ∧ a.2.toOption = b.2.toOption

instance (a b : List Seen × Except Error Result) : Decidable (Agree a b) :=
  inferInstanceAs (Decidable (_ ∧ _))

/-! ## Where they agree -/

/-- What the blocking client checks before it writes. -/
structure Request.Valid (req : Request) : Prop where
  method : validateMethod (toAsciiUppercase req.method) = .ok ()
  headers : req.headers.forM validateHeader = .ok ()

/-- A response that both clients follow. -/
structure FollowedAlike (n : Network) (req : Request) (s : Hop) (raw : RawResponse) : Prop where
  within : s.hops < maxRedirects
  method : raw.status = 301 ∨ raw.status = 302 →
    s.method = "GET" ∨ s.method = "HEAD" ∨ s.method = "POST"
  decodes : ∃ out, maybeDecodeBody n.codecs raw.headers raw.body req.decompress = .ok out

/-- A final response that both clients decode alike. -/
structure DecodedAlike (req : Request) (raw : RawResponse) : Prop where
  lines : req.decompress = true →
    (raw.headers.filter fun h => eqIgnoreAsciiCase h.1 "content-encoding").length ≤ 1
  empty : req.decompress = true → raw.body = [] → contentEncoding raw.headers = none

def Request.follows (req : Request) (raw : RawResponse) : Bool :=
  req.followRedirects && isRedirectStatus raw.status && (redirectLocation raw.headers).isSome

/-- A hop on which the clients do the same. -/
structure Hop.Alike (n : Network) (req : Request) (s : Hop) : Prop where
  ascii : isAscii s.url.host.toList = true
  body : ∀ raw, n.answer s.method s.url s.body = .ok raw → raw.body.length ≤ maxBodyBytes
  followed : ∀ raw, n.answer s.method s.url s.body = .ok raw → req.follows raw = true →
    FollowedAlike n req s raw
  final : ∀ raw, n.answer s.method s.url s.body = .ok raw → req.follows raw = false →
    DecodedAlike req raw

/-! ## The final response -/

theorem contentEncoding_of_le_one {headers : List Header}
    (h : (headers.filter fun h => eqIgnoreAsciiCase h.1 "content-encoding").length ≤ 1) :
    contentEncoding headers = headerValue headers "content-encoding" := by
  unfold contentEncoding headerValue
  rw [← List.head?_filter]
  generalize headers.filter (fun h => eqIgnoreAsciiCase h.1 "content-encoding") = lines at h
  match lines, h with
  | [], _ => rfl
  | [line], _ => simp

theorem finishResponse_eq {codecs : Codecs} {req : Request} {raw : RawResponse}
    (h : DecodedAlike req raw) :
    (finishResponse codecs ⟨raw.status, raw.reason, raw.headers, raw.body⟩
        req.decompress).map (fun resp => (resp.status, resp.headers, resp.body)) =
      (maybeDecodeBody codecs raw.headers raw.body req.decompress).map
        fun out => (raw.status, out.1, out.2) := by
  unfold finishResponse maybeDecodeBody
  cases hd : req.decompress with
  | false => rfl
  | true =>
    have hlines := contentEncoding_of_le_one (h.lines hd)
    have hempty := h.empty hd
    rw [← hlines]
    cases hb : raw.body with
    | nil =>
      rw [hempty hb]
      rfl
    | cons b rest =>
      cases contentEncoding raw.headers with
      | none => rfl
      | some enc =>
        simp only [Bool.not_true, Bool.false_eq_true, if_false, List.isEmpty_cons, Bool.or_self]
        cases codecs.decodeBody (b :: rest) enc with
        | error e => rfl
        | ok out =>
          simp only
          split <;> rfl

/-! ## The simulation -/

/-- The two clients before the same request. -/
structure Alike (n : Network) (req : Request) (s : Hop) (t : Http.Hop Unit) : Prop where
  url : t.req.url = s.url
  method : effectiveMethod t.req.toRequest = s.method
  body : t.req.body = s.body
  hops : t.hopsLeft + s.hops = 50
  follow : t.req.followRedirects = req.followRedirects
  decompress : t.req.decompress = req.decompress
  keepCase : t.req.keepMethodCase = false
  keepPost : t.req.keepPost = (false, false, false)
  idn : t.req.idn = true
  autoReferer : t.req.autoReferer = false
  digest : t.digestCreds = none
  jar : t.jar = none
  valid : validateMethod s.method = .ok ()
  headers : t.req.headers.forM validateHeader = .ok ()
  sent : s.sent.map (fun r => (r.method, r.url, r.body)) = t.sent.filterMap n.seen

/-! ## The blocking client, step by step -/

theorem setIdn_of_isAscii {idna : String → Option String} {url : Url} {enabled : Bool}
    (h : isAscii url.host.toList = true) : Url.setIdn idna url enabled = .ok url := by
  simp [Url.setIdn, Url.toAscii, h]

theorem writeRequest_ok {req : Http.Request} {absoluteForm : Bool}
    (hm : validateMethod (effectiveMethod req.toRequest) = .ok ())
    (hh : req.headers.forM validateHeader = .ok ()) :
    ∃ bytes, writeRequest req absoluteForm = .ok bytes := by
  unfold writeRequest
  rw [hm]
  simp [hh]

/-- Decoding leaves `Location` alone. -/
theorem redirectLocation_headersAfterDecode (headers : List Header) (out : Http2.Decoded) :
    redirectLocation (Http2.headersAfterDecode headers out) = redirectLocation headers := by
  have hname : ∀ h : Header, eqIgnoreAsciiCase h.1 "location" = true →
      eqIgnoreAsciiCase h.1 "content-encoding" = false ∧
        eqIgnoreAsciiCase h.1 "content-length" = false := by
    intro h hloc
    have heq : toAsciiLowercase h.1 = toAsciiLowercase "location" := by
      simpa [eqIgnoreAsciiCase] using hloc
    simp only [eqIgnoreAsciiCase, heq]
    decide
  have hstrip : (Http2.stripAfterDecode headers).find?
      (fun h => eqIgnoreAsciiCase h.1 "location") =
      headers.find? fun h => eqIgnoreAsciiCase h.1 "location" := by
    unfold Http2.stripAfterDecode
    rw [List.find?_filter]
    congr 1
    funext h
    cases hloc : eqIgnoreAsciiCase h.1 "location" with
    | false => simp
    | true => simp [(hname h hloc).1, (hname h hloc).2]
  unfold redirectLocation Http2.headersAfterDecode
  split
  · rw [hstrip]
  · rw [List.find?_append, hstrip]
    have hce : eqIgnoreAsciiCase "Content-Encoding" "location" = false := by decide
    simp [hce]

theorem redirectLocation_decoded {codecs : Codecs} {headers : List Header} {body : Bytes}
    {decompress : Bool} {out : List Header × Bytes}
    (h : maybeDecodeBody codecs headers body decompress = .ok out) :
    redirectLocation out.1 = redirectLocation headers := by
  unfold maybeDecodeBody at h
  split at h
  · cases h
    rfl
  · split at h
    · cases h
      rfl
    · split at h
      · cases h
      · split at h <;> cases h
        · exact redirectLocation_headersAfterDecode _ _
        · rfl

theorem forM_filter {headers : List Header} {p : Header → Bool}
    (h : headers.forM validateHeader = .ok ()) :
    (headers.filter p).forM validateHeader = .ok () := by
  induction headers with
  | nil => rfl
  | cons head rest ih =>
    have hcons : ∀ rest, (head :: rest).forM validateHeader =
        (validateHeader head >>= fun _ => rest.forM validateHeader) := fun _ => rfl
    rw [hcons] at h
    rw [List.filter_cons]
    cases hv : validateHeader head with
    | error e =>
      rw [hv] at h
      cases h
    | ok u =>
      rw [hv] at h
      split
      · rw [hcons, hv]
        exact ih h
      · exact ih h

/-- What a redirect keeps of a request with the default options. -/
structure Kept (req next : Http.Request) : Prop where
  follow : next.followRedirects = req.followRedirects
  decompress : next.decompress = req.decompress
  keepCase : next.keepMethodCase = req.keepMethodCase
  keepPost : next.keepPost = req.keepPost
  idn : next.idn = req.idn
  autoReferer : next.autoReferer = req.autoReferer
  headers : req.headers.forM validateHeader = .ok () → next.headers.forM validateHeader = .ok ()

theorem kept_nextRequest (req : Http.Request) (url : Url) (status : Nat)
    (hr : req.autoReferer = false) : Kept req (Http.nextRequest req url status) := by
  unfold Http.nextRequest
  simp only [hr, Bool.false_eq_true, if_false]
  constructor
  case headers =>
    intro hv
    split <;> split
    · exact forM_filter (forM_filter hv)
    · exact forM_filter hv
    · exact forM_filter hv
    · exact hv
  case autoReferer =>
    unfold Http.asGet Http.dropCredentials
    split <;> split <;> exact hr.symm
  all_goals
    unfold Http.asGet Http.dropCredentials
    split <;> split <;> rfl

theorem nextRequest_method (req : Http.Request) (url : Url) (status : Nat) :
    (Http.nextRequest req url status).method =
      if Http.toGet req status then "GET" else req.method := by
  unfold Http.nextRequest Http.asGet Http.dropCredentials Http.setReferer Http.toGet
  grind

theorem nextRequest_body (req : Http.Request) (url : Url) (status : Nat) :
    (Http.nextRequest req url status).body =
      if Http.toGet req status then [] else req.body := by
  unfold Http.nextRequest Http.asGet Http.dropCredentials Http.setReferer Http.toGet
  grind

/-- Both clients turn the same methods into GET, where 301 and 302 answer a GET, a HEAD or a
POST. -/
theorem toGet_eq_rewrites {req : Http.Request} {s : Hop} {status : Nat}
    (hm : toAsciiUppercase req.method = s.method) (hk : req.keepPost = (false, false, false))
    (hr : isRedirectStatus status = true)
    (ha : status = 301 ∨ status = 302 → s.method = "GET" ∨ s.method = "HEAD" ∨ s.method = "POST") :
    Http.toGet req status = s.rewrites status := by
  have hcase : ∀ name, toAsciiUppercase name = name →
      eqIgnoreAsciiCase req.method name = (s.method == name) := by
    intro name hname
    rw [eqIgnoreAsciiCase_eq_toAsciiUppercase, hm, hname]
  simp only [isRedirectStatus, Bool.or_eq_true, beq_iff_eq] at hr
  unfold Http.toGet Hop.rewrites
  simp only [hcase "POST" (by decide), hcase "GET" (by decide), hcase "HEAD" (by decide),
    Http.keepsPost, hk]
  rcases hr with (((rfl | rfl) | rfl) | rfl) | rfl
  · rcases ha (.inl rfl) with h | h | h <;> rw [h] <;> decide
  · rcases ha (.inr rfl) with h | h | h <;> rw [h] <;> decide
  · by_cases hg : s.method = "GET" <;> by_cases hh : s.method = "HEAD" <;> simp [hg, hh]
  · simp
  · simp

/-- The request as it is sent by a client without proxy and jar. -/
def outgoing (req : Http.Request) : Http.Request := { req with proxyBypassed := false }

theorem dispatched_of_no_jar {n : Network} {t : Http.Hop Unit} (hj : t.jar = none) :
    t.dispatched n.blocking = { t with sent := t.sent ++ [outgoing t.req] } := by
  unfold Http.Hop.dispatched Http.Hop.snapshot
  simp only [hj]
  rfl

theorem turn_blocking {n : Network} {t : Http.Hop Unit} (hj : t.jar = none)
    (hd : t.digestCreds = none) (hhttp : Network.isHttp t.req.url = true) :
    t.turn n.blocking = match n.sendOnce (outgoing t.req) with
      | .error e => .done (t.sent ++ [outgoing t.req], .error e)
      | .ok resp => { t with sent := t.sent ++ [outgoing t.req] }.receive n.blocking resp := by
  have hurl : (outgoing t.req).url = t.req.url := rfl
  have hserve : n.blocking.serve (t.sent ++ [outgoing t.req]) = n.sendOnce (outgoing t.req) := by
    simp [Network.blocking, hurl, hhttp]
  have hstop : n.blocking.stopped t.sent = none := rfl
  unfold Http.Hop.turn
  simp only [hstop, dispatched_of_no_jar hj, hserve]
  cases n.sendOnce (outgoing t.req) with
  | error e => rfl
  | ok resp =>
    have hingest : ({ t with sent := t.sent ++ [outgoing t.req] } : Http.Hop Unit).ingest
        n.blocking resp = { t with sent := t.sent ++ [outgoing t.req] } := by
      unfold Http.Hop.ingest
      split
      · simp [hj]
      · rfl
    have hanswer : ({ t with sent := t.sent ++ [outgoing t.req] } : Http.Hop Unit).digestAnswer
        n.blocking resp = none := by
      simp only [Http.Hop.digestAnswer, hd]
      cases Http.Hop.challenge resp <;> rfl
    simp only [hingest, hanswer]

/-- A request that cannot be made fails, and is not seen. -/
theorem turn_blocking_refused {n : Network} {t : Http.Hop Unit} (hj : t.jar = none)
    (h : Network.isHttp t.req.url = false ∨ (n.connect t.req.url).isSome = true) :
    ∃ e, t.turn n.blocking = .done (t.sent ++ [outgoing t.req], .error e) ∧
      n.seen (outgoing t.req) = none := by
  have hurl : (outgoing t.req).url = t.req.url := rfl
  have hserve : ∃ e, n.blocking.serve (t.sent ++ [outgoing t.req]) = .error e := by
    cases hhttp : Network.isHttp t.req.url with
    | false => exact ⟨.unsupportedScheme t.req.url.scheme, by simp [Network.blocking, hurl, hhttp]⟩
    | true =>
      obtain ⟨e, he⟩ := Option.isSome_iff_exists.mp (h.resolve_left (by simp [hhttp]))
      exact ⟨e, by simp [Network.blocking, hurl, hhttp, Network.sendOnce, he]⟩
  obtain ⟨e, he⟩ := hserve
  have hstop : n.blocking.stopped t.sent = none := rfl
  refine ⟨e, ?_, ?_⟩
  · unfold Http.Hop.turn
    simp only [hstop, dispatched_of_no_jar hj, he]
  · rcases h with h | h <;> simp [Network.seen, hurl, h]

/-! ## The simulation, step by step -/

/-- The request both clients are about to send. -/
def Hop.seen (s : Hop) : Seen := (s.method, s.url, s.body)

theorem Alike.seen_outgoing {n : Network} {req : Request} {s : Hop} {t : Http.Hop Unit}
    (h : Alike n req s t) (hhttp : Network.isHttp s.url = true) (hc : n.connect s.url = none) :
    n.seen (outgoing t.req) = some s.seen ∧
      n.sendOnce (outgoing t.req) = match n.answer s.method s.url s.body with
        | .error e => .error e
        | .ok raw => Network.decoded n.codecs raw req.decompress := by
  have hmethod : effectiveMethod (outgoing t.req).toRequest = s.method := h.method
  have hurl : (outgoing t.req).url = s.url := h.url
  have hbody : (outgoing t.req).body = s.body := h.body
  have hdec : (outgoing t.req).decompress = req.decompress := h.decompress
  obtain ⟨bytes, hbytes⟩ := @writeRequest_ok (outgoing t.req) (viaPlainHttpProxy (outgoing t.req))
    (by rw [hmethod]; exact h.valid) h.headers
  constructor
  · simp [Network.seen, hurl, hhttp, hc, hbytes, hmethod, hbody, Hop.seen]
  · simp only [Network.sendOnce, hurl, hc, hbytes, hmethod, hbody, hdec]

theorem Alike.sent_written {n : Network} {req : Request} {s : Hop} {t : Http.Hop Unit}
    (h : Alike n req s t) (hhttp : Network.isHttp s.url = true) (hc : n.connect s.url = none) :
    (s.sent ++ [s.written req]).map (fun r => (r.method, r.url, r.body)) =
      (t.sent ++ [outgoing t.req]).filterMap n.seen := by
  rw [List.map_append, List.filterMap_append, h.sent]
  simp [(h.seen_outgoing hhttp hc).1, Hop.seen, Hop.written]

theorem refuses_eq_none_iff {n : Network} {sent : List Written} {url : Url} :
    n.async.refuses sent url = none ↔ n.connect url = none ∧ Network.isHttp url = true := by
  cases hc : n.connect url with
  | some e => simp [World.refuses, Network.async, hc]
  | none =>
    simp only [World.refuses, Network.async, Network.isHttp, hc, true_and]
    split <;> simp_all

/-- Where the asynchronous client cannot connect, the blocking one fails too. -/
theorem Alike.refused {n : Network} {req : Request} {s : Hop} {t : Http.Hop Unit}
    (h : Alike n req s t) {e : Error} (hr : n.async.refuses s.sent s.url = some e) :
    ∃ b, t.turn n.blocking = .done b ∧
      Agree (Network.asyncOutcome (s.sent, .error e)) (n.blockingOutcome b) := by
  have hnot : Network.isHttp t.req.url = false ∨ (n.connect t.req.url).isSome = true := by
    have hne : n.async.refuses s.sent s.url ≠ none := by simp [hr]
    rw [ne_eq, refuses_eq_none_iff, not_and_or] at hne
    rw [h.url]
    rcases hne with hc | hh
    · exact .inr (Option.isSome_iff_ne_none.mpr hc)
    · exact .inl (by simpa using hh)
  obtain ⟨e', hturn, hseen⟩ := turn_blocking_refused h.jar hnot
  refine ⟨_, hturn, ?_, rfl⟩
  simp [Network.asyncOutcome, Network.blockingOutcome, h.sent, hseen]

/-- The blocking client's hop after a redirect. -/
theorem Alike.redirected {n : Network} {req : Request} {s : Hop} {t : Http.Hop Unit}
    (h : Alike n req s t) (hhttp : Network.isHttp s.url = true) (hc : n.connect s.url = none)
    {raw : RawResponse} (hf : FollowedAlike n req s raw)
    (hstatus : isRedirectStatus raw.status = true) (url : Url) :
    Alike n req (s.redirected raw.status url (s.sent ++ [s.written req]))
      { t with
        sent := t.sent ++ [outgoing t.req], req := Http.nextRequest t.req url raw.status
        hopsLeft := t.hopsLeft - 1, firstHop := false } := by
  have hkept := kept_nextRequest t.req url raw.status h.autoReferer
  have hm : toAsciiUppercase t.req.method = s.method := by
    simpa [effectiveMethod, h.keepCase] using h.method
  have hget := toGet_eq_rewrites hm h.keepPost hstatus hf.method
  have hwithin := hf.within
  have hhops := h.hops
  refine ⟨by simp [Hop.redirected], ?_, ?_, ?_, hkept.follow.trans h.follow,
    hkept.decompress.trans h.decompress, hkept.keepCase.trans h.keepCase,
    hkept.keepPost.trans h.keepPost, hkept.idn.trans h.idn,
    hkept.autoReferer.trans h.autoReferer, h.digest, h.jar, ?_, hkept.headers h.headers,
    h.sent_written hhttp hc⟩
  · simp only [effectiveMethod, hkept.keepCase, h.keepCase, Bool.false_eq_true, if_false,
      nextRequest_method, hget, Hop.redirected]
    split
    · decide
    · exact hm
  · simp only [nextRequest_body, hget, Hop.redirected]
    split
    · rfl
    · exact h.body
  · simp only [Hop.redirected]
    unfold maxRedirects at hwithin
    omega
  · simp only [Hop.redirected]
    split
    · decide
    · exact h.valid

/-- How one turn of the two clients compares. -/
inductive Together (n : Network) (req : Request) (s : Hop) (t : Http.Hop Unit) : Prop where
  | ended {a : List Written × Except Error Response}
      {b : List Http.Request × Except Error Http2.Response} (hs : s.turn n.async req = .done a)
      (ht : t.turn n.blocking = .done b)
      (h : Agree (Network.asyncOutcome a) (n.blockingOutcome b))
  /-- Only one of them looks at the scheme of the target before it connects. -/
  | refused {s' : Hop} {b : List Http.Request × Except Error Http2.Response} {e : Error}
      (hs : s.turn n.async req = .next s') (hhttp : Network.isHttp s'.url = false)
      (ht : t.turn n.blocking = .done b)
      (h : Agree (Network.asyncOutcome (s'.sent, .error e)) (n.blockingOutcome b))
  | both {s' : Hop} (hs : s.turn n.async req = .next s')
      (h : isAscii s'.url.host.toList = true →
        ∃ t', t.turn n.blocking = .next t' ∧ Alike n req s' t')

theorem Hop.receive_final {w : World} {req : Request} {s : Hop} {sent : List Written}
    {raw : RawResponse} (h : req.follows raw = false) :
    s.receive w req sent ⟨raw.status, raw.reason, raw.headers, raw.body⟩ =
      .done (sent, finishResponse w.codecs ⟨raw.status, raw.reason, raw.headers, raw.body⟩
        req.decompress) := by
  unfold Hop.receive
  unfold Request.follows at h
  cases hl : redirectLocation raw.headers <;> cases hf : req.followRedirects <;>
    cases hst : isRedirectStatus raw.status <;> simp_all

theorem Request.follows_iff {req : Request} {raw : RawResponse} :
    req.follows raw = true ↔ req.followRedirects = true ∧ isRedirectStatus raw.status = true ∧
      ∃ location, redirectLocation raw.headers = some location := by
  simp [Request.follows, and_assoc, Option.isSome_iff_exists]

/-- The blocking client hands out a response that is not followed. -/
theorem receive_blocking_final {n : Network} {req : Request} {t : Http.Hop Unit}
    {raw : RawResponse} {resp : Http2.Response} (h : req.follows raw = false)
    (hfollow : t.req.followRedirects = req.followRedirects) (hstatus : resp.status = raw.status)
    (hloc : redirectLocation resp.headers = redirectLocation raw.headers) :
    t.receive n.blocking resp =
      .done (t.sent, .ok { resp with finalUrl := Url.toString t.req.url }) := by
  unfold Http.Hop.receive
  unfold Request.follows at h
  rw [hfollow, hstatus, hloc]
  cases hl : redirectLocation raw.headers <;> cases hf : req.followRedirects <;>
    cases hst : isRedirectStatus raw.status <;> simp_all

theorem receive_blocking_follow {n : Network} {t : Http.Hop Unit} {resp : Http2.Response}
    {location : String} (hfollow : t.req.followRedirects = true)
    (hstatus : isRedirectStatus resp.status = true)
    (hloc : redirectLocation resp.headers = some location) :
    t.receive n.blocking resp = match t.followRedirect n.blocking resp.status location with
      | .error e => .done (t.sent, .error e)
      | .ok t' => .next t' := by
  unfold Http.Hop.receive
  simp only [hfollow, hstatus, hloc, Bool.not_true, Bool.or_self, Bool.false_eq_true, if_false]
  split <;> rename_i heq <;> rw [heq]

/-- The target makes no request, or cannot be resolved. -/
theorem followRedirect_error {n : Network} {t : Http.Hop Unit} {status : Nat} {location : String}
    (h : ∀ url, Url.resolve t.req.url location = .ok url → Network.isHttp url = false) :
    ∃ e, t.followRedirect n.blocking status location = .error e := by
  unfold Http.Hop.followRedirect Http.redirectRequest
  split
  · exact ⟨_, rfl⟩
  · cases hres : Url.resolve t.req.url location with
    | error e => exact ⟨e, rfl⟩
    | ok url =>
      have hscheme : url.scheme ≠ "http" ∧ url.scheme ≠ "https" := by
        simpa [Network.isHttp] using h url hres
      exact ⟨.unsupportedScheme url.scheme, by simp [hscheme]⟩

theorem followRedirect_ok {n : Network} {t : Http.Hop Unit} {status : Nat} {location : String}
    {url : Url} (hleft : t.hopsLeft ≠ 0) (hres : Url.resolve t.req.url location = .ok url)
    (hhttp : Network.isHttp url = true) (hascii : isAscii url.host.toList = true) :
    t.followRedirect n.blocking status location = .ok { t with
      req := Http.nextRequest t.req url status, hopsLeft := t.hopsLeft - 1, firstHop := false } := by
  have hscheme : ¬(url.scheme ≠ "http" ∧ url.scheme ≠ "https") := by
    rintro ⟨h1, h2⟩
    simp [Network.isHttp, h1, h2] at hhttp
  unfold Http.Hop.followRedirect Http.redirectRequest
  rw [if_neg hleft, hres]
  simp only [hscheme, if_false, setIdn_of_isAscii hascii]

theorem Alike.together {n : Network} {req : Request} {s : Hop} {t : Http.Hop Unit}
    (h : Alike n req s t) (hs : s.Alike n req) : Together n req s t := by
  cases hr : n.async.refuses s.sent s.url with
  | some e =>
    obtain ⟨b, hb, hagree⟩ := h.refused hr
    exact .ended (by simp [Hop.turn, hr]) hb hagree
  | none =>
    obtain ⟨hc, hhttp⟩ := refuses_eq_none_iff.mp hr
    obtain ⟨-, honce⟩ := h.seen_outgoing hhttp hc
    have hsent := h.sent_written hhttp hc
    have hturn := @turn_blocking n t h.jar h.digest (by rw [h.url]; exact hhttp)
    have hserve : n.async.serve (s.sent ++ [s.written req]) =
        match n.answer s.method s.url s.body with
        | .error e => .error e
        | .ok raw => Network.readBuffered raw := by
      simp only [Network.async, List.getLast?_concat]
      rfl
    cases ha : n.answer s.method s.url s.body with
    | error e =>
      simp only [ha] at honce hserve
      rw [honce] at hturn
      have hsturn : s.turn n.async req = .done (s.sent ++ [s.written req], .error e) := by
        simp only [Hop.turn, hr, hserve]
      exact .ended hsturn hturn ⟨hsent, rfl⟩
    | ok raw =>
      have hread : Network.readBuffered raw =
          .ok ⟨raw.status, raw.reason, raw.headers, raw.body⟩ :=
        if_neg (Nat.not_lt.mpr (hs.body raw ha))
      simp only [ha, hread] at honce hserve
      have hsturn : s.turn n.async req =
          s.receive n.async req (s.sent ++ [s.written req])
            ⟨raw.status, raw.reason, raw.headers, raw.body⟩ := by
        simp only [Hop.turn, hr, hserve]
      cases hfollows : req.follows raw with
      | false =>
        rw [Hop.receive_final hfollows] at hsturn
        have hfinish := @finishResponse_eq n.codecs req raw (hs.final raw ha hfollows)
        unfold Network.decoded at honce
        cases hd : maybeDecodeBody n.codecs raw.headers raw.body req.decompress with
        | error e =>
          rw [hd] at honce hfinish
          rw [honce] at hturn
          refine .ended hsturn hturn ⟨hsent, ?_⟩
          exact congrArg Except.toOption hfinish
        | ok out =>
          rw [hd] at honce hfinish
          rw [honce] at hturn
          refine .ended hsturn (hturn.trans (receive_blocking_final hfollows h.follow rfl
            (redirectLocation_decoded hd))) ⟨hsent, ?_⟩
          exact congrArg Except.toOption hfinish
      | true =>
        obtain ⟨hfollow, hstatus, location, hloc⟩ := Request.follows_iff.mp hfollows
        have hf := hs.followed raw ha hfollows
        obtain ⟨out, hd⟩ := hf.decodes
        unfold Network.decoded at honce
        rw [hd] at honce
        rw [honce] at hturn
        have hfollowed := hturn.trans (receive_blocking_follow (h.follow.trans hfollow) hstatus
          ((redirectLocation_decoded hd).trans hloc))
        have hwithin := hf.within
        have hhops := h.hops
        have hleft : t.hopsLeft ≠ 0 := by
          unfold maxRedirects at hwithin
          omega
        have hfail : (∀ url, Url.resolve t.req.url location = .ok url →
            Network.isHttp url = false) → ∃ e, t.turn n.blocking =
              .done (t.sent ++ [outgoing t.req], .error e) := by
          intro hnone
          obtain ⟨e, he⟩ := @followRedirect_error n
            { t with sent := t.sent ++ [outgoing t.req] } raw.status location hnone
          simp only [he] at hfollowed
          exact ⟨e, hfollowed⟩
        cases hres : Url.resolve s.url location with
        | error e =>
          have hsdone : s.turn n.async req = .done (s.sent ++ [s.written req], .error e) := by
            rw [hsturn]
            simp [Hop.receive, hfollow, hstatus, hloc, Nat.not_le.mpr hwithin, hres]
          obtain ⟨e', he'⟩ := hfail (by simp [h.url, hres])
          exact .ended hsdone he' ⟨hsent, rfl⟩
        | ok url =>
          have hsnext : s.turn n.async req =
              .next (s.redirected raw.status url (s.sent ++ [s.written req])) :=
            Hop.turn_next_iff.mpr
              ⟨_, location, url, ⟨hfollow, hr, hserve, hstatus, hloc, hwithin, hres⟩, rfl⟩
          cases hnext : Network.isHttp url with
          | false =>
            obtain ⟨e', he'⟩ := hfail (by simp [h.url, hres, hnext])
            exact .refused hsnext hnext he' (e := e') ⟨hsent, rfl⟩
          | true =>
            refine .both hsnext fun hascii => ?_
            have hok := @followRedirect_ok n { t with sent := t.sent ++ [outgoing t.req] }
              raw.status location url hleft (by rw [← hres, ← h.url]) hnext hascii
            simp only [hok] at hfollowed
            exact ⟨_, hfollowed, h.redirected hhttp hc hf hstatus url⟩

/-! ## The runs -/

theorem runs_agree {n : Network} {req : Request} {s : Hop} {t : Http.Hop Unit}
    (h : Alike n req s t)
    (hs : ∀ v ∈ Loop.visited (Hop.turn n.async req) Hop.budget s, v.Alike n req) :
    Agree (Network.asyncOutcome (Loop.run (Hop.turn n.async req) Hop.budget Hop.turn_lowers s))
      (n.blockingOutcome
        (Loop.run (Http.Hop.turn n.blocking) Http.Hop.budget (Http.Hop.turn_lowers n.blocking) t)) := by
  induction hb : s.budget using Nat.strongRecOn generalizing s t with
  | ind k ih =>
    cases h.together (hs s (Loop.self_mem_visited s)) with
    | ended hsd htd hagree =>
      rw [Loop.run_done hsd, Loop.run_done htd]
      exact hagree
    | refused hsn hhttp htd hagree =>
      rename_i s' b e
      have hrefuse : n.async.refuses s'.sent s'.url ≠ none := by
        rw [ne_eq, refuses_eq_none_iff, hhttp]
        simp
      obtain ⟨e', he'⟩ := Option.ne_none_iff_exists'.mp hrefuse
      have hsd : s'.turn n.async req = .done (s'.sent, .error e') := by
        simp [Hop.turn, he']
      rw [Loop.run_next hsn, Loop.run_done hsd, Loop.run_done htd]
      exact ⟨hagree.1, hagree.2⟩
    | both hsn hnext =>
      rename_i s'
      rw [Loop.visited_next Hop.turn_lowers hsn] at hs
      have hs' := fun v hv => hs v (List.mem_cons_of_mem s hv)
      obtain ⟨t', htn, halike⟩ := hnext (hs' s' (Loop.self_mem_visited s')).ascii
      rw [Loop.run_next hsn, Loop.run_next htn]
      exact ih _ (hb ▸ Hop.turn_lowers s s' hsn) halike hs' rfl

/-- Both clients send the same requests and end the same way: for a method and fields that the
blocking client accepts, and servers whose answers to the hops of the chain are treated alike. -/
theorem clients_agree (n : Network) (req : Request) (hv : req.Valid)
    (hs : ∀ s ∈ hops n.async req, s.Alike n req) : Agree (n.runAsync req) (n.runBlocking req) := by
  unfold Network.runAsync Network.runBlocking exchange
  unfold hops at hs
  cases hp : Url.parse req.url with
  | error e =>
    simp only [start, hp]
    exact ⟨rfl, rfl⟩
  | ok url =>
    simp only [start, hp] at hs ⊢
    have hascii := (hs _ (Loop.self_mem_visited _)).ascii
    have hstart : Http.Hop.start n.blocking (req.blocking url) none = .ok
        { req := req.blocking url, digestCreds := none, digestAttempts := 0, hopsLeft := 50
          firstHop := true, jar := none, sent := [] } := by
      simp [Http.Hop.start, Request.blocking, setIdn_of_isAscii hascii, Http.applyProxyResolver]
    simp only [Http.sendToInner, hstart]
    exact runs_agree ⟨rfl, rfl, rfl, rfl, rfl, rfl, rfl, rfl, rfl, rfl, rfl, rfl, hv.method,
      hv.headers, rfl⟩ hs

/-- One host, whose path `/a` answers with the first response and any other with the second. -/
def Network.twoPaths (first second : RawResponse) : Network where
  connect _ := none
  answer _ url _ := .ok (if url.path = "/a" then first else second)
  codecs := .unavailable
  idna _ := some "xn--idn"

def seeOther : RawResponse := ⟨303, "See Other", "HTTP/1.1", [("Location", "/b")], [0x31]⟩

def plainOk : RawResponse := ⟨200, "OK", "HTTP/1.1", [], [0x32]⟩

def posting : Request where
  method := "post"
  url := "http://h.test/a"
  headers := [("X-Id", "1")]
  body := [0x33]
  followRedirects := true

theorem clients_agree_see_other :
    Agree ((Network.twoPaths seeOther plainOk).runAsync posting)
      ((Network.twoPaths seeOther plainOk).runBlocking posting) := by
  have hops : hops (Network.twoPaths seeOther plainOk).async posting =
      [⟨⟨"http", none, "h.test", 80, "/a"⟩, "POST", [0x33], 0, []⟩,
        ⟨⟨"http", none, "h.test", 80, "/b"⟩, "GET", [], 1,
          [⟨⟨"http", none, "h.test", 80, "/a"⟩, "POST", "/a",
            [("Host", "h.test"), ("User-Agent", "rsurl"), ("Accept", "*/*"),
              ("Connection", "close"), ("Content-Length", "1"), ("X-Id", "1")], [0x33]⟩]⟩] := by
    decide +kernel
  refine clients_agree _ _ ⟨by decide +kernel, by decide +kernel⟩ ?_
  rw [hops]
  rintro s (- | ⟨-, - | ⟨-, ⟨⟩⟩⟩)
  · have hfollows : posting.follows seeOther = true := by decide +kernel
    refine ⟨by decide +kernel, ?_, ?_, ?_⟩
    · rintro raw ⟨⟩
      decide +kernel
    · rintro raw ⟨⟩ -
      exact ⟨by decide +kernel, by simp [seeOther], ⟨_, rfl⟩⟩
    · rintro raw ⟨⟩ hfinal
      exact absurd hfinal (by simp [hfollows])
  · have hfollows : posting.follows plainOk = false := by decide +kernel
    refine ⟨by decide +kernel, ?_, ?_, ?_⟩
    · rintro raw ⟨⟩
      decide +kernel
    · rintro raw ⟨⟩ hfollow
      exact absurd hfollow (by simp [hfollows])
    · rintro raw ⟨⟩ -
      exact ⟨by decide +kernel, by decide +kernel⟩

/-- The clients agree on a request to a host with these two responses. -/
def AgreeOn (first : RawResponse) (req : Request) : Prop :=
  Agree ((Network.twoPaths first plainOk).runAsync req)
    ((Network.twoPaths first plainOk).runBlocking req)

instance (first : RawResponse) (req : Request) : Decidable (AgreeOn first req) :=
  inferInstanceAs (Decidable (Agree _ _))

/-- Where the clients part: a PUT after a 301; a method and a field that are not checked; a host
that is not ASCII; a redirect whose body does not decode; several lines of codings; and an empty
body with a coding. -/
theorem clients_differ :
    ¬AgreeOn { seeOther with status := 301 } { posting with method := "PUT" } ∧
    ¬AgreeOn plainOk { posting with method := "A B" } ∧
    ¬AgreeOn plainOk { posting with headers := [("X", "a\r\nb")] } ∧
    ¬AgreeOn plainOk { posting with url := "http://é.test/a" } ∧
    ¬AgreeOn { seeOther with headers := [("Location", "/b"), ("Content-Encoding", "gzip")] }
      posting ∧
    ¬AgreeOn { plainOk with
      headers := [("Content-Encoding", "identity"), ("Content-Encoding", "gzip")] } posting ∧
    ¬AgreeOn { plainOk with headers := [("Content-Encoding", "gzip")], body := [] } posting := by
  refine ⟨?_, ?_, ?_, ?_, ?_, ?_, ?_⟩ <;> decide +kernel

/-- A body beyond the buffer of the asynchronous client. -/
theorem large_body_differs {raw : RawResponse} (h : maxBodyBytes < raw.body.length)
    (codecs : Codecs) :
    (Network.readBuffered raw).toOption = none ∧
      (Network.decoded codecs raw false).toOption ≠ none := by
  constructor
  · simp [Network.readBuffered, h, Except.toOption]
  · simp [Network.decoded, maybeDecodeBody, Except.toOption]

end Rsurl.Aio
