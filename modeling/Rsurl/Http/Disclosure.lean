import Rsurl.Http.Versions
import Rsurl.Http.Credentials

/-!
# What a digest transfer discloses

Which credentials are written when a request asks for digest answers. A buffered transfer takes
`basicAuth` out of the request; the streamed and the multiplexed ones do not, and the writers of
HTTP/1.1 and HTTP/2 fall back to the userinfo of the URL.
-/

namespace Rsurl.Http

open Text Hpack Library
open Library.Loop (Turn)
open Http2 (Url Response effectiveBasicAuth splitUserinfo)

variable {J : Type}

/-! ## Written requests -/

inductive Version where
  | http1
  | http2
  | http3
  deriving DecidableEq, Repr

/-- The fields of a request as a version writes them. -/
def writtenFields : Version → Request → List Header
  | .http1, req => requestFields req (viaPlainHttpProxy req)
  | .http2, req => (Http2.requestHeaderFields req.toRequest).2
  | .http3, req => (Http3.requestHeaderFields req.toRequest).2

structure Transmission where
  version : Version
  /-- The request with its signature, if it has one. -/
  request : Request
  /-- The requests so far, this one last. -/
  sent : List Request
  deriving DecidableEq, Repr

def Transmission.authorizations (t : Transmission) : List String :=
  valuesOf "authorization" (writtenFields t.version t.request)

/-- The credentials that the writers use. -/
def credentials (req : Request) : Option (String × String) :=
  match req.basicAuth with
  | some creds => some creds
  | none => req.url.userinfo.map splitUserinfo

def basicValue (user pass : String) : String := s!"Basic {basicToken user pass}"

def Transmission.Discloses (user pass : String) (t : Transmission) : Prop :=
  basicValue user pass ∈ t.authorizations

instance (user pass : String) (t : Transmission) : Decidable (t.Discloses user pass) :=
  inferInstanceAs (Decidable (_ ∈ _))

/-- No field of the request holds the credentials, and no writer adds them: HTTP/3 never does, a
strict request and one with an `Authorization` field keep theirs, and otherwise the credentials in
reach are others. -/
def Transmission.Withholds (user pass : String) (t : Transmission) : Prop :=
  basicValue user pass ∉ valuesOf "authorization" t.request.headers ∧
    (t.version = .http3 ∨ t.request.strictHeaders = true ∨
      given t.request "authorization" = true ∨
      ∀ u p, credentials t.request = some (u, p) →
        (u = "" ∧ p = "") ∨ basicValue u p ≠ basicValue user pass)

theorem effectiveBasicAuth_eq_some {req : Request} {token : String} :
    effectiveBasicAuth req.toRequest = some token ↔
      ∃ u p, credentials req = some (u, p) ∧ ¬(u = "" ∧ p = "") ∧ basicToken u p = token := by
  have hcreds : effectiveBasicAuth req.toRequest = (credentials req).bind fun c =>
      if c.1 = "" ∧ c.2 = "" then none else some (basicToken c.1 c.2) := by
    unfold effectiveBasicAuth credentials
    cases req.basicAuth <;> rfl
  rw [hcreds, Option.bind_eq_some_iff]
  constructor
  · rintro ⟨⟨u, p⟩, hc, h⟩
    obtain ⟨hne, htoken⟩ := Option.ite_none_left_eq_some.mp h
    exact ⟨u, p, hc, hne, by simpa using htoken⟩
  · rintro ⟨u, p, hc, hne, rfl⟩
    exact ⟨(u, p), hc, Option.ite_none_left_eq_some.mpr ⟨hne, rfl⟩⟩

theorem mem_automaticAuthorization {req : Request} {value : String} :
    value ∈ valuesOf "authorization" (automaticAuthorization req) ↔
      given req "authorization" = false ∧
        ∃ u p, credentials req = some (u, p) ∧ ¬(u = "" ∧ p = "") ∧ value = basicValue u p := by
  have hname : eqIgnoreAsciiCase "Authorization" "authorization" = true := by decide
  have hvalue : ∀ token, effectiveBasicAuth req.toRequest = some token →
      (value = s!"Basic {token}" ↔ ∃ u p, credentials req = some (u, p) ∧
        ¬(u = "" ∧ p = "") ∧ value = basicValue u p) := by
    intro token htoken
    obtain ⟨u, p, hc, hne, rfl⟩ := effectiveBasicAuth_eq_some.mp htoken
    constructor
    · rintro rfl
      exact ⟨u, p, hc, hne, rfl⟩
    · rintro ⟨u', p', hc', -, rfl⟩
      rw [hc, Option.some.injEq, Prod.mk.injEq] at hc'
      rw [basicValue, hc'.1, hc'.2]
  unfold automaticAuthorization
  cases given req "authorization" with
  | true => simp [valuesOf]
  | false =>
    cases he : effectiveBasicAuth req.toRequest with
    | none =>
      have hnone : ¬∃ u p, credentials req = some (u, p) ∧ ¬(u = "" ∧ p = "") ∧
          value = basicValue u p := by
        rintro ⟨u, p, hc, hne, -⟩
        have := effectiveBasicAuth_eq_some.mpr ⟨u, p, hc, hne, rfl⟩
        simp [he] at this
      simpa [valuesOf] using hnone
    | some token => simpa [valuesOf, hname] using hvalue token he

/-! ## The fields of each version -/

theorem valuesOf_other {name field value : String} (h : eqIgnoreAsciiCase field name = false) :
    valuesOf name [(field, value)] = [] := by
  simp [valuesOf, h]

theorem valuesOf_unless {name field value : String} (h : eqIgnoreAsciiCase field name = false)
    (c : Bool) : valuesOf name (if c then [] else [(field, value)]) = [] := by
  cases c
  · exact valuesOf_other h
  · rfl

theorem valuesOf_if {name field value : String} (h : eqIgnoreAsciiCase field name = false)
    (c : Prop) [Decidable c] : valuesOf name (if c then [(field, value)] else []) = [] := by
  split
  · exact valuesOf_other h
  · rfl

theorem authorizations_http1 (req : Request) (absoluteForm : Bool) :
    valuesOf "authorization" (requestFields req absoluteForm) =
      valuesOf "authorization" req.headers ++ if req.strictHeaders then []
        else valuesOf "authorization" (automaticAuthorization req) := by
  have hauto : valuesOf "authorization" (automaticFields req) =
      if req.strictHeaders then [] else valuesOf "authorization" (automaticAuthorization req) := by
    rw [automaticFields_eq]
    split
    · rfl
    · simp only [valuesOf_append,
        @valuesOf_unless "authorization" "User-Agent" Http2.userAgent (by decide),
        @valuesOf_unless "authorization" "Accept" "*/*" (by decide),
        @valuesOf_unless "authorization" "Accept-Encoding" "gzip, deflate" (by decide),
        List.append_nil]
  simp only [requestFields, valuesOf_append, hauto,
    @valuesOf_unless "authorization" "Host" (hostHeaderValue req.url) (by decide),
    @valuesOf_if "authorization" "Content-Length" (toString req.body.length) (by decide),
    List.nil_append, List.append_nil]
  have hproxy (user pass : String) :
      valuesOf "authorization" [("Proxy-Authorization", s!"Basic {basicToken user pass}")] = [] :=
    valuesOf_other (by decide)
  split
  · rw [hproxy, List.nil_append]
  · rfl

/-- The caller's `Authorization` fields are sent by HTTP/2 and HTTP/3. -/
theorem authorizations_kept {req : Request} {p : Header → Bool}
    (hp : ∀ f : Header, toAsciiLowercase f.1 = "authorization" → p f = true) :
    valuesOf "authorization" ((req.headers.filter p).map lower) =
        valuesOf "authorization" req.headers ∧
      (((req.headers.filter p).map lower).any fun f => f.1 == "authorization") =
        given req "authorization" := by
  have hname : toAsciiLowercase "authorization" = "authorization" := by decide
  have hfield : ∀ f ∈ req.headers, eqIgnoreAsciiCase f.1 "authorization" = true → p f = true :=
    fun f _ hf => hp f ((eqIgnoreAsciiCase_iff.mp hf).trans hname)
  exact ⟨by rw [valuesOf_map_lower, valuesOf_filter hfield],
    any_sentHeaders hname ⟨p, rfl, hfield⟩⟩

theorem authorizations_http2 (req : Request) :
    valuesOf "authorization" (Http2.requestHeaderFields req.toRequest).2 =
      valuesOf "authorization" req.headers ++ if req.strictHeaders then []
        else valuesOf "authorization" (automaticAuthorization req) := by
  obtain ⟨hvalues, hgiven⟩ := @authorizations_kept req
    (fun h => !(Http2.isConnectionSpecificHeader h.1 || eqIgnoreAsciiCase h.1 "host")) (by
      intro f hf
      have h1 : Http2.isConnectionSpecificHeader f.1 = false := by
        rw [← isConnectionSpecificHeader_lower, hf]
        decide
      have h2 : eqIgnoreAsciiCase f.1 "host" = false := by
        rw [← eqIgnoreAsciiCase_lower, hf]
        decide
      simp [h1, h2])
  rw [← sentHeaders_http2] at hvalues hgiven
  have hauto : valuesOf "authorization"
      (Http2.automaticHeaders req.toRequest (Http2.sentHeaders req.toRequest)) =
        valuesOf "authorization" (automaticAuthorization req) := by
    simp only [automaticHeaders_http2 hgiven, valuesOf_append, valuesOf_map_lower,
      @valuesOf_unless "authorization" "user-agent" Http2.userAgent (by decide),
      @valuesOf_unless "authorization" "accept" "*/*" (by decide),
      @valuesOf_unless "authorization" "accept-encoding" "gzip, deflate" (by decide),
      List.append_nil]
  have hlength : ∀ value, valuesOf "authorization" [("content-length", value)] = [] :=
    fun value => @valuesOf_other "authorization" "content-length" value (by decide)
  unfold Http2.requestHeaderFields
  cases req.strictHeaders <;> cases req.body.isEmpty <;> simp [hvalues, hauto, hlength]

theorem authorizations_http3 (req : Request) :
    valuesOf "authorization" (Http3.requestHeaderFields req.toRequest).2 =
      valuesOf "authorization" req.headers := by
  have hsent : Http3.sentHeaders req.toRequest =
      (req.headers.filter fun f => !Http3.omitRequestField (lower f).1 (lower f).2).map lower := by
    rw [Http3.sentHeaders, List.filter_map]
    rfl
  obtain ⟨hvalues, -⟩ := @authorizations_kept req
    (fun f => !Http3.omitRequestField (lower f).1 (lower f).2) (by
      intro f hf
      have hkept : ∀ value, Http3.omitRequestField "authorization" value = false := by
        intro value
        have hname : (stripPrefix ':' "authorization").isSome = false ∧
            ["host", "connection", "transfer-encoding", "upgrade", "keep-alive",
              "proxy-connection"].contains "authorization" = false ∧
            ("authorization" == "te") = false := by decide
        simp [Http3.omitRequestField, hname]
      simp [lower, hf, hkept])
  rw [← hsent] at hvalues
  have hauto : valuesOf "authorization"
      (Http3.automaticHeaders (Http3.sentHeaders req.toRequest)) = [] := by
    simp only [Http3.automaticHeaders, valuesOf_append,
      @valuesOf_unless "authorization" "user-agent" Http2.userAgent (by decide),
      @valuesOf_unless "authorization" "accept-encoding" "gzip, deflate" (by decide),
      List.append_nil]
  have hlength : ∀ value, valuesOf "authorization" [("content-length", value)] = [] :=
    fun value => @valuesOf_other "authorization" "content-length" value (by decide)
  unfold Http3.requestHeaderFields
  cases req.strictHeaders <;> cases req.body.isEmpty <;> simp [hvalues, hauto, hlength]

/-- The `Authorization` values that are written: the request's own, and the credentials that
HTTP/1.1 and HTTP/2 add. -/
theorem Transmission.mem_authorizations {t : Transmission} {value : String} :
    value ∈ t.authorizations ↔ value ∈ valuesOf "authorization" t.request.headers ∨
      t.version ≠ .http3 ∧ t.request.strictHeaders = false ∧
        given t.request "authorization" = false ∧ ∃ u p, credentials t.request = some (u, p) ∧
          ¬(u = "" ∧ p = "") ∧ value = basicValue u p := by
  rw [← mem_automaticAuthorization]
  unfold authorizations writtenFields
  cases t.version with
  | http1 =>
    rw [authorizations_http1, List.mem_append]
    cases t.request.strictHeaders <;> simp
  | http2 =>
    rw [authorizations_http2, List.mem_append]
    cases t.request.strictHeaders <;> simp
  | http3 => simp [authorizations_http3]

theorem Transmission.discloses_iff {t : Transmission} {user pass : String} :
    ¬t.Discloses user pass ↔ t.Withholds user pass := by
  unfold Discloses Withholds
  rw [mem_authorizations]
  grind

/-! ## Runs -/

/-- What a transfer meets below the requests. -/
structure Wire (J : Type) extends World J where
  /-- The versions in which the last of the requests sent so far is written; a fallback writes it
  again, and a transport that fails may not write it at all. -/
  versions : List Request → List Version
  /-- The fields of its AWS signature, if it is to be signed. -/
  sign : List Request → List Header

/-- The fields of the signature replace those of the same names. -/
def withSignature (fields : List Header) (req : Request) : Request :=
  { req with
    headers := fields.foldl
      (fun headers h => (headers.filter fun k => !eqIgnoreAsciiCase k.1 h.1) ++ [h]) req.headers }

namespace Hop

/-- The requests so far, this hop's last. -/
def sending (w : Wire J) (s : Hop J) : List Request := (s.dispatched w.toWorld).sent

def signed (w : Wire J) (s : Hop J) : Request :=
  withSignature (w.sign (s.sending w)) (s.snapshot w.toWorld).2

def transmissions (w : Wire J) (s : Hop J) : List Transmission :=
  if s.goes w.toWorld then (w.versions (s.sending w)).map fun v => ⟨v, s.signed w, s.sending w⟩
  else []

/-- The signature stays on the request. -/
def keepSignature (w : Wire J) (s : Hop J) : Hop J :=
  { s with req := withSignature (w.sign s.sent) s.req }

/-- One turn of the streamed transfers: they answer no challenge. -/
def streamTurn (w : Wire J) (keep : Bool) (s : Hop J) :
    Turn (Hop J) (List Request × Except Error Response) :=
  match w.stopped s.sent with
  | some e => .done (s.sent, .error e)
  | none =>
    let s := s.dispatched w.toWorld
    match w.serve s.sent with
    | .error e => .done (s.sent, .error e)
    | .ok resp =>
      let s := s.ingest w.toWorld resp
      (if keep then s.keepSignature w else s).receive w.toWorld resp

/-- A hop outside the redirect loop. -/
def single (req : Request) (url : Url) (jar : Option J) : Hop J where
  req := { req with url }
  digestCreds := none
  digestAttempts := 0
  hopsLeft := req.maxRedirs
  firstHop := true
  jar := jar
  sent := []

end Hop

/-- How a request is sent. -/
inductive Entry where
  /-- The body is buffered (`send_to`). -/
  | buffered
  /-- A download over a direct connection: over HTTP/1.1 with redirects (`stream_h1`), or one hop
  over the later versions with its fallbacks. -/
  | streamed
  /-- The body is read by the caller (`send_reader`). -/
  | reader
  /-- One of a batch (`send_multiplexed`). -/
  | multiplexed
  deriving DecidableEq, Repr

/-- The versions that a way of sending knows. -/
def Entry.speaks : Entry → Version → Bool
  | .reader, v => v == .http1
  | .multiplexed, v => v == .http2
  | _, _ => true

/-- The hops of a transfer. -/
def Entry.hops (w : Wire J) (req : Request) (jar : Option J) : Entry → List (Hop J)
  | .buffered => Http.hops w.toWorld req jar
  | .streamed => match Url.setIdn w.idna req.url req.idn with
    | .error _ => []
    | .ok url => Loop.visited (Hop.streamTurn w false) Hop.hopsLeft (.single req url jar)
  | .reader => match Url.setIdn w.idna req.url req.idn with
    | .error _ => []
    | .ok url => Loop.visited (Hop.streamTurn w true) Hop.hopsLeft (.single req url none)
  | .multiplexed =>
    let url := match Url.setIdn w.idna req.url req.idn with
      | .error _ => req.url
      | .ok url => url
    [.single req url none]

def transmissions (w : Wire J) (e : Entry) (req : Request) (jar : Option J) :
    List Transmission :=
  ((e.hops w req jar).flatMap (Hop.transmissions w)).filter fun t => e.speaks t.version

/-! ## Where the values come from -/

/-- An `Authorization` value that is no use of `basicAuth`: the caller's own, a signature's, or the
answer to a challenge that the servers gave. -/
inductive Accounted (w : Wire J) (req : Request) (sent : List Request) (value : String) : Prop where
  | caller (h : value ∈ valuesOf "authorization" req.headers)
  | signature {before : List Request} (hbefore : before <+: sent)
      (h : value ∈ valuesOf "authorization" (w.sign before))
  | answer {before : List Request} {resp : Response} {chal user pass method uri : String}
      {body : Bytes} (hbefore : before <+: sent) (hresp : w.serve before = .ok resp)
      (hchal : Hop.challenge resp = some chal) (hcreds : req.basicAuth = some (user, pass))
      (h : Digest.authorizationWithCnonce w.hashes user pass method uri body chal
        (w.cnonce before) = some value)

theorem Accounted.mono {w : Wire J} {req : Request} {a b : List Request} {value : String}
    (h : Accounted w req a value) (hab : a <+: b) : Accounted w req b value := by
  cases h with
  | caller h => exact .caller h
  | signature hbefore h => exact .signature (hbefore.trans hab) h
  | answer hbefore hresp hchal hcreds h => exact .answer (hbefore.trans hab) hresp hchal hcreds h

theorem mem_valuesOf {name value : String} {sent : List Header} :
    value ∈ valuesOf name sent ↔ ∃ f ∈ sent, eqIgnoreAsciiCase f.1 name = true ∧ f.2 = value := by
  simp [valuesOf, and_assoc]

/-- Every `Authorization` field of a request is accounted for. -/
def AllAccounted (w : Wire J) (req : Request) (sent : List Request) (headers : List Header) : Prop :=
  ∀ f ∈ headers, isAuthorization f = true → Accounted w req sent f.2

theorem allAccounted_withSignature {w : Wire J} {req r : Request} {sent : List Request}
    (h : AllAccounted w req sent r.headers) :
    AllAccounted w req sent (withSignature (w.sign sent) r).headers := by
  have hfold : ∀ (fields headers : List Header), (∀ f ∈ fields, f ∈ w.sign sent) →
      AllAccounted w req sent headers → AllAccounted w req sent (fields.foldl
        (fun headers h => (headers.filter fun k => !eqIgnoreAsciiCase k.1 h.1) ++ [h]) headers) := by
    intro fields
    induction fields with
    | nil => exact fun headers _ hheaders => hheaders
    | cons field fields ih =>
      intro headers hfields hheaders
      refine ih _ (fun f hf => hfields f (List.mem_cons_of_mem _ hf)) ?_
      intro f hf hauth
      rcases List.mem_append.mp hf with hf | hf
      · exact hheaders f (List.mem_of_mem_filter hf) hauth
      · cases List.mem_singleton.mp hf
        exact .signature (List.prefix_refl _)
          (mem_valuesOf.mpr ⟨field, hfields field List.mem_cons_self, hauth, rfl⟩)
  exact hfold (w.sign sent) r.headers (fun _ hf => hf) h

namespace Hop

/-- What holds of every hop of a transfer: its own fields are accounted for, and only the caller's
credentials answer challenges. -/
structure Sourced (w : Wire J) (req : Request) (s : Hop J) : Prop where
  headers : AllAccounted w req s.sent s.req.headers
  creds : ∀ c, s.digestCreds = some c → req.basicAuth = some c

theorem sent_prefix_sending (w : Wire J) (s : Hop J) : s.sent <+: s.sending w :=
  List.prefix_append _ _

/-- A redirect adds no `Authorization` field. -/
theorem nextRequest_authorization {req : Request} {url : Url} {status : Nat} {f : Header}
    (hf : f ∈ (nextRequest req url status).headers) (hauth : isAuthorization f = true) :
    f ∈ req.headers := by
  have hreferer : isAuthorization ("Referer", Url.toString req.url) = false := by
    have : eqIgnoreAsciiCase "Referer" "authorization" = false := by decide
    exact this
  unfold nextRequest asGet dropCredentials setReferer at hf
  grind

theorem Sourced.received {w : Wire J} {req : Request} {s s' : Hop J} {resp : Response}
    (hs : s.Sourced w req) (h : s.receive w.toWorld resp = .next s') : s'.Sourced w req := by
  obtain ⟨location, next, -, hreq, rfl⟩ := receive_next h
  obtain ⟨url, rfl⟩ := redirectRequest_ok hreq
  exact ⟨fun f hf hauth => hs.headers f (nextRequest_authorization hf hauth) hauth, hs.creds⟩

/-- The hop once its request has been served. -/
theorem Sourced.served {w : Wire J} {req : Request} {s : Hop J} (hs : s.Sourced w req)
    (resp : Response) : ((s.dispatched w.toWorld).ingest w.toWorld resp).Sourced w req where
  headers := by
    simp only [ingest_sent, ingest_req, dispatched_req]
    exact fun f hf hauth => (hs.headers f hf hauth).mono (s.sent_prefix_sending w)
  creds := by simpa using hs.creds

theorem Sourced.turn {w : Wire J} {req : Request} {s s' : Hop J} (hs : s.Sourced w req)
    (h : s.turn w.toWorld = .next s') : s'.Sourced w req := by
  cases turn_next h with
  | @answer resp value hgo hresp ha =>
    refine ⟨?_, by simpa [answered] using hs.creds⟩
    intro f hf hauth
    simp only [answered, ingest_req, dispatched_req, ingest_sent] at hf ⊢
    rcases List.mem_append.mp hf with hf | hf
    · exact ((hs.headers f (List.mem_of_mem_filter hf) hauth).mono (s.sent_prefix_sending w))
    · cases List.mem_singleton.mp hf
      simp only [digestAnswer, Option.bind_eq_bind, Option.bind_eq_some_iff, ingest_digestCreds,
        dispatched_digestCreds, ingest_sent] at ha
      obtain ⟨chal, hchal, creds, hcreds, ha⟩ := ha
      obtain ⟨-, hvalue⟩ := Option.ite_none_right_eq_some.mp ha
      exact .answer (List.prefix_refl _) hresp hchal (hs.creds creds hcreds) hvalue
  | @redirect resp location next hgo hresp hhops hreq =>
    obtain ⟨url, rfl⟩ := redirectRequest_ok hreq
    refine ⟨?_, by simpa using hs.creds⟩
    intro f hf hauth
    simp only [ingest_sent]
    exact (hs.headers f (nextRequest_authorization hf hauth) hauth).mono (s.sent_prefix_sending w)

theorem nextRequest_basicAuth {req : Request} (h : req.basicAuth = none) (url : Url)
    (status : Nat) : (nextRequest req url status).basicAuth = none := by
  unfold nextRequest asGet dropCredentials setReferer
  grind

/-- Credentials that were put aside stay aside. -/
theorem turn_basicAuth {w : World J} {s s' : Hop J} (hs : s.req.basicAuth = none)
    (h : s.turn w = .next s') : s'.req.basicAuth = none := by
  cases turn_next h with
  | answer hgo hresp ha => simpa [answered] using hs
  | redirect hgo hresp hhops hreq =>
    obtain ⟨url, rfl⟩ := redirectRequest_ok hreq
    exact nextRequest_basicAuth hs url _

theorem streamTurn_next {w : Wire J} {keep : Bool} {s s' : Hop J}
    (h : s.streamTurn w keep = .next s') : ∃ resp, w.serve (s.sending w) = .ok resp ∧
      (if keep then ((s.dispatched w.toWorld).ingest w.toWorld resp).keepSignature w
        else (s.dispatched w.toWorld).ingest w.toWorld resp).receive w.toWorld resp = .next s' := by
  unfold streamTurn at h
  split at h
  · cases h
  · simp only at h
    split at h
    · cases h
    · rename_i resp hresp
      exact ⟨resp, hresp, h⟩

theorem streamTurn_lowers (w : Wire J) (keep : Bool) :
    Loop.Lowers (streamTurn w keep) hopsLeft := by
  intro s s' h
  obtain ⟨resp, -, h⟩ := streamTurn_next h
  obtain ⟨location, next, hhops, -, rfl⟩ := receive_next h
  cases keep <;>
    simp only [keepSignature, ingest_hopsLeft, dispatched_hopsLeft, if_true, Bool.false_eq_true,
      if_false] at hhops ⊢ <;> omega

theorem Sourced.streamTurn {w : Wire J} {req : Request} {keep : Bool} {s s' : Hop J}
    (hs : s.Sourced w req) (h : s.streamTurn w keep = .next s') : s'.Sourced w req := by
  obtain ⟨resp, -, h⟩ := streamTurn_next h
  have hserved := hs.served resp
  refine Sourced.received ?_ h
  cases keep with
  | false => exact hserved
  | true => exact ⟨allAccounted_withSignature hserved.headers, hserved.creds⟩

/-- What is sent of a hop is accounted for like its own fields. -/
theorem Sourced.signed {w : Wire J} {req : Request} {s : Hop J} (hs : s.Sourced w req) :
    AllAccounted w req (s.sending w) (s.signed w).headers := by
  refine allAccounted_withSignature ?_
  intro f hf hauth
  rcases snapshot_headers hf with hf | ⟨jar, val, -, -, -, rfl⟩
  · exact (hs.headers f hf hauth).mono (s.sent_prefix_sending w)
  · have : isAuthorization ("Cookie", val) = false := by
      have : eqIgnoreAsciiCase "Cookie" "authorization" = false := by decide
      exact this
    simp [this] at hauth

theorem sourced_single (w : Wire J) (req : Request) (url : Url) (jar : Option J) :
    (single req url jar).Sourced w req where
  headers f hf hauth := .caller (mem_valuesOf.mpr ⟨f, hf, hauth, rfl⟩)
  creds c hc := by cases hc

/-- The first hop of a buffered transfer has the caller's fields, and its credentials are put aside
when they are for digest answers. -/
theorem start_creds {w : World J} {req : Request} {jar : Option J} {s : Hop J}
    (h : start w req jar = .ok s) : s.req.headers = req.headers ∧
      (∀ c, s.digestCreds = some c → req.basicAuth = some c) ∧
      (req.authDigest = true → s.req.basicAuth = none) := by
  unfold start at h
  split at h
  · cases h
  · split at h
    · cases h
    · rename_i hproxy
      cases h
      unfold applyProxyResolver at hproxy
      grind

end Hop

/-- Every hop of every transfer is accounted for. -/
theorem hops_sourced (w : Wire J) (e : Entry) (req : Request) (jar : Option J) :
    ∀ s ∈ e.hops w req jar, s.Sourced w req := by
  cases e with
  | buffered =>
    simp only [Entry.hops, hops]
    cases hstart : Hop.start w.toWorld req jar with
    | error e => simp
    | ok s =>
      refine Loop.visited_rule (Hop.turn_lowers w.toWorld) ?_ fun t _ ht t' hb => ht.turn hb
      obtain ⟨hheaders, hcreds, -⟩ := Hop.start_creds hstart
      exact ⟨fun f hf hauth => .caller (mem_valuesOf.mpr ⟨f, hheaders ▸ hf, hauth, rfl⟩), hcreds⟩
  | streamed =>
    simp only [Entry.hops]
    split
    · simp
    · exact Loop.visited_rule (Hop.streamTurn_lowers w false) (Hop.sourced_single w req _ jar)
        fun t _ ht t' hb => ht.streamTurn hb
  | reader =>
    simp only [Entry.hops]
    split
    · simp
    · exact Loop.visited_rule (Hop.streamTurn_lowers w true) (Hop.sourced_single w req _ none)
        fun t _ ht t' hb => ht.streamTurn hb
  | multiplexed =>
    intro s hs
    cases List.mem_singleton.mp hs
    exact Hop.sourced_single w req _ none

theorem buffered_basicAuth (w : Wire J) {req : Request} (jar : Option J)
    (hd : req.authDigest = true) :
    ∀ s ∈ Entry.buffered.hops w req jar, s.req.basicAuth = none := by
  simp only [Entry.hops, hops]
  cases hstart : Hop.start w.toWorld req jar with
  | error e => simp
  | ok s =>
    obtain ⟨-, -, hnone⟩ := Hop.start_creds hstart
    exact Loop.visited_rule (Hop.turn_lowers w.toWorld) (hnone hd)
      fun t _ ht t' hb => Hop.turn_basicAuth ht hb

theorem mem_transmissions {w : Wire J} {e : Entry} {req : Request} {jar : Option J}
    {t : Transmission} (ht : t ∈ transmissions w e req jar) :
    ∃ s ∈ e.hops w req jar, t.request = s.signed w ∧ t.sent = s.sending w := by
  obtain ⟨ht, -⟩ := List.mem_filter.mp ht
  obtain ⟨s, hs, ht⟩ := List.mem_flatMap.mp ht
  unfold Hop.transmissions at ht
  split at ht
  · obtain ⟨v, -, rfl⟩ := List.mem_map.mp ht
    exact ⟨s, hs, rfl, rfl⟩
  · cases ht

/-! ## Where the password goes -/

/-- Two passwords that no hash of the user, a realm and the password tells apart. -/
def SameHash (hashes : Digest.Hashes) (user pass other : String) : Prop :=
  ∀ realm : String,
    hashes.md5 (asBytes s!"{user}:{realm}:{pass}") =
        hashes.md5 (asBytes s!"{user}:{realm}:{other}") ∧
      hashes.sha256 (asBytes s!"{user}:{realm}:{pass}") =
        hashes.sha256 (asBytes s!"{user}:{realm}:{other}")

/-- An answer depends on the password through the hash of the user, the realm and the password.
-/
theorem answer_hides_password {hashes : Digest.Hashes} {user pass other : String}
    (h : SameHash hashes user pass other) (method uri : String) (body : Bytes) (chal cnonce : String) :
    Digest.authorizationWithCnonce hashes user pass method uri body chal cnonce =
      Digest.authorizationWithCnonce hashes user other method uri body chal cnonce := by
  unfold Digest.authorizationWithCnonce
  have hdigest : ∀ (realm : String) (sha : Bool),
      (if sha then hashes.sha256 (asBytes s!"{user}:{realm}:{pass}")
        else hashes.md5 (asBytes s!"{user}:{realm}:{pass}")) =
      if sha then hashes.sha256 (asBytes s!"{user}:{realm}:{other}")
        else hashes.md5 (asBytes s!"{user}:{realm}:{other}") := by
    intro realm sha
    rw [(h realm).1, (h realm).2]
  simp only [hdigest]

/-- With digest answers asked for, no transmission discloses a user's password exactly when every
one of them withholds it. A buffered transfer has no `basicAuth` left to add; and any value that is
written is accounted for without `basicAuth`, or is what a writer adds. An answer to a challenge
holds no more of the password than its hash. -/
theorem digest_discloses_iff (w : Wire J) (e : Entry) (req : Request) (jar : Option J)
    (hd : req.authDigest = true) :
    (∀ user pass, (∀ t ∈ transmissions w e req jar, ¬t.Discloses user pass) ↔
        ∀ t ∈ transmissions w e req jar, t.Withholds user pass) ∧
      (e = .buffered → ∀ t ∈ transmissions w e req jar, t.request.basicAuth = none) ∧
      (∀ t ∈ transmissions w e req jar, ∀ value ∈ t.authorizations, Accounted w req t.sent value ∨
        ∃ u p, credentials t.request = some (u, p) ∧ value = basicValue u p) ∧
      ∀ user pass other, SameHash w.hashes user pass other → ∀ method uri body chal cnonce,
        Digest.authorizationWithCnonce w.hashes user pass method uri body chal cnonce =
          Digest.authorizationWithCnonce w.hashes user other method uri body chal cnonce := by
  refine ⟨?_, ?_, ?_, fun _ _ _ h => answer_hides_password h⟩
  · intro user pass
    exact forall₂_congr fun t _ => t.discloses_iff
  · rintro rfl t ht
    obtain ⟨s, hs, hreq, -⟩ := mem_transmissions ht
    rw [hreq]
    have hnone := buffered_basicAuth w jar hd s hs
    exact (Hop.snapshot_basicAuth w.toWorld s).trans hnone
  · intro t ht value hvalue
    obtain ⟨s, hs, hreq, hsent⟩ := mem_transmissions ht
    rcases Transmission.mem_authorizations.mp hvalue with hown | ⟨-, -, -, u, p, hc, -, heq⟩
    · obtain ⟨f, hf, hauth, rfl⟩ := mem_valuesOf.mp hown
      rw [hreq] at hf
      exact .inl (hsent ▸ (hops_sourced w e req jar s hs).signed f hf hauth)
    · exact .inr ⟨u, p, hc, heq⟩

/-- Servers that answer 200 to whatever is written in this version. -/
def Wire.answering (v : Version) : Wire Unit :=
  { World.scripted id [emptyResponse 200 []] with
    versions := fun _ => [v]
    sign := fun _ => [] }

theorem digest_withheld :
    (transmissions (.answering .http2) .buffered digestRequest none).length = 1 ∧
      ∀ t ∈ transmissions (.answering .http2) .buffered digestRequest none,
        ¬t.Discloses "u" "p" := by
  have hone : transmissions (.answering .http2) .buffered digestRequest none =
      [⟨.http2, { digestRequest with basicAuth := none },
        [{ digestRequest with basicAuth := none }]⟩] := by
    decide
  refine ⟨by rw [hone]; rfl, ?_⟩
  refine ((digest_discloses_iff (.answering .http2) .buffered digestRequest none rfl).1
    "u" "p").mpr ?_
  rw [hone]
  rintro t (- | ⟨-, ⟨⟩⟩)
  refine ⟨by decide, .inr (.inr (.inr ?_))⟩
  intro u p h
  cases h

def userinfoRequest : Request :=
  { digestRequest with url := ⟨"https", some "u:p", "a.example", 443, "/"⟩, basicAuth := none }

/-- The password goes out in the clear from the URL's userinfo in a buffered transfer, and from
`basicAuth` in the others. -/
theorem digest_discloses :
    (¬∀ t ∈ transmissions (.answering .http1) .buffered userinfoRequest none,
      ¬t.Discloses "u" "p") ∧
    (¬∀ t ∈ transmissions (.answering .http1) .streamed digestRequest none,
      ¬t.Discloses "u" "p") ∧
    (¬∀ t ∈ transmissions (.answering .http1) .reader digestRequest none,
      ¬t.Discloses "u" "p") ∧
    ¬∀ t ∈ transmissions (.answering .http2) .multiplexed digestRequest none,
      ¬t.Discloses "u" "p" := by
  decide +kernel

end Rsurl.Http
