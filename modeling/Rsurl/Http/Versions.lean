import Rsurl.Http.Request
import Rsurl.Ascii
import Rsurl.Http2.Request

/-!
# One request in three versions

What a server is told by the request of each HTTP version: the three writers decide separately about
the authority, the credentials and the caller's fields.
-/

/-!
## HTTP/3 requests

The header fields of a request on an HTTP/3 stream.
-/

namespace Rsurl.Http3

open Text Hpack
open Http2 (Request RequestPseudo effectiveMethod userAgent)

/-- A field, its name in lower case, that is carried elsewhere or may not be sent. -/
def omitRequestField (kl value : String) : Bool :=
  (stripPrefix ':' kl).isSome ||
    ["host", "connection", "transfer-encoding", "upgrade", "keep-alive",
      "proxy-connection"].contains kl ||
    (kl == "te" && !eqIgnoreAsciiCase (trim value) "trailers")

def sentHeaders (req : Request) : List Header :=
  (req.headers.map fun h => (toAsciiLowercase h.1, h.2)).filter fun h => !omitRequestField h.1 h.2

def automaticHeaders (fields : List Header) : List Header :=
  let given (name : String) := fields.any (·.1 == name)
  (if given "user-agent" then [] else [("user-agent", userAgent)]) ++
  (if given "accept-encoding" then [] else [("accept-encoding", "gzip, deflate")])

def requestHeaderFields (req : Request) : RequestPseudo × List Header :=
  let hostPort := if req.url.port = 443 then req.url.host else s!"{req.url.host}:{req.url.port}"
  let fields := sentHeaders req
  let fields := if req.strictHeaders then fields else fields ++ automaticHeaders fields
  let fields := if req.body.isEmpty then fields
    else fields ++ [("content-length", toString req.body.length)]
  (⟨effectiveMethod req, "https", hostPort, req.url.path⟩, fields)

end Rsurl.Http3

namespace Rsurl.Http

open Text Hpack
open Http2 (Url effectiveMethod effectiveBasicAuth isConnectionSpecificHeader)

/-- What a request says. -/
structure Message where
  method : String
  path : String
  /-- The values of `Host`, or the one of `:authority`. -/
  authority : List String
  authorization : List String
  /-- The fields the caller gave, their names in lower case. -/
  fields : List Header
  body : Bytes
  deriving DecidableEq, Repr

def lower (h : Header) : Header := (toAsciiLowercase h.1, h.2)

def valuesOf (name : String) (sent : List Header) : List String :=
  (sent.filter fun h => eqIgnoreAsciiCase h.1 name).map Prod.snd

/-- A field that the caller gave and that may be sent in any version. -/
def isCallerField (req : Request) (h : Header) : Bool :=
  given req h.1 && !isConnectionSpecificHeader h.1 && !eqIgnoreAsciiCase h.1 "host"

def callerFields (req : Request) (sent : List Header) : List Header :=
  (sent.map lower).filter (isCallerField req)

def http1Message (req : Request) : Message :=
  let sent := requestFields req (viaPlainHttpProxy req)
  ⟨effectiveMethod req.toRequest, requestTarget req (viaPlainHttpProxy req), valuesOf "host" sent,
    valuesOf "authorization" sent, callerFields req sent, req.body⟩

def http2Message (req : Request) : Message :=
  let (pseudo, sent) := Http2.requestHeaderFields req.toRequest
  ⟨pseudo.method, pseudo.path, [pseudo.authority], valuesOf "authorization" sent,
    callerFields req sent, req.body⟩

def http3Message (req : Request) : Message :=
  let (pseudo, sent) := Http3.requestHeaderFields req.toRequest
  ⟨pseudo.method, pseudo.path, [pseudo.authority], valuesOf "authorization" sent,
    callerFields req sent, req.body⟩

/-! ## Names -/

theorem isConnectionSpecificHeader_lower (a : String) :
    isConnectionSpecificHeader (toAsciiLowercase a) = isConnectionSpecificHeader a := by
  simp [isConnectionSpecificHeader, eqIgnoreAsciiCase_lower]

theorem given_lower (req : Request) (a : String) :
    given req (toAsciiLowercase a) = given req a := by
  have hlower : ∀ c, eqIgnoreAsciiCase c (toAsciiLowercase a) = eqIgnoreAsciiCase c a := by
    intro c
    simp [eqIgnoreAsciiCase, toAsciiLowercase, Function.comp_def]
  simp [given, hlower]

theorem isCallerField_lower (req : Request) (h : Header) :
    isCallerField req (lower h) = isCallerField req h := by
  simp only [isCallerField, lower, given_lower, isConnectionSpecificHeader_lower,
    eqIgnoreAsciiCase_lower]

theorem given_congr (req : Request) {a b : String} (h : toAsciiLowercase a = toAsciiLowercase b) :
    given req a = given req b := by
  simp [given, eqIgnoreAsciiCase, h]

/-! ## The parts of what is sent -/

@[simp] theorem valuesOf_append (name : String) (a b : List Header) :
    valuesOf name (a ++ b) = valuesOf name a ++ valuesOf name b := by
  simp [valuesOf]

@[simp] theorem callerFields_append (req : Request) (a b : List Header) :
    callerFields req (a ++ b) = callerFields req a ++ callerFields req b := by
  simp [callerFields]

theorem valuesOf_eq_nil {name : String} {sent : List Header}
    (h : ∀ f ∈ sent, eqIgnoreAsciiCase f.1 name = false) : valuesOf name sent = [] := by
  rw [valuesOf, List.map_eq_nil_iff, List.filter_eq_nil_iff]
  intro f hf
  simp [h f hf]

theorem callerFields_eq_nil {req : Request} {sent : List Header}
    (h : ∀ f ∈ sent, isCallerField req f = false) : callerFields req sent = [] := by
  rw [callerFields, List.filter_eq_nil_iff]
  intro f hf
  obtain ⟨g, hg, rfl⟩ := List.mem_map.mp hf
  simp [isCallerField_lower, h g hg]

/-- The caller's fields, lowered and filtered in any way that keeps those of every version. -/
theorem callerFields_filter {req : Request} {p : Header → Bool}
    (h : ∀ f ∈ req.headers, isCallerField req f = true → p f = true) :
    callerFields req (req.headers.filter p) = callerFields req req.headers := by
  unfold callerFields
  rw [List.filter_map, List.filter_map, List.filter_filter]
  congr 1
  refine List.filter_congr ?_
  intro f hf
  rw [Function.comp_apply, isCallerField_lower]
  cases hc : isCallerField req f with
  | false => rfl
  | true => simp [h f hf hc]

theorem callerFields_map_lower (req : Request) (sent : List Header) :
    callerFields req (sent.map lower) = callerFields req sent := by
  have hlower : lower ∘ lower = lower := by
    funext h
    simp [lower, toAsciiLowercase, Function.comp_def]
  rw [callerFields, List.map_map, hlower, callerFields]

theorem valuesOf_map_lower (name : String) (sent : List Header) :
    valuesOf name (sent.map lower) = valuesOf name sent := by
  have hpred : (fun h : Header => eqIgnoreAsciiCase h.1 name) ∘ lower =
      fun h => eqIgnoreAsciiCase h.1 name := by
    funext h
    exact eqIgnoreAsciiCase_lower h.1 name
  have hsnd : (Prod.snd : Header → String) ∘ lower = Prod.snd := rfl
  rw [valuesOf, List.filter_map, hpred, List.map_map, hsnd, valuesOf]

theorem valuesOf_filter {name : String} {headers : List Header} {p : Header → Bool}
    (h : ∀ f ∈ headers, eqIgnoreAsciiCase f.1 name = true → p f = true) :
    valuesOf name (headers.filter p) = valuesOf name headers := by
  unfold valuesOf
  rw [List.filter_filter]
  refine congrArg (List.map Prod.snd) (List.filter_congr ?_)
  intro f hf
  cases hn : eqIgnoreAsciiCase f.1 name with
  | false => rfl
  | true => simp [h f hf hn]

theorem valuesOf_eq_nil_iff {req : Request} {name : String} :
    valuesOf name req.headers = [] ↔ given req name = false := by
  simp [valuesOf, given]

/-! ## The writers -/

/-- A request as it goes out on a direct https connection, its fields accepted by the first
writer. -/
structure Request.Direct (req : Request) : Prop where
  scheme : req.url.scheme = "https"
  strict : req.strictHeaders = false
  accepted : ∃ bytes, writeRequest req (viaPlainHttpProxy req) = .ok bytes
  contentLength : given req "content-length" = false
  transferEncoding : given req "transfer-encoding" = false

theorem Request.Direct.originForm {req : Request} (h : req.Direct) :
    viaPlainHttpProxy req = false := by
  simp [viaPlainHttpProxy, h.scheme]

/-- A name that was accepted is no pseudo-header's. -/
theorem Request.Direct.stripPrefix_name {req : Request} (h : req.Direct) {f : Header}
    (hf : f ∈ req.headers) : stripPrefix ':' (toAsciiLowercase f.1) = none := by
  obtain ⟨bytes, hw⟩ := h.accepted
  have hvalid := validateHeader_of_ok hw f hf
  have hname : isValidHeaderName f.1 = true := by
    by_contra hbad
    rw [Bool.not_eq_true] at hbad
    simp [validateHeader, hbad] at hvalid
  simp only [isValidHeaderName, Bool.and_eq_true] at hname
  unfold stripPrefix
  rw [toAsciiLowercase, String.toList_ofList]
  cases hl : f.1.toList with
  | nil => rfl
  | cons c rest =>
    have htoken : isTokenChar c = true := by
      rw [hl] at hname
      exact (List.all_eq_true.mp hname.2) c List.mem_cons_self
    have hcolon : c.toLower ≠ ':' := by
      intro hc
      rw [(toLower_eq_iff (by decide)).mp hc] at htoken
      revert htoken
      decide
    simp [hcolon]

/-- The credentials a writer adds. -/
def automaticAuthorization (req : Request) : List Header :=
  if given req "authorization" then [] else match effectiveBasicAuth req.toRequest with
    | some creds => [("Authorization", s!"Basic {creds}")]
    | none => []

theorem automaticFields_eq (req : Request) : automaticFields req =
    if req.strictHeaders then []
    else automaticAuthorization req ++
      (if given req "user-agent" then [] else [("User-Agent", Http2.userAgent)]) ++
      (if given req "accept" then [] else [("Accept", "*/*")]) ++
      (if given req "accept-encoding" then [] else [("Accept-Encoding", "gzip, deflate")]) := rfl

/-- Fields that the caller did not give, with one of these names. -/
def Added (req : Request) (names : List String) (sent : List Header) : Prop :=
  ∀ f ∈ sent, given req f.1 = false ∧ f.1 ∈ names

theorem added_append {req : Request} {names : List String} {a b : List Header}
    (ha : Added req names a) (hb : Added req names b) : Added req names (a ++ b) := by
  intro f hf
  exact (List.mem_append.mp hf).elim (ha f) (hb f)

theorem added_unless {req : Request} {names : List String} {name value : String} {given' : Bool}
    (h : given' = given req name) (hname : name ∈ names) :
    Added req names (if given' then [] else [(name, value)]) := by
  intro f hf
  cases hg : given' with
  | true => simp [hg] at hf
  | false =>
    simp only [hg, Bool.false_eq_true, if_false, List.mem_singleton] at hf
    subst hf
    exact ⟨h ▸ hg, hname⟩

theorem added_if {req : Request} {names : List String} {name value : String} {added : Bool}
    (h : given req name = false) (hname : name ∈ names) :
    Added req names (if added then [(name, value)] else []) := by
  intro f hf
  split at hf
  · cases List.mem_singleton.mp hf
    exact ⟨h, hname⟩
  · cases hf

theorem added_automaticAuthorization (req : Request) :
    Added req ["Authorization"] (automaticAuthorization req) := by
  intro f hf
  unfold automaticAuthorization at hf
  split at hf
  · cases hf
  · rename_i hg
    split at hf
    · cases List.mem_singleton.mp hf
      have hcase := @given_congr req "Authorization" "authorization" (by decide)
      exact ⟨hcase.trans (by simpa using hg), List.mem_cons_self⟩
    · cases hf

theorem Added.callerFields {req : Request} {names : List String} {sent : List Header}
    (h : Added req names sent) : callerFields req sent = [] :=
  callerFields_eq_nil fun f hf => by simp [isCallerField, (h f hf).1]

theorem Added.valuesOf {req : Request} {names : List String} {sent : List Header}
    (h : Added req names sent) {name : String}
    (hn : ∀ n ∈ names, eqIgnoreAsciiCase n name = false) : valuesOf name sent = [] :=
  valuesOf_eq_nil fun f hf => hn f.1 (h f hf).2

theorem http1Message_eq {req : Request} (h : req.Direct) :
    http1Message req = ⟨effectiveMethod req.toRequest, req.url.path,
      hostHeaderValue req.url :: valuesOf "host" req.headers,
      valuesOf "authorization" req.headers ++
        valuesOf "authorization" (automaticAuthorization req),
      callerFields req req.headers, req.body⟩ := by
  obtain ⟨added, hfields, hadded⟩ : ∃ added, requestFields req false =
      [("Host", hostHeaderValue req.url)] ++ req.headers ++ automaticAuthorization req ++ added ∧
        Added req ["User-Agent", "Accept", "Accept-Encoding", "Content-Length"] added := by
    refine ⟨(if given req "user-agent" then [] else [("User-Agent", Http2.userAgent)]) ++
      ((if given req "accept" then [] else [("Accept", "*/*")]) ++
      ((if given req "accept-encoding" then [] else [("Accept-Encoding", "gzip, deflate")]) ++
      (if !req.body.isEmpty || methodTakesBody (effectiveMethod req.toRequest)
        then [("Content-Length", toString req.body.length)] else []))), ?_, ?_⟩
    · simp [requestFields, automaticFields_eq, h.strict, h.contentLength, h.transferEncoding]
    · exact added_append (added_unless (given_congr req (by decide)) (by simp))
        (added_append (added_unless (given_congr req (by decide)) (by simp))
        (added_append (added_unless (given_congr req (by decide)) (by simp))
        (added_if ((given_congr req (by decide)).trans h.contentLength) (by simp))))
  have hauth := added_automaticAuthorization req
  have hhost : callerFields req [("Host", hostHeaderValue req.url)] = [] := by
    refine callerFields_eq_nil ?_
    rintro f (- | ⟨-, ⟨⟩⟩)
    have : eqIgnoreAsciiCase "Host" "host" = true := by decide
    simp [isCallerField, this]
  have hnames : eqIgnoreAsciiCase "Host" "host" = true ∧
      eqIgnoreAsciiCase "Host" "authorization" = false := by decide
  have hvalues : valuesOf "host" [("Host", hostHeaderValue req.url)] =
      [hostHeaderValue req.url] := by
    simp [valuesOf, hnames.1]
  have hnone : valuesOf "authorization" [("Host", hostHeaderValue req.url)] = [] := by
    simp [valuesOf, hnames.2]
  have hauthHost : valuesOf "host" (automaticAuthorization req) = [] := hauth.valuesOf (by decide)
  have haddedHost : valuesOf "host" added = [] := hadded.valuesOf (by decide)
  have haddedAuth : valuesOf "authorization" added = [] := hadded.valuesOf (by decide)
  unfold http1Message
  rw [h.originForm, hfields]
  simp only [valuesOf_append, callerFields_append, hhost, hvalues, hnone, hauth.callerFields,
    hadded.callerFields, hauthHost, haddedHost, haddedAuth, List.append_nil, List.nil_append]
  rfl

/-- HTTP/2 adds the same credentials, under a name in lower case. -/
theorem automaticHeaders_http2 {req : Request} {sent : List Header}
    (h : (sent.any fun f => f.1 == "authorization") = given req "authorization") :
    Http2.automaticHeaders req.toRequest sent = (automaticAuthorization req).map lower ++
      (if sent.any fun f => f.1 == "user-agent" then [] else [("user-agent", Http2.userAgent)]) ++
      (if sent.any fun f => f.1 == "accept" then [] else [("accept", "*/*")]) ++
      (if sent.any fun f => f.1 == "accept-encoding" then []
        else [("accept-encoding", "gzip, deflate")]) := by
  have hname : toAsciiLowercase "Authorization" = "authorization" := by decide
  unfold Http2.automaticHeaders automaticAuthorization
  simp only [h]
  cases given req "authorization" with
  | true => rfl
  | false =>
    cases effectiveBasicAuth req.toRequest with
    | none => rfl
    | some creds =>
      simp only [Bool.false_eq_true, if_false, List.map_cons, List.map_nil, lower, hname]

/-- The caller's fields as HTTP/2 sends them. -/
theorem sentHeaders_http2 (req : Request) :
    Http2.sentHeaders req.toRequest = (req.headers.filter fun h =>
      !(isConnectionSpecificHeader h.1 || eqIgnoreAsciiCase h.1 "host")).map lower := rfl

/-- The caller gave a field, as the lowered names tell. -/
theorem any_sentHeaders {req : Request} {sent : List Header} {name : String}
    (hname : toAsciiLowercase name = name) (hsent : ∃ p : Header → Bool,
      sent = (req.headers.filter p).map lower ∧
        ∀ f ∈ req.headers, eqIgnoreAsciiCase f.1 name = true → p f = true) :
    (sent.any fun f => f.1 == name) = given req name := by
  obtain ⟨p, rfl, hp⟩ := hsent
  rw [Bool.eq_iff_iff, List.any_eq_true, given, List.any_eq_true]
  constructor
  · rintro ⟨g, hg, heq⟩
    obtain ⟨f, hf, rfl⟩ := List.mem_map.mp hg
    refine ⟨f, List.mem_of_mem_filter hf, ?_⟩
    rwa [lower, toAsciiLowercase_beq hname] at heq
  · rintro ⟨f, hf, heq⟩
    refine ⟨lower f, List.mem_map_of_mem (List.mem_filter.mpr ⟨hf, hp f hf heq⟩), ?_⟩
    rwa [lower, toAsciiLowercase_beq hname]

theorem http2Message_eq {req : Request} (h : req.Direct) :
    http2Message req = ⟨effectiveMethod req.toRequest, req.url.path,
      [if req.url.port = 443 then req.url.host else s!"{req.url.host}:{req.url.port}"],
      valuesOf "authorization" req.headers ++
        valuesOf "authorization" (automaticAuthorization req),
      callerFields req req.headers, req.body⟩ := by
  have hsent : ∀ name, toAsciiLowercase name = name → isConnectionSpecificHeader name = false →
      eqIgnoreAsciiCase name "host" = false →
      ((Http2.sentHeaders req.toRequest).any fun f => f.1 == name) = given req name := by
    intro name hname hspecific hhost
    refine any_sentHeaders hname ⟨_, sentHeaders_http2 req, ?_⟩
    intro f _ hf
    have heq := eqIgnoreAsciiCase_iff.mp hf
    have h1 : isConnectionSpecificHeader f.1 = false := by
      rw [← isConnectionSpecificHeader_lower, heq, hname, hspecific]
    have h2 : eqIgnoreAsciiCase f.1 "host" = false := by
      rw [← eqIgnoreAsciiCase_lower, heq, hname, hhost]
    simp [h1, h2]
  obtain ⟨added, hfields, hadded⟩ : ∃ added, (Http2.requestHeaderFields req.toRequest).2 =
      Http2.sentHeaders req.toRequest ++ (automaticAuthorization req).map lower ++ added ∧
        Added req ["user-agent", "accept", "accept-encoding", "content-length"] added := by
    refine ⟨(if given req "user-agent" then [] else [("user-agent", Http2.userAgent)]) ++
      ((if given req "accept" then [] else [("accept", "*/*")]) ++
      ((if given req "accept-encoding" then [] else [("accept-encoding", "gzip, deflate")]) ++
      (if !req.body.isEmpty then [("content-length", toString req.body.length)] else []))), ?_, ?_⟩
    · simp only [Http2.requestHeaderFields, h.strict,
        automaticHeaders_http2 (hsent "authorization" (by decide) (by decide) (by decide)),
        hsent "user-agent" (by decide) (by decide) (by decide),
        hsent "accept" (by decide) (by decide) (by decide),
        hsent "accept-encoding" (by decide) (by decide) (by decide)]
      cases req.body.isEmpty <;> simp
    · exact added_append (added_unless rfl (by simp)) (added_append (added_unless rfl (by simp))
        (added_append (added_unless rfl (by simp)) (added_if h.contentLength (by simp))))
  have hauth := added_automaticAuthorization req
  have haddedAuth : valuesOf "authorization" added = [] := hadded.valuesOf (by decide)
  have hcaller : callerFields req (Http2.sentHeaders req.toRequest) = callerFields req req.headers := by
    rw [sentHeaders_http2, callerFields_map_lower, callerFields_filter]
    intro f _ hf
    simp only [isCallerField, Bool.and_eq_true, Bool.not_eq_true'] at hf
    simp [hf.1.2, hf.2]
  have hvalues : valuesOf "authorization" (Http2.sentHeaders req.toRequest) =
      valuesOf "authorization" req.headers := by
    rw [sentHeaders_http2, valuesOf_map_lower, valuesOf_filter]
    intro f _ hf
    have heq := eqIgnoreAsciiCase_iff.mp hf
    have h1 : isConnectionSpecificHeader f.1 = false := by
      rw [← isConnectionSpecificHeader_lower, heq]
      decide
    have h2 : eqIgnoreAsciiCase f.1 "host" = false := by
      rw [← eqIgnoreAsciiCase_lower, heq]
      decide
    simp [h1, h2]
  unfold http2Message
  simp only [hfields, valuesOf_append, callerFields_append, hcaller, hvalues,
    callerFields_map_lower, valuesOf_map_lower, hauth.callerFields, hadded.callerFields, haddedAuth,
    List.append_nil]
  simp [Http2.requestHeaderFields, h.scheme]

/-- HTTP/3 leaves out fewer fields: `te: trailers` may be sent. -/
theorem sentHeaders_http3 {req : Request} (h : req.Direct) :
    ∃ p : Header → Bool, Http3.sentHeaders req.toRequest = (req.headers.filter p).map lower ∧
      ∀ f ∈ req.headers, isConnectionSpecificHeader f.1 = false →
        eqIgnoreAsciiCase f.1 "host" = false → p f = true := by
  refine ⟨fun f => !Http3.omitRequestField (lower f).1 (lower f).2, ?_, ?_⟩
  · rw [Http3.sentHeaders, List.filter_map]
    rfl
  · intro f hf hspecific hhost
    have hpseudo := h.stripPrefix_name hf
    have hbeq : ∀ name, toAsciiLowercase name = name →
        eqIgnoreAsciiCase f.1 name = false → (toAsciiLowercase f.1 == name) = false := by
      intro name hname heq
      rw [toAsciiLowercase_beq hname, heq]
    simp only [isConnectionSpecificHeader, List.any_cons, List.any_nil, Bool.or_false,
      Bool.or_eq_false_iff] at hspecific
    obtain ⟨h1, h2, h3, h4, h5, h6⟩ := hspecific
    simp only [Http3.omitRequestField, lower, hpseudo, Option.isSome_none, Bool.false_or,
      List.contains_cons, List.contains_nil, hbeq "host" (by decide) hhost,
      hbeq "connection" (by decide) h1, hbeq "proxy-connection" (by decide) h2,
      hbeq "keep-alive" (by decide) h3, hbeq "transfer-encoding" (by decide) h4,
      hbeq "upgrade" (by decide) h5, hbeq "te" (by decide) h6]
    rfl

theorem http3Message_eq {req : Request} (h : req.Direct) :
    http3Message req = ⟨effectiveMethod req.toRequest, req.url.path,
      [if req.url.port = 443 then req.url.host else s!"{req.url.host}:{req.url.port}"],
      valuesOf "authorization" req.headers, callerFields req req.headers, req.body⟩ := by
  obtain ⟨p, hp, hkeep⟩ := sentHeaders_http3 h
  have hnamed : ∀ name, toAsciiLowercase name = name → isConnectionSpecificHeader name = false →
      eqIgnoreAsciiCase name "host" = false →
      ∀ f ∈ req.headers, eqIgnoreAsciiCase f.1 name = true → p f = true := by
    intro name hname hspecific hhost f hf heq
    have heq := eqIgnoreAsciiCase_iff.mp heq
    refine hkeep f hf ?_ ?_
    · rw [← isConnectionSpecificHeader_lower, heq, hname, hspecific]
    · rw [← eqIgnoreAsciiCase_lower, heq, hname, hhost]
  have hsent : ∀ name, toAsciiLowercase name = name → isConnectionSpecificHeader name = false →
      eqIgnoreAsciiCase name "host" = false →
      ((Http3.sentHeaders req.toRequest).any fun f => f.1 == name) = given req name :=
    fun name hname hspecific hhost =>
      any_sentHeaders hname ⟨p, hp, hnamed name hname hspecific hhost⟩
  obtain ⟨added, hfields, hadded⟩ : ∃ added, (Http3.requestHeaderFields req.toRequest).2 =
      Http3.sentHeaders req.toRequest ++ added ∧
        Added req ["user-agent", "accept-encoding", "content-length"] added := by
    refine ⟨(if given req "user-agent" then [] else [("user-agent", Http2.userAgent)]) ++
      ((if given req "accept-encoding" then [] else [("accept-encoding", "gzip, deflate")]) ++
      (if !req.body.isEmpty then [("content-length", toString req.body.length)] else [])), ?_, ?_⟩
    · simp only [Http3.requestHeaderFields, h.strict, Http3.automaticHeaders,
        hsent "user-agent" (by decide) (by decide) (by decide),
        hsent "accept-encoding" (by decide) (by decide) (by decide)]
      cases req.body.isEmpty <;> simp
    · exact added_append (added_unless rfl (by simp))
        (added_append (added_unless rfl (by simp)) (added_if h.contentLength (by simp)))
  have haddedAuth : valuesOf "authorization" added = [] := hadded.valuesOf (by decide)
  have hcaller : callerFields req (Http3.sentHeaders req.toRequest) =
      callerFields req req.headers := by
    rw [hp, callerFields_map_lower, callerFields_filter]
    intro f hf hcf
    simp only [isCallerField, Bool.and_eq_true, Bool.not_eq_true'] at hcf
    exact hkeep f hf hcf.1.2 hcf.2
  have hvalues : valuesOf "authorization" (Http3.sentHeaders req.toRequest) =
      valuesOf "authorization" req.headers := by
    rw [hp, valuesOf_map_lower,
      valuesOf_filter (hnamed "authorization" (by decide) (by decide) (by decide))]
  unfold http3Message
  simp only [hfields, valuesOf_append, callerFields_append, hcaller, hvalues, hadded.callerFields,
    haddedAuth, List.append_nil]
  simp [Http3.requestHeaderFields]

/-! ## The three compared -/

theorem hostHeaderValue_https {url : Url} (h : url.scheme = "https") :
    hostHeaderValue url =
      if url.port = 443 then uriHost url.host else s!"{uriHost url.host}:{url.port}" := by
  have hne : ¬("https" = "http") := by decide
  simp [hostHeaderValue, h, hne]

/-- The authority of HTTP/1.1 is that of the others when the host needs no rewriting. -/
theorem authority_eq_iff {url : Url} (h : url.scheme = "https") :
    hostHeaderValue url = (if url.port = 443 then url.host else s!"{url.host}:{url.port}") ↔
      uriHost url.host = url.host := by
  rw [hostHeaderValue_https h]
  split
  · exact Iff.rfl
  · constructor
    · intro heq
      have hlist := congrArg String.toList heq
      simp only [String.toList_append, List.append_cancel_right_eq] at hlist
      exact String.toList_injective hlist
    · intro heq
      rw [heq]

theorem automaticAuthorization_eq_nil_iff {req : Request} :
    valuesOf "authorization" (automaticAuthorization req) = [] ↔
      given req "authorization" = true ∨ effectiveBasicAuth req.toRequest = none := by
  have hname : eqIgnoreAsciiCase "Authorization" "authorization" = true := by decide
  unfold automaticAuthorization
  cases given req "authorization" with
  | true => simp [valuesOf]
  | false => cases effectiveBasicAuth req.toRequest <;> simp [valuesOf, hname]

/-- The three versions say the same exactly when the caller gave no `Host`, the host needs no
rewriting for a URI, and no credentials are added. -/
theorem same_request_iff {req : Request} (h : req.Direct) :
    (http1Message req = http2Message req ∧ http1Message req = http3Message req) ↔
      given req "host" = false ∧ uriHost req.url.host = req.url.host ∧
        (given req "authorization" = true ∨ effectiveBasicAuth req.toRequest = none) := by
  rw [http1Message_eq h, http2Message_eq h, http3Message_eq h, ← valuesOf_eq_nil_iff,
    ← authority_eq_iff h.scheme, ← automaticAuthorization_eq_nil_iff]
  simp only [Message.mk.injEq, List.cons.injEq, List.append_right_eq_self, true_and, and_true]
  grind

def withoutCredentials : Request where
  method := "GET"
  url := ⟨"https", none, "example.com", 443, "/"⟩
  headers := [("X-Trace", "1"), ("Connection", "close")]

theorem same_request_without_credentials :
    http1Message withoutCredentials = http2Message withoutCredentials ∧
      http1Message withoutCredentials = http3Message withoutCredentials :=
  (same_request_iff
    { scheme := rfl
      strict := rfl
      accepted := ⟨_, rfl⟩
      contentLength := by decide
      transferEncoding := by decide }).mpr
    ⟨by decide, by decide, .inr rfl⟩

def withUserinfo : Request where
  method := "GET"
  url := ⟨"https", some "user:pass", "example.com", 443, "/"⟩

/-- The credentials of the URL are sent in HTTP/1.1 and not in HTTP/3. -/
theorem credentials_depend_on_version :
    withUserinfo.Direct ∧ http1Message withUserinfo = http2Message withUserinfo ∧
      http1Message withUserinfo ≠ http3Message withUserinfo :=
  ⟨{ scheme := rfl
     strict := rfl
     accepted := ⟨_, rfl⟩
     contentLength := by decide
     transferEncoding := by decide }, by decide +kernel, by decide +kernel⟩

end Rsurl.Http
