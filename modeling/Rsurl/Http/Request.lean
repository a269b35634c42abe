import Rsurl.Http2.Pool
import Rsurl.Url

/-!
# Requests of the HTTP client

A request with the options that steer its redirects, credentials and transport, and the bytes it is
on an HTTP/1.1 connection.
-/

namespace Rsurl.Http

open Text Hpack
open Http2 (Url effectiveMethod effectiveBasicAuth base64Encode userAgent)

structure Request extends Http2.PoolRequest where
  followRedirects : Bool := false
  maxRedirs : Nat := 50
  /-- Answer `Digest` challenges with `basicAuth`. -/
  authDigest : Bool := false
  /-- Credentials for the HTTP proxy. -/
  proxyAuth : Option (String × String) := none
  idn : Bool := true
  autoReferer : Bool := false
  /-- Keep credentials when a redirect leaves the origin. -/
  redirectTrusted : Bool := false
  /-- Re-send a POST as a POST after a 301, a 302 and a 303. -/
  keepPost : Bool × Bool × Bool := (false, false, false)
  jarThroughRedirects : Bool := true
  deriving DecidableEq, Repr

/-! ## Validation -/

def isTokenChar (c : Char) : Bool :=
  c.isAlphanum || "!#$%&'*+-.^_`|~".toList.contains c

def isValidHeaderName (name : String) : Bool := name ≠ "" && name.toList.all isTokenChar

def headerValueHasForbidden (value : String) : Bool :=
  value.toList.any fun c => c == '\r' || c == '\n' || c.toNat == 0

def validateHeader (h : Header) : Except Error Unit :=
  if !isValidHeaderName h.1 then .error (.badResponse s!"invalid header name: {dbgStr h.1}")
  else if headerValueHasForbidden h.2 then
    .error (.badResponse s!"invalid header value for {dbgStr h.1}")
  else .ok ()

def validateMethod (method : String) : Except Error Unit :=
  if method = "" || method.toList.any (fun c => c.toNat < 0x20 || c.toNat == 0x7f || c == ' ') then
    .error (.badResponse s!"invalid method: {dbgStr method}")
  else .ok ()

theorem forM_ok {α : Type} {f : α → Except Error Unit} {items : List α}
    (h : items.forM f = .ok ()) : ∀ x ∈ items, f x = .ok () := by
  induction items with
  | nil => simp
  | cons x rest ih =>
    have hcons : (x :: rest).forM f = (f x >>= fun _ => rest.forM f) := rfl
    rw [hcons] at h
    cases hx : f x with
    | error e =>
      rw [hx] at h
      cases h
    | ok u =>
      rw [hx] at h
      rintro y (- | ⟨-, hy⟩)
      · exact hx
      · exact ih h y hy

/-! ## The request head -/

/-- The inside of a bracketed host. -/
def unbracket (host : List Char) : Option (List Char) :=
  match host with
  | '[' :: rest => if rest.getLast? = some ']' then some rest.dropLast else none
  | _ => none

/-- An IPv6 literal is bracketed and loses its zone. -/
def uriHost (host : String) : String :=
  let bare := (unbracket host.toList).getD host.toList
  if bare.contains ':' then String.ofList ('[' :: bare.takeWhile (· ≠ '%') ++ [']']) else host

def hostHeaderValue (url : Url) : String :=
  let host := uriHost url.host
  if (url.scheme = "http" ∧ url.port = 80) ∨ (url.scheme = "https" ∧ url.port = 443) then host
  else s!"{host}:{url.port}"

def given (req : Request) (name : String) : Bool :=
  req.headers.any fun h => eqIgnoreAsciiCase h.1 name

def methodTakesBody (method : String) : Bool :=
  eqIgnoreAsciiCase method "POST" || eqIgnoreAsciiCase method "PUT" ||
    eqIgnoreAsciiCase method "PATCH"

/-- The fields added unless the caller gave them or asked for none. -/
def automaticFields (req : Request) : List Header :=
  if req.strictHeaders then []
  else
    (if given req "authorization" then [] else match effectiveBasicAuth req.toRequest with
      | some creds => [("Authorization", s!"Basic {creds}")]
      | none => []) ++
    (if given req "user-agent" then [] else [("User-Agent", userAgent)]) ++
    (if given req "accept" then [] else [("Accept", "*/*")]) ++
    (if given req "accept-encoding" then [] else [("Accept-Encoding", "gzip, deflate")])

def requestTarget (req : Request) (absoluteForm : Bool) : String :=
  if absoluteForm then s!"{req.url.scheme}://{hostHeaderValue req.url}{req.url.path}"
  else req.url.path

def basicToken (user pass : String) : String := base64Encode (asBytes s!"{user}:{pass}")

/-- The fields of the request head, in the order they are written. -/
def requestFields (req : Request) (absoluteForm : Bool) : List Header :=
  (if req.strictHeaders && given req "host" then [] else [("Host", hostHeaderValue req.url)]) ++
  (match absoluteForm, req.proxy, req.proxyAuth with
    | true, true, some (user, pass) =>
      [("Proxy-Authorization", s!"Basic {basicToken user pass}")]
    | _, _, _ => []) ++
  req.headers ++ automaticFields req ++
  (if !given req "content-length" && !given req "transfer-encoding" &&
      (!req.body.isEmpty || methodTakesBody (effectiveMethod req.toRequest)) then
    [("Content-Length", toString req.body.length)]
  else [])

def requestHead (req : Request) (absoluteForm : Bool) : String :=
  s!"{effectiveMethod req.toRequest} {requestTarget req absoluteForm} HTTP/1.1\r\n" ++
    String.join ((requestFields req absoluteForm).map fun h => s!"{h.1}: {h.2}\r\n") ++ "\r\n"

/-- The bytes of the request, after everything on the request line and in the fields has been
checked. -/
def writeRequest (req : Request) (absoluteForm : Bool) : Except Error Bytes :=
  match validateMethod (effectiveMethod req.toRequest) with
  | .error e => .error e
  | .ok () => match req.headers.forM validateHeader with
    | .error e => .error e
    | .ok () => .ok (asBytes (requestHead req absoluteForm) ++ req.body)

theorem validateHeader_of_ok {req : Request} {absoluteForm : Bool} {out : Bytes}
    (hout : writeRequest req absoluteForm = .ok out) :
    ∀ f ∈ req.headers, validateHeader f = .ok () := by
  unfold writeRequest at hout
  split at hout
  · cases hout
  · split at hout
    · cases hout
    · rename_i hall
      exact forM_ok hall

/-- A plain HTTP proxy is asked for the whole URL. -/
def viaPlainHttpProxy (req : Request) : Bool :=
  req.url.scheme == "http" && req.proxy && !req.proxyBypassed

end Rsurl.Http
