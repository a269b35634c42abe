import Rsurl.Url

/-!
# Cookies

Parsing `Set-Cookie`, the jar that holds the cookies, and which of them go out with a request.
Whether a name is a public suffix is looked up in a list that belongs to another crate; the lookup
is a parameter.
-/

namespace Rsurl.Cookies

open Text
open Http2 (Url)

/-- What the list says of a name in lower case: whether it is a public suffix, or nothing. -/
abbrev SuffixList := String → Option Bool

inductive SameSite where
  | unspecified
  | lax
  | strict
  | none
  deriving DecidableEq, Repr

structure Cookie where
  name : String
  value : String
  domain : String
  path : String
  /-- Seconds since the epoch; a session cookie has none. -/
  expires : Option Nat
  secure : Bool
  httpOnly : Bool
  /-- Sent to the very host only, not to those under it. -/
  hostOnly : Bool
  sameSite : SameSite
  «partitioned» : Bool
  partitionKey : Option String
  deriving DecidableEq, Repr

/-- Name, domain and path. -/
abbrev CookieKey := String × String × String

def Cookie.key (c : Cookie) : CookieKey := (c.name, c.domain, c.path)

def sameKey (a b : CookieKey) : Bool :=
  a.1 == b.1 && eqIgnoreAsciiCase a.2.1 b.2.1 && a.2.2 == b.2.2

/-! ## Hosts and paths -/

/-- A number of at most 255 (`str::parse`, which takes a plus sign). -/
def isU8 (part : List Char) : Bool :=
  let digits := match part with
    | '+' :: rest => rest
    | _ => part
  !digits.isEmpty && digits.all Char.isDigit &&
    digits.foldl (fun acc c => acc * 10 + (c.toNat - '0'.toNat)) 0 ≤ 255

/-- Four decimal octets, or anything with a colon or an opening bracket. -/
def isIpLiteral (host : String) : Bool :=
  host.toList.head? == some '[' || host.toList.contains ':' ||
    ((host.toList.splitOn '.').all isU8 && (host.toList.splitOn '.').length == 4)

/-- The host ends in a dot and the domain. -/
def isUnder (host domain : String) : Bool :=
  ('.' :: (toAsciiLowercase domain).toList).isSuffixOf (toAsciiLowercase host).toList

def domainMatch (requestHost cookieDomain : String) (hostOnly : Bool) : Bool :=
  eqIgnoreAsciiCase requestHost cookieDomain ||
    (!hostOnly && !isIpLiteral requestHost && isUnder requestHost cookieDomain)

def isTls (url : Url) : Bool :=
  ["https", "ftps", "imaps", "pop3s", "ldaps", "gophers", "mqtts", "wss"].contains url.scheme

def isLoopbackAddr (host : List Char) : Bool :=
  Url.readIpv4 host == some [] && "127.".toList.isPrefixOf host

/-- TLS, or a host that is this machine. -/
def isSecureContext (url : Url) : Bool :=
  isTls url ||
    let host := (url.host.toList.dropWhile (· == '[')).rdropWhile (· == ']')
    eqIgnoreAsciiCase (String.ofList host) "localhost" ||
      isUnder (String.ofList host) "localhost" || String.ofList host == "::1" || isLoopbackAddr host

def requestPath (path : String) : String :=
  String.ofList (path.toList.takeWhile fun c => c ≠ '?' && c ≠ '#')

def pathMatch (requestPath cookiePath : String) : Bool :=
  requestPath == cookiePath ||
    (cookiePath.toList.isPrefixOf requestPath.toList &&
      (cookiePath.toList.getLast? == some '/' ||
        (requestPath.toList.drop cookiePath.toList.length).head? == some '/'))

def defaultPath (uriPath : String) : String :=
  if uriPath.toList.head? ≠ some '/' then "/"
  else match rsplitOnce '/' uriPath.toList with
    | some (c :: dir, _) => String.ofList (c :: dir)
    | _ => "/"

def isAsciiControl (c : Char) : Bool := c.toNat < 0x20 || c.toNat == 0x7f

def hasForbiddenCookieChar (s : String) : Bool := s.toList.any isAsciiControl

/-- A name that some registrable domain ends in, so that a cookie may be scoped to it. -/
def isScopableCookieDomain (psl : SuffixList) (domain : String) : Bool :=
  let d := (domain.toList.dropWhile (· == '.')).rdropWhile (· == '.')
  !d.isEmpty && psl (toAsciiLowercase (String.ofList d)) == some false

/-! ## Dates -/

def isDateDelimiter (b : UInt8) : Bool :=
  b == 0x09 || (0x20 ≤ b && b ≤ 0x2f) || (0x3b ≤ b && b ≤ 0x40) || (0x5b ≤ b && b ≤ 0x60) ||
    (0x7b ≤ b && b ≤ 0x7e)

def decimal (digits : Bytes) : Nat := digits.foldl (fun acc b => acc * 10 + (b.toNat - 0x30)) 0

/-- A number of `min` to `max` digits at the start of a token. -/
def leadingDigits (token : Bytes) (min max : Nat) : Option Nat :=
  let digits := token.takeWhile isAsciiDigit
  if digits.length < min || max < digits.length then none else some (decimal digits)

/-- One or two digits, and what follows them. -/
def timePart (token : Bytes) : Option (Nat × Bytes) :=
  let digits := token.takeWhile isAsciiDigit
  if 1 ≤ digits.length && digits.length ≤ 2 then some (decimal digits, token.drop digits.length)
  else none

def stripColon : Bytes → Option Bytes
  | 0x3a :: rest => some rest
  | _ => none

def cookieDateTime (token : Bytes) : Option (Nat × Nat × Nat) := do
  let (hh, rest) ← timePart token
  let (mm, rest) ← timePart (← stripColon rest)
  let (ss, _) ← timePart (← stripColon rest)
  some (hh, mm, ss)

def lowerByte (b : UInt8) : UInt8 := if 0x41 ≤ b && b ≤ 0x5a then b + 0x20 else b

def months : List Bytes :=
  ["jan", "feb", "mar", "apr", "may", "jun", "jul", "aug", "sep", "oct", "nov", "dec"].map asBytes

def parseMonth (token : Bytes) : Option Nat :=
  (months.findIdx? (· == (token.take 3).map lowerByte)).map (· + 1)

structure DateParts where
  time : Option (Nat × Nat × Nat) := none
  day : Option Nat := none
  month : Option Nat := none
  year : Option Nat := none

/-- A token fills the first open part it fits. -/
def DateParts.push (d : DateParts) (token : Bytes) : DateParts :=
  match if d.time.isNone then cookieDateTime token else none with
  | some time => { d with time := some time }
  | none => match if d.day.isNone then leadingDigits token 1 2 else none with
    | some day => { d with day := some day }
    | none => match if d.month.isNone then parseMonth token else none with
      | some month => { d with month := some month }
      | none => match if d.year.isNone then leadingDigits token 2 4 else none with
        | some year => { d with year := some year }
        | none => d

def isLeap (y : Int) : Bool := (y % 4 == 0 && y % 100 != 0) || y % 400 == 0

def monthDays (y : Int) (m : Nat) : Nat :=
  match m with
  | 2 => if isLeap y then 29 else 28
  | 4 | 6 | 9 | 11 => 30
  | _ => 31

/-- The second of a date; one before the epoch is 0. -/
def epochFromYmdHms (y : Int) (m d hh mm ss : Nat) : Option Nat :=
  if m < 1 || 12 < m || d < 1 || 31 < d || 23 < hh || 59 < mm || 60 < ss then none
  else if monthDays y m < d then none
  else
    let year := if m ≤ 2 then y - 1 else y
    let era := (if 0 ≤ year then year else year - 399).tdiv 400
    let yoe := year - era * 400
    let mp : Nat := if 2 < m then m - 3 else m + 9
    let doy : Nat := (153 * mp + 2) / 5 + d - 1
    let doe := yoe * 365 + yoe / 4 - yoe / 100 + doy
    let days := era * 146097 + doe - 719468
    if days < 0 then some 0 else some (days.toNat * 86400 + hh * 3600 + mm * 60 + ss)

/-- Two-digit years are those around 2000. -/
def fullYear (year : Nat) : Nat :=
  if 70 ≤ year && year ≤ 99 then year + 1900 else if year ≤ 69 then year + 2000 else year

def parseHttpDate (s : String) : Option Nat := do
  let tokens := ((asBytes s).splitOnP isDateDelimiter).filter fun t => !t.isEmpty
  let d := tokens.foldl DateParts.push {}
  let (hh, mm, ss) ← d.time
  let day ← d.day
  let month ← d.month
  let year := fullYear (← d.year)
  if year < 1601 || 23 < hh || 59 < mm || 59 < ss then none
  else epochFromYmdHms year month day hh mm ss

/-! ## `Set-Cookie` -/

/-- What the attributes say. -/
structure Attributes where
  domain : Option String := none
  hostOnly : Bool := true
  path : String
  hasDomainAttr : Bool := false
  expires : Option Nat := none
  maxAge : Option Int := none
  secure : Bool := false
  httpOnly : Bool := false
  sameSite : SameSite := .unspecified
  «partitioned» : Bool := false

def stripDot (s : String) : String := (stripPrefix '.' s).getD s

/-- A `Domain` attribute; `none` rejects the cookie. -/
def Attributes.setDomain (psl : SuffixList) (requestHost : String) (a : Attributes) (v : String) :
    Option Attributes :=
  let v := toAsciiLowercase (stripDot v)
  if v = "" then some a
  else
    let a := { a with hasDomainAttr := true }
    if isIpLiteral requestHost then some a
    else if !isScopableCookieDomain psl v then
      if v = requestHost then some { a with domain := some v, hostOnly := true } else none
    else if domainMatch requestHost v false then some { a with domain := some v, hostOnly := false }
    else none

def Attributes.setPath (a : Attributes) (v : String) : Option Attributes :=
  if hasForbiddenCookieChar v then none
  else if v.toList.head? = some '/' then some { a with path := v } else some a

/-- A signed 64-bit decimal (`str::parse`). -/
def parseI64 (s : String) : Option Int :=
  match asBytes s with
  | 0x2d :: digits =>
    if digits.isEmpty || !digits.all isAsciiDigit then none
    else if decimal digits ≤ 2 ^ 63 then some (-(decimal digits : Int)) else none
  | _ => (parseUnsigned (2 ^ 63 - 1) s).map Int.ofNat

def parseSameSite (v : Option String) : SameSite :=
  match v with
  | none => .unspecified
  | some s =>
    if eqIgnoreAsciiCase s "lax" then .lax
    else if eqIgnoreAsciiCase s "strict" then .strict
    else if eqIgnoreAsciiCase s "none" then .none
    else .unspecified

/-- The name of an attribute, and its value if it has one. -/
def splitAttribute (attr : String) : String × Option String :=
  match splitOnce '=' attr with
  | some (k, v) => (trim k, some (trim v))
  | none => (attr, none)

/-- An attribute with a value; `none` rejects the cookie. -/
def Attributes.setValue (psl : SuffixList) (requestHost : String) (a : Attributes) (k v : String) :
    Option Attributes :=
  if eqIgnoreAsciiCase k "domain" then a.setDomain psl requestHost v
  else if eqIgnoreAsciiCase k "path" then a.setPath v
  else if eqIgnoreAsciiCase k "expires" then some { a with expires := parseHttpDate v }
  else if eqIgnoreAsciiCase k "max-age" then
    match parseI64 v with
    | some n => some { a with maxAge := some n }
    | none => some a
  else some a

/-- An attribute that needs no value. -/
def Attributes.setFlag (a : Attributes) (k : String) (v : Option String) : Attributes :=
  if eqIgnoreAsciiCase k "secure" then { a with secure := true }
  else if eqIgnoreAsciiCase k "httponly" then { a with httpOnly := true }
  else if eqIgnoreAsciiCase k "samesite" then { a with sameSite := parseSameSite v }
  else if eqIgnoreAsciiCase k "partitioned" then { a with «partitioned» := true }
  else a

/-- One attribute; `none` rejects the cookie. The names of the two kinds differ, so at most one
of the steps does anything. -/
def Attributes.push (psl : SuffixList) (requestHost : String) (a : Attributes) (attr : String) :
    Option Attributes :=
  let (k, v) := splitAttribute (trim attr)
  ((v.elim (some a) (a.setValue psl requestHost k)).map fun a => a.setFlag k v)

def startsWithIgnoreAsciiCase (s start : String) : Bool :=
  startsWith (toAsciiLowercase start) (toAsciiLowercase s)

/-- The rules a name prefix stands for are kept. -/
def prefixRulesOk (name : String) (a : Attributes) : Bool :=
  !(startsWithIgnoreAsciiCase name "__secure-" && !a.secure) &&
    !(startsWithIgnoreAsciiCase name "__host-" && (!a.secure || a.hasDomainAttr || a.path != "/"))

/-- `Max-Age` wins over `Expires`; one that is not positive has passed. -/
def expiry (a : Attributes) (now : Nat) : Option Nat :=
  match a.maxAge with
  | none => a.expires
  | some n => if n ≤ 0 then some 0 else some (min (now + n.toNat) (2 ^ 64 - 1))

/-- The name and value of a `Set-Cookie` line, and its attributes. -/
def splitCookie (line : String) : Option (String × String × List String) :=
  match split ';' line with
  | [] => none
  | nv :: attrs => (splitOnce '=' (trim nv)).map fun (name, value) => (trim name, trim value, attrs)

/-- The cookie of a name, a value and attributes. -/
def Attributes.cookie (a : Attributes) (name value requestHost : String) (now : Nat) : Cookie where
  name
  value
  domain := a.domain.getD requestHost
  path := a.path
  expires := expiry a now
  secure := a.secure
  httpOnly := a.httpOnly
  hostOnly := a.hostOnly
  sameSite := a.sameSite
  «partitioned» := a.partitioned
  partitionKey := none

def parseAttributes (psl : SuffixList) (url : Url) (attrs : List String) : Option Attributes :=
  attrs.foldlM (Attributes.push psl (toAsciiLowercase url.host))
    { path := defaultPath (requestPath url.path) }

def parseSetCookie (psl : SuffixList) (line : String) (url : Url) (now : Nat) : Option Cookie := do
  let (name, value, attrs) ← splitCookie line
  if name = "" || hasForbiddenCookieChar name || hasForbiddenCookieChar value then none
  else
    let a ← parseAttributes psl url attrs
    if (a.secure && !isSecureContext url) || !prefixRulesOk name a then none
    else some (a.cookie name value (toAsciiLowercase url.host) now)

theorem parseSetCookie_ok {psl : SuffixList} {line : String} {url : Url} {now : Nat} {c : Cookie}
    (h : parseSetCookie psl line url now = some c) :
    ∃ name value attrs a, splitCookie line = some (name, value, attrs) ∧ name ≠ "" ∧
      hasForbiddenCookieChar name = false ∧ hasForbiddenCookieChar value = false ∧
      parseAttributes psl url attrs = some a ∧ (a.secure = true → isSecureContext url = true) ∧
      c = a.cookie name value (toAsciiLowercase url.host) now := by
  simp only [parseSetCookie, Option.bind_eq_bind, Option.bind_eq_some_iff] at h
  obtain ⟨⟨name, value, attrs⟩, hsplit, h⟩ := h
  obtain ⟨hclean, h⟩ := Option.ite_none_left_eq_some.mp h
  obtain ⟨a, ha, h⟩ := Option.bind_eq_some_iff.mp h
  obtain ⟨hrules, h⟩ := Option.ite_none_left_eq_some.mp h
  cases h
  simp only [Bool.or_eq_true, decide_eq_true_eq, not_or, Bool.not_eq_true] at hclean
  refine ⟨name, value, attrs, a, hsplit, hclean.1.1, hclean.1.2, hclean.2, ha, ?_, rfl⟩
  intro hs
  by_contra hctx
  exact hrules (by simp [hs, hctx])

/-! ## The jar -/

structure CookieJar where
  cookies : List Cookie := []
  /-- The cookies the caller gave by name, which are not saved. -/
  explicit : List CookieKey := []
  deriving DecidableEq, Repr

/-- It has passed by `now`. -/
def Cookie.expired (c : Cookie) (now : Nat) : Bool := c.expires.any (· ≤ now)

namespace CookieJar

def removeKey (jar : CookieJar) (key : CookieKey) : CookieJar where
  cookies := jar.cookies.filter fun c => !sameKey c.key key
  explicit := jar.explicit.filter fun k => !sameKey k key

def removeMatching (jar : CookieJar) (c : Cookie) : CookieJar := jar.removeKey c.key

def shadowsSecureCookie (jar : CookieJar) (new : Cookie) : Bool :=
  jar.cookies.any fun c => c.secure && c.name == new.name &&
    (domainMatch c.domain new.domain false || domainMatch new.domain c.domain false) &&
    pathMatch new.path c.path

/-- Put a cookie in the place of any with its key. -/
def insert (jar : CookieJar) (c : Cookie) : CookieJar :=
  { jar.removeMatching c with cookies := (jar.removeMatching c).cookies ++ [c] }

def addSetCookie (psl : SuffixList) (jar : CookieJar) (url : Url) (line : String) (now : Nat) :
    CookieJar :=
  match parseSetCookie psl line url now with
  | none => jar
  | some c =>
    if !isSecureContext url && jar.shadowsSecureCookie c then jar
    else if c.expired now then jar.removeMatching c
    else jar.insert c

def ingestResponse (psl : SuffixList) (jar : CookieJar) (url : Url) (headers : List Hpack.Header)
    (now : Nat) : CookieJar :=
  (headers.filter fun h => eqIgnoreAsciiCase h.1 "set-cookie").foldl
    (fun jar h => jar.addSetCookie psl url h.2 now) jar

def purgeExpired (jar : CookieJar) (now : Nat) : CookieJar :=
  { jar with cookies := jar.cookies.filter fun c => !c.expired now }

def addExplicit (jar : CookieJar) (name value : String) (url : Url) : CookieJar :=
  let c : Cookie :=
    { name, value, domain := toAsciiLowercase url.host, path := "/", expires := none,
      secure := false, httpOnly := false, hostOnly := true, sameSite := .unspecified,
      «partitioned» := false, partitionKey := none }
  { cookies := (jar.removeMatching c).cookies ++ [c]
    explicit := (jar.removeMatching c).explicit ++ [c.key] }

def remove (jar : CookieJar) (name domain path : String) : Bool × CookieJar :=
  let jar' := jar.removeKey (name, domain, path)
  (jar'.cookies.length != jar.cookies.length, jar')

def clear (_ : CookieJar) : CookieJar := {}

def isExplicit (jar : CookieJar) (c : Cookie) : Bool := jar.explicit.any fun k => sameKey k c.key

/-! ## Sending -/

def matchesRequest (c : Cookie) (url : Url) (now : Nat) : Bool :=
  !c.expired now && (!c.secure || isSecureContext url) && domainMatch url.host c.domain c.hostOnly &&
    pathMatch (requestPath url.path) c.path

/-- The cookies of a request, the longest path first. -/
def emitted (jar : CookieJar) (url : Url) (now : Nat) : List Cookie :=
  (jar.cookies.filter fun c => matchesRequest c url now && !hasForbiddenCookieChar c.name &&
    !hasForbiddenCookieChar c.value).insertionSort fun a b => len b.path ≤ len a.path

def cookieHeader (jar : CookieJar) (url : Url) (now : Nat) : Option String :=
  let cookies := jar.emitted url now
  if cookies.isEmpty then none
  else some ("; ".intercalate (cookies.map fun c => c.name ++ "=" ++ c.value))

end CookieJar

end Rsurl.Cookies
