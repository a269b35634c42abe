import Rsurl.Text
import Rsurl.Http2.Request

/-!
# URLs

Parsing an absolute URL and resolving a redirect target against the URL it came from. Fragments are
dropped, queries stay with the path, and dot segments are removed. Mapping an internationalised host
to ASCII is the work of another crate and a parameter here.
-/

namespace Rsurl.Url

open Text
open Http2 (Url)

/-! ## Ports and hosts -/

def defaultPort (scheme : String) : Option Nat :=
  match scheme with
  | "http" | "ws" => some 80
  | "https" | "wss" => some 443
  | "ftp" => some 21
  | "ftps" => some 990
  | "dict" => some 2628
  | "gopher" | "gophers" => some 70
  | "imap" => some 143
  | "imaps" => some 993
  | "ldap" => some 389
  | "ldaps" => some 636
  | "mqtt" => some 1883
  | "mqtts" => some 8883
  | "pop3" => some 110
  | "pop3s" => some 995
  | "smtp" => some 25
  | "smtps" => some 465
  | "telnet" => some 23
  | "rtsp" => some 554
  | "tftp" => some 69
  | "sftp" | "scp" => some 22
  | _ => none

/-- Digits only; an empty port is the scheme's. -/
def parsePort (p : List Char) (defaultPort : Nat) : Option Nat :=
  if p.isEmpty then some defaultPort
  else if !p.all Char.isDigit then none
  else parseUnsigned 65535 (String.ofList p)

def isHexChar (c : Char) : Bool := c.isDigit || ('a' ≤ c && c ≤ 'f') || ('A' ≤ c && c ≤ 'F')

/-- What is left after a number of one to `maxDigits` digits; a longer one is no number. -/
def readNumber (digit : Char → Bool) (maxDigits : Nat) (s : List Char) :
    Option (List Char × List Char) :=
  let digits := s.takeWhile digit
  if digits.isEmpty || maxDigits < digits.length then none
  else some (digits, s.drop digits.length)

/-- An octet in decimal, without leading zeros. -/
def readOctet (s : List Char) : Option (List Char) :=
  match readNumber Char.isDigit 3 s with
  | none => none
  | some (digits, rest) =>
    if digits.head? = some '0' && 1 < digits.length then none
    else if (parseUnsigned 255 (String.ofList digits)).isSome then some rest else none

/-- A part of an address, after its separator unless it is the first. -/
def readSeparator (sep : Char) (i : Nat) (part : List Char → Option (List Char))
    (s : List Char) : Option (List Char) :=
  if i = 0 then part s
  else match s with
    | c :: rest => if c = sep then part rest else none
    | [] => none

def readIpv4 (s : List Char) : Option (List Char) :=
  (List.range 4).foldlM (fun s i => readSeparator '.' i readOctet s) s

def readHexGroup (s : List Char) : Option (List Char) := (readNumber isHexChar 4 s).map Prod.snd

/-- Read up to `limit` groups, `left` of which are still to come: how many there are, whether they
end in an IPv4 address, and what follows. -/
def readGroups (limit : Nat) : Nat → List Char → Nat × Bool × List Char
  | 0, s => (limit, false, s)
  | left + 1, s =>
    let i := limit - (left + 1)
    match if i + 1 < limit then readSeparator ':' i readIpv4 s else none with
    | some rest => (i + 2, true, rest)
    | none => match readSeparator ':' i readHexGroup s with
      | some rest => readGroups limit left rest
      | none => (i, false, s)

/-- An IPv6 address and nothing else (`str::parse`). -/
def isIpv6Addr (s : List Char) : Bool :=
  match readGroups 8 8 s with
  | (8, _, rest) => rest.isEmpty
  | (head, ipv4, rest) =>
    if ipv4 then false
    else match rest with
      | ':' :: ':' :: tail =>
        let limit := 8 - (head + 1)
        (readGroups limit limit tail).2.2.isEmpty
      | _ => false

def isZoneChar (c : Char) : Bool :=
  c.isAlphanum || c == '-' || c == '.' || c == '_' || c == '~'

/-- The inside of an IPv6 literal, with an optional zone. -/
def isIpv6Literal (inner : List Char) : Bool :=
  match splitOnceAt ['%'] inner with
  | none => isIpv6Addr inner
  | some (addr, z) =>
    let z := match z with
      | '2' :: '5' :: rest => if rest.isEmpty then z else rest
      | _ => z
    !z.isEmpty && z.all isZoneChar && isIpv6Addr addr

/-! ## Paths -/

/-- One segment of a path, against the segments kept so far. -/
def pushSegment (last : Bool) (out : List (List Char)) (seg : List Char) : List (List Char) :=
  let dot := seg == ['.'] || seg == ['.', '.']
  let out := if seg == ['.', '.'] then out.dropLast else if dot then out else out ++ [seg]
  if dot && last then out ++ [[]] else out

def pushSegments : List (List Char) → List (List Char) → List (List Char)
  | out, [] => out
  | out, [seg] => pushSegment true out seg
  | out, seg :: rest => pushSegments (pushSegment false out seg) rest

def removeDotSegments (pathAndQuery : List Char) : List Char :=
  let path := pathAndQuery.takeWhile (· ≠ '?')
  let query := pathAndQuery.drop path.length
  if !(path.splitOn '/').any (fun seg => seg == ['.'] || seg == ['.', '.']) then pathAndQuery
  else '/' :: List.intercalate ['/'] (pushSegments [] ((path.splitOn '/').drop 1)) ++ query

/-- Percent-encode spaces and everything beyond ASCII. -/
def encodeLoose (s : List Char) : List Char :=
  (asBytes (String.ofList s)).flatMap fun b =>
    if b = 0x20 || 0x80 ≤ b then upperHex b else [Char.ofNat b.toNat]

/-! ## Parsing -/

/-- A control character, DEL or a space would forge or corrupt the request head. -/
def hasForbidden (field : List Char) : Bool :=
  field.any fun c => c.toNat < 0x20 || c.toNat = 0x7f || c = ' '

def isDelimiter (c : Char) : Bool := c == '/' || c == '?' || c == '#'

def dropFragment (s : List Char) : List Char := s.takeWhile (· ≠ '#')

/-- The host, the port, and whether the host is a bracketed literal. -/
def splitHostPort (hostport : List Char) (defaultPort : Nat) :
    Option (List Char × Nat × Bool) :=
  match splitOnceAt [']'] hostport with
  | some (before, after) => match before with
    | '[' :: inner =>
      let port := match after with
        | [] => some defaultPort
        | ':' :: p => parsePort p defaultPort
        | _ => none
      port.bind fun port => if isIpv6Literal inner then some (before ++ [']'], port, true) else none
    | _ => none
  | none =>
    if hostport.head? = some '[' then none
    else match rsplitOnce ':' hostport with
      | some (host, p) => (parsePort p defaultPort).map fun port => (host, port, false)
      | none => some (hostport, defaultPort, false)

def isBackslash (c : Char) : Bool := c == '\\'

/-- The checks on a host, a port and a userinfo part that have been split off. -/
def authorityOk (userinfo : Option (List Char)) (host : List Char) (port : Nat)
    (bracketed : Bool) : Bool :=
  !host.isEmpty && port ≠ 0 && !hasForbidden host &&
    (bracketed || !host.any fun c => isBackslash c || c == '%') &&
    userinfo.all fun info => !hasForbidden info && !info.any isBackslash

/-- `file` URLs have a path only. -/
def parseFile (s : String) (rest : List Char) : Except Error Url :=
  let path := if "localhost/".toList.isPrefixOf rest then rest.drop 9 else rest
  if path.head? = some '/' then .ok ⟨"file", none, "", 0, String.ofList (dropFragment path)⟩
  else .error (.invalidUrl s)

def parseRest (s scheme : String) (rest : List Char) : Except Error Url :=
  let authority := rest.takeWhile fun c => !isDelimiter c
  let path := dropFragment (rest.drop authority.length)
  if authority.isEmpty then .error (.invalidUrl s)
  else
    -- without a delimiter the path is the root
    let path := if path.head? = some '/' then removeDotSegments path else '/' :: path
    match defaultPort scheme with
    | none => .error (.unsupportedScheme scheme)
    | some defaultPort =>
      let (userinfo, hostport) := match rsplitOnce '@' authority with
        | some (info, hostport) => (some info, hostport)
        | none => (none, authority)
      match splitHostPort hostport defaultPort with
      | none => .error (.invalidUrl s)
      | some (host, port, bracketed) =>
        if authorityOk userinfo host port bracketed && !hasForbidden path then
          .ok ⟨scheme, userinfo.map String.ofList, String.ofList host, port, String.ofList path⟩
        else .error (.invalidUrl s)

def parse (s : String) : Except Error Url :=
  match splitOnceAt "://".toList s.toList with
  | none => .error (.invalidUrl s)
  | some (scheme, rest) =>
    if scheme.isEmpty then .error (.invalidUrl s)
    else
      let scheme := toAsciiLowercase (String.ofList scheme)
      if scheme = "file" then parseFile s rest else parseRest s scheme rest

/-! ## Resolving -/

def isSchemeChar (c : Char) : Bool := c.isAlphanum || c == '+' || c == '-' || c == '.'

/-- What follows the authority of a reference may carry raw spaces and letters beyond ASCII. -/
def encodeAfterAuthority (s : List Char) : List Char :=
  let authority := s.takeWhile fun c => !isDelimiter c
  authority ++ encodeLoose (s.drop authority.length)

/-- A reference without an authority of its own, against the base. -/
def resolvePath (base : Url) (loc : List Char) : List Char :=
  let loc := encodeLoose (dropFragment loc)
  let basePath := base.path.toList
  let document := basePath.takeWhile (· ≠ '?')
  match loc with
  | [] => basePath
  | '?' :: _ => document ++ loc
  | '/' :: _ => loc
  | _ => (match rsplitOnce '/' document with
      | some (dir, _) => dir ++ ['/']
      | none => ['/']) ++ loc

/-- A reference without a scheme. -/
def resolveRelative (base : Url) (loc : List Char) : Except Error Url :=
  match loc with
  | '/' :: '/' :: rest =>
    parse (String.ofList (base.scheme.toList ++ "://".toList ++ encodeAfterAuthority rest))
  | _ =>
    let authority := if base.port = (defaultPort base.scheme).getD 0 then base.host
      else s!"{base.host}:{base.port}"
    parse s!"{base.scheme}://{authority}{String.ofList (resolvePath base loc)}"

def resolve (base : Url) (location : String) : Except Error Url :=
  let loc := (trim location).toList
  if loc.isEmpty then .error (.invalidUrl "empty Location")
  else match splitOnceAt "://".toList loc with
    | some (scheme, rest) =>
      if !scheme.isEmpty && scheme.all isSchemeChar then
        parse (String.ofList (scheme ++ "://".toList ++ encodeAfterAuthority rest))
      else resolveRelative base loc
    | none => resolveRelative base loc

/-! ## Hosts as ASCII -/

/-- The host in ASCII, if asked for; `idna` is the encoder. -/
def toAscii (idna : String → Option String) (host : String) (enabled : Bool) :
    Except Error String :=
  if enabled && !isAscii host.toList then
    match idna host with
    | none => .error (.invalidUrl s!"invalid IDN host: {host}")
    | some ascii =>
      if ascii.toList.all fun c => c.isAlphanum || c == '-' || c == '.' || c == '_' then .ok ascii
      else .error (.invalidUrl s!"IDN host encodes to a forbidden authority delimiter: {host}")
  else .ok host

def setIdn (idna : String → Option String) (url : Url) (enabled : Bool) : Except Error Url :=
  match toAscii idna url.host enabled with
  | .ok host => .ok { url with host }
  | .error e => .error e

/-- `url_to_string` of the HTTP client. -/
def toString (u : Url) : String :=
  if (u.scheme = "http" ∧ u.port = 80) ∨ (u.scheme = "https" ∧ u.port = 443) then
    s!"{u.scheme}://{u.host}{u.path}"
  else s!"{u.scheme}://{u.host}:{u.port}{u.path}"

end Rsurl.Url
