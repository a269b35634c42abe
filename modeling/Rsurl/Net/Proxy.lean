import Rsurl.Library.Endian
import Rsurl.Net.Wire

/-!
# Proxies

`CONNECT` over a stream to an HTTP proxy, and the proxy URL that says which handshake a connector
makes.
-/

/-!
## SOCKS

The client sides of SOCKS4, SOCKS4a and SOCKS5, over a stream to the proxy. Looking a name up is the
work of the system, and a parameter. After the functions comes the grammar that a proxy reads the
requests by.
-/

namespace Rsurl.Net

open Library Text
open Library.Endian (toBe fromBe)

/-- What the system knows of a name. -/
abbrev Dns := String → UInt16 → Except Error (List IpAddr)

/-- An address is taken as it is. -/
def toSocketAddrs (dns : Dns) (host : String) (port : UInt16) : Except Error (List IpAddr) :=
  match parseIp host.toList with
  | some ip => .ok [ip]
  | none => dns host port

def IpAddr.isV4 : IpAddr → Bool
  | v4 .. => true
  | v6 _ => false

def resolveIpv4 (dns : Dns) (host : String) (port : UInt16) : Except Error Bytes :=
  let host := unbracket host
  match toSocketAddrs dns host port with
  | .error e => .error e
  | .ok addrs => match addrs.find? IpAddr.isV4 with
    | some ip => .ok ip.octets
    | none => .error (.badResponse
      s!"socks4: {host} has no IPv4 address (SOCKS4 is IPv4-only; use socks5)")

/-- The address type, and the address. -/
def pushIp : IpAddr → Bytes
  | .v4 a b c d => [0x01, a, b, c, d]
  | .v6 addr => 0x04 :: addr.octets

/-! ## SOCKS4 -/

/-- The address that stands for a name to come. -/
def nameFollows : Bytes := [0, 0, 0, 1]

def socks4Literal (host : String) : Except Error (Option IpAddr) :=
  match ipLiteralAddr host with
  | some (.v6 _) => .error (.badResponse
    s!"socks4: cannot reach IPv6 address {host} (SOCKS4 is IPv4-only; use socks5)")
  | literal => .ok literal

/-- The address to send, and the name that follows it if the proxy is to look it up. -/
def socks4Target (dns : Dns) (host : String) (port : UInt16) (remoteDns : Bool) :
    Except Error (Bytes × Option String) := do
  let literal ← socks4Literal host
  if remoteDns && literal.isNone then return (nameFollows, some host)
  else return (← resolveIpv4 dns host port, none)

def terminated (s : String) : Bytes := asBytes s ++ [0]

def socks4Request (port : UInt16) (user : String) (target : Bytes × Option String) : Bytes :=
  [0x04, 0x01] ++ toBe 2 port.toNat ++ target.1 ++ terminated user ++
    (target.2.map terminated).getD []

def socks4Reply (reply : Bytes) : Except Error Unit :=
  match reply with
  | version :: code :: _ =>
    if version ≠ 0 then
      .error (.badResponse s!"socks4: unexpected reply version byte {hexByte version}")
    else if code = 0x5a then .ok ()
    else if code = 0x5b then .error (.badResponse "socks4: request rejected or failed")
    else if code = 0x5c then
      .error (.badResponse "socks4: rejected (proxy could not reach client identd)")
    else if code = 0x5d then
      .error (.badResponse "socks4: rejected (identd authentication failed)")
    else .error (.badResponse s!"socks4: unknown reply code {hexByte code}")
  | _ => .error .unexpectedEof

def socks4Connect (dns : Dns) (host : String) (port : UInt16) (user : String) (remoteDns : Bool) :
    Session Unit := do
  let target ← Talk.ofExcept (socks4Target dns host port remoteDns)
  Session.send (socks4Request port user target)
  let reply ← Session.exact 8
  Talk.ofExcept (socks4Reply reply)

/-! ## SOCKS5 -/

def greeting (auth : Option (String × String)) : Bytes :=
  if auth.isSome then [0x05, 0x02, 0x00, 0x02] else [0x05, 0x01, 0x00]

/-- A string after its length. -/
def counted (s : String) : Bytes := UInt8.ofNat (len s) :: asBytes s

def authRequest (user pass : String) : Except Error Bytes :=
  if 255 < len user ∨ 255 < len pass then
    .error (.badResponse "socks5: username/password exceeds 255 bytes")
  else .ok (0x01 :: counted user ++ counted pass)

def authenticate (auth : Option (String × String)) : Session Unit :=
  match auth with
  | none => Talk.fail (.badResponse "socks5: proxy requires auth but none was provided")
  | some (user, pass) => do
    Session.send (← Talk.ofExcept (authRequest user pass))
    let ar ← Session.exact 2
    if ar.getD 1 0 ≠ 0 then
      Talk.fail (.badResponse "socks5: username/password authentication failed")

def socks5Negotiate (auth : Option (String × String)) : Session Unit := do
  Session.send (greeting auth)
  let sel ← Session.exact 2
  if sel.getD 0 0 ≠ 0x05 then
    Talk.fail (.badResponse s!"socks5: bad version {hexByte (sel.getD 0 0)} in method selection")
  else if sel.getD 1 0 = 0x00 then return ()
  else if sel.getD 1 0 = 0x02 then authenticate auth
  else if sel.getD 1 0 = 0xff then
    Talk.fail (.badResponse "socks5: proxy offered no acceptable authentication method")
  else Talk.fail (.badResponse
    s!"socks5: proxy selected unsupported method {hexByte (sel.getD 1 0)}")

def socks5ReplyMsg (code : UInt8) : String :=
  if code = 0x01 then "general SOCKS server failure"
  else if code = 0x02 then "connection not allowed by ruleset"
  else if code = 0x03 then "network unreachable"
  else if code = 0x04 then "host unreachable"
  else if code = 0x05 then "connection refused"
  else if code = 0x06 then "TTL expired"
  else if code = 0x07 then "command not supported"
  else if code = 0x08 then "address type not supported"
  else "unknown error"

/-- The destination as the request has it. -/
def socks5Destination (dns : Dns) (host : String) (port : UInt16) (remoteDns : Bool) :
    Except Error Bytes :=
  match ipLiteralAddr host with
  | some ip => .ok (pushIp ip)
  | none =>
    if remoteDns then
      if 255 < len host then .error (.badResponse "socks5h: hostname exceeds 255 bytes")
      else .ok (0x03 :: counted host)
    else match toSocketAddrs dns host port with
      | .error e => .error e
      | .ok [] => .error (.invalidUrl host)
      | .ok (ip :: _) => .ok (pushIp ip)

/-- A two-byte port. -/
def readPort : Session UInt16 := do return UInt16.ofNat (fromBe (← Session.exact 2))

/-- Where a reply of this address type says that the tunnel ends; a name is looked up. -/
def socks5Bound (dns : Dns) (atyp : UInt8) : Session (IpAddr × UInt16) :=
  if atyp = 0x01 then do
    match ← Session.exact 4 with
    | [a, b, c, d] => return (.v4 a b c d, ← readPort)
    | _ => Talk.fail .unexpectedEof
  else if atyp = 0x04 then do
    match Ipv6Addr.ofOctets (← Session.exact 16) with
    | some addr => return (.v6 addr, ← readPort)
    | none => Talk.fail .unexpectedEof
  else if atyp = 0x03 then do
    let count ← Session.exact 1
    let name ← Session.exact (count.getD 0 0).toNat
    let port ← readPort
    match (fromUtf8 name).map fun n => toSocketAddrs dns n port with
    | some (.ok (ip :: _)) => return (ip, port)
    | _ => return (.unspecified, port)
  else Talk.fail (.badResponse s!"socks5: unexpected ATYP {hexByte atyp} in reply")

def socks5Request (dns : Dns) (cmd : UInt8) (host : String) (port : UInt16) (remoteDns : Bool) :
    Session (IpAddr × UInt16) := do
  let destination ← Talk.ofExcept (socks5Destination dns host port remoteDns)
  Session.send ([0x05, cmd, 0x00] ++ destination ++ toBe 2 port.toNat)
  let head ← Session.exact 4
  if head.getD 0 0 ≠ 0x05 then
    Talk.fail (.badResponse s!"socks5: bad version {hexByte (head.getD 0 0)} in reply")
  else if head.getD 1 0 ≠ 0x00 then
    Talk.fail (.badResponse s!"socks5: request failed ({socks5ReplyMsg (head.getD 1 0)})")
  else socks5Bound dns (head.getD 3 0)

def socks5Connect (dns : Dns) (host : String) (port : UInt16) (auth : Option (String × String))
    (remoteDns : Bool) : Session Unit := do
  socks5Negotiate auth
  let _ ← socks5Request dns 0x01 host port remoteDns

end Rsurl.Net

namespace Rsurl.Net

open Library Text

/-! ## CONNECT -/

def maxHeaderBytes : Nat := 64 * 1024

def connectHeaders (host : String) (port : UInt16) (auth : Option (String × String)) : String :=
  let hostPort := authority host port.toNat
  let request := s!"CONNECT {hostPort} HTTP/1.1\r\nHost: {hostPort}\r\n"
  let creds := match auth with
    | some (user, pass) =>
      let creds := s!"{user}:{pass}"
      s!"Proxy-Authorization: Basic {Http2.base64Encode (asBytes creds)}\r\n"
    | none => ""
  request ++ "Proxy-Connection: Keep-Alive\r\n" ++ creds ++ "\r\n"

def stripCr (line : Bytes) : Bytes := if line.getLast? = some 0x0d then line.dropLast else line

/-- Read byte by byte up to the blank line, in at most so many reads: the first line. -/
def readHead : Nat → Option String → Bytes → Session (Option String)
  | 0, _, _ => Talk.fail (.badResponse "CONNECT response headers exceed 64 KiB")
  | left + 1, status, line => do
    match ← Session.chunk 1 with
    | [] => Talk.fail .unexpectedEof
    | b :: _ =>
      if b = 0x0a then
        let trimmed := stripCr line
        let status := status.or (some (fromUtf8Lossy trimmed))
        if trimmed.isEmpty then return status else readHead left status []
      else readHead left status (line ++ [b])

def connectStatus (hostPort : String) (status : Option String) : Except Error Unit :=
  match status with
  | none => .error (.badResponse "CONNECT: no status line")
  | some status => match (split ' ' status)[1]? with
    | none => .error (.badResponse s!"CONNECT: malformed status line {dbgStr status}")
    | some codeStr => match parseUnsigned 65535 codeStr with
      | none => .error (.badResponse s!"CONNECT: bad status {dbgStr codeStr}")
      | some code =>
        if 200 ≤ code ∧ code < 300 then .ok ()
        else .error (.badResponse s!"CONNECT to {hostPort} failed: {status}")

def httpConnect (host : String) (port : UInt16) (auth : Option (String × String)) : Session Unit := do
  Session.send (asBytes (connectHeaders host port auth))
  let status ← readHead (maxHeaderBytes + 1) none []
  Talk.ofExcept (connectStatus (authority host port.toNat) status)

/-! ## Proxy URLs -/

structure ProxySpec where
  scheme : String
  auth : Option (String × String)
  host : String
  port : UInt16
  deriving DecidableEq, Repr

def defaultProxyPort : UInt16 := 1080

def parseHostport (hp : List Char) : Except Error (String × UInt16) :=
  let bad (what : String) : Error :=
    .invalidUrl s!"proxy: {what} in {dbgStr (String.ofList hp)}"
  let port (p : List Char) : Except Error UInt16 :=
    match parseUnsigned 65535 (String.ofList p) with
    | some n => .ok (UInt16.ofNat n)
    | none => .error (bad "bad port")
  let named (host : List Char) (p : UInt16) : Except Error (String × UInt16) :=
    if host.isEmpty then .error (bad "empty host") else .ok (String.ofList host, p)
  match hp with
  | '[' :: afterBracket => match splitOnceAt [']'] afterBracket with
    | none => .error (bad "unterminated IPv6")
    | some (host, []) => named host defaultProxyPort
    | some (host, ':' :: p) => (port p).bind (named host)
    | some _ => .error (bad "junk after IPv6 host")
  | _ => match rsplitOnce ':' hp with
    | some (host, p) => (port p).bind (named host)
    | none => named hp defaultProxyPort

def parseProxySpec (spec : String) : Except Error ProxySpec :=
  let (scheme, rest) := match splitOnceAt "://".toList spec.toList with
    | some (s, r) => (toAsciiLowercase (String.ofList s), r)
    | none => ("http", spec.toList)
  let rest := rest.takeWhile fun c => !Url.isDelimiter c
  let (userinfo, hostport) := match rsplitOnce '@' rest with
    | some (info, hp) => (some info, hp)
    | none => (none, rest)
  let auth := userinfo.map fun info => match splitOnceAt [':'] info with
    | some (u, p) => (percentDecode (String.ofList u), percentDecode (String.ofList p))
    | none => (percentDecode (String.ofList info), "")
  (parseHostport hostport).map fun (host, port) => ⟨scheme, auth, host, port⟩

def ProxySpec.parse (spec : String) : Except Error ProxySpec :=
  match parseProxySpec spec with
  | .error e => .error e
  | .ok p =>
    if p.scheme ∈ ["http", "https", "socks4", "socks4a", "socks5", "socks5h"] then .ok p
    else .error (.unsupportedScheme (s!"proxy scheme {dbgStr p.scheme} not supported " ++
      "(use http/https/socks4/socks4a/socks5/socks5h)"))

/-- What the connector of a proxy says on the stream to it, before the stream is the target's. -/
def ProxySpec.tunnel (p : ProxySpec) (dns : Dns) (host : String) (port : UInt16) : Session Unit :=
  if p.scheme = "socks4" ∨ p.scheme = "socks4a" then
    socks4Connect dns host port ((p.auth.map (·.1)).getD "") (p.scheme = "socks4a")
  else if p.scheme = "socks5" ∨ p.scheme = "socks5h" then
    socks5Connect dns host port p.auth (p.scheme = "socks5h")
  else httpConnect host port p.auth

end Rsurl.Net
