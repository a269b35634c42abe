import Rsurl.Http2.Request
import Rsurl.Split
import Rsurl.Net.Wire

/-!
# The FTP client

Log in, walk into the directory, open a connection for data, and transfer. The upgrade to TLS comes
before the login. Data connections are passive: the client dials.
-/

/-!
## FTP replies

Reading the replies of the control channel. A reply of several lines ends with the line that has its
code again, followed by a space.
-/

namespace Rsurl.Ftp

open Library Text Net

def maxLine : Nat := 8 * 1024

def maxReply : Nat := 256 * 1024

/-- A line with its end; the last line of a stream may be without. -/
def readLine : Session String := do
  let buf ← Session.line (maxLine + 1)
  if buf.isEmpty then Talk.fail .unexpectedEof
  else if maxLine < buf.length then Talk.fail (.badResponse "ftp reply line too long")
  else return fromUtf8Lossy buf

def digit (c : Char) : Nat := c.toNat - '0'.toNat

/-- The code, the character after it, and the text. -/
def splitCode (line : String) : Except Error (Nat × Char × String) :=
  match line.toList with
  | a :: b :: c :: sep :: rest =>
    if !(a.isDigit && b.isDigit && c.isDigit) then
      .error (.badResponse s!"ftp reply: no 3-digit code: {trimEnd line}")
    else if sep ≠ ' ' ∧ sep ≠ '-' then
      .error (.badResponse s!"ftp reply: bad separator: {trimEnd line}")
    else .ok (digit a * 100 + digit b * 10 + digit c, sep, trimEndMatches isEol (String.ofList rest))
  | _ => .error (.badResponse s!"ftp reply: no 3-digit code: {trimEnd line}")

/-- Whether a line ends the reply of this code, and its text. -/
def replyLine (code : Nat) (line : String) : Bool × String :=
  match splitCode line with
  | .ok (c, sep, rest) => (c = code ∧ sep = ' ', rest)
  | .error _ => (false, trimEndMatches isEol line)

/-- The lines after the first, in at most so many; each makes the text longer. -/
def readMore : Nat → Nat → String → Session (Nat × String)
  | 0, _, _ => Talk.fail (.badResponse "ftp reply too long")
  | left + 1, code, text => do
    if maxReply < len text then Talk.fail (.badResponse "ftp reply too long")
    else
      let line ← readLine
      let (done, rest) := replyLine code line
      let text := text ++ "\n" ++ rest
      if done then return (code, text) else readMore left code text

def readReply : Session (Nat × String) := do
  let (code, sep, rest) ← Talk.ofExcept (splitCode (← readLine))
  if sep = ' ' then return (code, rest) else readMore (maxReply + 2) code rest

/-- A command and its line end, if it is one line. -/
def send (line : String) : Session Unit :=
  if (asBytes line).any fun b => b == 0x0d || b == 0x0a || b == 0 then
    Talk.fail (.badResponse "ftp: refusing to send command line with embedded CR/LF/NUL")
  else Session.send (asBytes line ++ crlf)

/-- 2xx and 3xx are positive. -/
def isPositive (code : Nat) : Bool := 200 ≤ code && code < 400

/-! ## Replies with a port -/

/-- Between the first opening parenthesis and the first closing one after it. -/
def parsePasv (text : String) : Option (String × UInt16) := do
  let (_, rest) ← splitOnceAt ['('] text.toList
  let (inner, _) ← splitOnceAt [')'] rest
  match (split ',' (String.ofList inner)).map fun field => parseUnsigned 255 (trim field) with
  | [some h₁, some h₂, some h₃, some h₄, some p₁, some p₂] =>
    let port := p₁ * 256 + p₂
    if port = 0 then none else some (s!"{h₁}.{h₂}.{h₃}.{h₄}", UInt16.ofNat port)
  | _ => none

/-- Between the first opening parenthesis and the last closing one: the port is the fourth field, and
the delimiter is what the server begins with. -/
def parseEpsv (text : String) : Option UInt16 := do
  let (_, rest) ← splitOnceAt ['('] text.toList
  let (inner, _) ← rsplitOnceAt [')'] rest
  let delim ← inner.head?
  match inner.splitOn delim with
  | _ :: _ :: _ :: portStr :: _ :: _ => do
    let port ← parseUnsigned 65535 (String.ofList portStr)
    if port = 0 then none else some (UInt16.ofNat port)
  | _ => none

end Rsurl.Ftp

namespace Rsurl.Ftp

open Library Text Net
open Http2 (Url)

/-! ## Paths -/

inductive TypeCode where
  | image
  | ascii
  | dir
  deriving DecidableEq, Repr

structure FtpPath where
  dirs : List String
  file : String
  typecode : TypeCode
  deriving DecidableEq, Repr

def parseTypeCode (code : String) : Except Error TypeCode :=
  if code = "a" ∨ code = "A" then .ok .ascii
  else if code = "i" ∨ code = "I" then .ok .image
  else if code = "d" ∨ code = "D" then .ok .dir
  else .error (.invalidUrl s!"ftp: unknown ;type= code {dbgStr code}")

/-- A component of a path, without what could end a command early. -/
def decodeComponent (c : String) : Except Error String := do
  let d := percentDecode c
  rejectCtl "ftp" "ftp path" d
  return d

/-- An empty component in front makes the path absolute, and is left out elsewhere. -/
def pathDirs : Bool → List String → Except Error (List String)
  | _, [] => .ok []
  | first, c :: rest => do
    if c.isEmpty then
      let dirs ← pathDirs false rest
      return if first then "/" :: dirs else dirs
    else
      let d ← decodeComponent c
      return d :: (← pathDirs false rest)

/-- The path without its query and its first slash. -/
def pathPart (path : String) : List Char :=
  match path.toList.takeWhile (· ≠ '?') with
  | '/' :: rest => rest
  | all => all

def typedPath (path : List Char) : Except Error (List Char × TypeCode) :=
  match rsplitOnceAt ";type=".toList path with
  | some (path, code) => (parseTypeCode (String.ofList code)).map (path, ·)
  | none => .ok (path, .image)

def parseFtpPath (path : String) : Except Error FtpPath := do
  let (path, typecode) ← typedPath (pathPart path)
  let comps := split '/' (String.ofList path)
  let dirs ← pathDirs true comps.dropLast
  let file ← decodeComponent (comps.getLast?.getD "")
  return ⟨dirs, file, typecode⟩

/-! ## The control channel -/

/-- The settings of a transfer that its dialogue depends on. -/
structure NetConfig where
  requireTls : Bool := false
  ftpUseEpsv : Bool := true
  ftpCreateDirs : Bool := false
  /-- No proxy and no custom connector. -/
  direct : Bool := true
  deriving DecidableEq, Repr

structure Control where
  ctrlPeerIp : IpAddr
  ctrlLocalIp : IpAddr
  tls : Bool
  deriving DecidableEq, Repr

/-- A command that fails unless the code of its reply is accepted. -/
def command (line : String) (accept : Nat → Bool) : Session Unit := do
  send line
  let (c, m) ← readReply
  if !accept c then Talk.fail (.badResponse s!"ftp {line}: {c} {m}")

def cwdPath (create : Bool) : List String → Session Unit
  | [] => return ()
  | dir :: dirs => do
    send s!"CWD {dir}"
    let (c, m) ← readReply
    if isPositive c then cwdPath create dirs
    else if create && dir != "/" then
      send s!"MKD {dir}"
      let _ ← readReply
      send s!"CWD {dir}"
      let (c₂, m₂) ← readReply
      if isPositive c₂ then cwdPath create dirs
      else Talk.fail (.badResponse s!"ftp CWD {dir}: {c₂} {m₂}")
    else Talk.fail (.badResponse s!"ftp CWD {dir}: {c} {m}")

def authTls (host : String) : List String → Session Unit
  | [] => Talk.fail (.badResponse
    "ftp: TLS required (--ssl-reqd) but the server refused AUTH TLS")
  | mech :: mechs => do
    send s!"AUTH {mech}"
    let (c, _) ← readReply
    if c = 234 ∨ c = 334 then
      -- what is in the buffer came before the handshake
      if ← Session.buffered then
        Talk.fail (.badResponse "ftp: server sent data after AUTH TLS reply")
      else Session.handshake host
    else authTls host mechs

def splitUserinfo (userinfo : Option String) : String × String :=
  match userinfo with
  | none => ("anonymous", "rsurl@")
  | some s => (splitOnce ':' s).getD (s, "rsurl@")

def login (userinfo : Option String) : Session Unit := do
  let (user, pass) := splitUserinfo userinfo
  let user := percentDecode user
  let pass := percentDecode pass
  Talk.ofExcept (rejectCtl "ftp" "ftp user" user)
  Talk.ofExcept (rejectCtl "ftp" "ftp password" pass)
  send s!"USER {user}"
  let (c, _) ← readReply
  if c = 230 then return ()
  else if c = 331 then
    send s!"PASS {pass}"
    let (c₂, m₂) ← readReply
    if c₂ ≠ 230 ∧ c₂ ≠ 202 then Talk.fail (.badResponse s!"ftp PASS: {c₂} {m₂}")
  else if c = 332 then Talk.fail (.badResponse "ftp server requires ACCT, not supported")
  else Talk.fail (.badResponse s!"ftp USER: {c}")

def TypeCode.name : TypeCode → String
  | image => "I"
  | ascii => "A"
  | dir => "A"

/-- What follows the upgrade: the login, the protection of the data, and the type. -/
def enter (userinfo : Option String) (tls : Bool) (typecode : TypeCode) : Session Unit := do
  login userinfo
  if tls then
    command "PBSZ 0" isPositive
    command "PROT P" isPositive
  command s!"TYPE {typecode.name}" (· = 200)

def connectLogin (url : Url) (cfg : NetConfig) (typecode : TypeCode) : Session Control := do
  if url.scheme ≠ "ftp" ∧ url.scheme ≠ "ftps" then Talk.fail (.unsupportedScheme url.scheme)
  else
    let (peer, localIp) ← Session.dial url.host url.port
    let ctrlPeerIp := if cfg.direct then peer else .unspecified
    if url.scheme = "ftps" then Session.handshake url.host
    let (code, _) ← readReply
    if !isPositive code then Talk.fail (.badResponse s!"ftp banner: {code}")
    else
      let upgrade := url.scheme = "ftp" && cfg.requireTls
      if upgrade then authTls url.host ["TLS", "SSL"]
      let tls := url.scheme = "ftps" || upgrade
      enter url.userinfo tls typecode
      return ⟨ctrlPeerIp, localIp, tls⟩

/-! ## Transfers -/

def passive (fallbackHost : String) (ctrlPeerIp : IpAddr) (direct : Bool) :
    Session (Dest × UInt16) := do
  send "PASV"
  let (c₂, m₂) ← readReply
  if c₂ ≠ 227 then Talk.fail (.badResponse s!"ftp PASV: {c₂} {m₂}")
  else match parsePasv m₂ with
    | none => Talk.fail (.badResponse s!"ftp PASV: cannot parse: {m₂}")
    -- the address that the server has sent is left aside
    | some (_, port) => return (if direct then .ip ctrlPeerIp else .name fallbackHost, port)

def openPassive (fallbackHost : String) (ctrlPeerIp : IpAddr) (direct useEpsv : Bool) :
    Session (Dest × UInt16) := do
  if useEpsv then
    send "EPSV"
    let (c, m) ← readReply
    if c = 229 then match parseEpsv m with
      | none => Talk.fail (.badResponse s!"ftp EPSV: cannot parse reply: {m}")
      | some port => return (.name fallbackHost, port)
    else if 400 ≤ c ∧ c < 600 then passive fallbackHost ctrlPeerIp direct
    else Talk.fail (.badResponse s!"ftp EPSV: {c} {m}")
  else passive fallbackHost ctrlPeerIp direct

def openData (url : Url) (con : Control) (cfg : NetConfig) : Session Unit := do
  let (dest, port) ← openPassive url.host con.ctrlPeerIp cfg.direct cfg.ftpUseEpsv
  Session.connect dest port.toNat
  if con.tls then Session.secure url.host

def transferCommand (fp : FtpPath) : String :=
  if fp.typecode = .dir then
    if fp.file.isEmpty then "NLST" else s!"NLST {fp.file}"
  else if fp.file.isEmpty then "LIST" else s!"RETR {fp.file}"

/-- Errors are of no account: the transfer is done. -/
def quit : Session Unit := do
  let _ ← (send "QUIT").attempt
  let _ ← readReply.attempt

def isPreliminary (code : Nat) : Bool := code = 125 || code = 150

/-- Send the command and copy what comes to the sink: how much it was. -/
def transfer (cmd : String) : Session Nat := do
  send cmd
  let (c, m) ← readReply
  if !isPreliminary c && !isPositive c then Talk.fail (.badResponse s!"ftp {cmd}: {c} {m}")
  else
    let copied ← Session.copy
    if isPreliminary c then
      let (cf, mf) ← readReply
      if !isPositive cf then Talk.fail (.badResponse s!"ftp transfer end: {cf} {mf}")
    return copied.length

def fetchTo (url : Url) (cfg : NetConfig) : Session Nat := do
  let fp ← Talk.ofExcept (parseFtpPath url.path)
  let con ← connectLogin url cfg fp.typecode
  cwdPath false fp.dirs
  openData url con cfg
  let n ← transfer (transferCommand fp)
  quit
  return n

end Rsurl.Ftp
