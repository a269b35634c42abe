import Rsurl.Cookie.Jar
import Rsurl.Mail.Smtp

/-!
# POP3

Fetching a message or the list of them: the greeting, the upgrade to TLS if the server takes `STLS`,
the login, and the request.
-/

namespace Rsurl.Mail.Pop3

open Library Text Net
open Http2 (Url splitUserinfo)

def maxResponseBytes : Nat := 64 * 1024 * 1024

def maxStatusLine : Nat := 8 * 1024

def isLineEnd (b : UInt8) : Bool := b == 0x0a || b == 0x0d

def readStatusLine : Session String := do
  let buf ← Session.line (maxStatusLine + 1)
  if buf.isEmpty then Talk.fail .unexpectedEof
  else if maxStatusLine < buf.length then Talk.fail (.badResponse "pop3: status line too long")
  else return fromUtf8Lossy (buf.rdropWhile isLineEnd)

def dropSpace (rest : String) : String := (afterPrefix " " rest).getD rest

def parseStatus (line : String) : Except Error String :=
  match afterPrefix "+OK" line with
  | some rest => .ok (dropSpace rest)
  | none => match afterPrefix "-ERR" line with
    | some rest => .error (.badResponse s!"pop3: {dropSpace rest}")
    | none => .error (.badResponse s!"pop3: unexpected status line: {line}")

def readStatus : Session String := do Talk.ofExcept (parseStatus (← readStatusLine))

/-- A command and its line end, if it is one line. -/
def send (cmd : String) : Session Unit :=
  if (asBytes cmd).any fun b => b == 0x0d || b == 0x0a || b == 0 then
    Talk.fail (.badResponse "pop3: refusing to send command line with embedded CR/LF/NUL")
  else Session.send (asBytes cmd ++ crlf)

inductive Action where
  | list
  | retr (n : Nat)
  deriving DecidableEq, Repr

def parsePath (path : String) : Option Action :=
  let trimmed := (afterPrefix "/" path).getD path
  if trimmed.isEmpty then some .list
  else if trimmed.toList.any fun c => c == '/' || c == '?' || c == '#' then none
  else (parseUnsigned (2 ^ 32 - 1) trimmed).map .retr

/-- The lines up to the terminator, in at most so many. -/
def readMultilineFrom : Nat → Bytes → Session Bytes
  | 0, _ => Talk.fail (.badResponse s!"pop3: response exceeds maximum {maxResponseBytes} bytes")
  | left + 1, out => do
    let lineCap := maxResponseBytes - out.length
    let line ← Session.line (lineCap + 1)
    if line.isEmpty then Talk.fail .unexpectedEof
    else if line = [0x2e, 0x0d, 0x0a] ∨ line = [0x2e, 0x0a] then return out
    else if lineCap < line.length then
      Talk.fail (.badResponse s!"pop3: response exceeds maximum {maxResponseBytes} bytes")
    else readMultilineFrom left (out ++ line)

def readMultiline : Session Bytes := readMultilineFrom (maxResponseBytes + 1) []

/-- Without the dot that begins a line. -/
def unDotStuffFrom (lineStart : Bool) : Bytes → Bytes
  | [] => []
  | b :: rest =>
    if lineStart && b = 0x2e then unDotStuffFrom false rest
    else b :: unDotStuffFrom (b = 0x0a) rest

def unDotStuff (body : Bytes) : Bytes := unDotStuffFrom true body

/-- Errors are of no account: the payload is here. -/
def quit : Session Unit := do
  let _ ← (send "QUIT").attempt
  let _ ← readStatus.attempt

def perform (action : Action) : Session Bytes :=
  match action with
  | .list => do
    send "LIST"
    let _ ← readStatus
    readMultiline
  | .retr n => do
    send s!"RETR {n}"
    let _ ← readStatus
    return unDotStuff (← readMultiline)

def run (user pass : String) (action : Action) : Session Bytes := do
  Talk.ofExcept (rejectCtl "pop3" "pop3 user" user)
  Talk.ofExcept (rejectCtl "pop3" "pop3 password" pass)
  send s!"USER {user}"
  let _ ← readStatus
  send s!"PASS {pass}"
  let _ ← readStatus
  let payload ← perform action
  quit
  return payload

/-- Ask for the upgrade: whether the server takes it. -/
def stlsNegotiate : Session Bool := do
  Session.send (asBytes "STLS" ++ crlf)
  match ← readStatus.attempt with
  | .ok _ =>
    let pending ← Session.buffered
    Talk.ofExcept (Smtp.rejectPipelined "pop3" !pending)
    return true
  | .error (.badResponse _) => return false
  | .error e => Talk.fail e

def tryStls (host : String) : Session Bool := do
  if ← stlsNegotiate then
    Session.handshake host
    return true
  else return false

def fetch (url : Url) (requireTls : Bool) : Session Bytes :=
  match url.userinfo with
  | none => Talk.fail (.badResponse "pop3: missing userinfo")
  | some userinfo =>
    let user := percentDecode (splitUserinfo userinfo).1
    let pass := percentDecode (splitUserinfo userinfo).2
    match parsePath url.path with
    | none => Talk.fail (.invalidUrl s!"pop3 path: {url.path}")
    | some action => do
      let _ ← Session.dial url.host url.port
      if Cookies.isTls url then
        Session.handshake url.host
        let _ ← readStatus
        run user pass action
      else
        let _ ← readStatus
        let upgraded ← tryStls url.host
        if requireTls && !upgraded then
          Talk.fail (.badResponse "pop3: TLS required (--ssl-reqd) but server did not offer STLS")
        else run user pass action

end Rsurl.Mail.Pop3
