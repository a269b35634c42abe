import Rsurl.Split
import Rsurl.Net.Wire
import Rsurl.Http2.Request

/-!
# SMTP

Sending a message: the greeting, `EHLO`, the upgrade to TLS if the server offers it, authentication,
the envelope, and the message.
-/

namespace Rsurl.Mail.Smtp

open Library Text Net
open Http2 (Url base64Encode)

structure SmtpOptions where
  sender : String
  rcpts : List String
  user : Option String
  pass : Option String
  deriving DecidableEq, Repr

def maxReplyBytes : Nat := 64 * 1024

/-- A command and its line end, if it is one line. -/
def sendLine (line : String) : Session Unit :=
  if (asBytes line).any fun b => b == 0x0d || b == 0x0a || b == 0 then
    Talk.fail (.badResponse "smtp: refusing to send command with embedded CR/LF/NUL")
  else Session.send (asBytes line ++ crlf)

def digit (c : Char) : Nat := c.toNat - '0'.toNat

def isFiller (c : Char) : Bool := c == '-' || c == ' '

/-- The code of a line, its text, and whether more lines follow. -/
def parseReplyLine (trimmed : String) : Except Error (Nat × String × Bool) :=
  let bad := .error (.badResponse s!"smtp: bad reply line {dbgStr trimmed}")
  match trimmed.toList with
  | a :: b :: c :: rest =>
    if a.isDigit && b.isDigit && c.isDigit then
      .ok (digit a * 100 + digit b * 10 + digit c, String.ofList (rest.dropWhile isFiller),
        rest.head? = some '-')
    else bad
  | _ => bad

/-- Read the lines of a reply, in at most so many; so many bytes have been read. -/
def readReplyFrom : Nat → Nat → String → Session (Nat × String)
  | 0, _, _ => Talk.fail (.badResponse "smtp: reply exceeds 64 KiB")
  | left + 1, total, text => do
    let lineCap := maxReplyBytes - total
    let raw ← Session.line (lineCap + 1)
    if raw.isEmpty then Talk.fail .unexpectedEof
    else if lineCap < raw.length then Talk.fail (.badResponse "smtp: reply exceeds 64 KiB")
    else
      let trimmed := trimEndMatches isEol (fromUtf8Lossy raw)
      let (code, rest, more) ← Talk.ofExcept (parseReplyLine trimmed)
      let text := (if text.isEmpty then text else text ++ "\n") ++ rest
      if more then readReplyFrom left (total + raw.length) text else return (code, text)

def readReply : Session (Nat × String) := readReplyFrom (maxReplyBytes + 1) 0 ""

def expect (want : Nat) (ctx : String) : Session Unit := do
  let (code, text) ← readReply
  if code ≠ want then Talk.fail (.badResponse s!"smtp {ctx}: {code} {text}")

/-- The capabilities of the server; one that takes `HELO` only has none. -/
def ehlo (host : String) : Session (List String) := do
  sendLine s!"EHLO {host}"
  let (code, text) ← readReply
  if code ≠ 250 then
    sendLine s!"HELO {host}"
    let (c₂, _) ← readReply
    if c₂ ≠ 250 then Talk.fail (.badResponse s!"smtp EHLO/HELO: {code}")
    else return []
  else return ((lines text).drop 1).map fun l => toAsciiUppercase (trim l)

/-! ## Authentication -/

/-- What an `AUTH` capability says of the mechanisms. -/
def mechanismsOf (cap : String) : Option (List String) :=
  match afterPrefix "AUTH" cap with
  | none => none
  | some rest => match rest.toList with
    | [] => some []
    | c :: _ =>
      if c = ' ' ∨ c = '=' then
        some (splitWhitespace (String.ofList (rest.toList.dropWhile (· == '='))))
      else none

def authMechanisms (caps : List String) : Option (List String) :=
  match caps.filterMap mechanismsOf with
  | [] => none
  | found => some found.flatten

def plainMessage (user pass : String) : Bytes := 0 :: (asBytes user ++ 0 :: asBytes pass)

def authenticate (caps : List String) (user pass : String) : Session Unit := do
  let mechs := (authMechanisms caps).getD []
  if "PLAIN" ∈ mechs then
    sendLine s!"AUTH PLAIN {base64Encode (plainMessage user pass)}"
    expect 235 "AUTH PLAIN"
  else if "LOGIN" ∈ mechs then
    sendLine "AUTH LOGIN"
    expect 334 "AUTH LOGIN"
    sendLine (base64Encode (asBytes user))
    expect 334 "AUTH LOGIN user"
    sendLine (base64Encode (asBytes pass))
    expect 235 "AUTH LOGIN pass"
  else Talk.fail (.badResponse "smtp: server offers no supported AUTH mechanism (PLAIN/LOGIN)")

/-! ## The message -/

/-- A dot in front of a dot that begins a line, and CRLF for LF; the last byte before is known. -/
def dotStuffFrom (lineStart : Bool) (last : Option UInt8) : Bytes → Bytes
  | [] => []
  | b :: rest =>
    if b = 0x0a then
      (if last = some 0x0d then [0x0a] else [0x0d, 0x0a]) ++ dotStuffFrom true (some 0x0a) rest
    else (if lineStart && b = 0x2e then [0x2e, b] else [b]) ++ dotStuffFrom false (some b) rest

def dotStuff (body : Bytes) : Bytes := dotStuffFrom true none body

/-- The line end of a payload that has one is also that of the marker. -/
def endOfData (payload : Bytes) : Bytes :=
  if payload.isEmpty || [0x0d, 0x0a].isSuffixOf payload then [0x2e, 0x0d, 0x0a]
  else [0x0d, 0x0a, 0x2e, 0x0d, 0x0a]

def recipients : List String → Session Unit
  | [] => return ()
  | r :: rcpts => do
    sendLine s!"RCPT TO:<{r}>"
    let (code, text) ← readReply
    if code ≠ 250 ∧ code ≠ 251 then Talk.fail (.badResponse s!"smtp RCPT TO: {code} {text}")
    else recipients rcpts

/-- Errors are of no account: the message is sent. -/
def quit : Session Unit := do
  let _ ← (sendLine "QUIT").attempt
  let _ ← readReply.attempt

/-- From the authentication on. -/
def submit (body : Bytes) (opts : SmtpOptions) (caps : List String) : Session Unit := do
  match opts.user, opts.pass with
  | some user, some pass =>
    if (authMechanisms caps).isSome then authenticate caps user pass
  | _, _ => pure ()
  sendLine s!"MAIL FROM:<{opts.sender}>"
  expect 250 "MAIL FROM"
  recipients opts.rcpts
  sendLine "DATA"
  expect 354 "DATA"
  let payload := dotStuff body
  Session.send (payload ++ endOfData payload)
  expect 250 "end of DATA"
  quit

/-! ## The dialogue -/

def requireTlsOk (requireTls stillPlain : Bool) : Except Error Unit :=
  if requireTls && stillPlain then
    .error (.badResponse "smtp: TLS required (--ssl-reqd) but server did not offer STARTTLS")
  else .ok ()

def rejectAll : List String → Except Error Unit
  | [] => .ok ()
  | r :: rcpts => do
    rejectCtl "smtp" "mail-rcpt" r
    rejectAll rcpts

/-- Nothing may be in the buffer before the handshake. -/
def rejectPipelined (proto : String) (bufferEmpty : Bool) : Except Error Unit :=
  if bufferEmpty then .ok ()
  else .error (.badResponse
    s!"{proto}: server pipelined plaintext before the TLS handshake (STARTTLS injection)")

/-- What follows the capabilities that have been read on a plain connection. -/
def startTls (host : String) : Session (List String) := do
  sendLine "STARTTLS"
  let (c, m) ← readReply
  if c ≠ 220 then Talk.fail (.badResponse s!"smtp STARTTLS: {c} {m}")
  else
    let pending ← Session.buffered
    Talk.ofExcept (rejectPipelined "smtp" !pending)
    Session.unwrap
    Session.handshake host
    ehlo host

def send (url : Url) (body : Bytes) (opts : SmtpOptions) (requireTls : Bool) : Session Unit := do
  if url.scheme ≠ "smtp" ∧ url.scheme ≠ "smtps" then Talk.fail (.unsupportedScheme url.scheme)
  else
    Talk.ofExcept (rejectCtl "smtp" "mail-from" opts.sender)
    Talk.ofExcept (rejectAll opts.rcpts)
    if opts.rcpts.isEmpty then Talk.fail (.badResponse "smtp: no recipients (--mail-rcpt)")
    else
      let _ ← Session.dial url.host url.port
      let plain : Bool := url.scheme ≠ "smtps"
      if !plain then Session.handshake url.host
      let (code, _) ← readReply
      if code ≠ 220 then Talk.fail (.badResponse s!"smtp greeting: {code}")
      else
        let caps ← ehlo url.host
        let upgrade := plain && caps.contains "STARTTLS"
        let caps ← if upgrade then startTls url.host else pure caps
        Talk.ofExcept (requireTlsOk requireTls (plain && !upgrade))
        submit body opts caps

end Rsurl.Mail.Smtp
