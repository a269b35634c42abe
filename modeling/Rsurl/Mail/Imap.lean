import Rsurl.Mail.Smtp

/-!
# IMAP

Fetching from a mailbox: the greeting, the capabilities, the upgrade to TLS if the server offers it,
authentication, and the request. The reader keeps what it has read ahead in a buffer of its own.
-/

namespace Rsurl.Mail.Imap

open Library Text Net
open Http2 (Url base64Encode splitUserinfo)

def maxLiteralBytes : Nat := 64 * 1024 * 1024

def maxResponseBytes : Nat := 64 * 1024 * 1024

/-! ## The reader -/

/-- Split at the first CRLF. -/
def splitCrlf : Bytes → Option (Bytes × Bytes)
  | 0x0d :: 0x0a :: rest => some ([], rest)
  | b :: rest => (splitCrlf rest).map fun (line, rest) => (b :: line, rest)
  | [] => none

/-- A line without its end, in at most so many reads, and the buffer after it. -/
def readLineFrom : Nat → Bytes → Session (String × Bytes)
  | 0, _ => Talk.fail (.badResponse
    s!"imap: response line exceeds maximum {maxResponseBytes} bytes")
  | left + 1, buf =>
    match splitCrlf buf with
    | some (line, rest) => return (fromUtf8Lossy line, rest)
    | none => do
      if maxResponseBytes < buf.length then
        Talk.fail (.badResponse s!"imap: response line exceeds maximum {maxResponseBytes} bytes")
      else
        let got ← Session.chunk 4096
        if got.isEmpty then
          if buf.isEmpty then Talk.fail .unexpectedEof else return (fromUtf8Lossy buf, [])
        else readLineFrom left (buf ++ got)

def readLine (buf : Bytes) : Session (String × Bytes) := readLineFrom (maxResponseBytes + 2) buf

/-- What is missing to so many bytes, in at most so many reads. -/
def readExactFrom : Nat → Nat → Bytes → Session Bytes
  | 0, _, _ => Talk.fail .unexpectedEof
  | left + 1, n, out => do
    if out.length < n then
      let got ← Session.chunk (min (n - out.length) 4096)
      if got.isEmpty then Talk.fail .unexpectedEof else readExactFrom left n (out ++ got)
    else return out

def readExact (n : Nat) (buf : Bytes) : Session (Bytes × Bytes) := do
  let out ← readExactFrom (n + 1) n (buf.take n)
  return (out, buf.drop n)

def isTaggedLine (line tag : String) : Bool :=
  match afterPrefix tag line with
  | some rest => rest.isEmpty || startsWith " " rest
  | none => false

def digits (limit : Nat) (s : List Char) : Option Nat :=
  if s.isEmpty || !s.all Char.isDigit then none else parseUnsigned limit (String.ofList s)

/-- The length of the literal that a line announces at its end. -/
def extractLiteralSize (line : String) : Option Nat := do
  let trimmed := trimEnd (trimEndMatches isEol line)
  if trimmed.toList.getLast? = some '}' then
    let (_, inside) ← rsplitOnceAt ['{'] trimmed.toList.dropLast
    digits (2 ^ 64 - 1) (if inside.getLast? = some '+' then inside.dropLast else inside)
  else none

def tooLong : Error := .badResponse s!"imap: response exceeds maximum {maxResponseBytes} bytes"

/-- Lines up to the tagged one or a continuation request, in at most so many; each makes the text
longer. -/
def readResponseFrom (tag : String) : Nat → String → List Bytes → Bytes →
    Session (String × List Bytes × Bytes)
  | 0, _, _, _ => Talk.fail tooLong
  | left + 1, text, literals, buf => do
    let (line, buf) ← readLine buf
    let text := text ++ line ++ "\r\n"
    if maxResponseBytes < len text then Talk.fail tooLong
    else match extractLiteralSize line with
      | some n =>
        if maxLiteralBytes < n then
          Talk.fail (.badResponse s!"imap: literal size {n} exceeds maximum {maxLiteralBytes}")
        else if maxResponseBytes < len text + n then Talk.fail tooLong
        else
          let (bytes, buf) ← readExact n buf
          readResponseFrom tag left (text ++ fromUtf8Lossy bytes) (literals ++ [bytes]) buf
      | none =>
        let trimmed := trimEnd line
        if trimmed = "+" ∨ startsWith "+ " trimmed then return (text, literals, buf)
        else if isTaggedLine trimmed tag then return (text, literals, buf)
        else readResponseFrom tag left text literals buf

def readResponse (tag : String) (buf : Bytes) : Session (String × List Bytes × Bytes) :=
  readResponseFrom tag (maxResponseBytes + 1) "" [] buf

/-! ## Responses -/

def lastLine (resp : String) : String := ((lines resp).reverse.find? (!·.isEmpty)).getD ""

def isTaggedDone (resp tag : String) : Bool := isTaggedLine (lastLine resp) tag

def requireOk (resp tag what : String) : Except Error Unit :=
  let last := lastLine resp
  let rest := trimStart ((afterPrefix tag last).getD "")
  if eqIgnoreAsciiCase ((splitWhitespace rest).head?.getD "") "OK" then .ok ()
  else .error (.badResponse s!"imap {what} failed: {last}")

structure Caps where
  set : List String
  deriving DecidableEq, Repr

def Caps.fromTokens (tokens : List String) : Caps :=
  ⟨(tokens.map toAsciiUppercase).filter (!·.isEmpty)⟩

def Caps.has (caps : Caps) (cap : String) : Bool := caps.set.any fun c => eqIgnoreAsciiCase c cap

/-- The words after the first, if the first is `CAPABILITY` and there are others. -/
def capabilityWords (s : String) : Option (List String) :=
  match splitWhitespace s with
  | first :: c :: cs => if eqIgnoreAsciiCase first "CAPABILITY" then some (c :: cs) else none
  | _ => none

def parseCapabilityCode (line : String) : Option (List String) := do
  let (_, rest) ← splitOnceAt ['['] line.toList
  let (inside, _) ← splitOnceAt [']'] rest
  capabilityWords (String.ofList inside)

def parseCapabilityLine (resp : String) : Option (List String) :=
  (lines resp).findSome? fun line => (afterPrefix "* " line).bind capabilityWords

def capsOf (tokens : Option (List String)) : Caps := (tokens.map Caps.fromTokens).getD ⟨[]⟩

/-- The lines of a kind, as they are. -/
def collectUntagged (resp kind : String) : String :=
  String.join ((lines resp).filterMap fun line => match afterPrefix "* " line with
    | none => none
    | some rest =>
      if ((splitWhitespace rest).take 2).any (eqIgnoreAsciiCase · kind) then some (line ++ "\r\n")
      else none)

def parseUidvalidity (resp : String) : Option Nat := do
  let (before, _) ← splitOnceAt "[UIDVALIDITY ".toList (toAsciiUppercase resp).toList
  let rest := resp.toList.drop (before.length + "[UIDVALIDITY ".toList.length)
  let (value, _) ← splitOnceAt [']'] rest
  parseUnsigned (2 ^ 32 - 1) (trim (String.ofList value))

def quoteImapString (s : String) : String :=
  String.ofList ('"' :: (s.toList.flatMap fun c =>
    if c = '\\' ∨ c = '"' then ['\\', c] else [c]) ++ ['"'])

/-! ## Paths -/

structure ImapPath where
  mailbox : Option String
  uidvalidity : Option Nat := none
  uid : Option Nat := none
  mailindex : Option Nat := none
  «section» : Option String := none
  query : Option String
  deriving DecidableEq, Repr

def pathNum (name v : String) : Except Error Nat :=
  match parseUnsigned (2 ^ 32 - 1) v with
  | some n => .ok n
  | none => .error (.invalidUrl s!"imap: bad {name} value {dbgStr v}")

def stripSlash (s : List Char) : List Char := if s.getLast? = some '/' then s.dropLast else s

def pathParam (p : ImapPath) (param : List Char) : Except Error ImapPath :=
  match splitOnceAt ['='] (stripSlash param) with
  | none => .ok p
  | some (name, value) =>
    let name := toAsciiUppercase (String.ofList name)
    let value := percentDecode (String.ofList value)
    if name = "UID" then (pathNum "UID" value).map fun n => { p with uid := some n }
    else if name = "UIDVALIDITY" then
      (pathNum "UIDVALIDITY" value).map fun n => { p with uidvalidity := some n }
    else if name = "MAILINDEX" then
      (pathNum "MAILINDEX" value).map fun n => { p with mailindex := some n }
    else if name = "SECTION" then .ok { p with «section» := some value }
    else .ok p

def pathParams (p : ImapPath) : List (List Char) → Except Error ImapPath
  | [] => .ok p
  | param :: params => do pathParams (← pathParam p param) params

def parsePath (path : String) : Except Error ImapPath :=
  let (path, query) := match splitOnceAt ['?'] path.toList with
    | some (p, q) => (p, some (percentDecode (String.ofList q)))
    | none => (path.toList, none)
  let trimmed := match path with
    | '/' :: rest => rest
    | all => all
  let (mboxPart, params) := (splitOnceAt [';'] trimmed).getD (trimmed, [])
  let mboxPart := stripSlash mboxPart
  let mailbox := if mboxPart.isEmpty then none else some (percentDecode (String.ofList mboxPart))
  pathParams { mailbox := mailbox, query := query.filter (!·.isEmpty) }
    ((params.splitOn ';').filter (!·.isEmpty))

/-! ## Commands -/

/-- The tag of the command of this number, from one on. -/
def tag (n : Nat) : String := "a" ++ String.ofList (List.replicate (3 - n.repr.length) '0') ++ n.repr

/-- Send a line, whatever it contains. -/
def sendText (line : String) : Session Unit := Session.send (asBytes line ++ crlf)

/-- The command of this number, and the response to it. -/
def exchange (n : Nat) (cmd what : String) (buf : Bytes) : Session (String × List Bytes × Bytes) := do
  sendText s!"{tag n} {cmd}"
  let (resp, literals, buf) ← readResponse (tag n) buf
  Talk.ofExcept (requireOk resp (tag n) what)
  return (resp, literals, buf)

def requestCapability (n : Nat) (buf : Bytes) : Session (Caps × Bytes) := do
  let (resp, _, buf) ← exchange n "CAPABILITY" "CAPABILITY" buf
  return (capsOf (parseCapabilityLine resp), buf)

inductive AuthMethod where
  | saslPlain
  | saslLogin
  | loginCommand
  deriving DecidableEq, Repr

def chooseAuth (caps : Caps) : Option AuthMethod :=
  if caps.has "AUTH=PLAIN" then some .saslPlain
  else if caps.has "AUTH=LOGIN" then some .saslLogin
  else if caps.has "LOGINDISABLED" then none
  else some .loginCommand

/-- The end of an authentication: the buffer after it. -/
def finish (n : Nat) (what : String) (buf : Bytes) : Session Bytes := do
  let (resp, _, buf) ← readResponse (tag n) buf
  Talk.ofExcept (requireOk resp (tag n) what)
  return buf

/-- Answer a continuation request, unless the server is done already. -/
def answering (n : Nat) (what line : String) (buf : Bytes) (next : Bytes → Session Bytes) :
    Session Bytes := do
  let (cont, _, buf) ← readResponse (tag n) buf
  if isTaggedDone cont (tag n) then
    Talk.ofExcept (requireOk cont (tag n) what)
    return buf
  else
    sendText line
    next buf

def authPlain (n : Nat) (saslIr : Bool) (user pass : String) (buf : Bytes) : Session Bytes := do
  let initial := base64Encode (Smtp.plainMessage user pass)
  if saslIr then
    sendText s!"{tag n} AUTHENTICATE PLAIN {initial}"
    finish n "AUTHENTICATE PLAIN" buf
  else
    sendText s!"{tag n} AUTHENTICATE PLAIN"
    answering n "AUTHENTICATE PLAIN" initial buf (finish n "AUTHENTICATE PLAIN")

def authLoginSasl (n : Nat) (user pass : String) (buf : Bytes) : Session Bytes := do
  sendText s!"{tag n} AUTHENTICATE LOGIN"
  answering n "AUTHENTICATE LOGIN" (base64Encode (asBytes user)) buf fun buf =>
    answering n "AUTHENTICATE LOGIN" (base64Encode (asBytes pass)) buf (finish n "AUTHENTICATE LOGIN")

def loginCommand (n : Nat) (user pass : String) (buf : Bytes) : Session Bytes := do
  sendText s!"{tag n} LOGIN {quoteImapString user} {quoteImapString pass}"
  finish n "LOGIN" buf

def authenticate (n : Nat) (caps : Caps) (user pass : String) (buf : Bytes) : Session Bytes :=
  match chooseAuth caps with
  | some .saslPlain => authPlain n (caps.has "SASL-IR") user pass buf
  | some .saslLogin => authLoginSasl n user pass buf
  | some .loginCommand => loginCommand n user pass buf
  | none => Talk.fail (.badResponse ("imap: server offers no usable authentication mechanism " ++
      "(LOGINDISABLED and no AUTH=PLAIN/LOGIN); a STARTTLS/imaps connection may be required"))

def dbgOption : Option Nat → String
  | some n => s!"Some({n})"
  | none => "None"

def checkValidity (resp : String) (uidvalidity : Option Nat) : Except Error Unit :=
  match uidvalidity with
  | none => .ok ()
  | some want =>
    if parseUidvalidity resp = some want then .ok ()
    else .error (.badResponse
      s!"imap: UIDVALIDITY mismatch (URL {want}, server {dbgOption (parseUidvalidity resp)})")

def selectMailbox (n : Nat) (mbox : String) (uidvalidity : Option Nat) (buf : Bytes) :
    Session Bytes := do
  let (resp, _, buf) ← exchange n s!"SELECT {quoteImapString mbox}" "SELECT" buf
  Talk.ofExcept (checkValidity resp uidvalidity)
  return buf

/-! ## The dialogue -/

def rejectField (what : String) : Option String → Except Error Unit
  | none => .ok ()
  | some s => rejectCtl "imap" what s

/-- The request that the path stands for: its body, the next tag, and the buffer. -/
def request (n : Nat) (target : ImapPath) (buf : Bytes) : Session (Bytes × Nat × Bytes) := do
  let bodySection := target.section.getD ""
  match target.mailbox with
  | none =>
    let (resp, _, buf) ← exchange n "LIST \"\" \"*\"" "LIST" buf
    return (asBytes (collectUntagged resp "LIST"), n + 1, buf)
  | some mbox =>
    let buf ← selectMailbox n mbox target.uidvalidity buf
    match target.uid, target.mailindex, target.query with
    | none, none, some q =>
      let (resp, _, buf) ← exchange (n + 1) s!"SEARCH {q}" "SEARCH" buf
      return (asBytes (collectUntagged resp "SEARCH"), n + 2, buf)
    | none, none, none =>
      let (resp, _, buf) ← exchange (n + 1) "FETCH 1:* (UID)" "FETCH" buf
      return (asBytes (collectUntagged resp "FETCH"), n + 2, buf)
    | some uid, _, _ =>
      let (_, literals, buf) ← exchange (n + 1) s!"UID FETCH {uid} BODY[{bodySection}]" "FETCH" buf
      return (literals.head?.getD [], n + 2, buf)
    | none, some index, _ =>
      let (_, literals, buf) ← exchange (n + 1) s!"FETCH {index} BODY[{bodySection}]" "FETCH" buf
      return (literals.head?.getD [], n + 2, buf)

/-- Errors are of no account: the body is here. -/
def logout (n : Nat) (buf : Bytes) : Session Unit := do
  let _ ← (sendText s!"{tag n} LOGOUT").attempt
  let _ ← (readResponse (tag n) buf).attempt

/-- The user of the URL is authenticated, unless the server has said that we are: the next tag. -/
def identify (url : Url) (preauth : Bool) (n : Nat) (caps : Caps) (buf : Bytes) :
    Session (Nat × Bytes) :=
  match preauth, url.userinfo with
  | false, some userinfo => do
    let user := percentDecode (splitUserinfo userinfo).1
    let pass := percentDecode (splitUserinfo userinfo).2
    Talk.ofExcept (rejectCtl "imap" "imap user" user)
    Talk.ofExcept (rejectCtl "imap" "imap password" pass)
    return (n + 1, ← authenticate n caps user pass buf)
  | _, _ => return (n, buf)

/-- From the authentication on; `n` is the number of the next tag. -/
def retrieve (url : Url) (preauth : Bool) (n : Nat) (caps : Caps) (buf : Bytes) : Session Bytes := do
  let (n, buf) ← identify url preauth n caps buf
  let target ← Talk.ofExcept (parsePath url.path)
  Talk.ofExcept (rejectField "imap mailbox" target.mailbox)
  Talk.ofExcept (rejectField "imap section" target.section)
  Talk.ofExcept (rejectField "imap search query" target.query)
  let (body, n, buf) ← request n target buf
  logout n buf
  return body

def requireTlsOk (requireTls stillPlain : Bool) : Except Error Unit :=
  if requireTls && stillPlain then
    .error (.badResponse "imap: TLS required (--ssl-reqd) but server did not offer STARTTLS")
  else .ok ()

/-- Ask for the upgrade, make it, and ask for the capabilities again. -/
def startTls (host : String) (n : Nat) (buf : Bytes) : Session (Caps × Bytes) := do
  let (_, _, buf) ← exchange n "STARTTLS" "STARTTLS" buf
  Talk.ofExcept (Smtp.rejectPipelined "imap" buf.isEmpty)
  Session.handshake host
  requestCapability (n + 1) buf

/-- The capabilities that a greeting has in it. -/
def greetingCaps (greeting first : String) : Caps :=
  capsOf ((parseCapabilityCode first).or (parseCapabilityLine greeting))

/-- Without capabilities in the greeting, ask for them: the next tag comes with them. -/
def discover (inline : Caps) (buf : Bytes) : Session (Caps × Nat × Bytes) :=
  if inline.set.isEmpty then do
    let (caps, buf) ← requestCapability 1 buf
    return (caps, 2, buf)
  else return (inline, 1, buf)

def run (plain : Bool) (url : Url) (requireTls : Bool) : Session Bytes := do
  let (greeting, _, buf) ← readResponse "*" []
  let first := (lines greeting).head?.getD ""
  if !startsWith "* OK" first && !startsWith "* PREAUTH" first then
    Talk.fail (.badResponse s!"imap greeting was not OK: {first}")
  else
    let preauth := startsWith "* PREAUTH" first
    let (caps, n, buf) ← discover (greetingCaps greeting first) buf
    if plain && caps.has "STARTTLS" then
      let (caps, buf) ← startTls url.host n buf
      retrieve url preauth (n + 2) caps buf
    else
      Talk.ofExcept (requireTlsOk requireTls plain)
      retrieve url preauth n caps buf

def fetch (url : Url) (requireTls : Bool) : Session Bytes :=
  if url.scheme = "imap" then do
    let _ ← Session.dial url.host url.port
    run true url requireTls
  else if url.scheme = "imaps" then do
    let _ ← Session.dial url.host url.port
    Session.handshake url.host
    run false url requireTls
  else Talk.fail (.unsupportedScheme url.scheme)

end Rsurl.Mail.Imap
