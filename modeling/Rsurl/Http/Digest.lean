import Rsurl.Text

/-!
# Digest challenges and answers

Finding a `Digest` challenge in a response, reading its parameters, and the `Authorization` value
that answers it. The hash functions come from another crate; they are parameters, like the client
nonce.
-/

namespace Rsurl.Http.Digest

open Text

/-! ## Challenges -/

/-- A challenge that follows another one on the same line; `before` is what has been read, backwards. -/
def challengeAt (before : List Char) : List Char → Option (List Char)
  | [] => none
  | c :: rest =>
    if "digest ".toList.isPrefixOf ((c :: rest).map Char.toLower) &&
        (before.dropWhile isWhitespace).head? == some ',' then some (c :: rest)
    else challengeAt (c :: before) rest

def findIn (value : String) : Option String :=
  let t := value.toList.dropWhile isWhitespace
  if "digest".toList.isPrefixOf (t.map Char.toLower) then some (String.ofList t)
  else (challengeAt [] t).map String.ofList

def findChallenge (values : List String) : Option String := values.findSome? findIn

/-- What follows the scheme of a challenge. -/
def digestParams (challenge : String) : Option (List Char) :=
  let body := (trim challenge).toList
  if "digest".toList.isPrefixOf (body.map Char.toLower) then some (body.drop 6) else none

/-! ## Parameters -/

def isAsciiWhitespace (c : Char) : Bool :=
  c == ' ' || c == '\t' || c == '\n' || c == '\r' || c.toNat == 0x0c

/-- A quoted value up to its closing quote, and what follows. -/
def readQuoted : List Char → List Char × List Char
  | [] => ([], [])
  | '"' :: rest => ([], rest)
  | '\\' :: c :: rest =>
    let (v, rest) := readQuoted rest
    ('\\' :: c :: v, rest)
  | c :: rest =>
    let (v, rest) := readQuoted rest
    (c :: v, rest)

def readValue : List Char → String × List Char
  | '"' :: rest =>
    let (v, rest) := readQuoted rest
    (String.ofList v, rest)
  | s =>
    let v := s.takeWhile (· ≠ ',')
    (trim (String.ofList v), s.drop v.length)

/-- Key and value pairs in order; `fuel` bounds their number. -/
def paramsFrom : Nat → List Char → List (String × String)
  | 0, _ => []
  | fuel + 1, s =>
    if s.isEmpty then []
    else
      let s := s.dropWhile fun c => c == ',' || isAsciiWhitespace c
      let raw := s.takeWhile fun c => c ≠ '=' && c ≠ ','
      let key := toAsciiLowercase (trim (String.ofList raw))
      let keep (value : String) := if key = "" then [] else [(key, value)]
      match s.drop raw.length with
      | '=' :: rest =>
        let (value, rest) := readValue rest
        keep value ++ paramsFrom fuel rest
      | rest => keep "" ++ paramsFrom fuel rest

def parseParams (s : List Char) : List (String × String) := paramsFrom (s.length + 1) s

/-- The value given last. -/
def get (params : List (String × String)) (key : String) : Option String :=
  (params.reverse.find? fun p => p.1 == key).map Prod.snd

def isStale (challenge : String) : Bool :=
  let body := (digestParams challenge).getD (trim challenge).toList
  (get (parseParams body) "stale").any fun v => eqIgnoreAsciiCase v "true"

/-! ## Answers -/

structure Hashes where
  md5 : Bytes → Bytes
  sha256 : Bytes → Bytes

def hex (bytes : Bytes) : String :=
  String.ofList (bytes.flatMap fun b =>
    [Nat.digitChar (b.toNat / 16), Nat.digitChar (b.toNat % 16)])

def splitsHeader (c : Char) : Bool := c == '\r' || c == '\n' || c.toNat == 0

def quote (v : String) : Option String :=
  if v.toList.any splitsHeader then none
  else some (String.ofList (v.toList.flatMap fun c =>
    if c == '"' || c == '\\' then ['\\', c] else [c]))

/-- Safe between quotes as it is. -/
def isSafeQuoted (v : String) : Bool :=
  !v.toList.any fun c => c == '"' || c == '\\' || splitsHeader c

/-- The algorithm's name, whether it hashes with SHA-256, and whether it is a session variant. -/
def selectAlgorithm : Option String → Option (String × Bool × Bool)
  | none => some ("MD5", false, false)
  | some a =>
    if eqIgnoreAsciiCase a "MD5" then some ("MD5", false, false)
    else if eqIgnoreAsciiCase a "MD5-sess" then some ("MD5-sess", false, true)
    else if eqIgnoreAsciiCase a "SHA-256" then some ("SHA-256", true, false)
    else if eqIgnoreAsciiCase a "SHA-256-sess" then some ("SHA-256-sess", true, true)
    else none

/-- The quality of protection to use, if the challenge offers one we know. -/
def selectQop : Option String → Option (Option String)
  | none => some none
  | some q =>
    let offered (want : String) := (split ',' q).any fun t => eqIgnoreAsciiCase (trim t) want
    if offered "auth" then some (some "auth")
    else if offered "auth-int" then some (some "auth-int")
    else none

def authorizationWithCnonce (hashes : Hashes) (user pass method uri : String) (body : Bytes)
    (challenge cnonce : String) : Option String := do
  let p := parseParams (← digestParams challenge)
  let realm ← get p "realm"
  let nonce ← get p "nonce"
  if !isSafeQuoted realm || !isSafeQuoted nonce then none
  let rawAlg := get p "algorithm"
  let (algorithm, useSha, sess) ← selectAlgorithm rawAlg
  let qop ← selectQop (get p "qop")
  let digest (bytes : Bytes) := hex (if useSha then hashes.sha256 bytes else hashes.md5 bytes)
  let h (s : String) := digest (asBytes s)
  let nc := "00000001"
  let ha1 := h s!"{user}:{realm}:{pass}"
  let ha1 := if sess then h s!"{ha1}:{nonce}:{cnonce}" else ha1
  let ha2 := if qop = some "auth-int" then h s!"{method}:{uri}:{digest body}" else h s!"{method}:{uri}"
  let response := match qop with
    | some q => h s!"{ha1}:{nonce}:{nc}:{cnonce}:{q}:{ha2}"
    | none => h s!"{ha1}:{nonce}:{ha2}"
  let qUser ← quote user
  let qUri ← quote uri
  let opaqueParam := get p "opaque"
  if opaqueParam.any fun v => !isSafeQuoted v then none
  some (s!"Digest username=\"{qUser}\", realm=\"{realm}\", nonce=\"{nonce}\", uri=\"{qUri}\", " ++
    s!"response=\"{response}\"" ++
    (match opaqueParam with
      | some v => s!", opaque=\"{v}\""
      | none => "") ++
    (if rawAlg.isSome then s!", algorithm={algorithm}" else "") ++
    (match qop with
      | some q => s!", qop={q}, nc={nc}, cnonce=\"{cnonce}\""
      | none => ""))

end Rsurl.Http.Digest
