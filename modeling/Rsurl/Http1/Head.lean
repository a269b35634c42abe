import Rsurl.Text
import Rsurl.Http2.Response

/-!
# Response heads and framing

The parsers that both HTTP/1.1 decoders share (status line, header lines, `Content-Length`), and
those of the sans-IO decoder: where a head block ends, what it says, how the body after it is framed
and how long the next chunk is.
-/

namespace Rsurl.Http1

open Text Hpack
open Http2 (maxBodyBytes)

def maxHeaderBytes : Nat := 64 * 1024

/-- Interim heads accepted before the final one. -/
def maxInterimResponses : Nat := 32

structure ResponseHead where
  version : String
  status : Nat
  reason : String
  headers : List Header
  deriving DecidableEq, Repr

/-- `101 Switching Protocols` is final. -/
def isInterimStatus (status : Nat) : Bool := 100 ≤ status && status < 200 && status ≠ 101

/-! ## The shared parsers -/

def parseStatusLine (line : String) : Except Error (String × Nat × String) :=
  let (version, rest) := match splitOnce ' ' line with
    | none => (line, none)
    | some (version, rest) => (version, some rest)
  if !startsWith "HTTP/" version then .error (.badResponse s!"not HTTP: {version}")
  else match rest with
    | none => .error (.badResponse s!"missing status: {dbgStr line}")
    | some rest =>
      let (status, reason) := (splitOnce ' ' rest).getD (rest, "")
      match parseUnsigned 65535 status with
      | none => .error (.badResponse s!"bad status: {dbgStr line}")
      | some status => .ok (version, status, reason)

/-- Join a folded line to the value before it. -/
def joinFold (value cont : String) : String :=
  if cont = "" then value else if value = "" then cont else value ++ " " ++ cont

def pushHeaderLine (headers : List Header) (line : String) : Except Error (List Header) :=
  if startsWith " " line || startsWith "\t" line then
    match headers.getLast? with
    | none => .error (.badResponse
        s!"folded header line with no field to continue: {dbgStr line}")
    | some (name, value) => .ok (headers.dropLast ++ [(name, joinFold value (trim line))])
  else match splitOnce ':' line with
    | none => .error (.badResponse s!"malformed header line: {dbgStr line}")
    | some (name, value) => .ok (headers ++ [(trim name, trim value)])

/-- One element of a `Content-Length` value `v`, against the length seen so far. -/
def contentLengthPart (v : String) (seen : Option Nat) (part : String) :
    Except Error (Option Nat) :=
  let t := trim part
  if t = "" || !allDigits t then .error (.badResponse s!"bad Content-Length: {dbgStr v}")
  else match parseUnsigned (2 ^ 64 - 1) t with
    | none => .error (.badResponse s!"bad Content-Length: {dbgStr v}")
    | some n =>
      if seen.any (· ≠ n) then .error (.badResponse "conflicting Content-Length values")
      else .ok (some n)

def parseContentLength (headers : List Header) : Except Error (Option Nat) :=
  (headers.filter fun h => eqIgnoreAsciiCase h.1 "content-length").foldlM
    (fun seen h => (split ',' h.2).foldlM (contentLengthPart h.2) seen) none

def hasHeader (headers : List Header) (name : String) : Bool :=
  headers.any fun h => eqIgnoreAsciiCase h.1 name

def isChunked (headers : List Header) : Bool :=
  headers.any fun h => eqIgnoreAsciiCase h.1 "transfer-encoding" && eqIgnoreAsciiCase h.2 "chunked"

/-- No body may follow. -/
def bodyless (method : String) (status : Nat) : Bool :=
  eqIgnoreAsciiCase method "HEAD" || (100 ≤ status && status < 200) || status == 204 ||
    status == 304

/-! ## Head blocks -/

/-- The offset just past the blank line. -/
def findHeaderEnd : Bytes → Option Nat
  | [] => none
  | b :: rest =>
    if [0x0a, 0x0a].isPrefixOf (b :: rest) then some 2
    else if [0x0d, 0x0a, 0x0d, 0x0a].isPrefixOf (b :: rest) then some 4
    else (findHeaderEnd rest).map (· + 1)

def trimEol (line : Bytes) : Bytes := line.rdropWhile fun b => b == 0x0a || b == 0x0d

/-- The header lines up to the blank one. -/
def parseHeaderLines : List String → List Header → Nat → Except Error (List Header)
  | [], headers, _ => .ok headers
  | raw :: rest, headers, headerBytes =>
    let line := trimEndMatches (· == '\r') raw
    if line = "" then .ok headers
    else
      let headerBytes := headerBytes + len raw + 1
      if maxHeaderBytes < headerBytes then .error (.badResponse "headers exceed 64 KiB")
      else match pushHeaderLine headers line with
        | .error e => .error e
        | .ok headers => parseHeaderLines rest headers headerBytes

def parseHead (block : Bytes) : Except Error ResponseHead :=
  let lines := split '\n' (fromUtf8Lossy block)
  match parseStatusLine (trimEndMatches (· == '\r') (lines.headD "")) with
  | .error e => .error e
  | .ok (version, status, reason) => match parseHeaderLines lines.tail [] 0 with
    | .error e => .error e
    | .ok headers => .ok { version, status, reason, headers }

/-! ## Framing -/

inductive BodyMode where
  | none
  | length (n : Nat)
  | chunked
  | eof
  deriving DecidableEq, Repr

def bodyMode (method : String) (head : ResponseHead) (streaming : Bool) : Except Error BodyMode :=
  if bodyless method head.status then .ok .none
  else if hasHeader head.headers "transfer-encoding" && hasHeader head.headers "content-length" then
    .error (.badResponse "both Transfer-Encoding and Content-Length present")
  else if isChunked head.headers then .ok .chunked
  else if hasHeader head.headers "transfer-encoding" then
    .error (.badResponse "unsupported Transfer-Encoding")
  else match parseContentLength head.headers with
    | .error e => .error e
    | .ok none => .ok .eof
    | .ok (some len) =>
      if !streaming && maxBodyBytes < len then .error (.badResponse s!"body too large: {len}")
      else .ok (.length len)

/-- The size on a chunk's first line, without its extensions. -/
def parseChunkSizeText (text : String) : Except Error Nat :=
  let sizeStr := (split ';' (trimEndMatches isEol text)).headD ""
  let s := trim sizeStr
  if s = "" || !(asBytes s).all isAsciiHexdigit then
    .error (.badResponse s!"bad chunk size: {dbgStr sizeStr}")
  else match parseHex (2 ^ 64 - 1) s with
    | none => .error (.badResponse s!"bad chunk size: {dbgStr sizeStr}")
    | some n => .ok n

def parseChunkSize (line : Bytes) : Except Error Nat := parseChunkSizeText (fromUtf8Lossy line)

/-! ## Where a head block ends -/

theorem findHeaderEnd_bounds {buf : Bytes} {n : Nat} (h : findHeaderEnd buf = some n) :
    2 ≤ n ∧ n ≤ buf.length := by
  induction buf generalizing n with
  | nil => cases h
  | cons b rest ih =>
    rw [findHeaderEnd] at h
    split at h
    · rename_i hp
      have := (List.isPrefixOf_iff_prefix.mp hp).length_le
      cases h
      exact ⟨le_rfl, this⟩
    · split at h
      · rename_i hp
        have := (List.isPrefixOf_iff_prefix.mp hp).length_le
        cases h
        exact ⟨by omega, this⟩
      · obtain ⟨m, hm, rfl⟩ := Option.map_eq_some_iff.mp h
        have := ih hm
        rw [List.length_cons]
        omega

/-- A block that has ended is not moved by what comes after it. -/
theorem findHeaderEnd_append {buf : Bytes} {n : Nat} (h : findHeaderEnd buf = some n)
    (more : Bytes) : findHeaderEnd (buf ++ more) = some n := by
  induction buf generalizing n with
  | nil => cases h
  | cons b rest ih =>
    -- the search looks three bytes ahead, and a shorter rest ends in two line feeds
    rcases rest with _ | ⟨x, _ | ⟨y, _ | ⟨z, rest⟩⟩⟩
    · simp [findHeaderEnd] at h
    · simp only [findHeaderEnd, List.isPrefixOf, List.cons_append, List.nil_append] at h ⊢
      grind
    · simp only [findHeaderEnd, List.isPrefixOf, List.cons_append, List.nil_append] at h ⊢
      grind
    · rw [List.cons_append, findHeaderEnd, ← List.cons_append]
      rw [findHeaderEnd] at h
      have hlf : [0x0a, 0x0a].isPrefixOf (b :: x :: y :: z :: rest ++ more) =
          [0x0a, 0x0a].isPrefixOf (b :: x :: y :: z :: rest) := rfl
      have hcrlf : [0x0d, 0x0a, 0x0d, 0x0a].isPrefixOf (b :: x :: y :: z :: rest ++ more) =
          [0x0d, 0x0a, 0x0d, 0x0a].isPrefixOf (b :: x :: y :: z :: rest) := rfl
      rw [hlf, hcrlf]
      split at h <;> rename_i hp
      · rw [if_pos hp]
        exact h
      · rw [if_neg hp]
        split at h <;> rename_i hp'
        · rw [if_pos hp']
          exact h
        · obtain ⟨m, hm, rfl⟩ := Option.map_eq_some_iff.mp h
          rw [if_neg hp', ih hm, Option.map_some]

end Rsurl.Http1
