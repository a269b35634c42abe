import Rsurl.Text

/-!
# Responses to a ranged download

What a download looks at in a response: the `Content-Range` of a 206 or of a 416, the validators of
the resource, and which failures are worth another try.
-/

namespace Rsurl.Download

/-- `u64::MAX` -/
def maxWord : Nat := 2 ^ 64 - 1

/-- The operations of `u64` that leave its range are `none`. -/
def addU64 (a b : Nat) : Option Nat := if a + b ≤ maxWord then some (a + b) else none
def mulU64 (a b : Nat) : Option Nat := if a * b ≤ maxWord then some (a * b) else none
def subU64 (a b : Nat) : Option Nat := if b ≤ a then some (a - b) else none

theorem addU64_eq {a b : Nat} (h : a + b ≤ maxWord) : addU64 a b = some (a + b) := if_pos h
theorem mulU64_eq {a b : Nat} (h : a * b ≤ maxWord) : mulU64 a b = some (a * b) := if_pos h
theorem subU64_eq {a b : Nat} (h : b ≤ a) : subU64 a b = some (a - b) := if_pos h

structure DownloadOptions where
  maxRetries : Nat
  segmentSize : Option Nat
  segments : Option Nat
  parallelism : Nat
  expectedSha256 : Option Bytes
  maxSize : Option Nat
  lowSpeed : Option (Nat × Nat)
  deriving DecidableEq, Repr

/-- The rest of the string after a leading `lit`. -/
def stripLiteral (lit s : String) : Option String :=
  if Text.startsWith lit s then some (String.ofList (s.toList.drop lit.length)) else none

def contains (needle s : String) : Bool := (Text.splitOnceAt needle.toList s.toList).isSome

/-- `str::parse::<u64>` -/
def parseU64 (s : String) : Option Nat := Text.parseUnsigned maxWord s

/-! ## Ranges -/

/-- The range of a 206; `total` is `none` where the server does not know it. -/
structure ContentRange where
  start : Nat
  last : Nat
  total : Option Nat
  deriving DecidableEq, Repr

/-- What stands after `bytes` in a `Content-Range`. -/
def rangeUnit (v : String) : Option String :=
  let v := Text.trim v
  (stripLiteral "bytes " v).orElse fun _ => stripLiteral "bytes=" v

def parseContentRange (v : Option String) : Option ContentRange := do
  let rest ← rangeUnit (← v)
  let (range, total) ← Text.splitOnce '/' rest
  let (start, last) ← Text.splitOnce '-' range
  let start ← parseU64 (Text.trim start)
  let last ← parseU64 (Text.trim last)
  let total ← match Text.trim total with
    | "*" => some none
    | t => (parseU64 t).map some
  if last < start ∨ total.any (· ≤ last) then none
  else some ⟨start, last, total⟩

def parseUnsatisfiedTotal (v : Option String) : Option Nat := do
  let rest ← rangeUnit (← v)
  parseU64 (Text.trim (← stripLiteral "*/" (Text.trim rest)))

example : parseContentRange (some "bytes 5-9/10") = some ⟨5, 9, some 10⟩ := by decide

example : parseUnsatisfiedTotal (some "bytes */10") = some 10 := by decide

/-! ## Validators -/

structure Validators where
  url : String
  etag : String
  lastModified : String
  deriving DecidableEq, Repr

def Validators.none : Validators := ⟨"", "", ""⟩

/-- The value to send as `If-Range`: a strong entity tag, else the date. -/
def Validators.ifRange (v : Validators) : Option String :=
  if v.etag ≠ "" ∧ ¬Text.startsWith "W/" v.etag then some v.etag
  else if v.lastModified ≠ "" then some v.lastModified
  else .none

/-! ## Failures -/

def isTransient : Error → Bool
  | .io kind _ => match kind with
    | .connectionReset | .connectionAborted | .brokenPipe | .timedOut | .unexpectedEof
    | .wouldBlock | .notConnected => true
    | _ => false
  | .unexpectedEof => true
  | .badResponse m =>
    let m := Text.toAsciiLowercase m
    contains "reset by server" m || contains "goaway" m
  | .status code _ => 500 ≤ code
  | _ => false

/-- The store rejected the write outright. -/
def pumpOpenFailed : Error → Bool
  | .io .notFound _ | .io .permissionDenied _ => true
  | _ => false

def lowSpeedError : Error := .io .timedOut "transfer below low-speed limit"

def maxSizeError : Error := .badResponse "maximum file size exceeded"

/-- How many bytes are read from a body at once. -/
def bufferSize : Nat := 64 * 1024

end Rsurl.Download
