import Rsurl.Library.Outcome

/-!
# Errors and text

The crate's error type, and the operations of Rust's `str` that the protocol code relies on.
A Rust `String` is a valid UTF-8 byte string, which is what Lean's `String` is; lengths are
byte lengths. `dbgStr` is the `Debug` rendering of a string, used inside error texts; it treats
every character from U+00A0 on as printable.
-/

namespace Rsurl

abbrev Bytes := List UInt8

inductive IoErrorKind where
  | invalidData
  | invalidInput
  | unexpectedEof
  | connectionReset
  | connectionAborted
  | brokenPipe
  | notConnected
  | wouldBlock
  | timedOut
  | notFound
  | permissionDenied
  | other
  deriving DecidableEq, Repr

/-- The crate's errors. -/
inductive Error where
  | invalidUrl (url : String)
  | unsupportedScheme (scheme : String)
  | io (kind : IoErrorKind) (msg : String)
  | badResponse (msg : String)
  | unexpectedEof
  | h2NotNegotiated
  | ssh (msg : String)
  | decode (msg : String)
  | status (code : Nat) (reason : String)
  | cancelled
  deriving DecidableEq, Repr

abbrev Outcome (σ α : Type) := Library.Outcome Error σ α

namespace Text

/-- The UTF-8 bytes of a string (`str::as_bytes`). -/
def asBytes (s : String) : Bytes := s.toByteArray.data.toList

/-- Strict UTF-8 validation (`String::from_utf8`). -/
def fromUtf8 (bytes : Bytes) : Option String := String.fromUTF8? ⟨bytes.toArray⟩

def len (s : String) : Nat := (asBytes s).length

@[simp] theorem fromUtf8_asBytes (s : String) : fromUtf8 (asBytes s) = some s := by
  have h : (⟨(asBytes s).toArray⟩ : ByteArray) = s.toByteArray := by simp [asBytes]
  rw [fromUtf8, h, String.fromUTF8?, dif_pos s.isValidUTF8]
  rfl

theorem asBytes_of_fromUtf8 {bytes : Bytes} {s : String} (h : fromUtf8 bytes = some s) :
    asBytes s = bytes := by
  unfold fromUtf8 String.fromUTF8? at h
  split at h
  · cases h
    simp [asBytes, String.fromUTF8]
  · cases h

def isAsciiDigit (b : UInt8) : Bool := 0x30 ≤ b && b ≤ 0x39

def isAsciiLowercase (b : UInt8) : Bool := 0x61 ≤ b && b ≤ 0x7a

/-- `Char.toLower` and `Char.toUpper` change ASCII letters only. -/
def toAsciiLowercase (s : String) : String := String.ofList (s.toList.map Char.toLower)

def toAsciiUppercase (s : String) : String := String.ofList (s.toList.map Char.toUpper)

def eqIgnoreAsciiCase (s t : String) : Bool := toAsciiLowercase s == toAsciiLowercase t

/-- The Unicode `White_Space` property, which `str::trim` strips. -/
def isWhitespace (c : Char) : Bool :=
  let n := c.toNat
  (0x09 ≤ n && n ≤ 0x0d) || n == 0x20 || n == 0x85 || n == 0xa0 || n == 0x1680 ||
    (0x2000 ≤ n && n ≤ 0x200a) || n == 0x2028 || n == 0x2029 || n == 0x202f ||
    n == 0x205f || n == 0x3000

def trim (s : String) : String :=
  String.ofList (((s.toList.dropWhile isWhitespace).reverse.dropWhile isWhitespace).reverse)

def split (sep : Char) (s : String) : List String := (s.toList.splitOn sep).map String.ofList

/-- The rest of the string after a leading `c`. -/
def stripPrefix (c : Char) (s : String) : Option String :=
  match s.toList with
  | [] => none
  | d :: rest => if d = c then some (String.ofList rest) else none

def allDigits (s : String) : Bool := (asBytes s).all isAsciiDigit

/-- Parse an unsigned decimal no greater than `limit` (`str::parse` on an unsigned type). -/
def parseUnsigned (limit : Nat) (s : String) : Option Nat :=
  let digits := match asBytes s with
    | 0x2b :: rest => rest
    | all => all
  if digits.isEmpty || !digits.all isAsciiDigit then none
  else
    let n := digits.foldl (fun acc b => acc * 10 + (b.toNat - 0x30)) 0
    if n ≤ limit then some n else none

def hex (n : Nat) : String := String.ofList (Nat.toDigits 16 n)

def dbgChar (c : Char) : String :=
  if c = '"' then "\\\""
  else if c = '\\' then "\\\\"
  else if c = '\t' then "\\t"
  else if c = '\r' then "\\r"
  else if c = '\n' then "\\n"
  else if c.toNat = 0 then "\\0"
  else if c.toNat < 0x20 || (0x7f ≤ c.toNat && c.toNat < 0xa0) then
    "\\u\x7b" ++ hex c.toNat ++ "\x7d"
  else String.ofList [c]

/-- The `Debug` rendering of a string. -/
def dbgStr (s : String) : String := "\"" ++ String.join (s.toList.map dbgChar) ++ "\""

end Text

end Rsurl
