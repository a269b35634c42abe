import Rsurl.Error

/-!
# Text on the wire

Lines of an HTTP/1.1 message are bytes, and are read as text with invalid UTF-8 replaced
(`String::from_utf8_lossy`). The decoder takes one byte at a time, so that a line end is seen to
finish whatever character was open.
-/

namespace Rsurl.Text

/-! ## Lossy UTF-8 -/

/-- A character that has begun: its bits so far, the bytes it still needs, and the range of the
next one. -/
structure Pending where
  bits : Nat
  need : Nat
  low : UInt8
  high : UInt8
  deriving DecidableEq, Repr

def replacement : Char := Char.ofNat 0xfffd

def Pending.ofLead (b : UInt8) : Option Pending :=
  if 0xc2 ≤ b && b ≤ 0xdf then some ⟨b.toNat - 0xc0, 1, 0x80, 0xbf⟩
  else if b == 0xe0 then some ⟨0, 2, 0xa0, 0xbf⟩
  else if b == 0xed then some ⟨0xd, 2, 0x80, 0x9f⟩
  else if 0xe1 ≤ b && b ≤ 0xef then some ⟨b.toNat - 0xe0, 2, 0x80, 0xbf⟩
  else if b == 0xf0 then some ⟨0, 3, 0x90, 0xbf⟩
  else if 0xf1 ≤ b && b ≤ 0xf3 then some ⟨b.toNat - 0xf0, 3, 0x80, 0xbf⟩
  else if b == 0xf4 then some ⟨4, 3, 0x80, 0x8f⟩
  else none

/-- A byte where a character may begin. -/
def lossyLead (b : UInt8) : List Char × Option Pending :=
  if b < 0x80 then ([Char.ofNat b.toNat], none)
  else match Pending.ofLead b with
    | none => ([replacement], none)
    | some p => ([], some p)

/-- The characters a byte finishes, and the character that is open after it. An open character that
is cut short is replaced as a whole, and the byte is looked at again. -/
def lossyStep : Option Pending → UInt8 → List Char × Option Pending
  | none, b => lossyLead b
  | some p, b =>
    if p.low ≤ b && b ≤ p.high then
      let bits := p.bits * 64 + (b.toNat - 0x80)
      if p.need = 1 then ([Char.ofNat bits], none)
      else ([], some ⟨bits, p.need - 1, 0x80, 0xbf⟩)
    else (replacement :: (lossyLead b).1, (lossyLead b).2)

def lossyFrom : Option Pending → Bytes → List Char
  | none, [] => []
  | some _, [] => [replacement]
  | p, b :: rest => (lossyStep p b).1 ++ lossyFrom (lossyStep p b).2 rest

def lossyChars (bytes : Bytes) : List Char := lossyFrom none bytes

def fromUtf8Lossy (bytes : Bytes) : String := String.ofList (lossyChars bytes)

/-! ## Slices -/

def trimEndMatches (p : Char → Bool) (s : String) : String := String.ofList (s.toList.rdropWhile p)

def isEol (c : Char) : Bool := c == '\r' || c == '\n'

/-- Split at the first `sep`. -/
def splitOnce (sep : Char) (s : String) : Option (String × String) :=
  let first := s.toList.takeWhile (· ≠ sep)
  match s.toList.drop first.length with
  | [] => none
  | _ :: rest => some (String.ofList first, String.ofList rest)

def startsWith (start s : String) : Bool := start.toList.isPrefixOf s.toList

def isAsciiHexdigit (b : UInt8) : Bool :=
  isAsciiDigit b || (0x41 ≤ b && b ≤ 0x46) || (0x61 ≤ b && b ≤ 0x66)

def hexValue (b : UInt8) : Nat :=
  if isAsciiDigit b then b.toNat - 0x30
  else if b < 0x61 then b.toNat - 0x41 + 10
  else b.toNat - 0x61 + 10

/-- Hexadecimal digits as a number no greater than `limit` (`from_str_radix`). -/
def parseHex (limit : Nat) (s : String) : Option Nat :=
  let n := (asBytes s).foldl (fun acc b => acc * 16 + hexValue b) 0
  if n ≤ limit then some n else none

/-! ## Character lists -/

/-- Split at the first occurrence of `sep`. -/
def splitOnceAt (sep : List Char) : List Char → Option (List Char × List Char)
  | [] => none
  | c :: rest =>
    if sep.isPrefixOf (c :: rest) then some ([], (c :: rest).drop sep.length)
    else (splitOnceAt sep rest).map fun (before, after) => (c :: before, after)

/-- Split at the last `sep`. -/
def rsplitOnce (sep : Char) (s : List Char) : Option (List Char × List Char) :=
  let last := s.rtakeWhile (· ≠ sep)
  if last.length = s.length then none else some (s.take (s.length - last.length - 1), last)

def isAscii (s : List Char) : Bool := s.all fun c => c.toNat < 0x80

def upperHex (b : UInt8) : List Char :=
  ['%', (Nat.digitChar (b.toNat / 16)).toUpper, (Nat.digitChar (b.toNat % 16)).toUpper]

end Rsurl.Text
