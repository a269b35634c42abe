import Rsurl.Library.Checked
import Rsurl.Library.Entries
import Rsurl.Net.Addr
import Rsurl.Numeral

/-!
# Bencode

Integers, byte strings, lists and dictionaries. The decoder walks over a buffer with a position: it
builds the values, or only passes over them for the byte ranges of the entries of a dictionary. A
`usize` has 64 bits.
-/

namespace Rsurl.Bittorrent.Bencode

open Library Text
open Library.Loop (Turn)

/-- The entries of a dictionary are those of a `BTreeMap`, in its order. -/
inductive Value where
  | int (n : Int)
  | bytes (b : Bytes)
  | list (items : List Value)
  | dict (entries : List (Bytes × Value))

namespace Value

def asInt : Value → Option Int
  | int n => some n
  | _ => none

def asBytes : Value → Option Bytes
  | bytes b => some b
  | _ => none

def asStr : Value → Option String
  | bytes b => fromUtf8 b
  | _ => none

def asList : Value → Option (List Value)
  | list items => some items
  | _ => none

def asDict : Value → Option (List (Bytes × Value))
  | dict entries => some entries
  | _ => none

def get (v : Value) (key : Bytes) : Option Value := v.asDict.bind (List.lookup key)

end Value

def err (msg : String) : Error := .badResponse ("bencode: " ++ msg)

def maxAlloc : Nat := 256 * 1024 * 1024
def maxDepth : Nat := 256

def maxUsize : Nat := 2 ^ 64 - 1

/-! ## Scalars -/

section Decoder

variable (buf : Bytes)

def peek (pos : Nat) : Checked Error UInt8 :=
  match buf[pos]? with
  | some b => .ok b
  | none => .error (err "unexpected end")

def find (pos : Nat) (b : UInt8) : Checked Error Nat := do
  let rest ← Checked.dropFrom buf pos
  match rest.findIdx? (· == b) with
  | some i => .ok (pos + i)
  | none => .error (err "missing terminator")

/-- `str::parse` on an `i64`. -/
def parseI64 (s : String) : Option Int :=
  match stripPrefix '-' s with
  | some digits =>
    if startsWith "+" digits then none else (parseUnsigned (2 ^ 63) digits).map fun n : Nat => -(n : Int)
  | none => (parseUnsigned (2 ^ 63 - 1) s).map fun n : Nat => (n : Int)

/-- No digits, others than digits, or a leading zero. -/
def badDigits (s : String) : Bool :=
  s == "" || !allDigits s || (startsWith "0" s && 1 < len s)

def badInteger (s : String) : Bool := badDigits ((stripPrefix '-' s).getD s) || s == "-0"

/-- With the position behind, as everything that reads here. -/
def integer (pos : Nat) : Checked Error (Value × Nat) := do
  let start := pos + 1
  let stop ← find buf start 0x65
  let raw ← Checked.slice buf start stop
  match fromUtf8 raw with
  | none => .error (err "non-utf8 integer")
  | some s =>
    if badInteger s then .error (err "malformed integer")
    else match parseI64 s with
      | none => .error (err "integer out of range")
      | some n => .ok (.int n, stop + 1)

/-- The range of the bytes; the position is then behind it. -/
def byteStringSpan (pos : Nat) : Checked Error (Nat × Nat) := do
  let colon ← find buf pos 0x3a
  let raw ← Checked.slice buf pos colon
  match fromUtf8 raw with
  | none => .error (err "bad length")
  | some s =>
    if badDigits s then .error (err "malformed string length")
    else match parseUnsigned maxUsize s with
      | none => .error (err "string length out of range")
      | some n =>
        if maxAlloc < n then .error (err "string too large")
        else if maxUsize < colon + 1 + n then .error (err "length overflow")
        else if buf.length < colon + 1 + n then .error (err "string runs past end")
        else .ok (colon + 1, colon + 1 + n)

def byteString (pos : Nat) : Checked Error (Bytes × Nat) := do
  let (start, stop) ← byteStringSpan buf pos
  let b ← Checked.slice buf start stop
  .ok (b, stop)

def unexpected (b : UInt8) : Error := err s!"unexpected byte {Net.hexByte b}"

/-! ## Values -/

/-- Another item of a list, if there is one. -/
def listTurn (item : Nat → Checked Error (Value × Nat)) (st : List Value × Nat) :
    Checked Error (Turn (List Value × Nat) (Value × Nat)) := do
  let b ← peek buf st.2
  if b = 0x65 then .ok (.done (.list st.1, st.2 + 1))
  else do
    let (v, pos) ← item st.2
    .ok (.next (st.1 ++ [v], pos))

/-- Another entry of a dictionary, if there is one. -/
def dictTurn (item : Nat → Checked Error (Value × Nat)) (st : List (Bytes × Value) × Nat) :
    Checked Error (Turn (List (Bytes × Value) × Nat) (Value × Nat)) := do
  let b ← peek buf st.2
  if b = 0x65 then .ok (.done (.dict st.1, st.2 + 1))
  else if !isAsciiDigit b then .error (err "dict key is not a byte string")
  else do
    let (key, pos) ← byteString buf st.2
    let (v, pos) ← item pos
    match Entries.insert st.1 key v with
    | none => .error (err "duplicate dict key")
    | some entries => .ok (.next (entries, pos))

/-- What is left of the buffer, which every turn of a loop has to shorten. -/
def remaining {σ : Type} (st : σ × Nat) : Nat := buf.length - st.2

/-- `value_depth` with `left` levels of nesting left. -/
def valueDepth : Nat → Nat → Checked Error (Value × Nat)
  | 0, _ => .error (err "nesting too deep")
  | left + 1, pos => do
    let b ← peek buf pos
    if b = 0x69 then integer buf pos
    else if b = 0x6c then
      Checked.loop (remaining buf) (listTurn buf (valueDepth left)) ([], pos + 1)
    else if b = 0x64 then
      Checked.loop (remaining buf) (dictTurn buf (valueDepth left)) ([], pos + 1)
    else if isAsciiDigit b then do
      let (s, pos) ← byteString buf pos
      .ok (.bytes s, pos)
    else .error (unexpected b)

def value (pos : Nat) : Checked Error (Value × Nat) := valueDepth buf (maxDepth + 1) pos

/-! ## Passing over values -/

def skipListTurn (item : Nat → Checked Error Nat) (pos : Unit × Nat) :
    Checked Error (Turn (Unit × Nat) Nat) := do
  let b ← peek buf pos.2
  if b = 0x65 then .ok (.done (pos.2 + 1))
  else do
    let pos ← item pos.2
    .ok (.next ((), pos))

/-- The keys so far are a set. -/
def skipDictTurn (item : Nat → Checked Error Nat) (st : List Bytes × Nat) :
    Checked Error (Turn (List Bytes × Nat) Nat) := do
  let b ← peek buf st.2
  if b = 0x65 then .ok (.done (st.2 + 1))
  else if !isAsciiDigit b then .error (err "dict key is not a byte string")
  else do
    let (start, stop) ← byteStringSpan buf st.2
    let key ← Checked.slice buf start stop
    let pos ← item stop
    if key ∈ st.1 then .error (err "duplicate dict key") else .ok (.next (key :: st.1, pos))

/-- `skip_value` with `left` levels of nesting left. -/
def skipValue : Nat → Nat → Checked Error Nat
  | 0, _ => .error (err "nesting too deep")
  | left + 1, pos => do
    let b ← peek buf pos
    if b = 0x69 then do
      let (_, pos) ← integer buf pos
      .ok pos
    else if b = 0x6c then
      Checked.loop (remaining buf) (skipListTurn buf (skipValue left)) ((), pos + 1)
    else if b = 0x64 then
      Checked.loop (remaining buf) (skipDictTurn buf (skipValue left)) ([], pos + 1)
    else if isAsciiDigit b then do
      let (_, stop) ← byteStringSpan buf pos
      .ok stop
    else .error (unexpected b)

def spanTurn (st : List (Bytes × Nat × Nat) × Nat) :
    Checked Error (Turn (List (Bytes × Nat × Nat) × Nat) (List (Bytes × Nat × Nat) × Nat)) := do
  let b ← peek buf st.2
  if b = 0x65 then .ok (.done (st.1, st.2 + 1))
  else if !isAsciiDigit b then .error (err "dict key is not a byte string")
  else do
    let (key, start) ← byteString buf st.2
    let stop ← skipValue buf (maxDepth + 1) start
    .ok (.next (st.1 ++ [(key, start, stop)], stop))

/-- The keys of a dictionary at its top, each with the range of its value. -/
def dictEntrySpans (pos : Nat) : Checked Error (List (Bytes × Nat × Nat) × Nat) := do
  let b ← peek buf pos
  if b ≠ 0x64 then .error (err "expected dictionary")
  else Checked.loop (remaining buf) (spanTurn buf) ([], pos + 1)

end Decoder

def parse (input : Bytes) : Checked Error Value := do
  let (v, pos) ← value input 0
  if pos < input.length then .error (err "trailing bytes after value") else .ok v

/-! ## Encoding -/

def encodeBytes (b : Bytes) : Bytes := Text.asBytes b.length.repr ++ 0x3a :: b

mutual

/-- What `encode_into` writes. -/
def encode : Value → Bytes
  | .int n => 0x69 :: Text.asBytes n.repr ++ [0x65]
  | .bytes b => encodeBytes b
  | .list items => 0x6c :: encodeItems items ++ [0x65]
  | .dict entries => 0x64 :: encodeEntries entries ++ [0x65]

def encodeItems : List Value → Bytes
  | [] => []
  | v :: items => encode v ++ encodeItems items

def encodeEntries : List (Bytes × Value) → Bytes
  | [] => []
  | (k, v) :: entries => encodeBytes k ++ encode v ++ encodeEntries entries

end

end Rsurl.Bittorrent.Bencode
