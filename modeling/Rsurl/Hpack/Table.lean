import Rsurl.Hpack.Huffman
import Rsurl.Hpack.Integer
import Rsurl.Library.Fifo

/-!
# Header compression state

The static table, the decoder and the encoder. Both sides keep a dynamic table of header pairs,
newest first; the two copies are `Library.Fifo` tables under the names the source gives their
fields. A failed `decodeBlock` returns the decoder as the failure left it.
-/

namespace Rsurl.Hpack

open Library Text

abbrev Header := String × String

/-- Entry `index - 1` is the static table's entry `index`. -/
def staticTable : List Header :=
  [(":authority", ""), (":method", "GET"), (":method", "POST"), (":path", "/"),
   (":path", "/index.html"), (":scheme", "http"), (":scheme", "https"), (":status", "200"),
   (":status", "204"), (":status", "206"), (":status", "304"), (":status", "400"),
   (":status", "404"), (":status", "500"), ("accept-charset", ""),
   ("accept-encoding", "gzip, deflate"), ("accept-language", ""), ("accept-ranges", ""),
   ("accept", ""), ("access-control-allow-origin", ""), ("age", ""), ("allow", ""),
   ("authorization", ""), ("cache-control", ""), ("content-disposition", ""),
   ("content-encoding", ""), ("content-language", ""), ("content-length", ""),
   ("content-location", ""), ("content-range", ""), ("content-type", ""), ("cookie", ""),
   ("date", ""), ("etag", ""), ("expect", ""), ("expires", ""), ("from", ""), ("host", ""),
   ("if-match", ""), ("if-modified-since", ""), ("if-none-match", ""), ("if-range", ""),
   ("if-unmodified-since", ""), ("last-modified", ""), ("link", ""), ("location", ""),
   ("max-forwards", ""), ("proxy-authenticate", ""), ("proxy-authorization", ""), ("range", ""),
   ("referer", ""), ("refresh", ""), ("retry-after", ""), ("server", ""), ("set-cookie", ""),
   ("strict-transport-security", ""), ("transfer-encoding", ""), ("user-agent", ""), ("vary", ""),
   ("via", ""), ("www-authenticate", "")]

def staticFullIndex (name value : String) : Option Nat :=
  (staticTable.findIdx? fun e => e.1 == name && e.2 == value).map (· + 1)

def staticNameIndex (name : String) : Option Nat :=
  (staticTable.findIdx? fun e => e.1 == name).map (· + 1)

/-! ## Field octets -/

/-- Token characters of a field name, uppercase letters excluded. -/
def isTokenChar (c : UInt8) : Bool :=
  isAsciiDigit c || isAsciiLowercase c ||
    [0x21, 0x23, 0x24, 0x25, 0x26, 0x27, 0x2a, 0x2b, 0x2d, 0x2e, 0x5e, 0x5f, 0x60, 0x7c,
      0x7e].contains c

def headerOctetsOk (name value : Bytes) : Bool :=
  match name with
  | [] => false
  | first :: rest =>
    let nameRest := if first == 0x3a then rest else first :: rest
    !nameRest.isEmpty && nameRest.all isTokenChar &&
      !value.any fun c => c == 0x00 || c == 0x0a || c == 0x0d

def maxDecodedHeaderList : Nat := 256 * 1024

def dynTableCapMax : Nat := 4096

def entrySize (e : Header) : Nat := len e.1 + len e.2 + 32

/-- `usize` addition that stops at the largest value. -/
def satAdd (a b : Nat) : Nat := min (a + b) (2 ^ 64 - 1)

/-! ## Decoder -/

structure Decoder where
  dynTable : List Header
  dynTableSize : Nat
  dynTableCap : Nat
  deriving DecidableEq, Repr

namespace Decoder

def new : Decoder := ⟨[], 0, dynTableCapMax⟩

/-- The entries and their running size. -/
def table (d : Decoder) : List Header × Nat := (d.dynTable, d.dynTableSize)

def withTable (d : Decoder) (t : List Header × Nat) : Decoder :=
  { d with dynTable := t.1, dynTableSize := t.2 }

def evictToFit (d : Decoder) (incoming : Nat) : Decoder :=
  d.withTable (Fifo.evict entrySize d.dynTableCap incoming d.table)

def insert (d : Decoder) (name value : String) : Decoder :=
  d.withTable (Fifo.insert entrySize d.dynTableCap (name, value) d.table)

/-- The pair at a one-based index of the static and dynamic tables together. -/
def lookup (d : Decoder) (index : Nat) : Except Error Header :=
  if index = 0 then .error (.badResponse "hpack: index 0")
  else if index ≤ staticTable.length then .ok (staticTable.getD (index - 1) ("", ""))
  else match d.dynTable[index - staticTable.length - 1]? with
    | some e => .ok e
    | none => .error (.badResponse s!"hpack: index {index} out of range")

def lookupName (d : Decoder) (index : Nat) : Except Error String :=
  (d.lookup index).map Prod.fst

/-- A length-prefixed string literal at `pos`, with the position after it. -/
def readString (buf : Bytes) (pos : Nat) : Except Error (String × Nat) :=
  match buf[pos]? with
  | none => .error (.badResponse "hpack: truncated string")
  | some b =>
    let huffmanFlag := b &&& 0x80 ≠ 0
    match decodeInt (buf.drop pos) 7 with
    | .error e => .error e
    | .ok (n, consumed) =>
      let pos := pos + consumed
      if 2 ^ 64 ≤ pos + n then .error (.badResponse "hpack: string length overflow")
      else if buf.length < pos + n then .error (.badResponse "hpack: truncated string body")
      else
        let raw := (buf.drop pos).take n
        if huffmanFlag then
          match huffmanDecode raw with
          | .error e => .error e
          | .ok bytes => match fromUtf8 bytes with
            | some s => .ok (s, pos + n)
            | none => .error (.badResponse "hpack: non-utf8 Huffman literal")
        else match fromUtf8 raw with
          | some s => .ok (s, pos + n)
          | none => .error (.badResponse "hpack: non-utf8 literal")

/-- A literal pair whose name index has a prefix of `prefixBits` bits. -/
def readLiteral (d : Decoder) (buf : Bytes) (pos prefixBits : Nat) :
    Except Error (Header × Nat) := do
  let (idx, n) ← decodeInt (buf.drop pos) prefixBits
  let pos := pos + n
  let (name, pos) ← if idx = 0 then readString buf pos
    else (d.lookupName idx).map (·, pos)
  let (value, pos) ← readString buf pos
  return ((name, value), pos)

/-- One representation at `pos`: a header pair, or a table size update, which yields none.
`fieldSeen` says that the block already produced a pair. -/
def decodeRepr (d : Decoder) (buf : Bytes) (pos : Nat) (fieldSeen : Bool) :
    Outcome Decoder (Option Header × Nat) :=
  let b := buf.getD pos 0
  if b &&& 0x80 ≠ 0 then
    match decodeInt (buf.drop pos) 7 with
    | .error e => .error e d
    | .ok (idx, n) => match d.lookup idx with
      | .error e => .error e d
      | .ok entry => .ok (some entry, pos + n) d
  else if b &&& 0x40 ≠ 0 then
    match d.readLiteral buf pos 6 with
    | .error e => .error e d
    | .ok (entry, pos) => .ok (some entry, pos) (d.insert entry.1 entry.2)
  else if b &&& 0x20 ≠ 0 then
    if fieldSeen then
      .error (.badResponse
        "hpack: dynamic table size update after a header field (COMPRESSION_ERROR)") d
    else match decodeInt (buf.drop pos) 5 with
      | .error e => .error e d
      | .ok (newSize, n) =>
        if dynTableCapMax < newSize then
          .error (.badResponse
            s!"hpack: dynamic table size update {newSize} exceeds limit 4096 (COMPRESSION_ERROR)") d
        else .ok (none, pos + n) ({ d with dynTableCap := newSize }.evictToFit 0)
  else
    match d.readLiteral buf pos 4 with
    | .error e => .error e d
    | .ok (entry, pos) => .ok (some entry, pos) d

/-- Every representation takes at least one byte, so `buf.length` rounds reach the end. -/
def decodeLoop : Nat → Decoder → Bytes → Nat → List Header → Nat → Outcome Decoder (List Header)
  | 0, d, _, _, out, _ => .ok out d
  | rounds + 1, d, buf, pos, out, listSize =>
    if buf.length ≤ pos then .ok out d
    else (d.decodeRepr buf pos !out.isEmpty).andThen fun repr d =>
      match repr with
      | (none, pos) => decodeLoop rounds d buf pos out listSize
      | (some entry, pos) =>
        if !headerOctetsOk (asBytes entry.1) (asBytes entry.2) then
          .error (.badResponse "hpack: forbidden octet in decoded header") d
        else
          let listSize := satAdd (satAdd (satAdd listSize (len entry.1)) (len entry.2)) 32
          if maxDecodedHeaderList < listSize then
            .error (.badResponse "hpack: decoded header list exceeds limit") d
          else decodeLoop rounds d buf pos (out ++ [entry]) listSize

def decodeBlock (d : Decoder) (buf : Bytes) : Outcome Decoder (List Header) :=
  decodeLoop buf.length d buf 0 [] 0

end Decoder

/-! ## Encoder -/

/-- The shorter of the raw and the Huffman form, raw on a tie. -/
def encodeLiteralString (out : Bytes) (s : String) : Bytes :=
  let raw := asBytes s
  let huffLen := (huffmanBitLen raw + 7) / 8
  if huffLen < raw.length then encodeIntInto out huffLen 7 0x80 ++ huffmanEncode raw
  else encodeIntInto out raw.length 7 0 ++ raw

structure Encoder where
  dynTable : List Header
  dynTableSize : Nat
  maxDynTableSize : Nat
  /-- Size update owed to the peer at the head of the next block. -/
  pendingMaxTableSizeSignal : Option Nat
  /-- Smallest size in effect since the last update was sent. -/
  pendingMinTableSize : Option Nat
  deriving DecidableEq, Repr

namespace Encoder

def new : Encoder := ⟨[], 0, dynTableCapMax, none, none⟩

def table (e : Encoder) : List Header × Nat := (e.dynTable, e.dynTableSize)

def withTable (e : Encoder) (t : List Header × Nat) : Encoder :=
  { e with dynTable := t.1, dynTableSize := t.2 }

def evictToFit (e : Encoder) (incoming : Nat) : Encoder :=
  e.withTable (Fifo.evict entrySize e.maxDynTableSize incoming e.table)

def insert (e : Encoder) (name value : String) : Encoder :=
  e.withTable (Fifo.insert entrySize e.maxDynTableSize (name, value) e.table)

def setPeerMaxTableSize (e : Encoder) (n : Nat) : Encoder :=
  let n := min n dynTableCapMax
  if n = e.maxDynTableSize ∧ e.pendingMaxTableSizeSignal = none then e
  else
    let prevMin := e.pendingMinTableSize.getD e.maxDynTableSize
    { ({ e with pendingMinTableSize := some (min prevMin n), maxDynTableSize := n }.evictToFit 0)
      with pendingMaxTableSizeSignal := some n }

def combinedFullIndex (e : Encoder) (name value : String) : Option Nat :=
  match staticFullIndex name value with
  | some i => some i
  | none => (e.dynTable.findIdx? fun p => p.1 == name && p.2 == value).map
      (staticTable.length + 1 + ·)

def combinedNameIndex (e : Encoder) (name : String) : Option Nat :=
  match staticNameIndex name with
  | some i => some i
  | none => (e.dynTable.findIdx? fun p => p.1 == name).map (staticTable.length + 1 + ·)

/-- The size updates owed before the first field of a block. -/
def flushSignal (e : Encoder) (out : Bytes) : Encoder × Bytes :=
  match e.pendingMaxTableSizeSignal with
  | none => (e, out)
  | some n =>
    let out := match e.pendingMinTableSize.filter (· < n) with
      | some m => encodeIntInto out m 5 0x20
      | none => out
    ({ e with pendingMaxTableSizeSignal := none, pendingMinTableSize := none },
      encodeIntInto out n 5 0x20)

def encodeHeader (e : Encoder) (out : Bytes) (name value : String) : Encoder × Bytes :=
  let (e, out) := e.flushSignal out
  match e.combinedFullIndex name value with
  | some idx => (e, encodeIntInto out idx 7 0x80)
  | none => match e.combinedNameIndex name with
    | some idx =>
      (e.insert name value, encodeLiteralString (encodeIntInto out idx 6 0x40) value)
    | none =>
      (e.insert name value, encodeLiteralString (encodeLiteralString (out ++ [0x40]) name) value)

/-- A header block: its fields in order, into one buffer. -/
def encodeBlock (e : Encoder) (fields : List Header) : Encoder × Bytes :=
  fields.foldl (fun acc h => acc.1.encodeHeader acc.2 h.1 h.2) (e, [])

end Encoder

end Rsurl.Hpack
