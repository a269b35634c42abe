import Rsurl.Url

/-!
# Hosts and addresses

What a host string of a URL stands for, and the helpers that the line protocols share.
-/

namespace Rsurl.Net

open Text

structure Ipv6Addr where
  octets : Bytes
  sized : octets.length = 16
  deriving DecidableEq, Repr

inductive IpAddr where
  | v4 (a b c d : UInt8)
  | v6 (addr : Ipv6Addr)
  deriving DecidableEq, Repr

def IpAddr.octets : IpAddr → Bytes
  | v4 a b c d => [a, b, c, d]
  | v6 addr => addr.octets

def IpAddr.unspecified : IpAddr := .v4 0 0 0 0

/-! ## Address literals -/

/-- An octet in decimal, without leading zeros, and what is left. -/
def readOctet (s : List Char) : Option (Nat × List Char) := do
  let (digits, rest) ← Url.readNumber Char.isDigit 3 s
  if digits.head? = some '0' && 1 < digits.length then none
  else (parseUnsigned 255 (String.ofList digits)).map (·, rest)

/-- A part of an address, after its separator unless it is the first. -/
def readSeparator {α : Type} (sep : Char) (i : Nat) (part : List Char → Option (α × List Char))
    (s : List Char) : Option (α × List Char) :=
  if i = 0 then part s
  else match s with
    | c :: rest => if c = sep then part rest else none
    | [] => none

def readIpv4 (s : List Char) : Option ((Nat × Nat × Nat × Nat) × List Char) := do
  let (a, s) ← readSeparator '.' 0 readOctet s
  let (b, s) ← readSeparator '.' 1 readOctet s
  let (c, s) ← readSeparator '.' 2 readOctet s
  let (d, s) ← readSeparator '.' 3 readOctet s
  return ((a, b, c, d), s)

def readHexGroup (s : List Char) : Option (Nat × List Char) := do
  let (digits, rest) ← Url.readNumber Url.isHexChar 4 s
  (parseHex 0xffff (String.ofList digits)).map (·, rest)

/-- Read up to `limit` groups, `left` of which are still to come, whether they end in an IPv4
address, and what follows. -/
def readGroups (limit : Nat) : Nat → List Char → List Nat × Bool × List Char
  | 0, s => ([], false, s)
  | left + 1, s =>
    let i := limit - (left + 1)
    match if i + 1 < limit then readSeparator ':' i readIpv4 s else none with
    | some ((a, b, c, d), rest) => ([a * 256 + b, c * 256 + d], true, rest)
    | none => match readSeparator ':' i readHexGroup s with
      | some (group, rest) =>
        let (groups, ipv4, rest) := readGroups limit left rest
        (group :: groups, ipv4, rest)
      | none => ([], false, s)

def groupOctets (groups : List Nat) : Bytes :=
  groups.flatMap fun g => [UInt8.ofNat (g / 256), UInt8.ofNat (g % 256)]

def Ipv6Addr.ofOctets (octets : Bytes) : Option Ipv6Addr :=
  if h : octets.length = 16 then some ⟨octets, h⟩ else none

def readIpv6 (s : List Char) : Option (Ipv6Addr × List Char) :=
  let (head, ipv4, rest) := readGroups 8 8 s
  if head.length = 8 then (Ipv6Addr.ofOctets (groupOctets head)).map (·, rest)
  else if ipv4 then none
  else match rest with
    | ':' :: ':' :: rest =>
      let limit := 8 - (head.length + 1)
      let (tail, _, rest) := readGroups limit limit rest
      let zeros := List.replicate (8 - head.length - tail.length) 0
      (Ipv6Addr.ofOctets (groupOctets (head ++ zeros ++ tail))).map (·, rest)
    | _ => none

/-- An IPv6 address and nothing else. -/
def parseIpv6 (s : List Char) : Option Ipv6Addr :=
  match readIpv6 s with
  | some (addr, []) => some addr
  | _ => none

/-- An address and nothing else (`str::parse::<IpAddr>`). -/
def parseIp (s : List Char) : Option IpAddr :=
  match readIpv4 s with
  | some ((a, b, c, d), rest) =>
    if rest.isEmpty then
      some (.v4 (UInt8.ofNat a) (UInt8.ofNat b) (UInt8.ofNat c) (UInt8.ofNat d))
    else none
  | none => (parseIpv6 s).map .v6

def unbracket (host : String) : String :=
  match host.toList with
  | '[' :: rest => if rest.getLast? = some ']' then String.ofList rest.dropLast else host
  | _ => host

/-- The inside of an IPv6 literal, with an optional zone. -/
def ipv6Literal (inner : List Char) : Option (Ipv6Addr × Option (List Char)) :=
  match splitOnceAt ['%'] inner with
  | none => (parseIpv6 inner).map (·, none)
  | some (addr, z) =>
    let z := match z with
      | '2' :: '5' :: rest => if rest.isEmpty then z else rest
      | _ => z
    if z.isEmpty || !z.all Url.isZoneChar then none else (parseIpv6 addr).map (·, some z)

/-- The address of a host that is a literal, bracketed or not. The scope of an IPv6 address is left
out. -/
def ipLiteralAddr (host : String) : Option IpAddr :=
  let h := (unbracket host).toList
  match parseIp h with
  | some ip => some ip
  | none =>
    match ipv6Literal h with
    | none => none
    | some (ip, none) => some (.v6 ip)
    | some (ip, some zone) =>
      if (parseUnsigned 0xffffffff (String.ofList zone)).isSome then some (.v6 ip) else none

/-- `host:port`, with the brackets of a bare IPv6 literal. -/
def authority (host : String) (port : Nat) : String :=
  if host.toList.contains ':' && !startsWith "[" host then s!"[{host}]:{port}" else s!"{host}:{port}"

/-! ## Fields of a URL -/

/-- `%XX` is a byte; a `%` without two hexadecimal digits stands for itself. -/
def percentDecodeBytes : Bytes → Bytes
  | 0x25 :: h :: l :: rest =>
    if isAsciiHexdigit h && isAsciiHexdigit l then
      UInt8.ofNat (hexValue h * 16 + hexValue l) :: percentDecodeBytes rest
    else 0x25 :: percentDecodeBytes (h :: l :: rest)
  | b :: rest => b :: percentDecodeBytes rest
  | [] => []

def percentDecode (s : String) : String := fromUtf8Lossy (percentDecodeBytes (asBytes s))

def isControl (b : UInt8) : Bool := b < 0x20 || b == 0x7f

/-- A byte that could end a command early. -/
def firstControlByte (s : String) : Option UInt8 := (asBytes s).find? isControl

def hexByte (b : UInt8) : String :=
  String.ofList ['0', 'x', Nat.digitChar (b.toNat / 16), Nat.digitChar (b.toNat % 16)]

def rejectCtl (proto what s : String) : Except Error Unit :=
  match firstControlByte s with
  | some b => .error (.badResponse s!"{proto}: {what} contains illegal control byte {hexByte b}")
  | none => .ok ()

end Rsurl.Net
