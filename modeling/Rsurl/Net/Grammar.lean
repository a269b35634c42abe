import Rsurl.Library.Delimited
import Rsurl.Net.Proxy

/-!
# The grammars of the requests

How a proxy reads what the client sends it: strings up to a zero byte for SOCKS4, strings after their
length for SOCKS5, a request line and field lines for `CONNECT`. A reader gives what it has read and
what is left.
-/

namespace Rsurl.Net

open Library Text
open Library.Delimited (upTo)
open Library.Endian (fromBe)

/-! ## SOCKS4 -/

structure Socks4Ask where
  command : UInt8
  port : Nat
  address : Bytes
  userid : Bytes
  hostname : Option Bytes
  deriving DecidableEq, Repr

/-- `0.0.0.x` stands for a name that follows, unless `x` is zero. -/
def announcesName (address : Bytes) : Bool :=
  match address with
  | [0, 0, 0, x] => x != 0
  | _ => false

def readSocks4 : Bytes → Option (Socks4Ask × Bytes)
  | version :: command :: p₁ :: p₂ :: a :: b :: c :: d :: rest => do
    if version ≠ 0x04 then none
    let (userid, rest) ← upTo 0 rest
    if announcesName [a, b, c, d] then
      let (hostname, rest) ← upTo 0 rest
      return (⟨command, fromBe [p₁, p₂], [a, b, c, d], userid, some hostname⟩, rest)
    else return (⟨command, fromBe [p₁, p₂], [a, b, c, d], userid, none⟩, rest)
  | _ => none

/-! ## SOCKS5 -/

/-- So many bytes. -/
def takeExact (n : Nat) (b : Bytes) : Option (Bytes × Bytes) :=
  if b.length < n then none else some (b.take n, b.drop n)

def readCounted : Bytes → Option (Bytes × Bytes)
  | [] => none
  | n :: rest => takeExact n.toNat rest

/-- The methods that are offered. -/
def readGreeting : Bytes → Option (Bytes × Bytes)
  | version :: rest => if version = 0x05 then readCounted rest else none
  | [] => none

def readAuth : Bytes → Option ((Bytes × Bytes) × Bytes)
  | version :: rest => do
    if version ≠ 0x01 then none
    let (user, rest) ← readCounted rest
    let (pass, rest) ← readCounted rest
    return ((user, pass), rest)
  | [] => none

inductive Target where
  | address (octets : Bytes)
  | name (name : Bytes)
  deriving DecidableEq, Repr

def readTarget : Bytes → Option (Target × Bytes)
  | 0x01 :: rest => (takeExact 4 rest).map fun (octets, rest) => (.address octets, rest)
  | 0x03 :: rest => (readCounted rest).map fun (name, rest) => (.name name, rest)
  | 0x04 :: rest => (takeExact 16 rest).map fun (octets, rest) => (.address octets, rest)
  | _ => none

structure Socks5Message where
  code : UInt8
  target : Target
  port : Nat
  deriving DecidableEq, Repr

/-- A request or a reply. -/
def readMessage : Bytes → Option (Socks5Message × Bytes)
  | version :: code :: _reserved :: rest => do
    if version ≠ 0x05 then none
    let (target, rest) ← readTarget rest
    let (port, rest) ← takeExact 2 rest
    return (⟨code, target, fromBe port⟩, rest)
  | _ => none

/-! ## CONNECT -/

/-- Neither a space nor a control character. -/
def isVisible (b : UInt8) : Bool := 0x20 < b && b != 0x7f

/-- A line that ends in CRLF. -/
def readCrlf (b : Bytes) : Option (Bytes × Bytes) :=
  match upTo 0x0d b with
  | some (line, 0x0a :: rest) => some (line, rest)
  | _ => none

def readNumber (digits : Bytes) : Option Nat :=
  if digits.isEmpty || !digits.all isAsciiDigit then none
  else some (digits.foldl (fun acc b => acc * 10 + (b.toNat - 0x30)) 0)

/-- `host:port`; an address in brackets is without them. -/
def readAuthority : Bytes → Option (Bytes × Nat)
  | 0x5b :: rest => match upTo 0x5d rest with
    | some (host, 0x3a :: port) => (readNumber port).map (host, ·)
    | _ => none
  | b => match upTo 0x3a b with
    | some (host, port) => (readNumber port).map (host, ·)
    | none => none

def isBlank (b : UInt8) : Bool := b == 0x20 || b == 0x09

def trimBlanks (b : Bytes) : Bytes := (b.dropWhile isBlank).rdropWhile isBlank

/-- Field lines up to the empty line, in at most so many. -/
def readFields : Nat → Bytes → Option (List (Bytes × Bytes) × Bytes)
  | 0, _ => none
  | left + 1, b => do
    let (line, rest) ← readCrlf b
    if line.isEmpty then return ([], rest)
    let (name, value) ← upTo 0x3a line
    let (fields, rest) ← readFields left rest
    return ((name, trimBlanks value) :: fields, rest)

structure ConnectAsk where
  host : Bytes
  port : Nat
  fields : List (Bytes × Bytes)
  deriving DecidableEq, Repr

def readConnect (b : Bytes) : Option (ConnectAsk × Bytes) := do
  let (line, rest) ← readCrlf b
  let (method, line) ← upTo 0x20 line
  let (target, version) ← upTo 0x20 line
  if method ≠ asBytes "CONNECT" ∨ version ≠ asBytes "HTTP/1.1" ∨ !target.all isVisible then none
  let (host, port) ← readAuthority target
  let (fields, rest) ← readFields b.length rest
  return (⟨host, port, fields⟩, rest)

/-- The number that a base64 character stands for. -/
def base64Value (c : UInt8) : Option Nat :=
  if 0x41 ≤ c && c ≤ 0x5a then some (c.toNat - 0x41)
  else if 0x61 ≤ c && c ≤ 0x7a then some (c.toNat - 0x61 + 26)
  else if 0x30 ≤ c && c ≤ 0x39 then some (c.toNat - 0x30 + 52)
  else if c = 0x2b then some 62
  else if c = 0x2f then some 63
  else none

def base64Decode : Bytes → Option Bytes
  | [] => some []
  | a :: b :: c :: d :: rest => do
    let x ← base64Value a
    let y ← base64Value b
    if d = 0x3d ∧ rest = [] then
      if c = 0x3d then return [UInt8.ofNat (x * 4 + y / 16)]
      let z ← base64Value c
      return [UInt8.ofNat (x * 4 + y / 16), UInt8.ofNat (y % 16 * 16 + z / 4)]
    let z ← base64Value c
    let u ← base64Value d
    let bytes ← base64Decode rest
    return UInt8.ofNat (x * 4 + y / 16) :: UInt8.ofNat (y % 16 * 16 + z / 4) ::
      UInt8.ofNat (z % 4 * 64 + u) :: bytes
  | _ => none

/-- The user and the password of `Basic` credentials. -/
def readBasic (value : Bytes) : Option (Bytes × Bytes) := do
  let (scheme, token) ← upTo 0x20 value
  if scheme ≠ asBytes "Basic" then none
  upTo 0x3a (← base64Decode token)

/-! ## Replies -/

/-- The lines of a header block, each with its line feed, and the blank line at the end. -/
structure HeaderBlock (block : Bytes) : Prop where
  lines : ∃ (lines : List Bytes) (last : Bytes), block = lines.flatMap (· ++ [0x0a]) ++ last ++ [0x0a] ∧
    (∀ line ∈ lines, 0x0a ∉ line ∧ stripCr line ≠ []) ∧ 0x0a ∉ last ∧ stripCr last = []

end Rsurl.Net
