import Rsurl.Ldap.Ber

/-!
# Search filters

The string form of a filter is parsed by recursive descent: the description of an item is read up to
its operator, its value up to the closing parenthesis. The encoder nests what it writes.
-/

namespace Rsurl.Ldap

open Library Text
open Library.Loop (Turn)

inductive Filter where
  | and (items : List Filter)
  | or (items : List Filter)
  | not (inner : Filter)
  | equalityMatch (attr : String) (value : Bytes)
  | greaterOrEqual (attr : String) (value : Bytes)
  | lessOrEqual (attr : String) (value : Bytes)
  | approxMatch (attr : String) (value : Bytes)
  | substrings (attr : String) (initial : Option Bytes) (any : List Bytes) (final : Option Bytes)
  | present (attr : String)
  | extensibleMatch (matchingRule attrType : Option String) (matchValue : Bytes)
    (dnAttributes : Bool)
  deriving Repr

/-! ## Values -/

def hexVal (b : UInt8) : Option UInt8 :=
  if isAsciiHexdigit b then some (UInt8.ofNat (hexValue b)) else none

def unescapeValue : Bytes → Except Error Bytes
  | 0x5c :: h :: l :: rest => match hexVal h, hexVal l with
    | some h, some l => (unescapeValue rest).map ((h <<< 4 ||| l) :: ·)
    | _, _ => .error (.badResponse "filter: bad escape (expected \\XX hex pair)")
  | 0x5c :: _ => .error (.badResponse "filter: bad escape (expected \\XX hex pair)")
  | b :: rest => (unescapeValue rest).map (b :: ·)
  | [] => .ok []

def rejectCtl (s what : String) : Except Error Unit := Net.rejectCtl "ldap" what s

/-- The `Debug` rendering of a byte as a character. -/
def dbgByte (b : UInt8) : String :=
  let c := Char.ofNat b.toNat
  let mark := String.ofList [Char.ofNat 0x27]
  mark ++ (if b = 0x27 then "\\" ++ mark else if c = '"' then "\"" else dbgChar c) ++ mark

def expect (c : UInt8) : Bytes → Except Error Bytes
  | x :: rest =>
    if x = c then .ok rest
    else .error (.badResponse s!"filter: expected {dbgByte c}, got {dbgByte x}")
  | [] => .error (.badResponse s!"filter: expected {dbgByte c}, got EOF")

/-- Up to the closing parenthesis. -/
def readValue (s : Bytes) : Except Error (String × Bytes) :=
  let raw := s.takeWhile (· ≠ 0x29)
  match fromUtf8 raw with
  | some v => .ok (v, s.drop raw.length)
  | none => .error (.badResponse "filter: non-utf8 value")

/-! ## Items -/

structure Segments where
  initial : Option Bytes
  any : List Bytes
  final : Option Bytes

/-- The segments from the `i`-th on; the `last`-th has no asterisk behind it. -/
def addSegments (last : Nat) : Nat → List String → Segments → Except Error Segments
  | _, [], acc => .ok acc
  | i, seg :: rest, acc =>
    if seg = "" then addSegments last (i + 1) rest acc
    else do
      rejectCtl seg "filter substring segment"
      let v ← unescapeValue (asBytes seg)
      addSegments last (i + 1) rest
        (if i = 0 then { acc with initial := some v }
        else if i = last then { acc with final := some v }
        else { acc with any := acc.any ++ [v] })

/-- The tokens behind the attribute: a `dn` marker and a matching rule. -/
def addTokens : List String → Bool × Option String → Except Error (Bool × Option String)
  | [], acc => .ok acc
  | tok :: rest, (dn, rule) =>
    if tok = "dn" then
      if dn then .error (.badResponse "filter: duplicate 'dn' in extensible match")
      else addTokens rest (true, rule)
    else if tok = "" then .error (.badResponse "filter: empty token in extensible match")
    else if rule.isSome then
      .error (.badResponse "filter: multiple matching rules in extensible match")
    else addTokens rest (dn, some tok)

def checkField (what : String) : Option String → Except Error Unit
  | some s => rejectCtl s what
  | none => .ok ()

/-- `desc` without the colon of the operator, split at its colons. -/
def extensibleTokens (desc : String) : Option (List String) :=
  if desc.toList.getLast? = some ':' then some (split ':' (String.ofList desc.toList.dropLast))
  else none

def parseExtensible (desc : String) (s : Bytes) : Except Error (Filter × Bytes) :=
  match extensibleTokens desc with
  | none => .error (.badResponse "filter: malformed extensible match (expected ':=')")
  | some tokens => do
    let attrType := tokens.head?.filter (· ≠ "")
    let (dnAttributes, matchingRule) ← addTokens tokens.tail (false, none)
    if attrType.isNone ∧ matchingRule.isNone then
      .error (.badResponse "filter: extensible match needs an attribute or matching rule")
    else do
      let (raw, s) ← readValue s
      rejectCtl raw "filter extensible match value"
      let matchValue ← unescapeValue (asBytes raw)
      checkField "filter extensible match attribute" attrType
      checkField "filter extensible match rule" matchingRule
      .ok (.extensibleMatch matchingRule attrType matchValue dnAttributes, s)

/-- What an `=` is followed by, if no colon comes before it. -/
def parseEquality (attr : String) (s : Bytes) : Except Error (Filter × Bytes) := do
  let (raw, s) ← readValue s
  if raw = "*" then .ok (.present attr, s)
  else if '*' ∈ raw.toList then do
    let segs ← addSegments (raw.toList.count '*') 0 (split '*' raw) ⟨none, [], none⟩
    .ok (.substrings attr segs.initial segs.any segs.final, s)
  else do
    rejectCtl raw "filter value"
    let value ← unescapeValue (asBytes raw)
    .ok (.equalityMatch attr value, s)

def parseOrdering (op : UInt8) (attr : String) (s : Bytes) : Except Error (Filter × Bytes) := do
  let s ← expect 0x3d s
  if attr = "" ∨ ':' ∈ attr.toList then .error (.badResponse "filter: bad attribute")
  else do
    let (raw, s) ← readValue s
    rejectCtl raw "filter value"
    let value ← unescapeValue (asBytes raw)
    .ok (if op = 0x3e then .greaterOrEqual attr value
      else if op = 0x3c then .lessOrEqual attr value
      else .approxMatch attr value, s)

def isOrdering (b : UInt8) : Bool := b == 0x7e || b == 0x3c || b == 0x3e

def parseSimple (s : Bytes) : Except Error (Filter × Bytes) :=
  let bytes := s.takeWhile fun c => c ≠ 0x3d && c ≠ 0x29 && !isOrdering c
  let rest := s.drop bytes.length
  match fromUtf8 bytes with
  | none => .error (.badResponse "filter: non-utf8 attr")
  | some desc => match rest.head?.filter isOrdering with
    | some op => parseOrdering op desc rest.tail
    | none => do
      let rest ← expect 0x3d rest
      if ':' ∈ desc.toList then parseExtensible desc rest else parseEquality desc rest

/-! ## Groups -/

def maxFilterDepth : Nat := 64

/-- Another item of a list, if there is one. -/
def listTurn (item : Bytes → Checked Error (Filter × Bytes)) (st : List Filter × Bytes) :
    Checked Error (Turn (List Filter × Bytes) (List Filter × Bytes)) :=
  if st.2.head? = some 0x28 then do
    let (f, rest) ← item st.2
    .ok (.next (st.1 ++ [f], rest))
  else if st.1.isEmpty then .error (.badResponse "filter: empty list")
  else .ok (.done st)

def parseList (item : Bytes → Checked Error (Filter × Bytes)) (s : Bytes) :
    Checked Error (List Filter × Bytes) :=
  Checked.loop (fun st => st.2.length) (listTurn item) ([], s)

/-- What is between the parentheses. -/
def parseComp (inner : Bytes → Checked Error (Filter × Bytes)) :
    Bytes → Checked Error (Filter × Bytes)
  | 0x26 :: s => do
    let (items, s) ← parseList inner s
    .ok (.and items, s)
  | 0x7c :: s => do
    let (items, s) ← parseList inner s
    .ok (.or items, s)
  | 0x21 :: s => do
    let (f, s) ← inner s
    .ok (.not f, s)
  | [] => .error (.badResponse "filter: empty filter")
  | s => .ofExcept (parseSimple s)

/-- `parse` with `left` levels of nesting left. -/
def parse : Nat → Bytes → Checked Error (Filter × Bytes)
  | 0, _ => .error (.badResponse "ldap: filter nesting too deep")
  | left + 1, s => do
    let s ← .ofExcept (expect 0x28 s)
    let (f, s) ← parseComp (parse left) s
    let s ← .ofExcept (expect 0x29 s)
    .ok (f, s)

def parseFilter (s : String) : Checked Error Filter := do
  let (f, rest) ← parse (maxFilterDepth + 1) (asBytes s)
  if rest ≠ [] then .error (.badResponse "filter: trailing garbage") else .ok f

/-! ## Encoding -/

/-- A field that is written if it is there. -/
def writeOptional (out : Bytes) (tag : UInt8) : Option Bytes → Bytes
  | some value => writeTlv out tag value
  | none => out

def writeAssertion (out : Bytes) (n : UInt8) (attr : String) (value : Bytes) : Bytes :=
  writeConstructed out (Tag.ctx n true) fun w =>
    writeOctetString (writeOctetString w (asBytes attr)) value

mutual

def encodeFilter (out : Bytes) : Filter → Bytes
  | .and items => writeConstructed out (Tag.ctx 0 true) fun w => encodeAll w items
  | .or items => writeConstructed out (Tag.ctx 1 true) fun w => encodeAll w items
  | .not inner => writeConstructed out (Tag.ctx 2 true) fun w => encodeFilter w inner
  | .equalityMatch attr value => writeAssertion out 3 attr value
  | .greaterOrEqual attr value => writeAssertion out 5 attr value
  | .lessOrEqual attr value => writeAssertion out 6 attr value
  | .approxMatch attr value => writeAssertion out 8 attr value
  | .substrings attr initial any final =>
    writeConstructed out (Tag.ctx 4 true) fun w =>
      writeConstructed (writeOctetString w (asBytes attr)) Tag.sequence fun subs =>
        let subs := writeOptional subs (Tag.ctx 0 false) initial
        let subs := any.foldl (fun subs s => writeTlv subs (Tag.ctx 1 false) s) subs
        writeOptional subs (Tag.ctx 2 false) final
  | .present attr => writeTlv out (Tag.ctx 7 false) (asBytes attr)
  | .extensibleMatch matchingRule attrType matchValue dnAttributes =>
    writeConstructed out (Tag.ctx 9 true) fun w =>
      let w := writeOptional w (Tag.ctx 1 false) (matchingRule.map asBytes)
      let w := writeOptional w (Tag.ctx 2 false) (attrType.map asBytes)
      let w := writeTlv w (Tag.ctx 3 false) matchValue
      if dnAttributes then writeTlv w (Tag.ctx 4 false) [0xff] else w

/-- One item after another. -/
def encodeAll (out : Bytes) : List Filter → Bytes
  | [] => out
  | it :: items => encodeAll (encodeFilter out it) items

end

end Rsurl.Ldap
