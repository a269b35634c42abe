import Rsurl.Cli.Userinfo
import Rsurl.Http.Digest.Params
import Rsurl.Library.Delimited
import Rsurl.Slice

/-!
# Forms of several parts

The parts of a form are written between delimiters, with their names and file names as quoted
attributes, and are read back from there (RFC 2046, RFC 7578). Escaped as percents, an attribute is
read back only if it is ASCII.
-/

namespace Rsurl.Cli.Multipart

open Text Net Library Library.Delimited
open Http.Digest (byte_ne_of_char_ne)

inductive FormBody where
  | literal (s : String)
  | file (path : String)
  | fileAsField (path : String)
  | literalStrict (s : String)

inductive FormExtra where
  | type (t : String)
  | filename (f : String)
  | headersFile (path : String)
  deriving DecidableEq

structure FormPart where
  name : String
  body : FormBody
  extras : List FormExtra

/-- The files there are, with the text of the error for one that cannot be read. -/
structure Files where
  read : String → Except String Bytes
  stdin : Bytes

def readLocal (fs : Files) (path : String) : Except String Bytes :=
  if path = "-" then .ok fs.stdin else fs.read path

/-- The last component of a path (`Path::file_name`). -/
def fileName (path : String) : Option String :=
  match ((path.toList.splitOn '/').filter fun c => c ≠ [] && c ≠ ['.']).getLast? with
  | some name => if name = ['.', '.'] then none else some (String.ofList name)
  | none => none

def crlf : Bytes := [0x0d, 0x0a]

/-! ## Writing -/

def encodeAttr (s : String) (escape : Bool) : String :=
  if escape then String.ofList ((asBytes s).flatMap fun b =>
    if b = 0x0d then "%0D".toList
    else if b = 0x0a then "%0A".toList
    else if b = 0x22 then "%22".toList
    else if b = 0x5c then "%5C".toList
    else [Char.ofNat b.toNat])
  else String.ofList (s.toList.flatMap fun c =>
    if c = '"' then "\\\"".toList else if c = '\\' then "\\\\".toList else [c])

/-- The bytes of a part, the file name it has of itself, and whether it is an upload. -/
def content (fs : Files) (part : FormPart) : Except String (Bytes × Option String × Bool) :=
  let bytes (path : String) := (readLocal fs path).mapError fun e =>
    s!"-F: can't read {dbgStr path}: {e}"
  match part.body with
  | .literal s | .literalStrict s => .ok (asBytes s, none, false)
  | .file path => (bytes path).map (·, some ((fileName path).getD path), true)
  | .fileAsField path => (bytes path).map (·, none, false)

/-- What the modifiers set. -/
structure Overrides where
  ctype : Option String
  filename : Option String
  extraHeaders : Bytes
  promoteToUpload : Bool

/-- The lines of a file of headers. -/
def headerLines (raw : Bytes) : Bytes :=
  (raw.splitOn 0x0a).flatMap fun line =>
    let l := if line.getLast? = some 0x0d then line.dropLast else line
    if l = [] then [] else l ++ crlf

def override (fs : Files) (o : Overrides) : FormExtra → Except String Overrides
  | .type t => .ok { o with ctype := some t }
  | .filename f => .ok { o with filename := some f, promoteToUpload := true }
  | .headersFile path => do
    let raw ← (fs.read path).mapError fun e => s!"-F: can't read headers file {dbgStr path}: {e}"
    return { o with extraHeaders := o.extraHeaders ++ headerLines raw }

def writePart (fs : Files) (part : FormPart) (escape : Bool) : Except String Bytes := do
  let (bytes, defaultFilename, isUpload) ← content fs part
  let o ← part.extras.foldlM (override fs) ⟨none, defaultFilename, [], isUpload⟩
  let disposition := asBytes "Content-Disposition: form-data; name=\"" ++
    asBytes (encodeAttr part.name escape) ++ asBytes "\""
  let filename := match o.filename with
    | some fname => asBytes "; filename=\"" ++ asBytes (encodeAttr fname escape) ++ asBytes "\""
    | none => []
  let ctype := match o.ctype with
    | some t => asBytes "Content-Type: " ++ asBytes t ++ crlf
    | none =>
      if o.promoteToUpload then asBytes "Content-Type: application/octet-stream\r\n" else []
  return disposition ++ filename ++ crlf ++ ctype ++ o.extraHeaders ++ crlf ++ bytes

/-- `buf` is what is random about it. -/
def makeBoundary (buf : Bytes) : String :=
  "----rsurl-boundary-" ++ String.ofList (buf.flatMap fun b =>
    [Nat.digitChar (b.toNat / 16), Nat.digitChar (b.toNat % 16)])

def build (fs : Files) (buf : Bytes) (parts : List FormPart) (escape : Bool) :
    Except String (String × Bytes) := do
  let boundary := makeBoundary buf
  let out ← parts.foldlM (fun out part => do
    let written ← writePart fs part escape
    return out ++ asBytes "--" ++ asBytes boundary ++ crlf ++ written ++ crlf) []
  return (boundary, out ++ asBytes "--" ++ asBytes boundary ++ asBytes "--\r\n")

/-! ## Reading -/

theorem crlf_ne_nil : crlf ≠ [] := List.cons_ne_nil _ _

/-- The header lines up to the empty one, and what follows it. -/
def readHeaders (b : Bytes) : Option (List Bytes × Bytes) :=
  match h : cutAt crlf b with
  | none => none
  | some (line, rest) =>
    if line = [] then some ([], rest)
    else (readHeaders rest).map fun (lines, body) => (line :: lines, body)
termination_by b.length
decreasing_by exact length_cutAt crlf_ne_nil h

/-- A section: its header lines, and what follows the empty line. -/
structure Section where
  headers : List Bytes
  body : Bytes
  deriving DecidableEq, Repr

theorem length_readHeaders {b body : Bytes} {lines : List Bytes}
    (h : readHeaders b = some (lines, body)) : body.length < b.length := by
  fun_induction readHeaders b generalizing lines with
  | case1 => cases h
  | case2 b rest hcut =>
    cases h
    exact length_cutAt crlf_ne_nil hcut
  | case3 b line rest hcut hline ih =>
    obtain ⟨⟨lines, body⟩, hrest, heq⟩ := Option.map_eq_some_iff.mp h
    cases heq
    exact (ih hrest).trans (length_cutAt crlf_ne_nil hcut)

/-- The sections behind a delimiter, the last of them before the delimiter that closes. -/
def sectionsAfter (delimiter : Bytes) (b : Bytes) : Option (List Section) :=
  if asBytes "--" <+: b then some []
  else if crlf <+: b then
    match hh : readHeaders (b.drop 2) with
    | none => none
    | some (headers, rest) => match hc : cutAt (crlf ++ delimiter) rest with
      | none => none
      | some (body, after) => (sectionsAfter delimiter after).map (⟨headers, body⟩ :: ·)
  else none
termination_by b.length
decreasing_by
  have hlt := length_readHeaders hh
  have hlt' := length_cutAt (List.append_ne_nil_of_left_ne_nil crlf_ne_nil _) hc
  rw [List.length_drop] at hlt
  omega

/-- The sections of a body. -/
def sections (boundary : String) (b : Bytes) : Option (List Section) :=
  let delimiter := asBytes "--" ++ asBytes boundary
  if delimiter <+: b then sectionsAfter delimiter (b.drop delimiter.length) else none

/-- A part of a form, as it is received. -/
structure Part where
  name : Bytes
  filename : Option Bytes
  contentType : Option Bytes
  body : Bytes
  deriving DecidableEq, Repr

def strip (start b : Bytes) : Option Bytes :=
  if start <+: b then some (b.drop start.length) else none

/-- An attribute behind its first quote, and what follows it. -/
def readAttr (escape : Bool) (b : Bytes) : Option (Bytes × Bytes) :=
  if escape then (upTo 0x22 b).map fun (v, rest) => (percentDecodeBytes v, rest)
  else unescapeTo 0x22 0x5c b

def readDisposition (escape : Bool) (line : Bytes) : Option (Bytes × Option Bytes) := do
  let b ← strip (asBytes "Content-Disposition: form-data; name=\"") line
  let (name, rest) ← readAttr escape b
  if rest = [] then return (name, none)
  else
    let b ← strip (asBytes "; filename=\"") rest
    let (filename, rest) ← readAttr escape b
    if rest = [] then return (name, some filename) else none

def readPart (escape : Bool) (s : Section) : Option Part :=
  match s.headers with
  | [disposition] => do
    let (name, filename) ← readDisposition escape disposition
    return ⟨name, filename, none, s.body⟩
  | [disposition, ctype] => do
    let (name, filename) ← readDisposition escape disposition
    let t ← strip (asBytes "Content-Type: ") ctype
    return ⟨name, filename, some t, s.body⟩
  | _ => none

/-- The parts of a body, with the escapes of their attributes undone. -/
def decode (escape : Bool) (boundary : String) (b : Bytes) : Option (List Part) := do
  (← sections boundary b).mapM (readPart escape)

/-! ## Attributes -/

variable {v rest : Bytes}

/-- A byte of an attribute that is escaped with percents. -/
def encodeByte (b : UInt8) : Bytes :=
  if b = 0x0d then [0x25, 0x30, 0x44]
  else if b = 0x0a then [0x25, 0x30, 0x41]
  else if b = 0x22 then [0x25, 0x32, 0x32]
  else if b = 0x5c then [0x25, 0x35, 0x43]
  else String.utf8EncodeChar (Char.ofNat b.toNat)

/-- What becomes of it: a byte beyond ASCII is written as a character. -/
def receivedByte (b : UInt8) : Bytes :=
  if b < 0x80 then [b] else String.utf8EncodeChar (Char.ofNat b.toNat)

def encodeBytes (escape : Bool) (v : Bytes) : Bytes :=
  if escape then v.flatMap encodeByte else Delimited.escape 0x22 0x5c v

def received (escape : Bool) (v : Bytes) : Bytes := if escape then v.flatMap receivedByte else v

theorem toNat_ofNat_byte (b : UInt8) : (Char.ofNat b.toNat).toNat = b.toNat := by
  have hb := b.toNat_lt
  rw [Char.toNat_ofNat, if_pos (.inl (by omega))]

theorem utf8EncodeChar_low {b : UInt8} (h : b < 0x80) :
    String.utf8EncodeChar (Char.ofNat b.toNat) = [b] := by
  have hb : (Char.ofNat b.toNat).toNat < 0x80 := by
    rw [toNat_ofNat_byte]
    exact UInt8.lt_iff_toNat_lt.mp h
  rw [utf8EncodeChar_ascii hb, toNat_ofNat_byte, UInt8.ofNat_toNat]

/-- Bytes that are not ASCII, for a byte that is not. -/
theorem le_of_mem_utf8EncodeChar_high {b c : UInt8} (h : ¬b < 0x80)
    (hc : c ∈ String.utf8EncodeChar (Char.ofNat b.toNat)) : 0x80 ≤ c := by
  refine le_of_mem_utf8EncodeChar ?_ hc
  rw [toNat_ofNat_byte]
  exact UInt8.le_iff_toNat_le.mp (UInt8.not_lt.mp h)

theorem asBytes_encodeAttr (s : String) (escape : Bool) :
    asBytes (encodeAttr s escape) = encodeBytes escape (asBytes s) := by
  unfold encodeAttr encodeBytes
  cases escape with
  | true =>
    rw [if_pos rfl, if_pos rfl, asBytes_ofList, List.flatMap_assoc]
    refine List.flatMap_congr fun b _ => ?_
    unfold encodeByte
    split_ifs
    · rfl
    · rfl
    · rfl
    · rfl
    · exact List.flatMap_singleton _ _
  | false =>
    rw [if_neg (by decide), if_neg (by decide), asBytes_ofList, asBytes_eq_flatMap,
      Delimited.escape, List.flatMap_assoc, List.flatMap_assoc]
    refine List.flatMap_congr fun c _ => ?_
    split_ifs with hquote hback
    · rw [hquote]
      rfl
    · rw [hback]
      rfl
    · have hplain (b : UInt8) (hb : b ∈ String.utf8EncodeChar c) :
          (if b = 0x22 ∨ b = 0x5c then [0x5c, b] else [b]) = [b] := by
        refine if_neg (not_or.mpr ⟨?_, ?_⟩)
        · exact byte_ne_of_char_ne (d := '"') (by decide) hquote hb
        · exact byte_ne_of_char_ne (d := '\\') (by decide) hback hb
      rw [List.flatMap_congr hplain, List.flatMap_singleton, List.flatMap_singleton']

theorem percentDecodeBytes_plain (h : 0x25 ∉ v) (rest : Bytes) :
    percentDecodeBytes (v ++ rest) = v ++ percentDecodeBytes rest := by
  induction v with
  | nil => rfl
  | cons b v ih =>
    obtain ⟨hb, hv⟩ := List.ne_and_not_mem_of_not_mem_cons h
    rw [List.cons_append, percentDecodeBytes_cons hb.symm, ih hv, List.cons_append]

/-- The bytes that are neither a line end nor a quote nor a backslash are written as they are, but
for those beyond ASCII. -/
theorem encodeByte_plain {b : UInt8} (hr : b ≠ 0x0d) (hn : b ≠ 0x0a) (hq : b ≠ 0x22)
    (hb : b ≠ 0x5c) : encodeByte b = receivedByte b := by
  unfold encodeByte receivedByte
  rw [if_neg hr, if_neg hn, if_neg hq, if_neg hb]
  split
  · exact utf8EncodeChar_low ‹_›
  · rfl

/-- An ASCII byte is received as itself, the others as none. -/
theorem mem_receivedByte {b d : UInt8} (hd : d < 0x80) : d ∈ receivedByte b ↔ d = b := by
  unfold receivedByte
  split
  · exact List.mem_singleton
  · rename_i hb
    refine iff_of_false (fun hin => ?_) fun heq => hb (heq ▸ hd)
    exact UInt8.not_lt.mpr (le_of_mem_utf8EncodeChar_high hb hin) hd

theorem percentDecodeBytes_encodeByte {b : UInt8} (h : b ≠ 0x25) (rest : Bytes) :
    percentDecodeBytes (encodeByte b ++ rest) = receivedByte b ++ percentDecodeBytes rest := by
  by_cases hr : b = 0x0d
  · subst hr
    exact percentDecodeBytes.eq_1 _ _ _
  by_cases hn : b = 0x0a
  · subst hn
    exact percentDecodeBytes.eq_1 _ _ _
  by_cases hq : b = 0x22
  · subst hq
    exact percentDecodeBytes.eq_1 _ _ _
  by_cases hb : b = 0x5c
  · subst hb
    exact percentDecodeBytes.eq_1 _ _ _
  rw [encodeByte_plain hr hn hq hb]
  exact percentDecodeBytes_plain (fun hin => h ((mem_receivedByte (by decide)).mp hin).symm) rest

theorem not_mem_encodeByte {b d : UInt8} (hd : d = 0x22 ∨ d = 0x0d) : d ∉ encodeByte b := by
  have hlow : d < 0x80 := by rcases hd with rfl | rfl <;> decide
  by_cases hr : b = 0x0d
  · subst hr
    rcases hd with rfl | rfl <;> decide
  by_cases hn : b = 0x0a
  · subst hn
    rcases hd with rfl | rfl <;> decide
  by_cases hq : b = 0x22
  · subst hq
    rcases hd with rfl | rfl <;> decide
  by_cases hb : b = 0x5c
  · subst hb
    rcases hd with rfl | rfl <;> decide
  rw [encodeByte_plain hr hn hq hb, mem_receivedByte hlow]
  rintro rfl
  rcases hd with rfl | rfl
  · exact hq rfl
  · exact hr rfl

theorem percentDecodeBytes_encode (h : 0x25 ∉ v) :
    percentDecodeBytes (v.flatMap encodeByte) = v.flatMap receivedByte := by
  induction v with
  | nil => rfl
  | cons b v ih =>
    obtain ⟨hb, hv⟩ := List.ne_and_not_mem_of_not_mem_cons h
    rw [List.flatMap_cons, percentDecodeBytes_encodeByte hb.symm, ih hv, List.flatMap_cons]

/-- An attribute is read up to its quote. -/
theorem readAttr_encode {escape : Bool} (h : escape = true → 0x25 ∉ v) (rest : Bytes) :
    readAttr escape (encodeBytes escape v ++ 0x22 :: rest) = some (received escape v, rest) := by
  unfold readAttr encodeBytes received
  cases escape with
  | true =>
    have hquote : 0x22 ∉ v.flatMap encodeByte := by
      intro hin
      obtain ⟨b, -, hb⟩ := List.mem_flatMap.mp hin
      exact not_mem_encodeByte (.inl rfl) hb
    rw [if_pos rfl, if_pos rfl, if_pos rfl, upTo_append hquote, Option.map_some]
    dsimp only
    rw [percentDecodeBytes_encode (h rfl)]
  | false => exact unescapeTo_escape (by decide) v rest

theorem return_not_mem_encode {escape : Bool} (h : 0x0d ∉ v) : 0x0d ∉ encodeBytes escape v := by
  unfold encodeBytes
  cases escape with
  | true =>
    rw [if_pos rfl]
    intro hin
    obtain ⟨b, -, hb⟩ := List.mem_flatMap.mp hin
    exact not_mem_encodeByte (.inr rfl) hb
  | false =>
    rw [if_neg (by decide)]
    intro hin
    obtain ⟨b, hb, hin⟩ := List.mem_flatMap.mp hin
    split at hin
    · rcases List.mem_cons.mp hin with heq | hin
      · exact absurd heq (by decide)
      · exact h (List.mem_singleton.mp hin ▸ hb)
    · exact h (List.mem_singleton.mp hin ▸ hb)

theorem length_receivedByte (b : UInt8) :
    (receivedByte b).length = if b < 0x80 then 1 else 2 := by
  unfold receivedByte
  split
  · rfl
  · rename_i hb
    have hlow : ¬(Char.ofNat b.toNat).val.toNat ≤ 0x7f := by
      show ¬(Char.ofNat b.toNat).toNat ≤ 0x7f
      rw [toNat_ofNat_byte]
      have hle := UInt8.le_iff_toNat_le.mp (UInt8.not_lt.mp hb)
      simp at hle
      omega
    have hhigh : (Char.ofNat b.toNat).val.toNat ≤ 0x7ff := by
      show (Char.ofNat b.toNat).toNat ≤ 0x7ff
      rw [toNat_ofNat_byte]
      have hlt := b.toNat_lt
      omega
    unfold String.utf8EncodeChar
    dsimp only
    rw [if_neg hlow, if_pos hhigh]
    rfl

theorem length_le_flatMap_received (v : Bytes) : v.length ≤ (v.flatMap receivedByte).length := by
  induction v with
  | nil => exact Nat.le_refl 0
  | cons b v ih =>
    have hlen := length_receivedByte b
    rw [List.flatMap_cons, List.length_append, List.length_cons]
    split at hlen <;> omega

/-- Nothing is changed but bytes beyond ASCII that are escaped with percents. -/
theorem received_eq_iff {escape : Bool} :
    received escape v = v ↔ escape = false ∨ ∀ b ∈ v, b < 0x80 := by
  unfold received
  cases escape with
  | false => exact iff_of_true rfl (.inl rfl)
  | true =>
    rw [if_pos rfl, or_iff_right (by decide)]
    constructor
    · intro h b hb
      by_contra hhigh
      obtain ⟨front, back, rfl⟩ := List.append_of_mem hb
      have hlen := congrArg List.length h
      have hfront := length_le_flatMap_received front
      have hback := length_le_flatMap_received back
      have htwo := length_receivedByte b
      rw [if_neg hhigh] at htwo
      simp only [List.flatMap_append, List.flatMap_cons, List.length_append, List.length_cons,
        htwo] at hlen
      omega
    · intro h
      have hself (b : UInt8) (hb : b ∈ v) : receivedByte b = [b] := if_pos (h b hb)
      rw [List.flatMap_congr hself, List.flatMap_singleton']

/-! ## Parts -/

/-- The modifiers of each kind. -/
def FormExtra.type? : FormExtra → Option String
  | .type t => some t
  | _ => none

def FormExtra.filename? : FormExtra → Option String
  | .filename f => some f
  | _ => none

/-- What a part says: its last file name and its last type, or those it has of itself. -/
def given (fs : Files) (part : FormPart) : Except String Part := do
  let (bytes, defaultFilename, isUpload) ← content fs part
  let filenames := part.extras.filterMap FormExtra.filename?
  let types := part.extras.filterMap FormExtra.type?
  let default := if isUpload || !filenames.isEmpty then some "application/octet-stream" else none
  return ⟨asBytes part.name, (filenames.getLast?.or defaultFilename).map asBytes,
    (types.getLast?.or default).map asBytes, bytes⟩

def NoHeadersFile (part : FormPart) : Prop := ∀ path, FormExtra.headersFile path ∉ part.extras

/-- A part as it is written, the type with its line. -/
def Part.disposition (escape : Bool) (p : Part) : Bytes :=
  asBytes "Content-Disposition: form-data; name=\"" ++ (encodeBytes escape p.name ++ 0x22 ::
    match p.filename with
    | some f => asBytes "; filename=\"" ++ (encodeBytes escape f ++ [0x22])
    | none => [])

def Part.headers (escape : Bool) (p : Part) : List Bytes :=
  p.disposition escape :: match p.contentType with
    | some t => [asBytes "Content-Type: " ++ t]
    | none => []

def Part.wire (escape : Bool) (p : Part) : Bytes :=
  (p.headers escape).flatMap (· ++ crlf) ++ crlf ++ p.body

theorem foldlM_override (fs : Files) {extras : List FormExtra}
    (h : ∀ path, FormExtra.headersFile path ∉ extras) (o : Overrides) :
    extras.foldlM (override fs) o = .ok ⟨(extras.filterMap FormExtra.type?).getLast?.or o.ctype,
      (extras.filterMap FormExtra.filename?).getLast?.or o.filename, o.extraHeaders,
      o.promoteToUpload || !(extras.filterMap FormExtra.filename?).isEmpty⟩ := by
  induction extras generalizing o with
  | nil => simp [pure, Except.pure]
  | cons extra extras ih =>
    have hextras (path : String) : FormExtra.headersFile path ∉ extras :=
      fun hin => h path (List.mem_cons_of_mem _ hin)
    rw [List.foldlM_cons]
    cases extra with
    | type t =>
      have hstep : override fs o (.type t) = .ok { o with ctype := some t } := rfl
      rw [hstep]
      refine (ih hextras _).trans ?_
      have htypes : (FormExtra.type t :: extras).filterMap FormExtra.type? =
          t :: extras.filterMap FormExtra.type? := rfl
      have hfilenames : (FormExtra.type t :: extras).filterMap FormExtra.filename? =
          extras.filterMap FormExtra.filename? := rfl
      rw [htypes, hfilenames, List.getLast?_cons]
      cases (extras.filterMap FormExtra.type?).getLast? <;> rfl
    | filename f =>
      have hstep : override fs o (.filename f) =
          .ok { o with filename := some f, promoteToUpload := true } := rfl
      rw [hstep]
      refine (ih hextras _).trans ?_
      have htypes : (FormExtra.filename f :: extras).filterMap FormExtra.type? =
          extras.filterMap FormExtra.type? := rfl
      have hfilenames : (FormExtra.filename f :: extras).filterMap FormExtra.filename? =
          f :: extras.filterMap FormExtra.filename? := rfl
      rw [htypes, hfilenames, List.getLast?_cons]
      cases (extras.filterMap FormExtra.filename?).getLast? <;> simp
    | headersFile path => exact absurd List.mem_cons_self (h path)

/-- A part whose files are readable is written as what it says. -/
theorem writePart_eq {fs : Files} {part : FormPart} {p : Part} (hp : given fs part = .ok p)
    (h : NoHeadersFile part) (escape : Bool) : writePart fs part escape = .ok (p.wire escape) := by
  unfold given at hp
  unfold writePart
  cases hcontent : content fs part with
  | error e =>
    rw [hcontent] at hp
    cases hp
  | ok c =>
    obtain ⟨bytes, defaultFilename, isUpload⟩ := c
    rw [hcontent] at hp
    cases hp
    show (do
      let o ← part.extras.foldlM (override fs) ⟨none, defaultFilename, [], isUpload⟩
      _) = _
    rw [foldlM_override fs h]
    refine congrArg Except.ok ?_
    have hquote : asBytes "\"" = [0x22] := by decide
    have hdefault : asBytes "Content-Type: application/octet-stream\r\n" =
        asBytes "Content-Type: " ++ asBytes "application/octet-stream" ++ crlf := by
      decide
    unfold Part.wire Part.headers Part.disposition
    dsimp only
    rw [Option.or_none, List.append_nil, hquote]
    generalize (part.extras.filterMap FormExtra.filename?).getLast?.or defaultFilename = filename
    generalize (part.extras.filterMap FormExtra.type?).getLast? = ctype
    generalize (isUpload || !(part.extras.filterMap FormExtra.filename?).isEmpty) = promote
    cases filename <;> cases ctype <;> cases promote <;>
      simp [asBytes_encodeAttr, hdefault]

/-! ## Sections -/

theorem cutAt_crlf {line : Bytes} (h : 0x0d ∉ line) (rest : Bytes) :
    cutAt crlf (line ++ crlf ++ rest) = some (line, rest) := by
  unfold crlf
  rw [List.append_assoc, cutAt_skip h, cutAt_append (List.cons_ne_nil _ _), Option.map_some]
  dsimp only
  rw [List.append_nil]

theorem readHeaders_empty (rest : Bytes) : readHeaders (crlf ++ rest) = some ([], rest) := by
  have hcut := cutAt_crlf List.not_mem_nil rest
  rw [List.nil_append] at hcut
  rw [readHeaders]
  split
  · rename_i h
    rw [hcut] at h
    cases h
  · rename_i h
    rw [hcut] at h
    cases h
    exact if_pos rfl

theorem readHeaders_line {line : Bytes} (h : 0x0d ∉ line) (hne : line ≠ []) (rest : Bytes) :
    readHeaders (line ++ crlf ++ rest) =
      (readHeaders rest).map fun (lines, body) => (line :: lines, body) := by
  have hcut := cutAt_crlf h rest
  rw [readHeaders]
  split
  · rename_i hcut'
    rw [hcut] at hcut'
    cases hcut'
  · rename_i hcut'
    rw [hcut] at hcut'
    cases hcut'
    exact if_neg hne

/-- Header lines are read up to the empty line. -/
theorem readHeaders_lines {lines : List Bytes} (h : ∀ line ∈ lines, 0x0d ∉ line ∧ line ≠ [])
    (rest : Bytes) : readHeaders (lines.flatMap (· ++ crlf) ++ crlf ++ rest) =
      some (lines, rest) := by
  induction lines with
  | nil => exact readHeaders_empty rest
  | cons line lines ih =>
    obtain ⟨hline, hlines⟩ := List.forall_mem_cons.mp h
    rw [List.flatMap_cons, List.append_assoc, List.append_assoc,
      readHeaders_line hline.1 hline.2, ← List.append_assoc, ih hlines]
    rfl

/-- What follows the first delimiter of a form. -/
def tail (delimiter : Bytes) (escape : Bool) : List Part → Bytes
  | [] => asBytes "--\r\n"
  | p :: ps => crlf ++ (p.wire escape ++ crlf ++ delimiter ++ tail delimiter escape ps)

/-- A part whose attributes hold no line end and, escaped with percents, no percent. -/
structure Part.Clean (escape : Bool) (p : Part) : Prop where
  name : 0x0d ∉ p.name ∧ 0x0a ∉ p.name ∧ (escape = true → 0x25 ∉ p.name)
  filename : ∀ f, p.filename = some f → 0x0d ∉ f ∧ 0x0a ∉ f ∧ (escape = true → 0x25 ∉ f)
  contentType : ∀ t, p.contentType = some t → 0x0d ∉ t ∧ 0x0a ∉ t ∧ (escape = true → 0x25 ∉ t)

theorem disposition_clean {escape : Bool} {p : Part} (h : p.Clean escape) :
    0x0d ∉ p.disposition escape := by
  have hname := @return_not_mem_encode _ escape h.name.1
  unfold Part.disposition
  rw [List.mem_append, List.mem_append, List.mem_cons]
  rintro (hin | hin | heq | hin)
  · exact absurd hin (by decide)
  · exact hname hin
  · exact absurd heq (by decide)
  · cases hf : p.filename with
    | none =>
      rw [hf] at hin
      cases hin
    | some f =>
      rw [hf] at hin
      rw [List.mem_append, List.mem_append, List.mem_singleton] at hin
      rcases hin with hin | hin | heq
      · exact absurd hin (by decide)
      · exact return_not_mem_encode (h.filename f hf).1 hin
      · exact absurd heq (by decide)

theorem headers_clean {escape : Bool} {p : Part} (h : p.Clean escape) :
    ∀ line ∈ p.headers escape, 0x0d ∉ line ∧ line ≠ [] := by
  have hprefix : asBytes "Content-Disposition: form-data; name=\"" ≠ [] := by decide
  have htype : asBytes "Content-Type: " ≠ [] := by decide
  intro line hline
  rcases List.mem_cons.mp hline with rfl | hline
  · exact ⟨disposition_clean h, List.append_ne_nil_of_left_ne_nil hprefix _⟩
  · cases ht : p.contentType with
    | none =>
      rw [ht] at hline
      cases hline
    | some t =>
      rw [ht, List.mem_singleton] at hline
      subst hline
      refine ⟨fun hin => ?_, List.append_ne_nil_of_left_ne_nil htype _⟩
      rcases List.mem_append.mp hin with hin | hin
      · exact absurd hin (by decide)
      · exact (h.contentType t ht).1 hin

theorem sectionsAfter_part {delimiter b rest body after : Bytes} {headers : List Bytes}
    (hheaders : readHeaders b = some (headers, rest))
    (hbody : cutAt (crlf ++ delimiter) rest = some (body, after)) :
    sectionsAfter delimiter (crlf ++ b) =
      (sectionsAfter delimiter after).map (⟨headers, body⟩ :: ·) := by
  have hdash : ¬asBytes "--" <+: crlf ++ b := by
    intro hpre
    have hfirst : (0x2d : UInt8) = 0x0d := (List.cons_prefix_cons.mp hpre).1
    exact absurd hfirst (by decide)
  have hdrop : (crlf ++ b).drop 2 = b := rfl
  rw [sectionsAfter, if_neg hdash, if_pos (List.prefix_append _ _)]
  split
  · rename_i hh
    rw [hdrop, hheaders] at hh
    cases hh
  · rename_i hh
    rw [hdrop, hheaders] at hh
    cases hh
    split
    · rename_i hc
      rw [hbody] at hc
      cases hc
    · rename_i hc
      rw [hbody] at hc
      cases hc
      rfl

/-- The sections of a form are its parts. -/
theorem sectionsAfter_tail {delimiter : Bytes} (hdelimiter : 0x0d ∉ delimiter) {escape : Bool}
    {ps : List Part} (hclean : ∀ p ∈ ps, p.Clean escape)
    (hbody : ∀ p ∈ ps, ¬crlf ++ delimiter <:+: p.body) :
    sectionsAfter delimiter (tail delimiter escape ps) =
      some (ps.map fun p => ⟨p.headers escape, p.body⟩) := by
  induction ps with
  | nil =>
    have hdash : asBytes "--" <+: asBytes "--\r\n" := by decide
    rw [sectionsAfter, tail, if_pos hdash]
    rfl
  | cons p ps ih =>
    obtain ⟨hp, hps⟩ := List.forall_mem_cons.mp hclean
    obtain ⟨hpBody, hpsBody⟩ := List.forall_mem_cons.mp hbody
    have hline : (0x0d : UInt8) ∉ 0x0a :: delimiter := by
      rw [List.mem_cons, not_or]
      exact ⟨by decide, hdelimiter⟩
    have hcut := cutAt_of_not_infix hline hpBody (tail delimiter escape ps)
    have hheaders := readHeaders_lines (headers_clean hp)
      (p.body ++ (crlf ++ delimiter ++ tail delimiter escape ps))
    have hwire : p.wire escape ++ crlf ++ delimiter ++ tail delimiter escape ps =
        (p.headers escape).flatMap (· ++ crlf) ++ crlf ++
          (p.body ++ (crlf ++ delimiter ++ tail delimiter escape ps)) := by
      simp only [Part.wire, List.append_assoc]
    rw [tail, hwire, sectionsAfter_part hheaders hcut, ih hps hpsBody, List.map_cons]
    rfl

/-! ## Round trips -/

/-- A part as it is read back. -/
def Part.readBack (escape : Bool) (p : Part) : Part :=
  { p with name := received escape p.name, filename := p.filename.map (received escape) }

theorem strip_append (start b : Bytes) : strip start (start ++ b) = some b := by
  rw [strip, if_pos (List.prefix_append _ _), List.drop_left]

theorem readDisposition_eq {escape : Bool} {p : Part} (h : p.Clean escape) :
    readDisposition escape (p.disposition escape) =
      some (received escape p.name, p.filename.map (received escape)) := by
  unfold readDisposition Part.disposition
  rw [strip_append, Option.bind_eq_bind, Option.bind_some, readAttr_encode h.name.2.2]
  cases hf : p.filename with
  | none => rfl
  | some f =>
    have hne : asBytes "; filename=\"" ++ (encodeBytes escape f ++ [0x22]) ≠ [] :=
      List.append_ne_nil_of_left_ne_nil (by decide) _
    dsimp only [Option.bind_eq_bind, Option.bind_some]
    rw [if_neg hne, strip_append, Option.bind_some, readAttr_encode (h.filename f hf).2.2]
    rfl

/-- A part is read back as what is received of it. -/
theorem readPart_eq {escape : Bool} {p : Part} (h : p.Clean escape) :
    readPart escape ⟨p.headers escape, p.body⟩ = some (p.readBack escape) := by
  unfold readPart Part.headers Part.readBack
  cases p.contentType with
  | none =>
    dsimp only
    rw [readDisposition_eq h]
    rfl
  | some t =>
    dsimp only
    rw [readDisposition_eq h, strip_append]
    rfl

theorem readBack_eq_iff {escape : Bool} {p : Part} : p.readBack escape = p ↔
    escape = false ∨ (∀ b ∈ p.name, b < 0x80) ∧ ∀ f, p.filename = some f → ∀ b ∈ f, b < 0x80 := by
  obtain ⟨name, filename, ctype, body⟩ := p
  have hmap : filename.map (received escape) = filename ↔
      ∀ f, filename = some f → received escape f = f := by
    cases filename <;> simp
  unfold Part.readBack
  rw [Part.mk.injEq, hmap]
  simp only [received_eq_iff, and_true]
  cases escape <;> simp

/-! ## Forms -/

theorem return_not_mem_boundary (buf : Bytes) :
    0x0d ∉ asBytes "--" ++ asBytes (makeBoundary buf) := by
  have hdigit : ∀ n < 16, Nat.digitChar n ≠ '\r' := by decide
  rw [List.mem_append, not_or]
  refine ⟨by decide, fun hin => ?_⟩
  have hreturn : '\r' ∈ (makeBoundary buf).toList := (mem_asBytes (c := '\r') (by decide)).mp hin
  unfold makeBoundary at hreturn
  rw [String.toList_append, List.mem_append] at hreturn
  rcases hreturn with hin | hin
  · exact absurd hin (by decide)
  · rw [String.toList_ofList] at hin
    obtain ⟨b, -, hb⟩ := List.mem_flatMap.mp hin
    have hlt := b.toNat_lt
    simp only [List.mem_cons, List.not_mem_nil, or_false] at hb
    rcases hb with hb | hb
    · exact hdigit _ (by omega) hb.symm
    · exact hdigit _ (by omega) hb.symm

/-- The parts are written one after the other. -/
theorem foldlM_writePart {fs : Files} {parts : List FormPart} {ps : List Part}
    (hps : parts.mapM (given fs) = .ok ps) (h : ∀ part ∈ parts, NoHeadersFile part)
    (boundary : String) (escape : Bool) (out : Bytes) :
    parts.foldlM (fun out part => do
      let written ← writePart fs part escape
      return out ++ asBytes "--" ++ asBytes boundary ++ crlf ++ written ++ crlf) out =
        .ok (out ++ ps.flatMap fun p =>
          asBytes "--" ++ asBytes boundary ++ crlf ++ p.wire escape ++ crlf) := by
  induction parts generalizing ps out with
  | nil =>
    cases hps
    simp [pure, Except.pure]
  | cons part parts ih =>
    obtain ⟨hpart, hparts⟩ := List.forall_mem_cons.mp h
    rw [List.mapM_cons] at hps
    obtain ⟨p, hp, hps⟩ := Checked.except_bind_eq_ok.mp hps
    obtain ⟨ps, htail, hps⟩ := Checked.except_bind_eq_ok.mp hps
    cases hps
    rw [List.foldlM_cons, writePart_eq hp hpart]
    refine (ih htail hparts _).trans (congrArg Except.ok ?_)
    simp only [List.flatMap_cons, List.append_assoc]

theorem flatMap_tail (delimiter : Bytes) (escape : Bool) (ps : List Part) :
    (ps.flatMap fun p => delimiter ++ crlf ++ p.wire escape ++ crlf) ++ delimiter ++
      asBytes "--\r\n" = delimiter ++ tail delimiter escape ps := by
  induction ps with
  | nil => rfl
  | cons p ps ih =>
    rw [List.flatMap_cons, List.append_assoc, List.append_assoc, ← List.append_assoc _ delimiter,
      ih, tail]
    simp only [List.append_assoc]

/-- A form is written as its parts behind a first delimiter. -/
theorem build_eq {fs : Files} {parts : List FormPart} {ps : List Part}
    (hps : parts.mapM (given fs) = .ok ps) (h : ∀ part ∈ parts, NoHeadersFile part) (buf : Bytes)
    (escape : Bool) : build fs buf parts escape = .ok (makeBoundary buf,
      asBytes "--" ++ asBytes (makeBoundary buf) ++
        tail (asBytes "--" ++ asBytes (makeBoundary buf)) escape ps) := by
  unfold build
  dsimp only
  rw [foldlM_writePart hps h, ← flatMap_tail]
  refine congrArg Except.ok (congrArg _ ?_)
  simp only [List.append_assoc, List.nil_append]

theorem mapM_readPart {escape : Bool} {ps : List Part} (h : ∀ p ∈ ps, p.Clean escape) :
    (ps.map fun p : Part => (⟨p.headers escape, p.body⟩ : Section)).mapM (readPart escape) =
      some (ps.map (Part.readBack escape)) := by
  induction ps with
  | nil => rfl
  | cons p ps ih =>
    obtain ⟨hp, hps⟩ := List.forall_mem_cons.mp h
    rw [List.map_cons, List.mapM_cons, readPart_eq hp, ih hps]
    rfl

theorem map_eq_self_iff {α : Type} {f : α → α} {l : List α} : l.map f = l ↔ ∀ a ∈ l, f a = a := by
  induction l with
  | nil => simp
  | cons a l ih => rw [List.map_cons, List.cons.injEq, ih, List.forall_mem_cons]

theorem decode_eq {buf : Bytes} {escape : Bool} {ps : List Part}
    (hclean : ∀ p ∈ ps, p.Clean escape)
    (hbody : ∀ p ∈ ps, ¬crlf ++ (asBytes "--" ++ asBytes (makeBoundary buf)) <:+: p.body) :
    decode escape (makeBoundary buf) (asBytes "--" ++ asBytes (makeBoundary buf) ++
      tail (asBytes "--" ++ asBytes (makeBoundary buf)) escape ps) =
        some (ps.map (Part.readBack escape)) := by
  unfold decode sections
  dsimp only
  rw [if_pos (List.prefix_append _ _), List.drop_left,
    sectionsAfter_tail (return_not_mem_boundary buf) hclean hbody, Option.bind_eq_bind,
    Option.bind_some, mapM_readPart hclean]

/-- The parts of a form are read back, but for what is beyond ASCII in an attribute that is escaped
with percents. -/
theorem decode_build {fs : Files} {parts : List FormPart} {ps : List Part} {escape : Bool}
    (hps : parts.mapM (given fs) = .ok ps) (hheaders : ∀ part ∈ parts, NoHeadersFile part)
    (hclean : ∀ p ∈ ps, p.Clean escape) {buf : Bytes}
    (hbody : ∀ p ∈ ps, ¬crlf ++ (asBytes "--" ++ asBytes (makeBoundary buf)) <:+: p.body) :
    ∃ out, build fs buf parts escape = .ok (makeBoundary buf, out) ∧
      (decode escape (makeBoundary buf) out = some ps ↔ escape = false ∨
        ∀ p ∈ ps, (∀ b ∈ p.name, b < 0x80) ∧ ∀ f, p.filename = some f → ∀ b ∈ f, b < 0x80) := by
  refine ⟨_, build_eq hps hheaders buf escape, ?_⟩
  rw [decode_eq hclean hbody, Option.some_inj, map_eq_self_iff]
  simp only [readBack_eq_iff]
  cases escape with
  | false => simp
  | true => simp

/-- A part of a name and a text. -/
def field (name text : String) : Part := ⟨asBytes name, none, none, asBytes text⟩

theorem mapM_given_field (fs : Files) (name text : String) :
    [⟨name, .literal text, []⟩].mapM (given fs) = .ok [field name text] := rfl

theorem noHeadersFile_field (name text : String) :
    ∀ part ∈ [(⟨name, .literal text, []⟩ : FormPart)], NoHeadersFile part := by
  rintro part hpart path hin
  rw [List.mem_singleton.mp hpart] at hin
  cases hin

theorem decode_build_quote : ∃ out, build ⟨.error, []⟩ [1, 2, 3, 4, 5, 6, 7, 8]
    [⟨"a\"b", .literal "text", []⟩] true = .ok (makeBoundary [1, 2, 3, 4, 5, 6, 7, 8], out) ∧
      (decode true (makeBoundary [1, 2, 3, 4, 5, 6, 7, 8]) out = some [field "a\"b" "text"] ↔
        true = false ∨ ∀ p ∈ [field "a\"b" "text"], (∀ b ∈ p.name, b < 0x80) ∧
          ∀ f, p.filename = some f → ∀ b ∈ f, b < 0x80) := by
  refine decode_build (mapM_given_field _ _ _) (noHeadersFile_field _ _) ?_ ?_
  · intro p hp
    rw [List.mem_singleton.mp hp]
    exact ⟨by decide, nofun, nofun⟩
  · intro p hp
    rw [List.mem_singleton.mp hp]
    decide

/-- A name beyond ASCII, escaped with percents, is another name. -/
theorem not_read_back_accent : ∃ out, build ⟨.error, []⟩ [1, 2, 3, 4, 5, 6, 7, 8]
    [⟨"é", .literal "text", []⟩] true = .ok (makeBoundary [1, 2, 3, 4, 5, 6, 7, 8], out) ∧
      decode true (makeBoundary [1, 2, 3, 4, 5, 6, 7, 8]) out = some [field "Ã©" "text"] ∧
      field "Ã©" "text" ≠ field "é" "text" := by
  have hclean : ∀ p ∈ [field "é" "text"], p.Clean true := by
    intro p hp
    rw [List.mem_singleton.mp hp]
    exact ⟨by decide, nofun, nofun⟩
  have hbody : ∀ p ∈ [field "é" "text"],
      ¬crlf ++ (asBytes "--" ++ asBytes (makeBoundary [1, 2, 3, 4, 5, 6, 7, 8])) <:+: p.body := by
    intro p hp
    rw [List.mem_singleton.mp hp]
    decide
  refine ⟨_, build_eq (mapM_given_field _ _ _) (noHeadersFile_field _ _) _ _, ?_, by decide⟩
  rw [decode_eq hclean hbody]
  decide

end Rsurl.Cli.Multipart
