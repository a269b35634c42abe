import Rsurl.Bittorrent.Bencode
import Rsurl.Bittorrent.Storage
import Rsurl.Url.Parts

/-!
# Metainfo

What a `.torrent` file says: the pieces, and the files that tile them. Everything in it is chosen by
whoever made it. The infohash is the SHA-1 of the `info` dictionary as it is written; SHA-1 is a
parameter. A path is its text, the components separated by slashes.
-/

namespace Rsurl.Bittorrent

open Library Text Bencode

def terr (msg : String) : Error := .badResponse ("torrent: " ++ msg)

def maxPieceLength : Nat := 128 * 1024 * 1024

structure FileEntry where
  path : String
  length : Nat
  /-- Only aligns the next file, and is never written. -/
  padding : Bool
  deriving DecidableEq, Repr

structure Metainfo where
  infoHash : Bytes
  name : String
  pieceLength : Nat
  /-- The SHA-1 of each piece. -/
  pieces : List Bytes
  files : List FileEntry
  totalLength : Nat
  trackers : List String
  «private» : Bool
  deriving DecidableEq, Repr

/-! ## Path components -/

def windowsReserved : List String :=
  ["CON", "PRN", "AUX", "NUL", "COM1", "COM2", "COM3", "COM4", "COM5", "COM6", "COM7", "COM8",
    "COM9", "LPT1", "LPT2", "LPT3", "LPT4", "LPT5", "LPT6", "LPT7", "LPT8", "LPT9"]

def sanitizeComponent (s : String) : Except Error Unit :=
  let cs := s.toList
  if s = "" ∨ s = "." ∨ s = ".." ∨ '/' ∈ cs ∨ '\\' ∈ cs ∨ '\x00' ∈ cs ∨ ':' ∈ cs ∨
      cs.getLast? = some '.' ∨ cs.getLast? = some ' ' then
    .error (terr "unsafe path component")
  else
    let stem := (split '.' s).headD s
    if windowsReserved.any (eqIgnoreAsciiCase stem) then .error (terr "unsafe path component")
    else .ok ()

/-- `PathBuf::push`, which is also `Path::join`. -/
def push (p s : String) : String :=
  if startsWith "/" s then s
  else if p = "" ∨ p.toList.getLast? = some '/' then p ++ s
  else p ++ "/" ++ s

/-- `Path::parent` of a relative path without empty components. -/
def parent (p : String) : Option String :=
  if p = "" then none
  else match rsplitOnce '/' p.toList with
    | some (dir, _) => some (String.ofList dir)
    | none => some ""

theorem length_parent {p dir : String} (h : parent p = some dir) : dir.length < p.length := by
  unfold parent at h
  split at h
  · cases h
  rename_i hne
  have hpos : 0 < p.length := by
    rw [← String.length_toList]
    exact List.length_pos_of_ne_nil (by simpa using hne)
  split at h
  · rename_i front back hsplit
    cases h
    rw [String.length_ofList, ← String.length_toList, (rsplitOnce_eq_some.mp hsplit).1,
      List.length_append, List.length_cons]
    omega
  · cases h
    exact hpos

/-! ## Path conflicts -/

/-- Compared without the case of ASCII letters. -/
def pathKey (p : String) : String := toAsciiLowercase p

/-- The paths so far are a set. -/
def insertPaths : List FileEntry → List String → Except Error (List String)
  | [], paths => .ok paths
  | f :: files, paths =>
    if pathKey f.path ∈ paths then .error (terr "duplicate file path")
    else insertPaths files (pathKey f.path :: paths)

/-- The directory and those above it. -/
def checkDirs (paths : List String) (dir : Option String) : Except Error Unit :=
  match dir with
  | none => .ok ()
  | some d =>
    if d ≠ "" ∧ pathKey d ∈ paths then .error (terr "file path conflicts with a directory")
    else checkDirs paths (parent d)
termination_by (dir.map fun d => d.length + 1).getD 0
decreasing_by
  cases hd : parent d with
  | none => simp
  | some d' =>
    have := length_parent hd
    simp
    omega

def checkAll (paths : List String) : List FileEntry → Except Error Unit
  | [] => .ok ()
  | f :: files => do
    checkDirs paths (parent f.path)
    checkAll paths files

def checkPathConflicts (files : List FileEntry) : Except Error Unit := do
  let files := files.filter fun f => !f.padding
  let paths ← insertPaths files []
  checkAll paths files

/-! ## The files -/

/-- A field that has to be there. -/
def field {α : Type} (msg : String) : Option α → Except Error α
  | some a => .ok a
  | none => .error (terr msg)

/-- The path so far, and its last component. -/
def pushComponents : List Value → String × String → Except Error (String × String)
  | [], acc => .ok acc
  | c :: comps, (rel, _) => do
    let s ← field "non-utf8 path component" c.asStr
    sanitizeComponent s
    pushComponents comps (push rel s, s)

def fileEntry (name : String) (f : Value) : Except Error FileEntry := do
  let len ← field "missing/invalid files[].length"
    (((f.get (Text.asBytes "length")).bind Value.asInt).filter fun n => 0 ≤ n)
  let comps ← field "missing files[].path" ((f.get (Text.asBytes "path")).bind Value.asList)
  let (rel, last) ← pushComponents comps ("", "")
  if rel = "" then .error (terr "empty file path")
  else
    let attr := (f.get (Text.asBytes "attr")).bind Value.asBytes
    .ok ⟨push name rel, len.toNat,
      attr.any (fun a => a.contains 0x70) || startsWith "_____padding_file_" last⟩

def fileEntries (name : String) : List Value → List FileEntry × Nat →
    Except Error (List FileEntry × Nat)
  | [], acc => .ok acc
  | f :: list, (files, total) => do
    let entry ← fileEntry name f
    if maxWord < total + entry.length then .error (terr "total length overflow")
    else fileEntries name list (files ++ [entry], total + entry.length)

/-- One file under the name, or many in its directory. -/
def parseLayout (name : String) (info : Value) : Except Error (List FileEntry × Nat) :=
  match (info.get (Text.asBytes "length")).bind Value.asInt with
  | some len =>
    if len < 0 then .error (terr "negative file length")
    else .ok ([⟨name, len.toNat, false⟩], len.toNat)
  | none => match (info.get (Text.asBytes "files")).bind Value.asList with
    | some list => do
      let (files, total) ← fileEntries name list ([], 0)
      if files.isEmpty then .error (terr "empty files list")
      else do
        checkPathConflicts files
        .ok (files, total)
    | none => .error (terr "info has neither length nor files")

/-! ## The torrent -/

/-- The whole chunks of `n` bytes. -/
def asChunks (n : Nat) (b : Bytes) : List Bytes :=
  (List.range (b.length / n)).map fun i => (b.drop (n * i)).take n

def divCeil (a b : Nat) : Nat := a / b + if a % b = 0 then 0 else 1

def parseTrackers (root : Value) : List String :=
  let tiers := ((root.get (Text.asBytes "announce-list")).bind Value.asList).getD []
  let trackers := tiers.flatMap fun tier => (tier.asList.getD []).filterMap Value.asStr
  match (root.get (Text.asBytes "announce")).bind Value.asStr with
  | some a => if a ∈ trackers then trackers else trackers ++ [a]
  | none => trackers

namespace Metainfo

/-- What is taken from the `info` dictionary. -/
def ofInfo (infoHash : Bytes) (trackers : List String) (info : Value) : Except Error Metainfo := do
  let name ← field "missing info.name" ((info.get (Text.asBytes "name")).bind Value.asStr)
  sanitizeComponent name
  let pieceLength ← field "missing/invalid info.piece length"
    (((info.get (Text.asBytes "piece length")).bind Value.asInt).filter fun n => 0 < n)
  let pieceLength := pieceLength.toNat
  if maxPieceLength < pieceLength then .error (terr "info.piece length exceeds maximum")
  else do
    let piecesRaw ← field "missing info.pieces"
      ((info.get (Text.asBytes "pieces")).bind Value.asBytes)
    if piecesRaw.length % 20 ≠ 0 then .error (terr "info.pieces is not a multiple of 20 bytes")
    else do
      let pieces := asChunks 20 piecesRaw
      let (files, totalLength) ← parseLayout name info
      let expected := if totalLength = 0 then 0 else divCeil totalLength pieceLength
      if pieces.length ≠ expected then
        .error (terr "piece count does not match total length")
      else .ok {
        infoHash, name, pieceLength, pieces, files, totalLength, trackers
        «private» := (info.get (Text.asBytes "private")).bind Value.asInt = some 1 }

def ofRoot (infoHash : Bytes) (root : Value) : Except Error Metainfo := do
  let info ← field "missing info dictionary" (root.get (Text.asBytes "info"))
  ofInfo infoHash (parseTrackers root) info

section Infohash

variable (sha1 : Bytes → Bytes)

def fromBytes (torrent : Bytes) : Checked Error Metainfo := do
  let root ← parse torrent
  let (spans, _) ← dictEntrySpans torrent 0
  match spans.find? fun (k, _) => k == Text.asBytes "info" with
  | none => .error (terr "missing info dictionary")
  | some (_, start, stop) => do
    let raw ← Checked.slice torrent start stop
    .ofExcept (ofRoot (sha1 raw) root)

/-- The dictionary from a peer, wrapped. -/
def fromInfoDict (info : Bytes) : Checked Error Metainfo :=
  fromBytes sha1 (Text.asBytes "d4:info" ++ info ++ [0x65])

end Infohash

def numPieces (m : Metainfo) : Nat := m.pieces.length

/-- For an index whose product does not overflow. -/
def pieceSize (m : Metainfo) (index : Nat) : Nat :=
  if index + 1 < m.pieces.length then m.pieceLength
  else m.totalLength - m.pieceLength * index

/-! ## What is accepted -/

structure Accepted (infoHash : Bytes) (info : Value) (m : Metainfo) : Prop where
  infoHash : m.infoHash = infoHash
  name : sanitizeComponent m.name = .ok ()
  positive : 0 < m.pieceLength
  bounded : m.pieceLength ≤ maxPieceLength
  layout : parseLayout m.name info = .ok (m.files, m.totalLength)
  count : m.pieces.length =
    if m.totalLength = 0 then 0 else divCeil m.totalLength m.pieceLength

theorem ofInfo_ok {infoHash : Bytes} {trackers : List String} {info : Value} {m : Metainfo}
    (h : ofInfo infoHash trackers info = .ok m) : Accepted infoHash info m := by
  unfold ofInfo at h
  obtain ⟨name, -, h⟩ := Checked.except_bind_eq_ok.mp h
  obtain ⟨_, hname, h⟩ := Checked.except_bind_eq_ok.mp h
  obtain ⟨len, hlen, h⟩ := Checked.except_bind_eq_ok.mp h
  dsimp only at h
  split at h
  · cases h
  rename_i hbounded
  obtain ⟨raw, -, h⟩ := Checked.except_bind_eq_ok.mp h
  split at h
  · cases h
  obtain ⟨⟨files, total⟩, hlayout, h⟩ := Checked.except_bind_eq_ok.mp h
  dsimp only at h
  by_cases hcount : (asChunks 20 raw).length ≠
    if total = 0 then 0 else divCeil total len.toNat
  · rw [if_pos hcount] at h
    cases h
  rw [if_neg hcount] at h
  cases h
  refine ⟨rfl, hname, ?_, Nat.le_of_not_lt hbounded, hlayout, not_not.mp hcount⟩
  unfold field at hlen
  split at hlen
  · rename_i n hn
    cases hlen
    have hpos : 0 < len := by simpa using (Option.filter_eq_some_iff.mp hn).2
    show 0 < len.toNat
    omega
  · cases hlen

end Metainfo

end Rsurl.Bittorrent
