import Rsurl.Bittorrent.Picker
import Rsurl.Library.Extent

/-!
# On-disk storage

The torrent's byte space is tiled by files; a piece covers a range of it, so it may straddle many
files or lie in a part of one. `writePiece` verifies a piece against its hash and writes it,
`recheck` reads every piece back, and `readBlock` serves a part of one. The hash function is a
parameter, and every step of the file system may fail.
-/

namespace Rsurl.Bittorrent

open Library

def maxWord : Nat := 2 ^ 64 - 1

def serr (msg : String) : Error := .badResponse ("bt storage: " ++ msg)

structure FileSlot where
  path : String
  length : Nat
  /-- Where the file begins in the torrent space. -/
  start : Nat
  /-- Its bytes are zeros, and never on disk. -/
  padding : Bool
  deriving DecidableEq, Repr

/-- The content of every file that exists. -/
abbrev Disk := String → Option Bytes

/-- How an access to a file fails: when it is opened, or after so many bytes. -/
inductive Fault where
  | opening (e : IoErrorKind)
  | moving (e : IoErrorKind) (done : Nat)
  deriving DecidableEq, Repr

/-- What the file system does to the accesses of one call, by path. -/
abbrev Faults := String → Option Fault

def noFaults : Faults := fun _ => none

structure Storage where
  pieceLength : Nat
  total : Nat
  hashes : List Bytes
  files : List FileSlot
  «have» : Bitfield
  /-- The range that is wanted, for a windowed download. -/
  window : Option (Nat × Nat)
  disk : Disk

/-- The slots of a layout, from `start` on. -/
def slotsFrom : Nat → List (String × Nat) → List FileSlot
  | _, [] => []
  | start, (path, length) :: rest => ⟨path, length, start, false⟩ :: slotsFrom (start + length) rest

def layoutTotal (layout : List (String × Nat)) : Nat := (layout.map (·.2)).sum

namespace Storage

def create (layout : List (String × Nat)) (pieceLength : Nat) (hashes : List Bytes) (disk : Disk) :
    Except Error Storage :=
  if pieceLength = 0 then .error (serr "zero piece length")
  else if maxWord < layoutTotal layout then .error (serr "size overflow")
  else .ok {
    pieceLength, hashes, disk
    total := layoutTotal layout
    files := slotsFrom 0 layout
    «have» := Bitfield.new hashes.length
    window := none }

/-- Whether piece `i` has a byte in `[start, last)`. -/
def overlaps (pieceLength total start last i : Nat) : Bool :=
  pieceLength * i < last ∧ start < min (pieceLength * i + pieceLength) total

/-- The bits of the pieces outside the window. -/
def premarked (pieceLength total start last numPieces : Nat) : Bitfield :=
  (List.range numPieces).foldl
    (fun bf i => if overlaps pieceLength total start last i then bf else bf.set i)
    (Bitfield.new numPieces)

/-- `none` is the overflow of the end of a piece, which panics. -/
def createWindow (out : String) (pieceLength : Nat) (hashes : List Bytes) (total start last : Nat)
    (disk : Disk) : Option (Except Error Storage) :=
  if pieceLength = 0 then some (.error (serr "zero piece length"))
  else if maxWord < pieceLength * hashes.length then none
  else
    let last := min last total
    let start := min start last
    some (.ok {
      pieceLength, total, hashes, disk
      files := [⟨out, last - start, start, false⟩]
      «have» := premarked pieceLength total start last hashes.length
      window := some (start, last) })

def setPadding (file : Nat) (st : Storage) : Storage :=
  { st with files := st.files.modify file fun slot => { slot with padding := true } }

def numPieces (st : Storage) : Nat := st.hashes.length

def pieceSize (st : Storage) (index : Nat) : Nat :=
  min (st.total - st.pieceLength * index) st.pieceLength

def has (st : Storage) (index : Nat) : Bool := st.have.has index

def isComplete (st : Storage) : Bool := st.have.isComplete

def bytesComplete (st : Storage) : Nat :=
  (((List.range st.numPieces).filter st.has).map fun i => match st.window with
    | some (ws, we) => min (st.pieceLength * i + st.pieceSize i) we - max (st.pieceLength * i) ws
    | none => st.pieceSize i).sum

end Storage

/-! ## Files -/

/-- Open a file, which creates it. -/
def openSlot (faults : Faults) (slot : FileSlot) (disk : Disk) : Outcome Disk Bytes :=
  match faults slot.path with
  | some (.opening e) => .error (.io e "open") disk
  | _ =>
    let content := (disk slot.path).getD []
    .ok content (Function.update disk slot.path (some content))

def setFile (disk : Disk) (slot : FileSlot) (content : Bytes) : Disk :=
  Function.update disk slot.path (some content)

/-- Seek and `write_all`. -/
def writeSlot (faults : Faults) (slot : FileSlot) (fileOff : Nat) (data : Bytes) (disk : Disk) :
    Outcome Disk Unit :=
  (openSlot faults slot disk).andThen fun content disk =>
    match faults slot.path with
    | some (.moving e done) =>
      .error (.io e "write") (setFile disk slot (Extent.writeAt 0 fileOff (data.take done) content))
    | _ => .ok () (setFile disk slot (Extent.writeAt 0 fileOff data content))

/-- Seek and `read_exact`. -/
def readSlot (faults : Faults) (slot : FileSlot) (fileOff len : Nat) (disk : Disk) :
    Outcome Disk Bytes :=
  (openSlot faults slot disk).andThen fun content disk =>
    match faults slot.path with
    | some (.moving e _) => .error (.io e "read") disk
    | _ =>
      if content.length < fileOff + len then
        .error (.io .unexpectedEof "failed to fill whole buffer") disk
      else .ok ((content.drop fileOff).take len) disk

def setLen (faults : Faults) (slot : FileSlot) (disk : Disk) : Outcome Disk Unit :=
  (openSlot faults slot disk).andThen fun content disk =>
    match faults slot.path with
    | some (.moving e _) => .error (.io e "set_len") disk
    | _ => .ok () (setFile disk slot (content.takeD slot.length 0))

/-- Where the range and the file meet. -/
def FileSlot.ovStart (slot : FileSlot) (offset : Nat) : Nat := max offset slot.start

def FileSlot.ovEnd (slot : FileSlot) (last : Nat) : Nat := min last (slot.start + slot.length)

/-- The files that an access to `[offset, last)` touches. -/
def FileSlot.Touched (slot : FileSlot) (offset last : Nat) : Prop :=
  ¬(slot.ovEnd last ≤ slot.ovStart offset ∨ slot.padding = true)

instance (slot : FileSlot) (offset last : Nat) : Decidable (slot.Touched offset last) :=
  inferInstanceAs (Decidable (¬_))

/-- The files that cover `[offset, offset + data.length)` get their parts of `data`. -/
def writeFiles (faults : Faults) (offset : Nat) (data : Bytes) :
    List FileSlot → Disk → Outcome Disk Unit
  | [], disk => .ok () disk
  | slot :: rest, disk =>
    if slot.Touched offset (offset + data.length) then
      let lo := slot.ovStart offset
      let hi := slot.ovEnd (offset + data.length)
      (writeSlot faults slot (lo - slot.start) ((data.drop (lo - offset)).take (hi - lo)) disk).andThen
        fun _ disk => writeFiles faults offset data rest disk
    else writeFiles faults offset data rest disk

/-- The files that cover `[offset, offset + out.length)` fill their parts of `out`. -/
def readFiles (faults : Faults) (offset : Nat) :
    List FileSlot → Bytes → Disk → Outcome Disk Bytes
  | [], out, disk => .ok out disk
  | slot :: rest, out, disk =>
    if slot.Touched offset (offset + out.length) then
      let lo := slot.ovStart offset
      let hi := slot.ovEnd (offset + out.length)
      (readSlot faults slot (lo - slot.start) (hi - lo) disk).andThen fun bytes disk =>
        readFiles faults offset rest (Extent.writeAt 0 (lo - offset) bytes out) disk
    else readFiles faults offset rest out disk

theorem readFiles_cons (faults : Faults) (offset : Nat) (slot : FileSlot) (rest : List FileSlot)
    (out : Bytes) (disk : Disk) : readFiles faults offset (slot :: rest) out disk =
      if slot.Touched offset (offset + out.length) then
        (readSlot faults slot (slot.ovStart offset - slot.start)
          (slot.ovEnd (offset + out.length) - slot.ovStart offset) disk).andThen fun bytes disk =>
            readFiles faults offset rest
              (Extent.writeAt 0 (slot.ovStart offset - offset) bytes out) disk
      else readFiles faults offset rest out disk := rfl

def finalizeSlots (faults : Faults) : List FileSlot → Disk → Outcome Disk Unit
  | [], disk => .ok () disk
  | slot :: rest, disk =>
    if slot.padding then finalizeSlots faults rest disk
    else (setLen faults slot disk).andThen fun _ disk => finalizeSlots faults rest disk

namespace Storage

variable (sha1 : Bytes → Bytes) (faults : Faults)

/-- The disk is all that an access to the files changes. -/
def withDisk (st : Storage) (disk : Disk) : Storage := { st with disk }

def finalizeFiles (st : Storage) : Outcome Storage Unit :=
  (finalizeSlots faults st.files st.disk).mapState st.withDisk

def writePiece (index : Nat) (data : Bytes) (st : Storage) : Outcome Storage Bool :=
  if st.numPieces ≤ index then .error (serr "piece index out of range") st
  else if data.length ≠ st.pieceSize index then .error (serr "piece has wrong length") st
  else if some (sha1 data) ≠ st.hashes[index]? then .ok false st
  else
    ((writeFiles faults (st.pieceLength * index) data st.files st.disk).mapState
      st.withDisk).andThen fun _ st => .ok true { st with «have» := st.have.set index }

def readAt (offset len : Nat) (st : Storage) : Outcome Storage Bytes :=
  (readFiles faults offset st.files (List.replicate len 0) st.disk).mapState st.withDisk

/-- One piece of `recheck`. -/
def recheckPiece (acc : Bitfield × Storage) (i : Nat) : Bitfield × Storage :=
  match acc.2.readAt faults (acc.2.pieceLength * i) (acc.2.pieceSize i) with
  | .ok buf st => (if some (sha1 buf) = st.hashes[i]? then acc.1.set i else acc.1, st)
  | .error _ st => (acc.1, st)

def recheck (st : Storage) : Storage :=
  let acc := (List.range st.numPieces).foldl (recheckPiece sha1 faults)
    (Bitfield.new st.numPieces, st)
  { acc.2 with «have» := acc.1 }

def readBlock (index start length : Nat) (st : Storage) : Outcome Storage Bytes :=
  if st.has index = false then .error (serr "read of incomplete piece") st
  else if st.pieceSize index < start + length then .error (serr "read past end of piece") st
  else st.readAt faults (st.pieceLength * index + start) length

end Storage

end Rsurl.Bittorrent
