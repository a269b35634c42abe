import Rsurl.Error
import Rsurl.Library.Extent
import Rsurl.Library.Loop

/-!
# Temporary blobs

`TempBlob`: bytes in memory that move to an anonymous file once there are more than `threshold` of
them, or on request. The file is a byte array that fills with zeros, and `usize` has 64 bits. What
creating and filling the file answers is a parameter of every operation that may spill.
-/

namespace Rsurl.Tmpfile

open Library
open Library.Loop (Turn)

/-- The values of `u64` and of `usize`. -/
def wordLimit : Nat := 2 ^ 64

inductive Backing where
  | mem (v : Bytes)
  | file (f : Bytes)
  deriving DecidableEq, Repr

def Backing.bytes : Backing → Bytes
  | .mem v => v
  | .file f => f

/-- A blob; `dir` only says where the anonymous file is created. -/
structure TempBlob where
  inner : Backing
  len : Nat
  threshold : Nat
  pos : Nat
  deriving DecidableEq, Repr

inductive SeekFrom where
  | start (n : UInt64)
  | fromEnd (d : Int64)
  | current (d : Int64)
  deriving DecidableEq, Repr

def offsetOverflow : Error := .io .invalidInput "offset overflow"

def sizeExceeds : Error := .io .invalidInput "size exceeds this platform's address space"

def badSeek : Error := .io .invalidInput "seek to a negative or overflowing position"

def usizeLen (n : Nat) : Except Error Nat := if n < wordLimit then .ok n else .error sizeExceeds

/-- `v[start..start + buf.len()].copy_from_slice(buf)` -/
def copyFromSlice (v : Bytes) (start : Nat) (buf : Bytes) : Bytes :=
  v.take start ++ buf ++ v.drop (start + buf.length)

/-- Positional write of the whole buffer. -/
def writeAllAt (f : Bytes) (start : Nat) (buf : Bytes) : Bytes := Extent.writeAt 0 start buf f

def readAtFile (f : Bytes) (want start : Nat) : Bytes := (f.drop start).take want

/-- `base + delta`, unless it would go negative or overflow. -/
def offset (base : Nat) (delta : Int) : Option Nat :=
  if 0 ≤ delta then
    if base + delta.toNat < wordLimit then some (base + delta.toNat) else none
  else if delta.natAbs ≤ base then some (base - delta.natAbs) else none

/-- Replace a backing in memory with an anonymous file that holds the same bytes. -/
def spillLocked (fill : Except Error Unit) : Backing → Except Error Backing
  | .file f => .ok (.file f)
  | .mem v => fill.map fun _ => .file (if v.isEmpty then [] else writeAllAt [] 0 v)

namespace TempBlob

def withThreshold (threshold : Nat) : TempBlob := ⟨.mem [], 0, threshold, 0⟩

def growTo (b : TempBlob) (last : Nat) : TempBlob := { b with len := max b.len last }

def spill (fill : Except Error Unit) (b : TempBlob) : Outcome TempBlob Unit :=
  match spillLocked fill b.inner with
  | .error e => .error e b
  | .ok inner => .ok () { b with inner }

/-- Spill if the blob is to hold `n` bytes and that is too many for memory. -/
def spillFor (fill : Except Error Unit) (n : Nat) (b : TempBlob) : Outcome TempBlob Unit :=
  match b.inner with
  | .file _ => .ok () b
  | .mem _ => if n > b.threshold then b.spill fill else .ok () b

/-- The write under the exclusive lock, up to `last`. -/
def writeLocked (start : Nat) (buf : Bytes) (last : Nat) (b : TempBlob) : Outcome TempBlob Unit :=
  match b.inner with
  | .file f => .ok () { b with inner := .file (writeAllAt f start buf) }
  | .mem v =>
    (Outcome.ofExcept (if v.length < last then (usizeLen last).map (v.takeD · 0) else .ok v) b).andThen
      fun v b => (Outcome.ofExcept (usizeLen start) { b with inner := .mem v }).andThen
        fun start b => .ok () { b with inner := .mem (copyFromSlice v start buf) }

def writeAt (fill : Except Error Unit) (start : Nat) (buf : Bytes) (b : TempBlob) :
    Outcome TempBlob Unit :=
  if buf.isEmpty then .ok () b
  else if wordLimit ≤ start + buf.length then .error offsetOverflow b
  else
    let last := start + buf.length
    match b.inner with
    | .file f => .ok () ({ b with inner := .file (writeAllAt f start buf) }.growTo last)
    | .mem _ => ((b.spillFor fill last).andThen fun _ b => b.writeLocked start buf last).andThen
        fun _ b => .ok () (b.growTo last)

/-- At most `want` bytes from `start` on. -/
def readAt (b : TempBlob) (want start : Nat) : Except Error Bytes :=
  if want = 0 ∨ b.len ≤ start then .ok []
  else
    let cap := min ((b.len - start) % wordLimit) want
    match b.inner with
    | .mem v => (usizeLen start).map fun start => (v.drop start).take (min cap (v.length - start))
    | .file f => .ok (readAtFile f cap start)

def setLen (fill : Except Error Unit) (n : Nat) (b : TempBlob) : Outcome TempBlob Unit :=
  (b.spillFor fill n).andThen fun _ b => match b.inner with
    | .file f => .ok () { b with inner := .file (f.takeD n 0), len := n }
    | .mem v => (Outcome.ofExcept (usizeLen n) b).andThen fun n b =>
        .ok () { b with inner := .mem (v.takeD n 0), len := n }

def clear (fill : Except Error Unit) (b : TempBlob) : Outcome TempBlob Unit := b.setLen fill 0

/-- One turn of the loop of `to_vec`, with what has been read so far. -/
def toVecTurn (b : TempBlob) (len : Nat) (out : Bytes) : Turn Bytes (Except Error Bytes) :=
  if out.length < len then
    match b.readAt (len - out.length) out.length with
    | .error e => .done (.error e)
    | .ok [] => .done (.ok out)
    | .ok (x :: more) => .next (out ++ x :: more)
  else .done (.ok out)

theorem toVecTurn_lowers (b : TempBlob) (len : Nat) :
    Loop.Lowers (b.toVecTurn len) fun out => len - out.length := by
  intro out out' h
  unfold toVecTurn at h
  split at h
  · split at h
    · cases h
    · cases h
    · cases h
      simp only [List.length_append, List.length_cons]
      omega
  · cases h

def toVec (b : TempBlob) : Except Error Bytes :=
  (usizeLen b.len).bind fun len => Loop.run (b.toVecTurn len) _ (b.toVecTurn_lowers len) []

def read (want : Nat) (b : TempBlob) : Outcome TempBlob Bytes :=
  (Outcome.ofExcept (b.readAt want b.pos) b).andThen fun data b =>
    .ok data { b with pos := b.pos + data.length }

def seek (target : SeekFrom) (b : TempBlob) : Outcome TempBlob Nat :=
  let want := match target with
    | .start n => some n.toNat
    | .fromEnd d => offset b.len d.toInt
    | .current d => offset b.pos d.toInt
  match want with
  | some p => .ok p { b with pos := p }
  | none => .error badSeek b

def write (fill : Except Error Unit) (buf : Bytes) (b : TempBlob) : Outcome TempBlob Nat :=
  (b.writeAt fill b.len buf).andThen fun _ b => .ok buf.length b

end TempBlob

end Rsurl.Tmpfile
