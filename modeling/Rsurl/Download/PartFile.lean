import Rsurl.Download.Response
import Rsurl.Library.Endian
import Rsurl.Library.Extent

/-!
# Partial files

A download in progress is a file with the data at its offsets, a block of metadata behind it and a
trailer at the end. Saving the state leaves the data alone, whatever the file held before, what is
read back is what was saved last, and what is published is the data.
-/

namespace Rsurl.Download

open Library Endian

def magic : Bytes := Text.asBytes "RSURLPRT"
def version : Nat := 1
def trailerLen : Nat := 32

inductive Kind where
  | torrent
  | httpStream
  | httpRanged
  deriving DecidableEq, Repr

def Kind.toU16 : Kind → Nat
  | .torrent => 1
  | .httpStream => 2
  | .httpRanged => 3

def Kind.fromU16 : Nat → Option Kind
  | 1 => some .torrent
  | 2 => some .httpStream
  | 3 => some .httpRanged
  | _ => none

theorem Kind.fromU16_toU16 (kind : Kind) : Kind.fromU16 kind.toU16 = some kind := by
  cases kind <;> rfl

structure ResumeState where
  realSize : Nat
  kind : Kind
  metadata : Bytes
  deriving DecidableEq, Repr

/-- One bit of the checksum. -/
def crcBit (crc : UInt32) : UInt32 := (crc >>> 1) ^^^ (0xedb88320 &&& (0 - (crc &&& 1)))

/-- CRC-32, without a table. -/
def crc32 (data : Bytes) : UInt32 :=
  ~~~ data.foldl (fun crc b => crcBit^[8] (crc ^^^ b.toUInt32)) 0xffffffff

example : crc32 (Text.asBytes "123456789") = 0xcbf43926 := by decide +kernel

def trailer (realSize : UInt64) (kind : Kind) (block : Bytes) : Bytes :=
  magic ++ toLe 2 version ++ toLe 2 kind.toU16 ++ toLe 8 realSize.toNat ++
    toLe 8 (block.length % 2 ^ 64) ++ toLe 4 (crc32 block).toNat

/-! ## Files -/

abbrev Files := String → Option Bytes

/-- What the system is asked to do. -/
inductive FileOp where
  | openFile
  | seek
  | writeBlock
  | writeTrailer
  | setLen
  | flush
  | rename
  deriving DecidableEq

/-- Which operations fail, and how many bytes a write has put before it does. -/
abbrev Faults := FileOp → Option (Error × Nat)

/-- The content of the file changes. -/
def change (path : String) (f : Bytes → Bytes) (fs : Files) : Files :=
  Function.update fs path (some (f ((fs path).getD [])))

/-- A write of no bytes does not reach the file. -/
def put (start : Nat) (data content : Bytes) : Bytes :=
  if data = [] then content else Extent.writeAt 0 start data content

def perform (faults : Faults) (op : FileOp) (fs fs' : Files) : Outcome Files Unit :=
  match faults op with
  | none => .ok () fs'
  | some (e, _) => .error e fs

def writeAll (faults : Faults) (op : FileOp) (path : String) (start : Nat) (data : Bytes)
    (fs : Files) : Outcome Files Unit :=
  match faults op with
  | none => .ok () (change path (put start data) fs)
  | some (e, n) => .error e (change path (put start (data.take n)) fs)

/-- The metadata and the trailer go behind the data. The file is created if there is none. -/
def writeState (faults : Faults) (path : String) (realSize : UInt64) (kind : Kind) (block : Bytes)
    (fs : Files) : Outcome Files Unit :=
  (perform faults .openFile fs (change path id fs)).andThen fun _ fs =>
  (perform faults .seek fs fs).andThen fun _ fs =>
  (writeAll faults .writeBlock path realSize.toNat block fs).andThen fun _ fs =>
  (writeAll faults .writeTrailer path (realSize.toNat + block.length)
    (trailer realSize kind block) fs).andThen fun _ fs =>
  match (addU64 realSize.toNat block.length).bind (addU64 · trailerLen) with
  | none => .error (.io .other "resume size overflow") fs
  | some last =>
    (perform faults .setLen fs (change path (List.takeD last · 0) fs)).andThen fun _ fs =>
      perform faults .flush fs fs

/-- A number in a trailer. -/
def word (t : Bytes) (start width : Nat) : Nat := fromLe ((t.drop start).take width)

/-- The state of a file, or nothing where the trailer does not check. -/
def readContent (content : Bytes) : Option ResumeState :=
  if content.length < trailerLen then none
  else
    let t := content.drop (content.length - trailerLen)
    if t.take 8 ≠ magic then none
    else if word t 8 2 ≠ version then none
    else match Kind.fromU16 (word t 10 2) with
      | none => none
      | some kind =>
        let realSize := word t 12 8
        let blockLen := word t 20 8
        if (addU64 realSize blockLen).bind (addU64 · trailerLen) ≠ some content.length then none
        else
          let block := (content.drop realSize).take blockLen
          if (crc32 block).toNat ≠ word t 28 4 then none else some ⟨realSize, kind, block⟩

def readState (path : String) (fs : Files) : Option ResumeState := (fs path).bind readContent

/-- The data is cut out and renamed. -/
def finalize (faults : Faults) (path finalPath : String) (realSize : UInt64) (fs : Files) :
    Outcome Files Unit :=
  match fs path with
  | none => .error (.io .notFound "No such file or directory") fs
  | some content =>
    let cut := content.takeD realSize.toNat 0
    (perform faults .openFile fs fs).andThen fun _ fs =>
    (perform faults .setLen fs (Function.update fs path (some cut))).andThen fun _ fs =>
      perform faults .rename fs
        (Function.update (Function.update fs path none) finalPath (some cut))

/-! ## Saving -/

variable {faults : Faults} {path : String} {realSize : UInt64} {kind : Kind} {block : Bytes}
  {fs fs' : Files}

theorem perform_ok {op : FileOp} {fs fs₁ fs₂ : Files} (h : perform faults op fs fs₁ = .ok () fs₂) :
    fs₂ = fs₁ := by
  unfold perform at h
  split at h <;> cases h
  rfl

theorem writeAll_ok {op : FileOp} {start : Nat} {data : Bytes}
    (h : writeAll faults op path start data fs = .ok () fs') :
    fs' = change path (put start data) fs := by
  unfold writeAll at h
  split at h <;> cases h
  rfl

theorem change_change (path : String) (f g : Bytes → Bytes) (fs : Files) :
    change path g (change path f fs) = change path (g ∘ f) fs := by
  simp [change]

theorem takeD_put (start : Nat) (data content : Bytes) :
    (put start data content).takeD (start + data.length) 0 = content.takeD start 0 ++ data := by
  unfold put
  split
  · rename_i h
    rw [h, List.length_nil, Nat.add_zero, List.append_nil]
  · rw [List.takeD_eq_take, Extent.take_writeAt]
    rw [Extent.length_writeAt]
    exact le_max_right _ _

theorem length_magic : magic.length = 8 := by decide

theorem length_trailer : (trailer realSize kind block).length = trailerLen := by
  simp [trailer, length_magic, trailerLen]

/-- A state that is saved stands behind the data, at the end of the file. -/
theorem writeState_ok (h : writeState faults path realSize kind block fs = .ok () fs') :
    realSize.toNat + block.length + trailerLen ≤ maxWord ∧
      fs' = change path (fun content =>
        content.takeD realSize.toNat 0 ++ block ++ trailer realSize kind block) fs := by
  unfold writeState at h
  obtain ⟨_, fs₁, h₁, h⟩ := Outcome.andThen_eq_ok.mp h
  obtain ⟨_, fs₂, h₂, h⟩ := Outcome.andThen_eq_ok.mp h
  obtain ⟨_, fs₃, h₃, h⟩ := Outcome.andThen_eq_ok.mp h
  obtain ⟨_, fs₄, h₄, h⟩ := Outcome.andThen_eq_ok.mp h
  cases perform_ok h₁
  cases perform_ok h₂
  cases writeAll_ok h₃
  cases writeAll_ok h₄
  split at h
  · cases h
  · rename_i last hlast
    obtain ⟨sum, hsum, hlast⟩ := Option.bind_eq_some_iff.mp hlast
    obtain ⟨_, fs₅, h₅, h⟩ := Outcome.andThen_eq_ok.mp h
    cases perform_ok h₅
    cases perform_ok h
    obtain ⟨hfits, rfl⟩ : realSize.toNat + block.length ≤ maxWord ∧
        realSize.toNat + block.length = sum := by
      simpa [addU64] using hsum
    obtain ⟨hfits', rfl⟩ : realSize.toNat + block.length + trailerLen ≤ maxWord ∧
        realSize.toNat + block.length + trailerLen = last := by
      simpa [addU64] using hlast
    refine ⟨hfits', ?_⟩
    simp only [change_change]
    congr 1
    funext content
    have hend : realSize.toNat + block.length + trailerLen =
        (realSize.toNat + block.length) + (trailer realSize kind block).length := by
      rw [length_trailer]
    rw [Function.comp_apply, Function.comp_apply, Function.comp_apply, id_eq, hend, takeD_put,
      takeD_put]

/-- Without a failure of the system, a state whose sizes fit is saved. -/
theorem writeState_succeeds (hfaults : ∀ op, faults op = none)
    (hfits : realSize.toNat + block.length + trailerLen ≤ maxWord) :
    ∃ fs', writeState faults path realSize kind block fs = .ok () fs' := by
  have hlast : (addU64 realSize.toNat block.length).bind (addU64 · trailerLen) =
      some (realSize.toNat + block.length + trailerLen) := by
    rw [addU64_eq (by omega), Option.bind_some, addU64_eq hfits]
  simp only [writeState, perform, writeAll, hfaults, Outcome.andThen, hlast]
  exact ⟨_, rfl⟩

/-! ## Reading -/

theorem word_append {front back : Bytes} {start width n : Nat} (hstart : front.length = start)
    (hn : n < 256 ^ width) : word (front ++ (toLe width n ++ back)) start width = n := by
  have htake : (toLe width n ++ back).take width = toLe width n := List.take_left' (length_toLe _ _)
  rw [word, ← hstart, List.drop_left, htake, fromLe_toLe hn]

/-- The fields of a trailer. -/
theorem trailer_fields (hblock : block.length < 2 ^ 64) :
    (trailer realSize kind block).take 8 = magic ∧ word (trailer realSize kind block) 8 2 = version ∧
      word (trailer realSize kind block) 10 2 = kind.toU16 ∧
        word (trailer realSize kind block) 12 8 = realSize.toNat ∧
          word (trailer realSize kind block) 20 8 = block.length ∧
            word (trailer realSize kind block) 28 4 = (crc32 block).toNat := by
  have hmagic := length_magic
  have hkind : kind.toU16 < 256 ^ 2 := by cases kind <;> decide
  have hsize : realSize.toNat < 256 ^ 8 := by simpa using realSize.toNat_lt
  have hlen : block.length < 256 ^ 8 := by simpa using hblock
  have hcrc : (crc32 block).toNat < 256 ^ 4 := by simpa using (crc32 block).toNat_lt
  unfold trailer
  rw [Nat.mod_eq_of_lt hblock]
  simp only [List.append_assoc]
  refine ⟨List.take_left' hmagic, word_append hmagic (by decide), ?_, ?_, ?_, ?_⟩
  · rw [← List.append_assoc]
    exact word_append (by simp [hmagic]) hkind
  · rw [← List.append_assoc, ← List.append_assoc]
    exact word_append (by simp [hmagic]) hsize
  · rw [← List.append_assoc, ← List.append_assoc, ← List.append_assoc]
    exact word_append (by simp [hmagic]) hlen
  · rw [← List.append_assoc, ← List.append_assoc, ← List.append_assoc, ← List.append_assoc,
      ← List.append_nil (toLe 4 _)]
    exact word_append (by simp [hmagic]) hcrc

/-- What was saved is read. -/
theorem readContent_append {data : Bytes} (hdata : data.length = realSize.toNat)
    (hfits : realSize.toNat + block.length + trailerLen ≤ maxWord) :
    readContent (data ++ block ++ trailer realSize kind block) =
      some ⟨realSize.toNat, kind, block⟩ := by
  have hblock : block.length < 2 ^ 64 := by
    unfold maxWord at hfits
    omega
  obtain ⟨hmagic, hversion, hkind, hsize, hlen, hcrc⟩ := @trailer_fields realSize kind block hblock
  have htotal : (data ++ block ++ trailer realSize kind block).length =
      realSize.toNat + block.length + trailerLen := by
    rw [List.length_append, List.length_append, length_trailer, hdata]
  have htrailer : (data ++ block ++ trailer realSize kind block).drop
      (realSize.toNat + block.length + trailerLen - trailerLen) = trailer realSize kind block := by
    rw [Nat.add_sub_cancel]
    exact List.drop_left' (by rw [List.length_append, hdata])
  have hpart : ((data ++ block ++ trailer realSize kind block).drop realSize.toNat).take
      block.length = block := by
    rw [List.append_assoc, List.drop_left' hdata, List.take_left' rfl]
  have hsum : (addU64 realSize.toNat block.length).bind (addU64 · trailerLen) =
      some (realSize.toNat + block.length + trailerLen) := by
    rw [addU64_eq (by omega), Option.bind_some, addU64_eq hfits]
  unfold readContent
  rw [htotal, if_neg (by omega)]
  simp only [htrailer, hmagic, hversion, hkind, hsize, hlen, hcrc, hpart, hsum,
    Kind.fromU16_toU16, ne_eq, not_true_eq_false, if_false]

/-- The sizes of a state that is read make up the file. -/
theorem readContent_some {content : Bytes} {state : ResumeState}
    (h : readContent content = some state) :
    state.realSize + state.metadata.length + trailerLen = content.length := by
  unfold readContent at h
  split at h
  · cases h
  · extract_lets t realSize blockLen block at h
    split at h
    · cases h
    · split at h
      · cases h
      · split at h
        · cases h
        · split at h
          · cases h
          · rename_i hsum
            split at h
            · cases h
            · cases h
              rw [not_not] at hsum
              obtain ⟨sum, hsum, htotal⟩ := Option.bind_eq_some_iff.mp hsum
              obtain ⟨-, rfl⟩ : _ ∧ realSize + blockLen = sum := by simpa [addU64] using hsum
              obtain ⟨-, htotal⟩ : _ ∧ realSize + blockLen + trailerLen = content.length := by
                simpa [addU64] using htotal
              have hblock : block.length = blockLen := by
                simp only [block, List.length_take, List.length_drop]
                omega
              rw [hblock, htotal]

/-! ## The container -/

/-- The content of a file, or nothing where there is none. -/
def contentOf (path : String) (fs : Files) : Bytes := (fs path).getD []

/-- What is known of the files after a state was saved. -/
structure Saved (path : String) (realSize : UInt64) (kind : Kind) (block : Bytes)
    (fs fs' : Files) : Prop where
  read : readState path fs' = some ⟨realSize.toNat, kind, block⟩
  kept : ∀ i < min (contentOf path fs).length realSize.toNat,
    (contentOf path fs')[i]? = (contentOf path fs)[i]?
  zero : ∀ i, (contentOf path fs).length ≤ i → i < realSize.toNat →
    (contentOf path fs')[i]? = some 0
  others : ∀ q ≠ path, fs' q = fs q
  published : ∀ (faults : Faults) (finalPath : String) (fs'' : Files),
    finalize faults path finalPath realSize fs' = .ok () fs'' →
      fs'' finalPath = some ((contentOf path fs').take realSize.toNat) ∧
        ((contentOf path fs').take realSize.toNat).length = realSize.toNat

theorem finalize_ok {finalPath : String} {content : Bytes} (hcontent : fs path = some content)
    (h : finalize faults path finalPath realSize fs = .ok () fs') :
    fs' finalPath = some (content.takeD realSize.toNat 0) := by
  unfold finalize at h
  rw [hcontent] at h
  obtain ⟨_, fs₁, h₁, h⟩ := Outcome.andThen_eq_ok.mp h
  obtain ⟨_, fs₂, h₂, h⟩ := Outcome.andThen_eq_ok.mp h
  cases perform_ok h₁
  cases perform_ok h₂
  cases perform_ok h
  simp

theorem saved_of_writeState (h : writeState faults path realSize kind block fs = .ok () fs') :
    Saved path realSize kind block fs fs' := by
  obtain ⟨hfits, rfl⟩ := writeState_ok h
  set data := (contentOf path fs).takeD realSize.toNat 0 with hdata
  have hlen : data.length = realSize.toNat := List.takeD_length _ _ _
  have hpath : change path (fun content =>
      content.takeD realSize.toNat 0 ++ block ++ trailer realSize kind block) fs path =
        some (data ++ block ++ trailer realSize kind block) := by
    rw [change, Function.update_self]
    rfl
  have hcontent : contentOf path (change path (fun content =>
      content.takeD realSize.toNat 0 ++ block ++ trailer realSize kind block) fs) =
        data ++ block ++ trailer realSize kind block := by
    rw [contentOf, hpath]
    rfl
  have hget : ∀ i < realSize.toNat, (data ++ block ++ trailer realSize kind block)[i]? =
      some ((contentOf path fs)[i]?.getD 0) := fun i hi => by
    rw [List.append_assoc, List.getElem?_append_left (hlen.symm ▸ hi), hdata,
      Extent.getElem?_takeD, if_pos hi]
  refine ⟨?_, fun i hi => ?_, fun i hold hi => ?_, fun q hq => ?_, fun faults' finalPath fs'' hfin => ?_⟩
  · rw [readState, hpath, Option.bind_some]
    exact readContent_append hlen hfits
  · rw [hcontent, hget i (by omega), List.getElem?_eq_getElem (by omega)]
    rfl
  · rw [hcontent, hget i hi, List.getElem?_eq_none hold]
    rfl
  · rw [change, Function.update_of_ne hq]
  · have htake : (data ++ block ++ trailer realSize kind block).take realSize.toNat = data := by
      rw [List.append_assoc, List.take_left' hlen]
    rw [hcontent, htake, finalize_ok hpath hfin, List.takeD_eq_take, htake]
    · exact ⟨rfl, hlen⟩
    · simp only [List.length_append]
      omega

/-- A saved state is read back, over whatever the file held, its data is kept and filled up with
zeros, and no more than the data is published. A state that is read makes up its file, and one that
fits is saved unless the system fails. -/
theorem part_file_holds (h : writeState faults path realSize kind block fs = .ok () fs') :
    Saved path realSize kind block fs fs' ∧
      (∀ content state, readContent content = some state →
        state.realSize + state.metadata.length + trailerLen = content.length) ∧
      ∀ (faults : Faults) (path : String) (realSize : UInt64) (kind : Kind) (block : Bytes)
        (fs : Files), (∀ op, faults op = none) →
          realSize.toNat + block.length + trailerLen ≤ maxWord →
            ∃ fs', writeState faults path realSize kind block fs = .ok () fs' :=
  ⟨saved_of_writeState h, fun _ _ => readContent_some, fun _ _ _ _ _ _ => writeState_succeeds⟩

/-- A file that is shorter than its data. -/
theorem part_file_holds_short :
    ∃ fs', writeState (fun _ => none) "a.rsurlpart" 5 .httpStream [1, 2] (fun _ => some [7, 8, 9]) =
        .ok () fs' ∧
      Saved "a.rsurlpart" 5 .httpStream [1, 2] (fun _ => some [7, 8, 9]) fs' := by
  obtain ⟨fs', h⟩ := @writeState_succeeds (fun _ => none) "a.rsurlpart" 5 .httpStream [1, 2]
    (fun _ => some [7, 8, 9]) (fun _ => rfl) (by decide)
  exact ⟨fs', h, (part_file_holds h).1⟩

end Rsurl.Download
