import Rsurl.Bittorrent.Storage

/-!
# Bytes on disk

What one access to the files does, byte by byte. A position of the torrent space is on disk in the
files that cover it; padding is not on disk and reads as zeros. Writing a range changes the bytes in
it and keeps those outside, reading changes nothing, and `finalizeFiles` gives every file its length.
-/

namespace Rsurl.Bittorrent

open Library

/-- The byte at `q` of a file. -/
def fileByte (disk : Disk) (path : String) (q : Nat) : Option UInt8 := (disk path).bind (·[q]?)

/-- The byte at `p` is on disk in this file. -/
def FileSlot.Covers (slot : FileSlot) (p : Nat) : Prop :=
  slot.start ≤ p ∧ p < slot.start + slot.length ∧ slot.padding = false

/-- On disk, the byte at `p` is `b`. -/
def Holds (files : List FileSlot) (disk : Disk) (p : Nat) (b : UInt8) : Prop :=
  ∀ slot ∈ files, slot.Covers p → fileByte disk slot.path (p - slot.start) = some b

/-- What is at `offset` reads as `data`. -/
def Reads (files : List FileSlot) (disk : Disk) (offset : Nat) (data : Bytes) : Prop :=
  ∀ k b, data[k]? = some b → Holds files disk (offset + k) b ∧
    ((∀ slot ∈ files, ¬slot.Covers (offset + k)) → b = 0)

/-- Two files on disk are two files. -/
def Distinct (files : List FileSlot) : Prop :=
  files.Pairwise fun a b => a.padding = false → b.padding = false → a.path ≠ b.path

/-- The files do not overlap. -/
def Apart (files : List FileSlot) : Prop :=
  files.Pairwise fun a b => a.start + a.length ≤ b.start

/-- Not a byte was lost or changed. -/
def Same (disk disk' : Disk) : Prop := ∀ path q, fileByte disk' path q = fileByte disk path q

variable {files rest : List FileSlot} {slot : FileSlot} {disk disk' : Disk} {offset p : Nat}
  {data out : Bytes}

theorem fileByte_setFile_self (disk : Disk) (slot : FileSlot) (content : Bytes) (q : Nat) :
    fileByte (setFile disk slot content) slot.path q = content[q]? := by
  rw [fileByte, setFile, Function.update_self]
  rfl

theorem setFile_of_ne {path : String} (h : path ≠ slot.path) (disk : Disk) (content : Bytes) :
    setFile disk slot content path = disk path := Function.update_of_ne h ..

theorem fileByte_eq (disk : Disk) (path : String) (q : Nat) :
    fileByte disk path q = ((disk path).getD [])[q]? := by
  unfold fileByte
  cases disk path <;> simp

/-- To create a file is to change no byte. -/
theorem same_open (disk : Disk) (slot : FileSlot) :
    Same disk (setFile disk slot ((disk slot.path).getD [])) := by
  intro path q
  by_cases h : path = slot.path
  · rw [h, fileByte_setFile_self, fileByte_eq]
  · rw [fileByte, setFile_of_ne h, ← fileByte]

theorem setFile_setFile (disk : Disk) (slot : FileSlot) (a b : Bytes) :
    setFile (setFile disk slot a) slot b = setFile disk slot b := Function.update_idem ..

theorem writeSlot_noFaults (slot : FileSlot) (fileOff : Nat) (data : Bytes) (disk : Disk) :
    writeSlot noFaults slot fileOff data disk =
      .ok () (setFile disk slot (Extent.writeAt 0 fileOff data ((disk slot.path).getD []))) :=
  congrArg (Outcome.ok ()) (setFile_setFile disk slot _ _)

theorem not_touched (h : ¬slot.Touched offset (offset + n)) (hp : slot.Covers p) :
    p < offset ∨ offset + n ≤ p := by
  obtain ⟨hlo, hhi, hpad⟩ := hp
  have h' := not_not.mp h
  rcases h' with h' | h'
  · unfold FileSlot.ovEnd FileSlot.ovStart at h'
    omega
  · rw [hpad] at h'
    cases h'

/-! ## Writing -/

/-- What a write has done to the disk. -/
structure Written (files : List FileSlot) (offset : Nat) (data : Bytes) (disk disk' : Disk) :
    Prop where
  inside : ∀ slot ∈ files, ∀ p, slot.Covers p → offset ≤ p → p < offset + data.length →
    fileByte disk' slot.path (p - slot.start) = data[p - offset]?
  outside : ∀ slot ∈ files, ∀ p b, slot.Covers p → p < offset ∨ offset + data.length ≤ p →
    fileByte disk slot.path (p - slot.start) = some b →
    fileByte disk' slot.path (p - slot.start) = some b
  others : ∀ path, (∀ slot ∈ files, slot.padding = false → slot.path ≠ path) →
    disk' path = disk path

/-- The part of a file that is touched. -/
theorem writeSlot_byte (ht : slot.Touched offset (offset + data.length)) (disk : Disk) {p : Nat}
    (hp : slot.Covers p) {content : Bytes}
    (hcontent : content = Extent.writeAt 0 (slot.ovStart offset - slot.start)
      ((data.drop (slot.ovStart offset - offset)).take
        (slot.ovEnd (offset + data.length) - slot.ovStart offset)) ((disk slot.path).getD [])) :
    (offset ≤ p → p < offset + data.length → content[p - slot.start]? = data[p - offset]?) ∧
    (∀ b, p < offset ∨ offset + data.length ≤ p →
      fileByte disk slot.path (p - slot.start) = some b → content[p - slot.start]? = some b) := by
  obtain ⟨hlo, hhi, -⟩ := hp
  have hmeet : slot.ovStart offset < slot.ovEnd (offset + data.length) := by
    unfold FileSlot.Touched at ht
    rw [not_or] at ht
    exact Nat.lt_of_not_le ht.1
  have hstart : slot.ovStart offset = max offset slot.start := rfl
  have hend : slot.ovEnd (offset + data.length) =
    min (offset + data.length) (slot.start + slot.length) := rfl
  set lo := slot.ovStart offset
  set hi := slot.ovEnd (offset + data.length)
  set part := (data.drop (lo - offset)).take (hi - lo) with hpart
  have hlen : part.length = hi - lo := by
    rw [hpart, List.length_take, List.length_drop]
    omega
  subst hcontent
  refine ⟨fun hp hp' => ?_, fun b hout hb => ?_⟩
  · obtain ⟨k, hk⟩ : ∃ k, p = lo + k := Nat.exists_eq_add_of_le (by omega)
    have hat : p - slot.start = lo - slot.start + k := by omega
    rw [hat, Extent.getElem?_writeAt_of_mem 0 _ _ (by omega), hpart, List.getElem?_take,
      if_pos (by omega), List.getElem?_drop]
    congr 1
    omega
  · rw [fileByte_eq] at hb
    rcases hout with hout | hout
    · rw [Extent.getElem?_writeAt_of_lt 0 _ _ (by omega), hb]
      rfl
    · rw [Extent.getElem?_writeAt_of_le 0 _ _ (by omega), hb]

theorem Written.skip (h : Written rest offset data disk disk')
    (ht : ¬slot.Touched offset (offset + data.length))
    (hslot : ∀ b ∈ rest, slot.padding = false → b.padding = false → slot.path ≠ b.path) :
    Written (slot :: rest) offset data disk disk' := by
  have hkept (hpad : slot.padding = false) : disk' slot.path = disk slot.path :=
    h.others slot.path fun b hb hbpad => (hslot b hb hpad hbpad).symm
  refine ⟨?_, ?_, fun path hpath => h.others path fun b hb => hpath b (.tail _ hb)⟩
  · intro s hs p hp hlo hhi
    rcases List.mem_cons.mp hs with rfl | hs
    · have := not_touched ht hp
      omega
    · exact h.inside s hs p hp hlo hhi
  · intro s hs p b hp hout hb
    rcases List.mem_cons.mp hs with rfl | hs
    · rw [fileByte, hkept hp.2.2, ← fileByte, hb]
    · exact h.outside s hs p b hp hout hb

theorem written_writeFiles (files : List FileSlot) (hfiles : Distinct files) (offset : Nat)
    (data : Bytes) (disk : Disk) :
    ∃ disk', writeFiles noFaults offset data files disk = .ok () disk' ∧
      Written files offset data disk disk' := by
  induction files generalizing disk with
  | nil => exact ⟨disk, rfl, nofun, nofun, fun _ _ => rfl⟩
  | cons slot rest ih =>
    obtain ⟨hslot, hrest⟩ := List.pairwise_cons.mp hfiles
    by_cases ht : slot.Touched offset (offset + data.length)
    · rw [writeFiles, if_pos ht]
      dsimp only
      rw [writeSlot_noFaults, Outcome.ok_andThen]
      have hpad : slot.padding = false := by
        unfold FileSlot.Touched at ht
        rw [not_or, Bool.not_eq_true] at ht
        exact ht.2
      set content := Extent.writeAt 0 (slot.ovStart offset - slot.start)
        ((data.drop (slot.ovStart offset - offset)).take
          (slot.ovEnd (offset + data.length) - slot.ovStart offset)) ((disk slot.path).getD [])
        with hcontent
      obtain ⟨disk', hwrite, h⟩ := ih hrest (setFile disk slot content)
      refine ⟨disk', hwrite, ?_, ?_, ?_⟩
      · intro s hs p hp hlo hhi
        rcases List.mem_cons.mp hs with rfl | hs
        · rw [fileByte, h.others s.path fun b hb hbpad => (hslot b hb hpad hbpad).symm, ← fileByte,
            fileByte_setFile_self]
          exact (writeSlot_byte ht disk hp hcontent).1 hlo hhi
        · exact h.inside s hs p hp hlo hhi
      · intro s hs p b hp hout hb
        rcases List.mem_cons.mp hs with rfl | hs
        · rw [fileByte, h.others s.path fun b hb hbpad => (hslot b hb hpad hbpad).symm, ← fileByte,
            fileByte_setFile_self]
          exact (writeSlot_byte ht disk hp hcontent).2 b hout hb
        · refine h.outside s hs p b hp hout ?_
          rwa [fileByte, setFile_of_ne (hslot s hs hpad hp.2.2).symm, ← fileByte]
      · intro path hpath
        rw [h.others path fun b hb => hpath b (.tail _ hb),
          setFile_of_ne (hpath slot (.head _) hpad).symm]
    · rw [writeFiles, if_neg ht]
      obtain ⟨disk', hwrite, h⟩ := ih hrest disk
      exact ⟨disk', hwrite, h.skip ht hslot⟩

/-! ## Reading -/

theorem Same.trans {a b c : Disk} (h : Same a b) (h' : Same b c) : Same a c := fun path q =>
  (h' path q).trans (h path q)

theorem touched_meet (ht : slot.Touched offset last) :
    slot.ovStart offset < slot.ovEnd last ∧ slot.padding = false := by
  unfold FileSlot.Touched at ht
  rw [not_or, Bool.not_eq_true] at ht
  exact ⟨Nat.lt_of_not_le ht.1, ht.2⟩

/-- What a read has found. -/
structure ReadBack (files : List FileSlot) (offset : Nat) (out : Bytes) (disk : Disk)
    (out' : Bytes) : Prop where
  length : out'.length = out.length
  covered : ∀ k, k < out.length → ∀ slot ∈ files, slot.Covers (offset + k) →
    fileByte disk slot.path (offset + k - slot.start) = out'[k]?
  gaps : ∀ k, k < out.length → (∀ slot ∈ files, ¬slot.Covers (offset + k)) → out'[k]? = out[k]?

/-- The part of the buffer that one file fills. -/
theorem readSlot_fill (ht : slot.Touched offset (offset + out.length)) (content : Bytes)
    {out₁ : Bytes}
    (hlen : slot.ovEnd (offset + out.length) - slot.start ≤ content.length)
    (hout : out₁ = Extent.writeAt 0 (slot.ovStart offset - offset)
      ((content.drop (slot.ovStart offset - slot.start)).take
        (slot.ovEnd (offset + out.length) - slot.ovStart offset)) out) :
    out₁.length = out.length ∧ ∀ k, k < out.length →
      (slot.Covers (offset + k) → out₁[k]? = content[offset + k - slot.start]?) ∧
      (¬slot.Covers (offset + k) → out₁[k]? = out[k]?) := by
  obtain ⟨hmeet, hpad⟩ := touched_meet ht
  have hstart : slot.ovStart offset = max offset slot.start := rfl
  have hend : slot.ovEnd (offset + out.length) =
    min (offset + out.length) (slot.start + slot.length) := rfl
  set lo := slot.ovStart offset
  set hi := slot.ovEnd (offset + out.length)
  set part := (content.drop (lo - slot.start)).take (hi - lo) with hpart
  have hplen : part.length = hi - lo := by
    rw [hpart, List.length_take, List.length_drop]
    omega
  subst hout
  refine ⟨by rw [Extent.length_writeAt]; omega, fun k hk => ⟨?_, fun hno => ?_⟩⟩
  · rintro ⟨hfrom, hto, -⟩
    obtain ⟨j, rfl⟩ : ∃ j, k = lo - offset + j := Nat.exists_eq_add_of_le (by omega)
    rw [Extent.getElem?_writeAt_of_mem 0 _ _ (by omega), hpart, List.getElem?_take,
      if_pos (by omega), List.getElem?_drop]
    congr 1
    omega
  · have hout : k < lo - offset ∨ lo - offset + part.length ≤ k := by
      by_contra hin
      exact hno ⟨by omega, by omega, hpad⟩
    rcases hout with hk' | hk'
    · rw [Extent.getElem?_writeAt_of_lt 0 _ _ hk', List.getElem?_eq_getElem hk]
      rfl
    · rw [Extent.getElem?_writeAt_of_le 0 _ _ hk']

theorem readSlot_noFaults (slot : FileSlot) (fileOff len : Nat) (disk : Disk) :
    readSlot noFaults slot fileOff len disk =
      if ((disk slot.path).getD []).length < fileOff + len then
        .error (.io .unexpectedEof "failed to fill whole buffer")
          (setFile disk slot ((disk slot.path).getD []))
      else .ok ((((disk slot.path).getD []).drop fileOff).take len)
        (setFile disk slot ((disk slot.path).getD [])) := rfl

theorem readFiles_same (files : List FileSlot) (offset : Nat) (out : Bytes) (disk : Disk) :
    Same disk (readFiles noFaults offset files out disk).state := by
  induction files generalizing out disk with
  | nil => exact fun _ _ => rfl
  | cons slot rest ih =>
    rw [readFiles_cons]
    split
    · rw [readSlot_noFaults]
      split
      · exact same_open disk slot
      · exact (same_open disk slot).trans (ih _ _)
    · exact ih out disk

theorem readBack_of_ok (hfiles : Apart files) {out' : Bytes}
    (h : readFiles noFaults offset files out disk = .ok out' disk') :
    ReadBack files offset out disk out' := by
  induction files generalizing out disk with
  | nil =>
    cases h
    exact ⟨rfl, nofun, fun _ _ _ => rfl⟩
  | cons slot rest ih =>
    obtain ⟨hslot, hrest⟩ := List.pairwise_cons.mp hfiles
    rw [readFiles_cons] at h
    by_cases ht : slot.Touched offset (offset + out.length)
    · rw [if_pos ht, readSlot_noFaults] at h
      obtain ⟨hmeet, -⟩ := touched_meet ht
      have hstart : slot.ovStart offset = max offset slot.start := rfl
      split at h
      · cases h
      · rename_i hlong
        obtain ⟨hlen, hfill⟩ := readSlot_fill ht ((disk slot.path).getD []) (by omega) rfl
        obtain ⟨hlen', hcovered, hgaps⟩ := ih hrest h
        rw [hlen] at hlen' hcovered hgaps
        refine ⟨hlen', fun k hk s hs hc => ?_, fun k hk hno => ?_⟩
        · rcases List.mem_cons.mp hs with rfl | hs
          · have hother : ∀ t ∈ rest, ¬t.Covers (offset + k) := by
              intro t ht' hct
              have := hslot t ht'
              have := hct.1
              have := hc.2.1
              omega
            rw [hgaps k hk hother, (hfill k hk).1 hc, fileByte_eq]
          · rw [← hcovered k hk s hs hc]
            exact (same_open disk slot _ _).symm
        · rw [hgaps k hk fun t ht' => hno t (.tail _ ht'), (hfill k hk).2 (hno slot (.head _))]
    · rw [if_neg ht] at h
      obtain ⟨hlen', hcovered, hgaps⟩ := ih hrest h
      refine ⟨hlen', fun k hk s hs hc => ?_, fun k hk hno => hgaps k hk fun t ht' =>
        hno t (.tail _ ht')⟩
      rcases List.mem_cons.mp hs with rfl | hs
      · have := not_touched ht hc
        omega
      · exact hcovered k hk s hs hc

/-- A read fails only at a byte that is not there. -/
theorem readFiles_ok (files : List FileSlot) (offset : Nat) (out : Bytes) (disk : Disk)
    (hall : ∀ k, k < out.length → ∀ slot ∈ files, slot.Covers (offset + k) →
      (fileByte disk slot.path (offset + k - slot.start)).isSome) :
    ∃ out' disk', readFiles noFaults offset files out disk = .ok out' disk' := by
  induction files generalizing out disk with
  | nil => exact ⟨out, disk, rfl⟩
  | cons slot rest ih =>
    rw [readFiles_cons]
    by_cases ht : slot.Touched offset (offset + out.length)
    · rw [if_pos ht, readSlot_noFaults]
      obtain ⟨hmeet, hpad⟩ := touched_meet ht
      have hstart : slot.ovStart offset = max offset slot.start := rfl
      have hend : slot.ovEnd (offset + out.length) =
        min (offset + out.length) (slot.start + slot.length) := rfl
      have hlast := hall (slot.ovEnd (offset + out.length) - 1 - offset) (by omega) slot (.head _)
        ⟨by omega, by omega, hpad⟩
      rw [fileByte_eq] at hlast
      obtain ⟨b, hb⟩ := Option.isSome_iff_exists.mp hlast
      have hlong := (List.getElem?_eq_some_iff.mp hb).1
      rw [if_neg (by omega)]
      have hlen := (readSlot_fill ht ((disk slot.path).getD []) (by omega) rfl).1
      refine ih _ _ fun k hk s hs hc => ?_
      rw [hlen] at hk
      rw [same_open disk slot]
      exact hall k hk s (.tail _ hs) hc
    · rw [if_neg ht]
      exact ih _ _ fun k hk s hs hc => hall k hk s (.tail _ hs) hc

/-! ## What reads as what -/

theorem Holds.same (h : Holds files disk p b) (hsame : Same disk disk') : Holds files disk' p b :=
  fun slot hs hc => (hsame _ _).trans (h slot hs hc)

theorem Reads.same (h : Reads files disk offset data) (hsame : Same disk disk') :
    Reads files disk' offset data := fun k b hb =>
  ⟨(h k b hb).1.same hsame, (h k b hb).2⟩

/-- A part of what reads as `data`. -/
theorem Reads.slice (h : Reads files disk offset data) (start len : Nat) :
    Reads files disk (offset + start) ((data.drop start).take len) := by
  intro k b hb
  rw [List.getElem?_take] at hb
  split at hb
  · rw [List.getElem?_drop] at hb
    rw [Nat.add_assoc]
    exact h (start + k) b hb
  · cases hb

theorem reads_readFiles (hfiles : Apart files) {len : Nat} {out' : Bytes}
    (h : readFiles noFaults offset files (List.replicate len 0) disk = .ok out' disk') :
    out'.length = len ∧ Reads files disk offset out' := by
  obtain ⟨hlen, hcovered, hgaps⟩ := readBack_of_ok hfiles h
  rw [List.length_replicate] at hlen hcovered hgaps
  refine ⟨hlen, fun k b hb => ?_⟩
  have hk : k < len := hlen ▸ (List.getElem?_eq_some_iff.mp hb).1
  refine ⟨fun slot hs hc => (hcovered k hk slot hs hc).trans hb, fun hno => ?_⟩
  have hzero := hgaps k hk hno
  rw [hb, List.getElem?_replicate, if_pos hk] at hzero
  exact Option.some.inj hzero

/-- Bytes that are all there are read. -/
theorem readFiles_of_reads (hfiles : Apart files) (h : Reads files disk offset data) :
    ∃ disk', readFiles noFaults offset files (List.replicate data.length 0) disk = .ok data disk' ∧
      Same disk disk' := by
  obtain ⟨out', disk', hread⟩ := readFiles_ok files offset (List.replicate data.length 0) disk
    fun k hk slot hs hc => by
      rw [List.length_replicate] at hk
      rw [(h k _ (List.getElem?_eq_getElem hk)).1 slot hs hc]
      rfl
  obtain ⟨hlen, hback⟩ := reads_readFiles hfiles hread
  have hout : out' = data := by
    refine List.ext_getElem hlen fun k hk hk' => ?_
    obtain ⟨hheld, hgap⟩ := h k _ (List.getElem?_eq_getElem hk')
    obtain ⟨hheld', hgap'⟩ := hback k _ (List.getElem?_eq_getElem hk)
    by_cases hc : ∃ slot ∈ files, slot.Covers (offset + k)
    · obtain ⟨slot, hs, hc⟩ := hc
      exact Option.some.inj ((hheld' slot hs hc).symm.trans (hheld slot hs hc))
    · have hno : ∀ slot ∈ files, ¬slot.Covers (offset + k) := fun slot hs hc' => hc ⟨slot, hs, hc'⟩
      rw [hgap hno, hgap' hno]
  have hsame := readFiles_same files offset (List.replicate data.length 0) disk
  rw [hread] at hsame
  exact ⟨disk', hout ▸ hread, hsame⟩

/-! ## The lengths of the files -/

theorem setLen_noFaults (slot : FileSlot) (disk : Disk) : setLen noFaults slot disk =
    .ok () (setFile disk slot (((disk slot.path).getD []).takeD slot.length 0)) :=
  congrArg (Outcome.ok ()) (setFile_setFile disk slot _ _)

/-- Every file on disk is cut or filled up to its length. -/
structure Sized (files : List FileSlot) (disk disk' : Disk) : Prop where
  sized : ∀ slot ∈ files, slot.padding = false →
    disk' slot.path = some (((disk slot.path).getD []).takeD slot.length 0)
  others : ∀ path, (∀ slot ∈ files, slot.padding = false → slot.path ≠ path) →
    disk' path = disk path

theorem sized_finalizeSlots (hfiles : Distinct files) (disk : Disk) :
    ∃ disk', finalizeSlots noFaults files disk = .ok () disk' ∧ Sized files disk disk' := by
  induction files generalizing disk with
  | nil => exact ⟨disk, rfl, nofun, fun _ _ => rfl⟩
  | cons slot rest ih =>
    obtain ⟨hslot, hrest⟩ := List.pairwise_cons.mp hfiles
    rw [finalizeSlots]
    by_cases hpad : slot.padding = true
    · rw [if_pos hpad]
      obtain ⟨disk', hfinal, hsized, hothers⟩ := ih hrest disk
      refine ⟨disk', hfinal, fun s hs hspad => ?_, fun path hpath => hothers path fun s hs =>
        hpath s (.tail _ hs)⟩
      rcases List.mem_cons.mp hs with rfl | hs
      · rw [hpad] at hspad
        cases hspad
      · exact hsized s hs hspad
    · have hpad' : slot.padding = false := Bool.eq_false_iff.mpr hpad
      rw [if_neg hpad, setLen_noFaults, Outcome.ok_andThen]
      obtain ⟨disk', hfinal, hsized, hothers⟩ := ih hrest
        (setFile disk slot (((disk slot.path).getD []).takeD slot.length 0))
      refine ⟨disk', hfinal, fun s hs hspad => ?_, fun path hpath => ?_⟩
      · rcases List.mem_cons.mp hs with rfl | hs
        · rw [hothers s.path fun t ht htpad => (hslot t ht hpad' htpad).symm]
          exact Function.update_self ..
        · rw [hsized s hs hspad, setFile_of_ne (hslot s hs hpad' hspad).symm]
      · rw [hothers path fun s hs => hpath s (.tail _ hs),
          setFile_of_ne (hpath slot (.head _) hpad').symm]

theorem Holds.sized (h : Holds files disk p b) (hsized : Sized files disk disk') :
    Holds files disk' p b := by
  intro slot hs hc
  have hat := h slot hs hc
  obtain ⟨hlo, hhi, hpad⟩ := hc
  rw [fileByte_eq] at hat
  rw [fileByte, hsized.sized slot hs hpad, Option.bind_some, Extent.getElem?_takeD,
    if_pos (by omega), hat]
  rfl

end Rsurl.Bittorrent
