import Rsurl.Bittorrent.Pieces

/-!
# Verified pieces

Pieces that match the hash table land in the right bytes, whatever the layout of the files and in
whatever order they come: every file gets its part of the data, and a window gets just its range.
-/

namespace Rsurl.Bittorrent

open Library

namespace Storage

variable {sha1 : Bytes → Bytes} {st st' : Storage}

/-- What every storage keeps. -/
structure Tiled (st : Storage) : Prop where
  apart : Apart st.files
  distinct : Distinct st.files
  len : st.have.len = st.numPieces

/-- `writePiece` takes the piece. -/
def Accepts (sha1 : Bytes → Bytes) (st : Storage) (index : Nat) (data : Bytes) : Prop :=
  index < st.numPieces ∧ data.length = st.pieceSize index ∧ st.hashes[index]? = some (sha1 data)

instance (index : Nat) (data : Bytes) : Decidable (st.Accepts sha1 index data) :=
  inferInstanceAs (Decidable (_ ∧ _ ∧ _))

def reads (st : Storage) (offset : Nat) (data : Bytes) : Prop :=
  Reads st.files st.disk offset data

/-! ## What one call does -/

/-- The data of a piece is refused, and nothing has changed. -/
theorem writePiece_refused (faults : Faults) {index : Nat} {data : Bytes}
    (h : ¬st.Accepts sha1 index data) : (st.writePiece sha1 faults index data).state = st := by
  unfold writePiece
  split_ifs with hrange hlength hhash
  · rfl
  · rfl
  · rfl
  · exact absurd ⟨Nat.lt_of_not_le hrange, not_not.mp hlength, (not_not.mp hhash).symm⟩ h

theorem writePiece_accepted {index : Nat} {data : Bytes} (hst : st.Tiled)
    (h : st.Accepts sha1 index data) :
    ∃ disk, st.writePiece sha1 noFaults index data =
        .ok true { st.withDisk disk with «have» := st.have.set index } ∧
      Written st.files (st.pieceLength * index) data st.disk disk := by
  obtain ⟨hrange, hlength, hhash⟩ := h
  obtain ⟨disk, hwrite, hwritten⟩ := written_writeFiles st.files hst.distinct
    (st.pieceLength * index) data st.disk
  refine ⟨disk, ?_, hwritten⟩
  rw [writePiece, if_neg (Nat.not_le.mpr hrange), if_neg (not_not.mpr hlength),
    if_neg (not_not.mpr hhash.symm), hwrite]
  rfl

theorem readAt_ok (hst : st.Tiled) {offset len : Nat} {buf : Bytes}
    (h : st.readAt noFaults offset len = .ok buf st') :
    buf.length = len ∧ st.reads offset buf := by
  unfold readAt at h
  cases hread : readFiles noFaults offset st.files (List.replicate len 0) st.disk with
  | ok out disk =>
    rw [hread] at h
    cases h
    exact reads_readFiles hst.apart hread
  | error e disk =>
    rw [hread] at h
    cases h

theorem readAt_of_reads (hst : st.Tiled) {offset : Nat} {data : Bytes}
    (h : st.reads offset data) :
    ∃ disk, st.readAt noFaults offset data.length = .ok data (st.withDisk disk) ∧
      Same st.disk disk := by
  obtain ⟨disk, hread, hsame⟩ := readFiles_of_reads hst.apart h
  exact ⟨disk, by rw [readAt, hread]; rfl, hsame⟩

theorem readAt_state (st : Storage) (offset len : Nat) :
    ∃ disk, (st.readAt noFaults offset len).state = st.withDisk disk ∧ Same st.disk disk := by
  have hsame := readFiles_same st.files offset (List.replicate len 0) st.disk
  refine ⟨_, ?_, hsame⟩
  rw [readAt, Outcome.state_mapState]

/-- A part of a piece that is held. -/
theorem readBlock_of_reads (hst : st.Tiled) {index start length : Nat} {data : Bytes}
    (hhas : st.has index = true) (hlen : data.length = st.pieceSize index)
    (hreads : st.reads (st.pieceLength * index) data) (hpart : start + length ≤ data.length) :
    ∃ st', st.readBlock noFaults index start length = .ok ((data.drop start).take length) st' := by
  have hslice := hreads.slice start length
  obtain ⟨disk, hread, -⟩ := readAt_of_reads hst hslice
  have htake : ((data.drop start).take length).length = length := by
    rw [List.length_take, List.length_drop]
    omega
  rw [htake] at hread
  refine ⟨st.withDisk disk, ?_⟩
  rw [readBlock, if_neg (by rw [hhas]; decide), if_neg (by omega), hread]

theorem finalizeFiles_ok (hst : st.Tiled) :
    ∃ disk, st.finalizeFiles noFaults = .ok () (st.withDisk disk) ∧
      Sized st.files st.disk disk := by
  obtain ⟨disk, hfinal, hsized⟩ := sized_finalizeSlots hst.distinct st.disk
  exact ⟨disk, by rw [finalizeFiles, hfinal]; rfl, hsized⟩

/-! ## Pieces -/

/-- Two pieces have no byte in common. -/
theorem piece_unique (st : Storage) {i j : Nat} (p : Nat) (hi : st.pieceLength * i ≤ p)
    (hi' : p < st.pieceLength * i + st.pieceSize i) (hj : st.pieceLength * j ≤ p)
    (hj' : p < st.pieceLength * j + st.pieceSize j) : i = j := by
  have hle (k : Nat) : st.pieceSize k ≤ st.pieceLength := Nat.min_le_right ..
  have hlt {a b : Nat} (ha : p < st.pieceLength * a + st.pieceSize a)
      (hb : st.pieceLength * b ≤ p) : b ≤ a := by
    have hstep : p < st.pieceLength * (a + 1) := by
      rw [Nat.mul_succ]
      exact ha.trans_le (Nat.add_le_add_left (hle a) _)
    exact Nat.lt_succ_iff.mp (Nat.lt_of_mul_lt_mul_left (hb.trans_lt hstep))
  exact Nat.le_antisymm (hlt hj' hi) (hlt hi' hj)

/-- What a write has put there. -/
theorem holds_inside {files : List FileSlot} {offset : Nat} {data : Bytes} {disk disk' : Disk}
    (hw : Written files offset data disk disk') {k : Nat} {b : UInt8} (hb : data[k]? = some b) :
    Holds files disk' (offset + k) b := by
  intro slot hs hc
  have hk := (List.getElem?_eq_some_iff.mp hb).1
  rw [hw.inside slot hs _ hc (by omega) (by omega), Nat.add_sub_cancel_left, hb]

theorem holds_outside {files : List FileSlot} {offset p : Nat} {data : Bytes} {disk disk' : Disk}
    (hw : Written files offset data disk disk') (hp : p < offset ∨ offset + data.length ≤ p)
    {b : UInt8} (h : Holds files disk p b) : Holds files disk' p b := fun slot hs hc =>
  hw.outside slot hs p b hc hp (h slot hs hc)

/-- A byte of one piece is no byte of another. -/
theorem outside_piece (st : Storage) {i j k : Nat} (hij : i ≠ j) (hk : k < st.pieceSize j) :
    st.pieceLength * j + k < st.pieceLength * i ∨
      st.pieceLength * i + st.pieceSize i ≤ st.pieceLength * j + k := by
  by_contra hin
  refine hij (piece_unique st (st.pieceLength * j + k) ?_ ?_ ?_ ?_) <;> omega

/-! ## Runs of calls -/

/-- The data of piece `i`. -/
def pieceOf (pieceLength : Nat) (D : Bytes) (i : Nat) : Bytes :=
  (D.drop (pieceLength * i)).take pieceLength

/-- The hash table is that of `D`, and covers it. -/
structure Table (sha1 : Bytes → Bytes) (pieceLength : Nat) (hashes : List Bytes) (D : Bytes) :
    Prop where
  count : hashes.length = (D.length + pieceLength - 1) / pieceLength
  hash : ∀ i, i < hashes.length → hashes[i]? = some (sha1 (pieceOf pieceLength D i))

/-- Calls of `writePiece`, whose accesses to the files succeed. -/
def writePieces (sha1 : Bytes → Bytes) (calls : List (Nat × Bytes)) (st : Storage) : Storage :=
  calls.foldl (fun st call => (st.writePiece sha1 noFaults call.1 call.2).state) st

/-- What does not change while pieces are written. -/
structure SameShape (st st' : Storage) : Prop where
  pieceLength : st'.pieceLength = st.pieceLength
  total : st'.total = st.total
  hashes : st'.hashes = st.hashes
  files : st'.files = st.files

/-- The pieces that were verified since `start` are on disk. -/
structure Landed (D : Bytes) (start st : Storage) : Prop where
  shape : SameShape start st
  tiled : st.Tiled
  kept : ∀ i, start.has i = true → st.has i = true
  verified : ∀ i, st.has i = true → start.has i = true ∨
    ∀ k b, (pieceOf start.pieceLength D i)[k]? = some b →
      Holds start.files st.disk (start.pieceLength * i + k) b

theorem landed_start {D : Bytes} (hst : st.Tiled) : Landed D st st :=
  ⟨⟨rfl, rfl, rfl, rfl⟩, hst, fun _ h => h, fun _ h => .inl h⟩

theorem SameShape.pieceSize (h : SameShape st st') (i : Nat) : st'.pieceSize i = st.pieceSize i := by
  rw [Storage.pieceSize, Storage.pieceSize, h.total, h.pieceLength]

theorem SameShape.accepts (h : SameShape st st') (i : Nat) (data : Bytes) :
    st'.Accepts sha1 i data ↔ st.Accepts sha1 i data := by
  rw [Accepts, Accepts, h.pieceSize, h.hashes, numPieces, numPieces, h.hashes]

variable {D : Bytes} {start : Storage}

theorem Landed.step (h : Landed D start st) (htotal : D.length = start.total)
    {i : Nat} {data : Bytes}
    (hdata : start.Accepts sha1 i data → data = pieceOf start.pieceLength D i) :
    Landed D start (st.writePiece sha1 noFaults i data).state ∧
      (∀ j, st.has j = true → (st.writePiece sha1 noFaults i data).state.has j = true) ∧
      (start.Accepts sha1 i data → (st.writePiece sha1 noFaults i data).state.has i = true) := by
  by_cases hacc : st.Accepts sha1 i data
  · obtain ⟨disk, hwrite, hw⟩ := writePiece_accepted h.tiled hacc
    rw [hwrite]
    have hhas (j : Nat) : (st.have.set i).has j = (st.has j || decide (j = i)) := by
      have hi : i < st.have.len := by
        rw [h.tiled.len]
        exact hacc.1
      rw [Bitfield.has_set, decide_eq_true hi, Bool.and_true]
      rfl
    have hkept (j : Nat) (hj : st.has j = true) : (st.have.set i).has j = true := by
      rw [hhas, hj]
      rfl
    refine ⟨⟨⟨h.shape.1, h.shape.2, h.shape.3, h.shape.4⟩, ⟨h.tiled.apart, h.tiled.distinct, ?_⟩,
      fun j hj => hkept j (h.kept j hj), fun j hj => ?_⟩, hkept, fun _ => ?_⟩
    · exact (Bitfield.len_set _ _).trans h.tiled.len
    · have hfiles : st.files = start.files := h.shape.files
      have hlength : st.pieceLength = start.pieceLength := h.shape.pieceLength
      have hw' := hfiles ▸ hlength ▸ hw
      by_cases hji : j = i
      · subst hji
        refine .inr fun k b hb => holds_inside hw' ?_
        rwa [hdata ((h.shape.accepts j data).mp hacc)]
      · have hold : st.has j = true := by
          have := (hhas j).symm.trans hj
          simpa [hji] using this
        refine (h.verified j hold).imp_right fun hholds k b hb => holds_outside hw' ?_ (hholds k b hb)
        have hk := (List.getElem?_eq_some_iff.mp hb).1
        rw [pieceOf, List.length_take, List.length_drop, htotal] at hk
        have hsize : k < st.pieceSize j := by
          rw [h.shape.pieceSize, Storage.pieceSize]
          omega
        have hout := outside_piece st (fun hij => hji hij.symm) hsize
        rwa [← hacc.2.1, hlength] at hout
    · show (st.have.set i).has i = true
      rw [hhas]
      simp
  · rw [writePiece_refused noFaults hacc]
    exact ⟨h, fun _ hj => hj, fun hacc' => absurd ((h.shape.accepts i data).mpr hacc') hacc⟩

theorem Landed.run (h : Landed D start st) (htotal : D.length = start.total)
    {calls : List (Nat × Bytes)}
    (hcalls : ∀ i data, (i, data) ∈ calls → start.Accepts sha1 i data →
      data = pieceOf start.pieceLength D i) :
    Landed D start (writePieces sha1 calls st) ∧
      (∀ j, st.has j = true → (writePieces sha1 calls st).has j = true) ∧
      (∀ i data, (i, data) ∈ calls → start.Accepts sha1 i data →
        (writePieces sha1 calls st).has i = true) := by
  induction calls generalizing st with
  | nil => exact ⟨h, fun _ hj => hj, nofun⟩
  | cons call rest ih =>
    obtain ⟨hstep, hkept, hnew⟩ := h.step htotal (hcalls call.1 call.2 (.head _))
    obtain ⟨hrun, hkept', hnew'⟩ := ih hstep fun i data hmem => hcalls i data (.tail _ hmem)
    refine ⟨hrun, fun j hj => hkept' j (hkept j hj), fun i data hmem hacc => ?_⟩
    rcases List.mem_cons.mp hmem with rfl | hmem
    · exact hkept' _ (hnew hacc)
    · exact hnew' i data hmem hacc

/-! ## Layouts -/

theorem mem_slotsFrom {first : Nat} {layout : List (String × Nat)} {slot : FileSlot}
    (h : slot ∈ slotsFrom first layout) : first ≤ slot.start ∧
      slot.start + slot.length ≤ first + layoutTotal layout ∧ slot.padding = false ∧
      slot.path ∈ layout.map (·.1) := by
  induction layout generalizing first with
  | nil => cases h
  | cons e rest ih =>
    have htotal : layoutTotal (e :: rest) = e.2 + layoutTotal rest := List.sum_cons
    rcases List.mem_cons.mp h with rfl | h
    · exact ⟨le_rfl, by simp only [htotal]; omega, rfl, .head _⟩
    · obtain ⟨hlo, hhi, hpad, hpath⟩ := ih h
      exact ⟨by omega, by omega, hpad, .tail _ hpath⟩

theorem apart_slotsFrom (first : Nat) (layout : List (String × Nat)) :
    Apart (slotsFrom first layout) := by
  induction layout generalizing first with
  | nil => exact .nil
  | cons e rest ih => exact .cons (fun slot hs => (mem_slotsFrom hs).1) (ih _)

theorem distinct_slotsFrom (first : Nat) {layout : List (String × Nat)}
    (h : (layout.map (·.1)).Nodup) : Distinct (slotsFrom first layout) := by
  induction layout generalizing first with
  | nil => exact .nil
  | cons e rest ih =>
    obtain ⟨hnot, hrest⟩ := List.nodup_cons.mp h
    refine .cons (fun slot hs _ _ heq => hnot ?_) (ih _ hrest)
    have hmem := (mem_slotsFrom hs).2.2.2
    rwa [← heq] at hmem

theorem getElem?_slotsFrom (first : Nat) (layout : List (String × Nat)) (k : Nat) :
    (slotsFrom first layout)[k]? =
      layout[k]?.map fun e => ⟨e.1, e.2, first + layoutTotal (layout.take k), false⟩ := by
  induction layout generalizing first k with
  | nil => rfl
  | cons e rest ih =>
    cases k with
    | zero => rfl
    | succ k =>
      rw [slotsFrom, List.getElem?_cons_succ, ih, List.getElem?_cons_succ, List.take_succ_cons]
      have htotal : layoutTotal (e :: rest.take k) = e.2 + layoutTotal (rest.take k) := List.sum_cons
      rw [htotal, Nat.add_assoc]

theorem exists_slotsFrom {first : Nat} {layout : List (String × Nat)} {p : Nat} (hlo : first ≤ p)
    (hhi : p < first + layoutTotal layout) :
    ∃ slot ∈ slotsFrom first layout, slot.start ≤ p ∧ p < slot.start + slot.length := by
  induction layout generalizing first with
  | nil => exact absurd hhi (Nat.not_lt.mpr hlo)
  | cons e rest ih =>
    have htotal : layoutTotal (e :: rest) = e.2 + layoutTotal rest := List.sum_cons
    by_cases hp : p < first + e.2
    · exact ⟨_, .head _, hlo, hp⟩
    · obtain ⟨slot, hs, hc⟩ := @ih (first + e.2) (Nat.le_of_not_lt hp) (by omega)
      exact ⟨slot, .tail _ hs, hc⟩

theorem create_eq {layout : List (String × Nat)} {pieceLength : Nat} {hashes : List Bytes}
    {disk : Disk} (h : create layout pieceLength hashes disk = .ok st) :
    0 < pieceLength ∧ st = ⟨pieceLength, layoutTotal layout, hashes, slotsFrom 0 layout,
      Bitfield.new hashes.length, none, disk⟩ := by
  unfold create at h
  split_ifs at h with hzero hbig
  cases h
  exact ⟨Nat.pos_of_ne_zero hzero, rfl⟩

theorem createWindow_eq {out : String} {pieceLength total first last : Nat} {hashes : List Bytes}
    {disk : Disk}
    (h : createWindow out pieceLength hashes total first last disk = some (.ok st)) :
    0 < pieceLength ∧ st = ⟨pieceLength, total, hashes,
      [⟨out, min last total - min first (min last total), min first (min last total), false⟩],
      premarked pieceLength total (min first (min last total)) (min last total) hashes.length,
      some (min first (min last total), min last total), disk⟩ := by
  unfold createWindow at h
  split_ifs at h with hzero hbig
  · cases h
  · cases h
    exact ⟨Nat.pos_of_ne_zero hzero, rfl⟩

theorem tiled_create {layout : List (String × Nat)} {pieceLength : Nat} {hashes : List Bytes}
    {disk : Disk} (h : create layout pieceLength hashes disk = .ok st)
    (hpaths : (layout.map (·.1)).Nodup) : st.Tiled := by
  obtain ⟨-, rfl⟩ := create_eq h
  exact ⟨apart_slotsFrom 0 layout, distinct_slotsFrom 0 hpaths, rfl⟩

theorem has_premarked (pieceLength total first last numPieces i : Nat) :
    (premarked pieceLength total first last numPieces).has i = true ↔
      i < numPieces ∧ overlaps pieceLength total first last i = false := by
  have hfold (n : Nat) : ((List.range n).foldl
      (fun bf i => if overlaps pieceLength total first last i then bf else bf.set i)
        (Bitfield.new numPieces)).len = numPieces ∧
      (((List.range n).foldl
      (fun bf i => if overlaps pieceLength total first last i then bf else bf.set i)
        (Bitfield.new numPieces)).has i = true ↔
        i < n ∧ i < numPieces ∧ overlaps pieceLength total first last i = false) := by
    induction n with
    | zero => simp
    | succ n ih =>
      rw [List.range_succ, List.foldl_append, List.foldl_cons, List.foldl_nil]
      by_cases hover : overlaps pieceLength total first last n = true
      · rw [if_pos hover]
        refine ⟨ih.1, ih.2.trans (and_congr_left fun h => ?_)⟩
        have hne : i ≠ n := by
          rintro rfl
          rw [hover] at h
          exact absurd h.2 (by decide)
        omega
      · rw [if_neg hover]
        refine ⟨(Bitfield.len_set _ _).trans ih.1, ?_⟩
        rw [Bitfield.has_set, Bool.or_eq_true, ih.2, ih.1]
        by_cases hin : i = n
        · subst hin
          simp [hover]
        · have hlt : i < n + 1 ↔ i < n := by omega
          simp [hin, hlt]
  refine (hfold numPieces).2.trans ?_
  simp

theorem len_premarked (pieceLength total first last numPieces : Nat) :
    (premarked pieceLength total first last numPieces).len = numPieces := by
  unfold premarked
  generalize List.range numPieces = indices
  have hfold (bf : Bitfield) : (indices.foldl
      (fun bf i => if overlaps pieceLength total first last i then bf else bf.set i) bf).len =
      bf.len := by
    induction indices generalizing bf with
    | nil => rfl
    | cons i rest ih =>
      rw [List.foldl_cons, ih]
      split
      · rfl
      · exact Bitfield.len_set ..
  exact hfold _

/-! ## The finished files -/

variable {pieceLength : Nat} {hashes : List Bytes}

/-- Every byte is in a piece. -/
theorem Table.piece (h : Table sha1 pieceLength hashes D) (hpos : 0 < pieceLength) {p : Nat}
    (hp : p < D.length) : p / pieceLength < hashes.length ∧
      (pieceOf pieceLength D (p / pieceLength))[p % pieceLength]? = D[p]? ∧
      pieceLength * (p / pieceLength) + p % pieceLength = p := by
  have hdiv := Nat.div_add_mod p pieceLength
  have hmod := Nat.mod_lt p hpos
  refine ⟨?_, ?_, hdiv⟩
  · rw [h.count, Nat.div_lt_iff_lt_mul hpos]
    have hceil := Nat.div_add_mod (D.length + pieceLength - 1) pieceLength
    have hrest := Nat.mod_lt (D.length + pieceLength - 1) hpos
    rw [Nat.mul_comm]
    omega
  · rw [pieceOf, List.getElem?_take, if_pos hmod, List.getElem?_drop, hdiv]

/-- A file whose bytes are all on disk, cut to its length. -/
theorem file_exact {files : List FileSlot} {disk disk' : Disk} {slot : FileSlot}
    (hs : slot ∈ files) (hpad : slot.padding = false) (hlen : slot.start + slot.length ≤ D.length)
    (h : ∀ p b, slot.Covers p → D[p]? = some b → Holds files disk p b)
    (hsized : Sized files disk disk') :
    ((disk slot.path).getD []).take slot.length = (D.drop slot.start).take slot.length ∧
      disk' slot.path = some ((D.drop slot.start).take slot.length) := by
  have hbyte (q : Nat) (hq : q < slot.length) :
      ((disk slot.path).getD [])[q]? = D[slot.start + q]? := by
    have hget := List.getElem?_eq_getElem (l := D) (i := slot.start + q) (by omega)
    have hc : slot.Covers (slot.start + q) := ⟨by omega, by omega, hpad⟩
    have hat := h _ _ hc hget slot hs hc
    rwa [fileByte_eq, Nat.add_sub_cancel_left, ← hget] at hat
  refine ⟨List.ext_getElem? fun q => ?_, ?_⟩
  · rw [List.getElem?_take, List.getElem?_take, List.getElem?_drop]
    split
    · exact hbyte q ‹_›
    · rfl
  · rw [hsized.sized slot hs hpad]
    congr 1
    refine List.ext_getElem? fun q => ?_
    rw [Extent.getElem?_takeD, List.getElem?_take, List.getElem?_drop]
    split
    · rw [hbyte q ‹_›, List.getElem?_eq_getElem (by omega)]
      rfl
    · rfl

/-- The call is refused: the hash or the length is wrong, or there is no such piece. -/
def Rejected (sha1 : Bytes → Bytes) (pieceLength total : Nat) (hashes : List Bytes) (i : Nat)
    (data : Bytes) : Prop :=
  hashes[i]? ≠ some (sha1 data) ∨ data.length ≠ min (total - pieceLength * i) pieceLength

/-- Reading blocks gives the bytes of `D`. -/
def Serves (st : Storage) (D : Bytes) : Prop :=
  ∀ i start length, i < st.numPieces → start + length ≤ st.pieceSize i →
    ∃ st', st.readBlock noFaults i start length =
      .ok ((D.drop (st.pieceLength * i + start)).take length) st'

theorem serves_of_holds (hst : st.Tiled) (htotal : st.total = D.length)
    (hhas : ∀ i, i < st.numPieces → st.has i = true)
    (h : ∀ p b, D[p]? = some b → Holds st.files st.disk p b ∧ ∃ slot ∈ st.files, slot.Covers p) :
    st.Serves D := by
  intro i start length hi hpart
  have hlen : (pieceOf st.pieceLength D i).length = st.pieceSize i := by
    rw [pieceOf, List.length_take, List.length_drop, pieceSize, htotal]
    exact Nat.min_comm ..
  have hreads : st.reads (st.pieceLength * i) (pieceOf st.pieceLength D i) := by
    intro k b hb
    rw [pieceOf, List.getElem?_take] at hb
    split at hb
    · rw [List.getElem?_drop] at hb
      obtain ⟨hholds, slot, hs, hc⟩ := h _ b hb
      exact ⟨hholds, fun hno => absurd hc (hno slot hs)⟩
    · cases hb
  obtain ⟨st', hblock⟩ := readBlock_of_reads hst (hhas i hi) hlen hreads (hlen.symm ▸ hpart)
  have hshort : start + length ≤ st.pieceLength := hpart.trans (Nat.min_le_right ..)
  refine ⟨st', hblock.trans ?_⟩
  rw [pieceOf, List.drop_take, List.drop_drop, List.take_take, Nat.min_eq_left (by omega)]

end Storage

open Storage

/-- Every layout: once all the pieces were written, the files are the data, whatever they held
before. -/
def LandsFull (sha1 : Bytes → Bytes) (pieceLength : Nat) (hashes : List Bytes) (D : Bytes)
    (calls : List (Nat × Bytes)) : Prop :=
  ∀ layout disk st, create layout pieceLength hashes disk = .ok st → (layout.map (·.1)).Nodup →
    layoutTotal layout = D.length →
    (∀ i, i < hashes.length → (i, pieceOf pieceLength D i) ∈ calls) →
    (writePieces sha1 calls st).isComplete = true ∧ (writePieces sha1 calls st).Serves D ∧
      ∃ done, (writePieces sha1 calls st).finalizeFiles noFaults = .ok () done ∧ done.Serves D ∧
        ∀ k path length, layout[k]? = some (path, length) →
          done.disk path = some ((D.drop (layoutTotal (layout.take k))).take length)

/-- Every window: once no piece is lacking, its file is the range. -/
def LandsWindow (sha1 : Bytes → Bytes) (pieceLength : Nat) (hashes : List Bytes) (D : Bytes)
    (calls : List (Nat × Bytes)) : Prop :=
  ∀ out first last disk st,
    createWindow out pieceLength hashes D.length first last disk = some (.ok st) →
    (writePieces sha1 calls st).isComplete = true →
    let range := (D.take last).drop first
    (((writePieces sha1 calls st).disk out).getD []).take range.length = range ∧
      ∃ done, (writePieces sha1 calls st).finalizeFiles noFaults = .ok () done ∧
        done.disk out = some range

variable {sha1 : Bytes → Bytes} {pieceLength : Nat} {hashes : List Bytes} {D : Bytes}
  {calls : List (Nat × Bytes)}

theorem accepted_or_refused (st : Storage) (hlength : st.pieceLength = pieceLength)
    (hhashes : st.hashes = hashes) (htotal : st.total = D.length)
    (hcalls : ∀ i data, (i, data) ∈ calls →
      data = pieceOf pieceLength D i ∨ Rejected sha1 pieceLength D.length hashes i data)
    (i : Nat) (data : Bytes) (hmem : (i, data) ∈ calls) (hacc : st.Accepts sha1 i data) :
    data = pieceOf st.pieceLength D i := by
  obtain ⟨-, hlen, hhash⟩ := hacc
  rw [hhashes] at hhash
  rw [pieceSize, hlength, htotal] at hlen
  rw [hlength]
  rcases hcalls i data hmem with h | h | h
  · exact h
  · exact absurd hhash h
  · exact absurd hlen h

theorem accepts_piece {st : Storage} (htable : Table sha1 pieceLength hashes D)
    (hlength : st.pieceLength = pieceLength) (hhashes : st.hashes = hashes)
    (htotal : st.total = D.length) {i : Nat} (hi : i < hashes.length) :
    st.Accepts sha1 i (pieceOf pieceLength D i) := by
  refine ⟨by rwa [numPieces, hhashes], ?_, by rw [hhashes, htable.hash i hi]⟩
  rw [pieceOf, List.length_take, List.length_drop, pieceSize, hlength, htotal]
  exact Nat.min_comm ..

theorem lands_full (htable : Table sha1 pieceLength hashes D)
    (hcalls : ∀ i data, (i, data) ∈ calls →
      data = pieceOf pieceLength D i ∨ Rejected sha1 pieceLength D.length hashes i data) :
    LandsFull sha1 pieceLength hashes D calls := by
  intro layout disk st hcreate hpaths htotal hall
  have hst := tiled_create hcreate hpaths
  obtain ⟨hpos, rfl⟩ := create_eq hcreate
  set st : Storage := ⟨pieceLength, layoutTotal layout, hashes, slotsFrom 0 layout,
    Bitfield.new hashes.length, none, disk⟩ with hdef
  obtain ⟨hrun, -, hnew⟩ := (landed_start hst).run htotal.symm
    (accepted_or_refused st rfl rfl htotal hcalls)
  set full := writePieces sha1 calls st with hfull
  have hhas (i : Nat) (hi : i < hashes.length) : full.has i = true :=
    hnew i _ (hall i hi) (accepts_piece htable rfl rfl htotal hi)
  have hnum : full.numPieces = hashes.length := congrArg List.length hrun.shape.hashes
  have hbytes (p : Nat) (b : UInt8) (hb : D[p]? = some b) :
      Holds st.files full.disk p b ∧ ∃ slot ∈ st.files, slot.Covers p := by
    have hp := (List.getElem?_eq_some_iff.mp hb).1
    obtain ⟨hi, hget, hat⟩ := htable.piece hpos hp
    refine ⟨?_, ?_⟩
    · rcases hrun.verified _ (hhas _ hi) with h | h
      · rw [Storage.has, Bitfield.has_new] at h
        cases h
      · have := h (p % pieceLength) b (hget.trans hb)
        rwa [hat] at this
    · obtain ⟨slot, hs, hlo, hhi⟩ := exists_slotsFrom (Nat.zero_le p)
        (by omega : p < 0 + layoutTotal layout)
      exact ⟨slot, hs, hlo, hhi, (mem_slotsFrom hs).2.2.1⟩
  have hfiles : full.files = st.files := hrun.shape.files
  have hfulltotal : full.total = D.length := hrun.shape.total.trans htotal
  obtain ⟨disk', hfinal, hsized⟩ := finalizeFiles_ok hrun.tiled
  refine ⟨?_, ?_, full.withDisk disk', hfinal, ?_, ?_⟩
  · rw [Storage.isComplete, Bitfield.isComplete_iff]
    intro i hi
    rw [hrun.tiled.len, hnum] at hi
    exact hhas i hi
  · exact serves_of_holds hrun.tiled hfulltotal (fun i hi => hhas i (hnum ▸ hi)) (hfiles ▸ hbytes)
  · refine serves_of_holds ⟨hrun.tiled.apart, hrun.tiled.distinct, hrun.tiled.len⟩ hfulltotal
      (fun i hi => hhas i (hnum ▸ hi)) fun p b hb => ?_
    obtain ⟨hholds, hcover⟩ := (hfiles ▸ hbytes) p b hb
    exact ⟨hholds.sized hsized, hcover⟩
  · intro k path length hk
    have hslot : (slotsFrom 0 layout)[k]? =
        some ⟨path, length, layoutTotal (layout.take k), false⟩ := by
      rw [getElem?_slotsFrom, hk, Nat.zero_add]
      rfl
    have hs := List.mem_of_getElem? hslot
    have hbound := (mem_slotsFrom hs).2.1
    have hsfull : (⟨path, length, layoutTotal (layout.take k), false⟩ : FileSlot) ∈ full.files := by
      rw [hfiles]
      exact hs
    refine (file_exact (D := D) hsfull rfl ?_ (fun p b _ hb => ?_) hsized).2
    · simp only at hbound ⊢
      omega
    · rw [hfiles]
      exact (hbytes p b hb).1

theorem range_eq (D : Bytes) (first last : Nat) : (D.take last).drop first =
    (D.drop (min first (min last D.length))).take
      (min last D.length - min first (min last D.length)) := by
  refine List.ext_getElem? fun q => ?_
  rw [List.getElem?_drop, List.getElem?_take, List.getElem?_take, List.getElem?_drop]
  by_cases hq : first + q < min last D.length
  · rw [if_pos (by omega), if_pos (by omega)]
    congr 1
    omega
  · rw [if_neg (c := q < _) (by omega)]
    split
    · exact List.getElem?_eq_none (by omega)
    · rfl

theorem lands_window (htable : Table sha1 pieceLength hashes D)
    (hcalls : ∀ i data, (i, data) ∈ calls →
      data = pieceOf pieceLength D i ∨ Rejected sha1 pieceLength D.length hashes i data) :
    LandsWindow sha1 pieceLength hashes D calls := by
  intro out first last disk st hcreate hcomplete
  dsimp only
  obtain ⟨hpos, rfl⟩ := createWindow_eq hcreate
  rw [range_eq]
  set hi := min last D.length with hhi
  set lo := min first hi with hlo
  set slot : FileSlot := ⟨out, hi - lo, lo, false⟩ with hslot
  set st : Storage := ⟨pieceLength, D.length, hashes, [slot],
    premarked pieceLength D.length lo hi hashes.length, some (lo, hi), disk⟩ with hdef
  have hst : st.Tiled := ⟨List.pairwise_singleton .., List.pairwise_singleton ..,
    len_premarked ..⟩
  obtain ⟨hrun, -, -⟩ := (landed_start hst).run rfl
    (accepted_or_refused st rfl rfl rfl hcalls)
  set full := writePieces sha1 calls st with hfull
  have hfiles : full.files = [slot] := hrun.shape.files
  have hnum : full.numPieces = hashes.length := congrArg List.length hrun.shape.hashes
  obtain ⟨disk', hfinal, hsized⟩ := finalizeFiles_ok hrun.tiled
  have hs : slot ∈ full.files := hfiles ▸ .head _
  have hexact := file_exact (D := D) hs rfl (by show lo + (hi - lo) ≤ D.length; omega)
    (fun p b hc hb => ?_) hsized
  · refine ⟨?_, full.withDisk disk', hfinal, hexact.2⟩
    have hlen : ((D.drop lo).take (hi - lo)).length = hi - lo := by
      rw [List.length_take, List.length_drop]
      omega
    rw [hlen]
    exact hexact.1
  · have hp := (List.getElem?_eq_some_iff.mp hb).1
    obtain ⟨hpi, hget, hat⟩ := htable.piece hpos hp
    have hmod := Nat.mod_lt p hpos
    obtain ⟨hfrom, hto, -⟩ := hc
    have hto' : p < lo + (hi - lo) := hto
    have hfrom' : lo ≤ p := hfrom
    have hhas : full.has (p / pieceLength) = true := by
      rw [Storage.isComplete, Bitfield.isComplete_iff] at hcomplete
      refine hcomplete _ ?_
      rw [hrun.tiled.len, hnum]
      exact hpi
    rcases hrun.verified _ hhas with h | h
    · have hover := ((has_premarked ..).mp h).2
      rw [overlaps, decide_eq_false_iff_not] at hover
      omega
    · have hholds := h (p % pieceLength) b (hget.trans hb)
      have hat' : st.pieceLength * (p / pieceLength) + p % pieceLength = p := hat
      rw [hat'] at hholds
      rw [hfiles]
      exact hholds

/-- Verified pieces land in the right bytes. -/
theorem pieces_land (sha1 : Bytes → Bytes) {pieceLength : Nat} {hashes : List Bytes} {D : Bytes}
    (htable : Table sha1 pieceLength hashes D) {calls : List (Nat × Bytes)}
    (hcalls : ∀ i data, (i, data) ∈ calls →
      data = pieceOf pieceLength D i ∨ Rejected sha1 pieceLength D.length hashes i data) :
    LandsFull sha1 pieceLength hashes D calls ∧ LandsWindow sha1 pieceLength hashes D calls ∧
      ∀ (st : Storage) faults i data, st.hashes[i]? ≠ some (sha1 data) →
        (st.writePiece sha1 faults i data).state = st :=
  ⟨lands_full htable hcalls, lands_window htable hcalls, fun _ faults _ _ h =>
    writePiece_refused faults fun hacc => h hacc.2.2⟩

/-- SHA-1 of what the small torrents here are made of. -/
def smallSha1 (data : Bytes) : Bytes :=
  if data = [1, 2] then
    [12, 166, 35, 226, 133, 95, 44, 117, 200, 66, 173, 48, 47, 232, 32, 228, 27, 77, 25, 125]
  else if data = [3] then
    [152, 66, 146, 106, 247, 202, 10, 140, 202, 18, 96, 79, 148, 84, 20, 240, 123, 1, 225, 61]
  else if data = [1, 1] then
    [145, 89, 203, 139, 206, 231, 252, 185, 85, 130, 241, 64, 150, 12, 218, 231, 39, 136, 211, 38]
  else if data = [1, 0] then
    [14, 53, 107, 165, 5, 99, 31, 191, 113, 87, 88, 190, 210, 125, 80, 63, 139, 38, 14, 58]
  else []

theorem pieces_land_three : LandsFull smallSha1 2 [smallSha1 [1, 2], smallSha1 [3]] [1, 2, 3]
    [(1, [3]), (0, [1, 1]), (0, [1, 2])] := by
  refine (pieces_land smallSha1 ⟨rfl, ?_⟩ ?_).1
  · intro i hi
    have hi' : i < 2 := hi
    interval_cases i <;> rfl
  · intro i data hmem
    simp only [List.mem_cons, Prod.mk.injEq, List.not_mem_nil, or_false] at hmem
    rcases hmem with ⟨rfl, rfl⟩ | ⟨rfl, rfl⟩ | ⟨rfl, rfl⟩
    · exact .inl rfl
    · exact .inr (.inl (by decide))
    · exact .inl rfl

end Rsurl.Bittorrent
