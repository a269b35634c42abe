import Rsurl.Bittorrent.Verified

/-!
# Seeding

A seed serves blocks of the pieces whose bit is set. Such a piece reads back as data that matches its
hash, as long as the pieces that were taken have zeros for their padding: the bytes of a padding file
are hashed with the piece, but neither stored nor compared with the zeros that a reader gets for them.
-/

namespace Rsurl.Bittorrent

open Library Storage

/-! ## The server -/

/-- Wire messages, as far as a seed tells them apart. -/
inductive Message where
  | interested
  | unchoke
  | request (index start length : Nat)
  | piece (index start : Nat) (block : Bytes)
  | other
  deriving DecidableEq, Repr

def maxRequest : Nat := 128 * 1024

def seedErr (msg : String) : Error := .badResponse ("bt seed: " ++ msg)

/-- The answer to one message. -/
def answer (faults : Faults) (numPieces : Nat) (msg : Message) (st : Storage) :
    Outcome Storage (List Message) :=
  match msg with
  | .interested => .ok [.unchoke] st
  | .request index start length =>
    if maxRequest < length ∨ numPieces ≤ index then .error (seedErr "invalid request") st
    else (st.readBlock faults index start length).andThen fun block st =>
      .ok [.piece index start block] st
  | _ => .ok [] st

/-- What a peer is sent until its connection ends. -/
def serve (faults : Faults) (numPieces : Nat) : List Message → Storage → List Message
  | [], _ => []
  | msg :: rest, st =>
    match answer faults numPieces msg st with
    | .ok sent st => sent ++ serve faults numPieces rest st
    | .error _ _ => []

/-- A call on a storage, all of whose accesses succeed. -/
inductive Op where
  | writePiece (index : Nat) (data : Bytes)
  | recheck
  | finalizeFiles
  deriving DecidableEq, Repr

def Op.apply (sha1 : Bytes → Bytes) (op : Op) (st : Storage) : Storage :=
  match op with
  | .writePiece index data => (st.writePiece sha1 noFaults index data).state
  | .recheck => st.recheck sha1 noFaults
  | .finalizeFiles => (st.finalizeFiles noFaults).state

def applyAll (sha1 : Bytes → Bytes) (ops : List Op) (st : Storage) : Storage :=
  ops.foldl (fun st op => op.apply sha1 st) st

/-- The files of a layout that are padding. -/
def markPadding (padding : List Nat) (st : Storage) : Storage :=
  padding.foldl (fun st file => st.setPadding file) st

namespace Storage

variable {sha1 : Bytes → Bytes} {st st' : Storage}

/-- The data has zeros where the piece lies in padding. -/
def ZeroPadded (st : Storage) (index : Nat) (data : Bytes) : Prop :=
  ∀ k b, data[k]? = some b →
    (∃ slot ∈ st.files, slot.padding = true ∧ slot.start ≤ st.pieceLength * index + k ∧
      st.pieceLength * index + k < slot.start + slot.length) → b = 0

/-- A piece that is taken has zeros for its padding. -/
def PaddedOp (sha1 : Bytes → Bytes) (st : Storage) : Op → Prop
  | .writePiece index data => st.Accepts sha1 index data → st.ZeroPadded index data
  | _ => True

/-- The piece whose hash is in the table reads back. -/
def Genuine (sha1 : Bytes → Bytes) (st : Storage) (i : Nat) : Prop :=
  ∃ data, st.hashes[i]? = some (sha1 data) ∧ data.length = st.pieceSize i ∧
    st.reads (st.pieceLength * i) data

/-- Every set bit stands for a piece that reads back. -/
structure Matched (sha1 : Bytes → Bytes) (st : Storage) : Prop where
  tiled : st.Tiled
  tile : ∀ p, p < st.total → ∃ slot ∈ st.files, slot.start ≤ p ∧ p < slot.start + slot.length
  genuine : ∀ i, st.has i = true → st.Genuine sha1 i

/-! ## Each call -/

theorem Matched.writePiece (h : st.Matched sha1) (index : Nat) (data : Bytes)
    (hzero : st.Accepts sha1 index data → st.ZeroPadded index data) :
    (st.writePiece sha1 noFaults index data).state.Matched sha1 ∧
      SameShape st (st.writePiece sha1 noFaults index data).state := by
  by_cases hacc : st.Accepts sha1 index data
  · obtain ⟨disk, hwrite, hw⟩ := writePiece_accepted h.tiled hacc
    rw [hwrite]
    refine ⟨⟨⟨h.tiled.apart, h.tiled.distinct, (Bitfield.len_set _ _).trans h.tiled.len⟩, h.tile,
      fun i hi => ?_⟩, rfl, rfl, rfl, rfl⟩
    by_cases hin : i = index
    · subst hin
      refine ⟨data, hacc.2.2, hacc.2.1, fun k b hb => ⟨holds_inside hw hb, fun hno => ?_⟩⟩
      have hk := (List.getElem?_eq_some_iff.mp hb).1
      have hsize : data.length = st.pieceSize i := hacc.2.1
      have hbound : st.pieceLength * i + k < st.total := by
        rw [pieceSize] at hsize
        omega
      obtain ⟨slot, hs, hlo, hhi⟩ := h.tile _ hbound
      refine hzero hacc k b hb ⟨slot, hs, ?_, hlo, hhi⟩
      by_contra hpad
      exact hno slot hs ⟨hlo, hhi, Bool.eq_false_iff.mpr hpad⟩
    · have hold : st.has i = true := by
        have hset : (st.have.set index).has i = true := hi
        rw [Bitfield.has_set] at hset
        show st.have.has i = true
        simpa [hin] using hset
      obtain ⟨mine, hhash, hlen, hreads⟩ := h.genuine i hold
      refine ⟨mine, hhash, hlen, fun k b hb => ⟨holds_outside hw ?_ (hreads k b hb).1,
        (hreads k b hb).2⟩⟩
      have hk : k < st.pieceSize i := hlen ▸ (List.getElem?_eq_some_iff.mp hb).1
      have hout := outside_piece st (fun heq => hin heq.symm) hk
      rwa [← hacc.2.1] at hout
  · rw [writePiece_refused noFaults hacc]
    exact ⟨h, rfl, rfl, rfl, rfl⟩

theorem genuine_same {disk : Disk} {i : Nat} (h : st.Genuine sha1 i) (hsame : Same st.disk disk) :
    (st.withDisk disk).Genuine sha1 i := by
  obtain ⟨data, hhash, hlen, hreads⟩ := h
  exact ⟨data, hhash, hlen, hreads.same hsame⟩

/-- Reading leaves a storage as it was, up to files that were created empty. -/
theorem Matched.withDisk (h : st.Matched sha1) {disk : Disk} (hsame : Same st.disk disk) :
    (st.withDisk disk).Matched sha1 :=
  ⟨⟨h.tiled.apart, h.tiled.distinct, h.tiled.len⟩, h.tile, fun i hi =>
    genuine_same (h.genuine i hi) hsame⟩

theorem Matched.finalizeFiles (h : st.Matched sha1) :
    (st.finalizeFiles noFaults).state.Matched sha1 ∧
      SameShape st (st.finalizeFiles noFaults).state := by
  obtain ⟨disk, hfinal, hsized⟩ := finalizeFiles_ok h.tiled
  rw [hfinal]
  refine ⟨⟨⟨h.tiled.apart, h.tiled.distinct, h.tiled.len⟩, h.tile, fun i hi => ?_⟩,
    rfl, rfl, rfl, rfl⟩
  obtain ⟨data, hhash, hlen, hreads⟩ := h.genuine i hi
  exact ⟨data, hhash, hlen, fun k b hb => ⟨(hreads k b hb).1.sized hsized, (hreads k b hb).2⟩⟩

/-- The pieces that a recheck has found are there. -/
theorem recheckPiece_step {acc : Bitfield × Storage} (hacc : acc.2.Tiled)
    (hlen : acc.1.len = acc.2.numPieces)
    (hfound : ∀ j, acc.1.has j = true → acc.2.Genuine sha1 j) (i : Nat) :
    ∃ disk bits, recheckPiece sha1 noFaults acc i = (bits, acc.2.withDisk disk) ∧
      Same acc.2.disk disk ∧ bits.len = acc.2.numPieces ∧
      ∀ j, bits.has j = true → (acc.2.withDisk disk).Genuine sha1 j := by
  obtain ⟨disk, hstate, hsame⟩ := readAt_state acc.2 (acc.2.pieceLength * i) (acc.2.pieceSize i)
  unfold recheckPiece
  cases hread : acc.2.readAt noFaults (acc.2.pieceLength * i) (acc.2.pieceSize i) with
  | ok buf st =>
    rw [hread] at hstate
    obtain ⟨hbuf, hreads⟩ := readAt_ok hacc hread
    obtain rfl : st = acc.2.withDisk disk := hstate
    refine ⟨disk, _, rfl, hsame, ?_, ?_⟩
    · split
      · exact (Bitfield.len_set _ _).trans hlen
      · exact hlen
    · intro j hj
      by_cases hnew : some (sha1 buf) = acc.2.hashes[i]?
      · rw [if_pos (show some (sha1 buf) = (acc.2.withDisk disk).hashes[i]? from hnew),
          Bitfield.has_set] at hj
        by_cases hji : j = i
        · subst hji
          exact ⟨buf, hnew.symm, hbuf, hreads.same hsame⟩
        · exact genuine_same (hfound j (by simpa [hji] using hj)) hsame
      · rw [if_neg (show ¬some (sha1 buf) = (acc.2.withDisk disk).hashes[i]? from hnew)] at hj
        exact genuine_same (hfound j hj) hsame
  | error e st =>
    rw [hread] at hstate
    obtain rfl : st = acc.2.withDisk disk := hstate
    exact ⟨disk, acc.1, rfl, hsame, hlen, fun j hj => genuine_same (hfound j hj) hsame⟩

theorem recheck_fold (indices : List Nat) (acc : Bitfield × Storage) (hacc : acc.2.Tiled)
    (hlen : acc.1.len = acc.2.numPieces)
    (hfound : ∀ j, acc.1.has j = true → acc.2.Genuine sha1 j) :
    ∃ disk bits, indices.foldl (recheckPiece sha1 noFaults) acc = (bits, acc.2.withDisk disk) ∧
      bits.len = acc.2.numPieces ∧ ∀ j, bits.has j = true → (acc.2.withDisk disk).Genuine sha1 j := by
  induction indices generalizing acc with
  | nil => exact ⟨acc.2.disk, acc.1, rfl, hlen, hfound⟩
  | cons i rest ih =>
    obtain ⟨disk, bits, hstep, -, hlen', hfound'⟩ := recheckPiece_step hacc hlen hfound i
    rw [List.foldl_cons, hstep]
    exact ih (bits, acc.2.withDisk disk) ⟨hacc.apart, hacc.distinct, hacc.len⟩ hlen' hfound'

theorem Matched.recheck (h : st.Matched sha1) :
    (st.recheck sha1 noFaults).Matched sha1 ∧ SameShape st (st.recheck sha1 noFaults) := by
  obtain ⟨disk, bits, hfold, hlen, hfound⟩ := recheck_fold (List.range st.numPieces)
    (Bitfield.new st.numPieces, st) h.tiled rfl fun j (hj : _) => by
      rw [Bitfield.has_new] at hj
      cases hj
  have heq : st.recheck sha1 noFaults = { st.withDisk disk with «have» := bits } := by
    unfold Storage.recheck
    rw [hfold]
  rw [heq]
  exact ⟨⟨⟨h.tiled.apart, h.tiled.distinct, hlen⟩, h.tile, hfound⟩, rfl, rfl, rfl, rfl⟩

/-! ## Runs of calls -/

theorem Matched.op (h : st.Matched sha1) (op : Op) (hop : st.PaddedOp sha1 op) :
    (op.apply sha1 st).Matched sha1 ∧ SameShape st (op.apply sha1 st) := by
  cases op with
  | writePiece index data => exact h.writePiece index data hop
  | recheck => exact h.recheck
  | finalizeFiles => exact h.finalizeFiles

/-- Which steps meet the condition does not depend on what was stored. -/
theorem SameShape.paddedOp (h : SameShape st st') {op : Op} (hop : st.PaddedOp sha1 op) :
    st'.PaddedOp sha1 op := by
  cases op with
  | writePiece index data =>
    intro hacc
    have hzero := hop ((h.accepts index data).mp hacc)
    intro k b hb
    rw [h.files, h.pieceLength]
    exact hzero k b hb
  | recheck => trivial
  | finalizeFiles => trivial

theorem SameShape.trans {a b c : Storage} (h : SameShape a b) (h' : SameShape b c) :
    SameShape a c :=
  ⟨h'.1.trans h.1, h'.2.trans h.2, h'.3.trans h.3, h'.4.trans h.4⟩

theorem Matched.run (h : st.Matched sha1) {ops : List Op}
    (hops : ∀ op ∈ ops, st.PaddedOp sha1 op) :
    (applyAll sha1 ops st).Matched sha1 ∧ SameShape st (applyAll sha1 ops st) := by
  induction ops generalizing st with
  | nil => exact ⟨h, rfl, rfl, rfl, rfl⟩
  | cons op rest ih =>
    obtain ⟨hstep, hshape⟩ := h.op op (hops op (.head _))
    obtain ⟨hrun, hrest⟩ := ih hstep fun op' hmem => hshape.paddedOp (hops op' (.tail _ hmem))
    exact ⟨hrun, hshape.trans hrest⟩

/-! ## What a peer gets -/

theorem readBlock_cases {faults : Faults} {index start length : Nat} {block : Bytes}
    (h : st.readBlock faults index start length = .ok block st') :
    st.has index = true ∧ start + length ≤ st.pieceSize index ∧
      st.readAt faults (st.pieceLength * index + start) length = .ok block st' := by
  unfold readBlock at h
  split_ifs at h with hhas hpart
  exact ⟨Bool.eq_true_of_not_eq_false hhas, Nat.le_of_not_lt hpart, h⟩

/-- A block that is read is a block of the genuine piece. -/
theorem Matched.readBlock (h : st.Matched sha1) {index start length : Nat} {block : Bytes}
    (hread : st.readBlock noFaults index start length = .ok block st') :
    st'.Matched sha1 ∧ SameShape st st' ∧ ∃ data, st.hashes[index]? = some (sha1 data) ∧
      data.length = st.pieceSize index ∧ block = (data.drop start).take length := by
  obtain ⟨hhas, hpart, hat⟩ := readBlock_cases hread
  obtain ⟨data, hhash, hlen, hreads⟩ := h.genuine index hhas
  obtain ⟨st₁, hblock⟩ := readBlock_of_reads h.tiled hhas hlen hreads (hlen ▸ hpart)
  obtain ⟨disk, hstate, hsame⟩ := readAt_state st (st.pieceLength * index + start) length
  rw [hat] at hstate
  obtain rfl : st' = st.withDisk disk := hstate
  rw [hread] at hblock
  cases hblock
  exact ⟨h.withDisk hsame, ⟨rfl, rfl, rfl, rfl⟩, data, hhash, hlen, rfl⟩

end Storage

/-- The block is a block of data whose hash is that of the piece. -/
def GenuineBlock (sha1 : Bytes → Bytes) (hashes : List Bytes) (index start : Nat) (block : Bytes) :
    Prop :=
  ∃ data, hashes[index]? = some (sha1 data) ∧ block = (data.drop start).take block.length

theorem serve_genuine {sha1 : Bytes → Bytes} {st : Storage} (h : st.Matched sha1) (numPieces : Nat)
    (msgs : List Message) {index start : Nat} {block : Bytes}
    (hsent : .piece index start block ∈ serve noFaults numPieces msgs st) :
    GenuineBlock sha1 st.hashes index start block := by
  induction msgs generalizing st with
  | nil => cases hsent
  | cons msg rest ih =>
    rw [serve] at hsent
    cases msg with
    | request i s l =>
      simp only [answer] at hsent
      by_cases hbad : maxRequest < l ∨ numPieces ≤ i
      · rw [if_pos hbad] at hsent
        cases hsent
      · rw [if_neg hbad] at hsent
        cases hread : st.readBlock noFaults i s l with
        | error e st' =>
          rw [hread] at hsent
          cases hsent
        | ok block' st' =>
          rw [hread] at hsent
          obtain ⟨hst', hshape, data, hhash, hlen, rfl⟩ := h.readBlock hread
          rcases List.mem_cons.mp hsent with heq | hsent
          · obtain ⟨-, hpart, -⟩ := readBlock_cases hread
            cases heq
            refine ⟨data, hhash, ?_⟩
            rw [List.length_take, List.length_drop, Nat.min_eq_left (by omega)]
          · rw [← hshape.hashes]
            exact ih hst' hsent
    | interested =>
      rcases List.mem_cons.mp hsent with heq | hsent
      · cases heq
      · exact ih h hsent
    | unchoke => exact ih h hsent
    | piece i s b => exact ih h hsent
    | other => exact ih h hsent

/-! ## Layouts with padding -/

/-- Where the files lie. -/
def spans (files : List FileSlot) : List (Nat × Nat) := files.map fun slot => (slot.start, slot.length)

theorem spans_setPadding (st : Storage) (file : Nat) :
    spans (st.setPadding file).files = spans st.files := by
  refine List.ext_getElem? fun k => ?_
  simp only [spans, setPadding, List.getElem?_map, List.getElem?_modify, Option.map_eq_map,
    Option.map_map]
  congr 1
  funext slot
  simp only [Function.comp_apply]
  split <;> rfl

theorem markPadding_keeps (padding : List Nat) (st : Storage) :
    SameShape { st with files := (markPadding padding st).files } (markPadding padding st) ∧
      spans (markPadding padding st).files = spans st.files ∧
      (markPadding padding st).have = st.have := by
  unfold markPadding
  induction padding generalizing st with
  | nil => exact ⟨⟨rfl, rfl, rfl, rfl⟩, rfl, rfl⟩
  | cons file rest ih =>
    obtain ⟨hshape, hspans, hhave⟩ := ih (st.setPadding file)
    exact ⟨⟨hshape.1, hshape.2, hshape.3, rfl⟩, hspans.trans (spans_setPadding st file), hhave⟩

theorem apart_of_spans {files files' : List FileSlot} (h : spans files' = spans files)
    (hfiles : Apart files) : Apart files' := by
  have hmap {l : List FileSlot} :
      Apart l ↔ (spans l).Pairwise fun a b => a.1 + a.2 ≤ b.1 := by
    rw [spans, List.pairwise_map]
    rfl
  rw [hmap] at hfiles ⊢
  rwa [h]

theorem exists_of_spans {files files' : List FileSlot} (h : spans files' = spans files) {p : Nat}
    (hp : ∃ slot ∈ files, slot.start ≤ p ∧ p < slot.start + slot.length) :
    ∃ slot ∈ files', slot.start ≤ p ∧ p < slot.start + slot.length := by
  obtain ⟨slot, hs, hlo, hhi⟩ := hp
  have hmem : (slot.start, slot.length) ∈ spans files' := by
    rw [h]
    exact List.mem_map_of_mem hs
  obtain ⟨slot', hs', heq⟩ := List.mem_map.mp hmem
  obtain ⟨hstart, hlength⟩ := Prod.mk.inj heq
  exact ⟨slot', hs', by omega, by omega⟩

theorem matched_create (sha1 : Bytes → Bytes) {layout : List (String × Nat)} {pieceLength : Nat}
    {hashes : List Bytes} {disk : Disk} {st : Storage} {padding : List Nat}
    (hcreate : create layout pieceLength hashes disk = .ok st)
    (hdistinct : Distinct (markPadding padding st).files) : (markPadding padding st).Matched sha1 := by
  obtain ⟨hshape, hspans, hhave⟩ := markPadding_keeps padding st
  obtain ⟨-, rfl⟩ := create_eq hcreate
  refine ⟨⟨apart_of_spans hspans (apart_slotsFrom 0 layout), hdistinct, ?_⟩, fun p hp => ?_,
    fun i hi => ?_⟩
  · rw [hhave, numPieces, hshape.hashes]
    rfl
  · rw [hshape.total] at hp
    exact exists_of_spans hspans (exists_slotsFrom (Nat.zero_le p) (by rwa [Nat.zero_add]))
  · rw [Storage.has, hhave, Bitfield.has_new] at hi
    cases hi

end Rsurl.Bittorrent
