import Rsurl.Bittorrent.Infohash
import Rsurl.Bittorrent.Paths

/-!
# Accepted torrents

A torrent that is accepted has its pieces cover its files, and its files under its name, out of each
other's way.
-/

namespace Rsurl.Bittorrent

open Library Text Bencode
open Library.Checked (except_bind_eq_ok)

variable {cs : List String} {name : String}

/-! ## Files -/

theorem pushComponents_ok {comps : List Value} {rel last : String} {acc : String × String}
    (hacc : acc.1 = joined cs) (hcs : ∀ c ∈ cs, Safe c)
    (h : pushComponents comps acc = .ok (rel, last)) :
    ∃ ds, rel = joined (cs ++ ds) ∧ ∀ d ∈ cs ++ ds, Safe d := by
  induction comps generalizing acc cs with
  | nil =>
    cases h
    exact ⟨[], by simpa using hacc, by simpa using hcs⟩
  | cons v comps ih =>
    obtain ⟨rel₀, last₀⟩ := acc
    obtain ⟨s, -, h⟩ := except_bind_eq_ok.mp h
    obtain ⟨_, hs, h⟩ := except_bind_eq_ok.mp h
    have hsafe := sanitizeComponent_ok hs
    have hall : ∀ c ∈ cs ++ [s], Safe c := by
      simpa [List.forall_mem_append] using fun c hc => hc.elim (hcs c) (· ▸ hsafe)
    have hpush : push rel₀ s = joined (cs ++ [s]) := by
      have hjoin := push_joined hcs (List.cons_ne_nil s []) (by simpa using hsafe)
      rwa [joined_singleton, ← hacc] at hjoin
    obtain ⟨ds, hrel, hds⟩ := ih hpush hall h
    exact ⟨s :: ds, by simpa using hrel, by simpa using hds⟩

theorem fileEntry_ok {f : Value} {entry : FileEntry} (hname : Safe name)
    (h : fileEntry name f = .ok entry) :
    ∃ rel, rel ≠ [] ∧ SafePath entry.path (name :: rel) := by
  obtain ⟨len, -, h⟩ := except_bind_eq_ok.mp h
  obtain ⟨comps, -, h⟩ := except_bind_eq_ok.mp h
  obtain ⟨⟨rel, last⟩, hrel, h⟩ := except_bind_eq_ok.mp h
  dsimp only at h
  split at h
  · cases h
  rename_i hne
  cases h
  obtain ⟨cs, hjoined, hsafe⟩ : ∃ ds, rel = joined ([] ++ ds) ∧ ∀ d ∈ [] ++ ds, Safe d :=
    pushComponents_ok rfl (by simp) hrel
  rw [List.nil_append] at hjoined hsafe
  have hcs : cs ≠ [] := by
    rintro rfl
    exact hne hjoined
  refine ⟨cs, hcs, ?_, List.cons_ne_nil _ _, List.forall_mem_cons.mpr ⟨hname, hsafe⟩⟩
  have hpush : push (joined [name]) (joined cs) = joined ([name] ++ cs) :=
    push_joined (by simpa using hname) hcs hsafe
  rw [joined_singleton, List.singleton_append] at hpush
  rw [hjoined]
  exact hpush

theorem fileEntries_ok {list : List Value} {files : List FileEntry} {total : Nat}
    {acc : List FileEntry × Nat} (hname : Safe name)
    (hacc : (acc.1.map FileEntry.length).sum = acc.2) (hbound : acc.2 ≤ maxWord)
    (hpaths : ∀ f ∈ acc.1, ∃ rel, rel ≠ [] ∧ SafePath f.path (name :: rel))
    (h : fileEntries name list acc = .ok (files, total)) :
    (files.map FileEntry.length).sum = total ∧ total ≤ maxWord ∧
      ∀ f ∈ files, ∃ rel, rel ≠ [] ∧ SafePath f.path (name :: rel) := by
  induction list generalizing acc with
  | nil =>
    cases h
    exact ⟨hacc, hbound, hpaths⟩
  | cons f list ih =>
    obtain ⟨files₀, total₀⟩ := acc
    obtain ⟨entry, hentry, h⟩ := except_bind_eq_ok.mp h
    split at h
    · cases h
    rename_i hover
    refine ih ?_ (Nat.le_of_not_lt hover) ?_ h
    · dsimp only at hacc ⊢
      rw [List.map_append, List.sum_append, hacc]
      simp
    · intro g hg
      rcases List.mem_append.mp hg with hg | hg
      · exact hpaths g hg
      · rw [List.mem_singleton.mp hg]
        exact fileEntry_ok hname hentry

/-- An integer of a parsed dictionary. -/
theorem isI64_of_get {r : Value} {left : Nat} (hr : r.Legal left) {key : Bytes} {n : Int}
    (h : (r.sorted.get key).bind Value.asInt = some n) : IsI64 n := by
  obtain ⟨v, hv, hn⟩ := Option.bind_eq_some_iff.mp h
  cases left with
  | zero => exact hr.elim
  | succ left =>
    cases r with
    | dict es =>
      have hkeys := distinct_sortedEntries.mpr hr.1
      have hmem := (Entries.lookup_eq_some_iff (Entries.isMap_sort hkeys).distinct).mp hv
      rw [(Entries.sort_perm _).mem_iff, sortedEntries_eq_map] at hmem
      obtain ⟨e, he, heq⟩ := List.mem_map.mp hmem
      cases heq
      have hlegal := (hr.2 e he).2
      cases left with
      | zero => exact hlegal.elim
      | succ left =>
        obtain ⟨k, v⟩ := e
        cases v with
        | int m =>
          cases hn
          exact hlegal
        | _ => cases hn
    | _ => cases hv

/-- The files of a torrent: one with its name, or many in the directory of its name. -/
structure Tidy (name : String) (files : List FileEntry) (total : Nat) : Prop where
  sum : (files.map FileEntry.length).sum = total
  bounded : total ≤ maxWord
  paths : ∀ f ∈ files, ∃ rel, (rel = [] → files.length = 1) ∧ SafePath f.path (name :: rel)
  apart : (files.filter fun f => !f.padding).Pairwise PathsApart

/-- `length` is an `i64`. -/
theorem parseLayout_ok {info : Value} {files : List FileEntry} {total : Nat} (hname : Safe name)
    (hint : ∀ n, (info.get (Text.asBytes "length")).bind Value.asInt = some n → IsI64 n)
    (h : parseLayout name info = .ok (files, total)) : Tidy name files total := by
  unfold parseLayout at h
  split at h
  · rename_i len hlen
    have hi64 := hint len hlen
    split at h
    · cases h
    cases h
    refine ⟨by simp, by unfold IsI64 at hi64; unfold maxWord; omega, ?_, ?_⟩
    · intro f hf
      rw [List.mem_singleton.mp hf]
      exact ⟨[], fun _ => rfl, (joined_singleton name).symm, List.cons_ne_nil _ _, by simpa using hname⟩
    · exact (List.pairwise_singleton _ _).filter _
  · split at h
    · obtain ⟨⟨files', total'⟩, hentries, h⟩ := except_bind_eq_ok.mp h
      dsimp only at h
      split at h
      · cases h
      obtain ⟨_, hconflicts, h⟩ := except_bind_eq_ok.mp h
      cases h
      obtain ⟨hsum, hbound, hpaths⟩ := fileEntries_ok hname rfl (Nat.zero_le _) (by simp) hentries
      refine ⟨hsum, hbound, fun f hf => ?_, ?_⟩
      · obtain ⟨rel, hrel, hpath⟩ := hpaths f hf
        exact ⟨rel, fun hnil => absurd hnil hrel, hpath⟩
      · refine checkPathConflicts_ok (fun f hf => ?_) hconflicts
        obtain ⟨rel, -, hpath⟩ := hpaths f hf
        exact ⟨_, hpath⟩
    · cases h

/-! ## Pieces -/

section Pieces

variable {m : Metainfo} {st : Storage} {index : Nat}

theorem mul_divCeil {a b : Nat} (hb : 0 < b) : a ≤ b * divCeil a b ∧ b * (divCeil a b - 1) < max a 1 := by
  have hdiv := Nat.div_add_mod a b
  have hmod := Nat.mod_lt a hb
  unfold divCeil
  split
  · rename_i h0
    rw [h0, Nat.add_zero] at hdiv
    refine ⟨by rw [Nat.add_zero, hdiv], ?_⟩
    rw [Nat.add_zero, Nat.mul_sub, Nat.mul_one, hdiv]
    omega
  · refine ⟨by rw [Nat.mul_add, Nat.mul_one]; omega, ?_⟩
    rw [Nat.add_sub_cancel]
    omega

/-- The pieces cover the data, and each has some of it. -/
structure Covering (m : Metainfo) : Prop where
  positive : 0 < m.pieceLength
  enough : m.totalLength ≤ m.pieceLength * m.numPieces
  needed : ∀ index < m.numPieces, m.pieceLength * index < m.totalLength

theorem covering_of_count (hpos : 0 < m.pieceLength) (hcount : m.pieces.length =
    if m.totalLength = 0 then 0 else divCeil m.totalLength m.pieceLength) : Covering m := by
  split at hcount
  · rename_i h0
    exact ⟨hpos, by rw [h0]; exact Nat.zero_le _, fun index h => by
      rw [Metainfo.numPieces, hcount] at h
      exact absurd h (Nat.not_lt_zero _)⟩
  · rename_i h0
    obtain ⟨hle, hlt⟩ := mul_divCeil (a := m.totalLength) hpos
    refine ⟨hpos, by rwa [Metainfo.numPieces, hcount], fun index h => ?_⟩
    rw [Metainfo.numPieces, hcount] at h
    have hmul := Nat.mul_le_mul_left m.pieceLength (show index ≤ divCeil m.totalLength m.pieceLength - 1 by omega)
    omega

theorem Covering.pieceSize_eq (h : Covering m) (index : Nat) :
    m.pieceSize index = min (m.totalLength - m.pieceLength * index) m.pieceLength := by
  unfold Metainfo.pieceSize
  split
  · rename_i hlast
    have hneeded := h.needed (index + 1) hlast
    rw [Nat.mul_add, Nat.mul_one] at hneeded
    omega
  · rename_i hlast
    have henough := h.enough
    have hmul := Nat.mul_le_mul_left m.pieceLength (show m.numPieces ≤ index + 1 from Nat.le_of_not_lt hlast)
    rw [Nat.mul_add, Nat.mul_one] at hmul
    omega

theorem Covering.pieceSize_bounds (h : Covering m) (hindex : index < m.numPieces) :
    1 ≤ m.pieceSize index ∧ m.pieceSize index ≤ m.pieceLength := by
  have hneeded := h.needed index hindex
  have hpos := h.positive
  rw [h.pieceSize_eq]
  omega

theorem Covering.sum_pieceSize (h : Covering m) :
    ((List.range m.numPieces).map m.pieceSize).sum = m.totalLength := by
  have hupTo : ∀ n, ((List.range n).map m.pieceSize).sum = min m.totalLength (m.pieceLength * n) := by
    intro n
    induction n with
    | zero => simp
    | succ n ih =>
      rw [List.range_succ, List.map_append, List.sum_append, ih, List.map_singleton,
        List.sum_singleton, h.pieceSize_eq, Nat.mul_add, Nat.mul_one]
      omega
  rw [hupTo]
  exact Nat.min_eq_left h.enough

/-- A storage that is made for the torrent: of all its files, or of a window. -/
inductive MadeFor (m : Metainfo) (st : Storage) : Prop
  | files (layout : List (String × Nat)) (disk : Disk)
    (hlayout : layout.map Prod.snd = m.files.map FileEntry.length)
    (h : Storage.create layout m.pieceLength m.pieces disk = .ok st)
  | window (out : String) (start last : Nat) (disk : Disk)
    (h : Storage.createWindow out m.pieceLength m.pieces m.totalLength start last disk =
      some (.ok st))

theorem MadeFor.pieceSize_eq (h : MadeFor m st)
    (hsum : (m.files.map FileEntry.length).sum = m.totalLength) (index : Nat) :
    st.pieceSize index = min (m.totalLength - m.pieceLength * index) m.pieceLength := by
  cases h with
  | files layout disk hlayout h =>
    unfold Storage.create at h
    split at h
    · cases h
    split at h
    · cases h
    · cases h
      have htotal : layoutTotal layout = m.totalLength := by rw [layoutTotal, hlayout, hsum]
      rw [← htotal]
      rfl
  | window out start last disk h =>
    unfold Storage.createWindow at h
    split at h
    · cases h
    split at h
    · cases h
    · cases h
      rfl

end Pieces

/-! ## Torrents -/

/-- An index whose product with the piece length overflows is beyond the last piece. -/
theorem torrent_confined (sha1 : Bytes → Bytes) (t : Bytes) (m : Metainfo)
    (h : Metainfo.fromBytes sha1 t = .ok m) :
    (1 ≤ m.pieceLength ∧ m.pieceLength ≤ maxPieceLength) ∧
    (m.files.map FileEntry.length).sum = m.totalLength ∧
    (∀ st, MadeFor m st → ∀ index, m.pieceLength * index ≤ maxWord →
      st.pieceSize index = m.pieceSize index) ∧
    (∀ index < m.numPieces, m.pieceLength * index ≤ maxWord ∧
      1 ≤ m.pieceSize index ∧ m.pieceSize index ≤ m.pieceLength) ∧
    ((List.range m.numPieces).map m.pieceSize).sum = m.totalLength ∧
    (∀ f ∈ m.files, ∃ rel, components f.path = m.name :: rel ∧ (rel = [] → m.files.length = 1) ∧
      ∀ c ∈ m.name :: rel, Safe c) ∧
    (m.files.filter fun f => !f.padding).Pairwise PathsApart := by
  obtain ⟨es, r, root, -, hlegal, hmem, -, -, -, hm⟩ := fromBytes_ok h
  have hacc := Metainfo.ofInfo_ok hm
  have hname := sanitizeComponent_ok hacc.name
  have htidy := parseLayout_ok hname (fun n hn => isI64_of_get (hlegal.2 _ hmem).2 hn) hacc.layout
  have hcover := covering_of_count hacc.positive hacc.count
  refine ⟨⟨hacc.positive, hacc.bounded⟩, htidy.sum, fun st hst index _ => ?_, fun index hindex => ?_,
    hcover.sum_pieceSize, fun f hf => ?_, htidy.apart⟩
  · rw [hst.pieceSize_eq htidy.sum, hcover.pieceSize_eq]
  · have hneeded := hcover.needed index hindex
    have hbounded := htidy.bounded
    exact ⟨by omega, hcover.pieceSize_bounds hindex⟩
  · obtain ⟨rel, hrel, hpath, hne, hsafe⟩ := htidy.paths f hf
    refine ⟨rel, ?_, hrel, hsafe⟩
    rw [hpath, components_joined hne fun c hc => (hsafe c hc).no_slash]

/-- Two files of eight bytes, in two pieces. -/
def twoFiles : Bytes := Text.asBytes
    "d4:infod5:filesld6:lengthi5e4:pathl1:aeed6:lengthi3e4:pathl1:b1:ceee4:name1:d" ++
  Text.asBytes "12:piece lengthi4e6:pieces40:" ++ List.replicate 40 0 ++ Text.asBytes "ee"

def twoFilesMetainfo (infoHash : Bytes) : Metainfo :=
  ⟨infoHash, "d", 4, [List.replicate 20 0, List.replicate 20 0],
    [⟨"d/a", 5, false⟩, ⟨"d/b/c", 3, false⟩], 8, [], false⟩

theorem torrent_confined_twoFiles :
    (∀ st, Storage.create [("a", 5), ("b", 3)] 4 (twoFilesMetainfo []).pieces (fun _ => none) = .ok st →
      st.pieceSize 1 = (twoFilesMetainfo []).pieceSize 1) ∧
    1 ≤ (twoFilesMetainfo []).pieceSize 1 ∧
    (∃ rel, components "d/b/c" = "d" :: rel ∧ (rel = [] → 2 = 1) ∧ ∀ c ∈ "d" :: rel, Safe c) ∧
    [⟨"d/a", 5, false⟩, ⟨"d/b/c", 3, false⟩].Pairwise PathsApart := by
  have hm : Metainfo.fromBytes (fun _ => []) twoFiles = .ok (twoFilesMetainfo []) := by
    decide +kernel
  obtain ⟨-, -, hsizes, hindex, -, hpaths, hapart⟩ := torrent_confined _ _ _ hm
  exact ⟨fun st hst => hsizes st (.files _ _ rfl hst) 1 (by decide), (hindex 1 (by decide)).2.1,
    hpaths ⟨"d/b/c", 3, false⟩ (by decide), hapart⟩

end Rsurl.Bittorrent
