import Rsurl.Hpack.Huffman

/-!
# The Huffman code table

Facts about the table and its decode index: an entry is found under its own code, nothing else is
found, and no code word begins another. The numeric facts are checked by evaluation; prefix
freedom follows from them because the code is canonical.
-/

namespace Rsurl.Hpack

open Library

/-- The index as a literal, so that facts about it are checked by evaluation. -/
def indexTable : HuffmanIndex :=
  { first := [0, 0, 0, 0, 0, 0, 20, 92, 248, 0, 1016, 2042, 4090, 8184, 16380, 32764, 0, 0, 0,
      524272, 1048550, 2097116, 4194258, 8388568, 16777194, 33554412, 67108832, 134217694,
      268435426, 0, 1073741820]
    count := [0, 0, 0, 0, 0, 10, 26, 32, 6, 0, 5, 3, 2, 6, 2, 3, 0, 0, 0, 3, 8, 13, 26, 29, 12, 4,
      15, 19, 29, 0, 4]
    offset := [0, 0, 0, 0, 0, 0, 10, 36, 68, 0, 74, 79, 82, 84, 90, 92, 0, 0, 0, 95, 98, 106, 119,
      145, 174, 186, 190, 205, 224, 0, 253]
    symbols := [48, 49, 50, 97, 99, 101, 105, 111, 115, 116, 32, 37, 45, 46, 47, 51, 52, 53, 54,
      55, 56, 57, 61, 65, 95, 98, 100, 102, 103, 104, 108, 109, 110, 112, 114, 117, 58, 66, 67,
      68, 69, 70, 71, 72, 73, 74, 75, 76, 77, 78, 79, 80, 81, 82, 83, 84, 85, 86, 87, 89, 106,
      107, 113, 118, 119, 120, 121, 122, 38, 42, 44, 59, 88, 90, 33, 34, 40, 41, 63, 39, 43, 124,
      35, 62, 0, 36, 64, 91, 93, 126, 94, 125, 60, 96, 123, 92, 195, 208, 128, 130, 131, 162, 184,
      194, 224, 226, 153, 161, 167, 172, 176, 177, 179, 209, 216, 217, 227, 229, 230, 129, 132,
      133, 134, 136, 146, 154, 156, 160, 163, 164, 169, 170, 173, 178, 181, 185, 186, 187, 189,
      190, 196, 198, 228, 232, 233, 1, 135, 137, 138, 139, 140, 141, 143, 147, 149, 150, 151, 152,
      155, 157, 158, 165, 166, 168, 174, 175, 180, 182, 183, 188, 191, 197, 231, 239, 9, 142, 144,
      145, 148, 159, 171, 206, 215, 225, 236, 237, 199, 207, 234, 235, 192, 193, 200, 201, 202,
      205, 210, 213, 218, 219, 238, 240, 242, 243, 255, 203, 204, 211, 212, 214, 221, 222, 223,
      241, 244, 245, 246, 247, 248, 250, 251, 252, 253, 254, 2, 3, 4, 5, 6, 7, 8, 11, 12, 14, 15,
      16, 17, 18, 19, 20, 21, 23, 24, 25, 26, 27, 28, 29, 30, 31, 127, 220, 249, 10, 13, 22, 256] }

/-! ## Facts about the table, checked by evaluation -/

/-- The entries by length, and by code among those of one length. -/
def sortedEntries : List ((Nat × Nat) × Nat) :=
  (List.range 31).flatMap fun l => (List.range (indexTable.count.getD l 0)).map fun d =>
    ((indexTable.first.getD l 0 + d, l), indexTable.symbols.getD (indexTable.offset.getD l 0 + d) 0)

theorem forall_mem_of_take_drop {α : Type} {p : α → Prop} {l : List α} (n : Nat)
    (htake : ∀ a ∈ l.take n, p a) (hdrop : ∀ a ∈ l.drop n, p a) : ∀ a ∈ l, p a := by
  intro a ha
  rw [← List.take_append_drop n l] at ha
  exact (List.mem_append.mp ha).elim (htake a) (hdrop a)

/-- The table and the index that is written out, one entry at a time. -/
theorem table_checked :
    (huffman.length = 257 ∧ ∀ e ∈ huffman, 5 ≤ e.2 ∧ e.2 ≤ 30 ∧ e.1 < 2 ^ e.2) ∧
    (∀ e ∈ huffman.zipIdx,
      (indexTable.count.getD e.1.2 0 ≠ 0 ∧ indexTable.first.getD e.1.2 0 ≤ e.1.1) ∧
      e.1.1 - indexTable.first.getD e.1.2 0 < indexTable.count.getD e.1.2 0 ∧
      indexTable.symbols.getD
        (indexTable.offset.getD e.1.2 0 + (e.1.1 - indexTable.first.getD e.1.2 0)) 0 = e.2) ∧
    (∀ l < 31, ∀ m < 31,
      l < m ∧ indexTable.count.getD l 0 ≠ 0 ∧ indexTable.count.getD m 0 ≠ 0 →
      (indexTable.first.getD l 0 + indexTable.count.getD l 0) * 2 ^ (m - l) ≤
        indexTable.first.getD m 0) ∧
    (sortedEntries.IsChain (fun a b => codeLe a b) ∧ sortedEntries.length = 257) ∧
    (∀ l ∈ List.range 31,
      indexTable.offset.getD l 0 + indexTable.count.getD l 0 ≤ indexTable.symbols.length) ∧
    ((List.range 31).flatMap fun l => (indexTable.symbols.drop (indexTable.offset.getD l 0)).take
      (indexTable.count.getD l 0)) = indexTable.symbols := by
  refine ⟨by decide +kernel, ?_, by decide +kernel, by decide +kernel, by decide +kernel,
    by decide +kernel⟩
  -- Five evaluations, each small enough to be cheap.
  refine forall_mem_of_take_drop 52 (by decide +kernel) ?_
  refine forall_mem_of_take_drop 52 (by decide +kernel) ?_
  refine forall_mem_of_take_drop 52 (by decide +kernel) ?_
  refine forall_mem_of_take_drop 52 (by decide +kernel) ?_
  decide +kernel

theorem huffman_length : huffman.length = 257 := table_checked.1.1

theorem code_bounds : ∀ e ∈ huffman, 5 ≤ e.2 ∧ e.2 ≤ 30 ∧ e.1 < 2 ^ e.2 := table_checked.1.2

theorem index_complete : ∀ e ∈ huffman.zipIdx,
    (indexTable.count.getD e.1.2 0 ≠ 0 ∧ indexTable.first.getD e.1.2 0 ≤ e.1.1) ∧
    e.1.1 - indexTable.first.getD e.1.2 0 < indexTable.count.getD e.1.2 0 ∧
    indexTable.symbols.getD
      (indexTable.offset.getD e.1.2 0 + (e.1.1 - indexTable.first.getD e.1.2 0)) 0 = e.2 :=
  table_checked.2.1

/-- Codes of a longer length start after every shorter code, extended. -/
theorem index_canonical : ∀ l < 31, ∀ m < 31,
    l < m ∧ indexTable.count.getD l 0 ≠ 0 ∧ indexTable.count.getD m 0 ≠ 0 →
    (indexTable.first.getD l 0 + indexTable.count.getD l 0) * 2 ^ (m - l) ≤
      indexTable.first.getD m 0 :=
  table_checked.2.2.1

theorem sortedEntries_chain : sortedEntries.IsChain (fun a b => codeLe a b) ∧
    sortedEntries.length = 257 :=
  table_checked.2.2.2.1

/-! ## The order of the index -/

theorem mem_sortedEntries {e : (Nat × Nat) × Nat} (he : e ∈ huffman.zipIdx) :
    e ∈ sortedEntries := by
  obtain ⟨⟨-, hfirst⟩, hdelta, hsym⟩ := index_complete e he
  have hlen := (code_bounds e.1 (List.fst_mem_of_mem_zipIdx he)).2.1
  refine List.mem_flatMap.mpr ⟨e.1.2, List.mem_range.mpr (by omega),
    List.mem_map.mpr ⟨_, List.mem_range.mpr hdelta, ?_⟩⟩
  rw [hsym, Nat.add_sub_cancel' hfirst]

theorem perm_sortedEntries : huffman.zipIdx.Perm sortedEntries := by
  have hnodup : huffman.zipIdx.Nodup := by
    refine List.Nodup.of_map Prod.snd ?_
    rw [List.zipIdx_map_snd]
    exact List.nodup_range'
  refine (List.subperm_of_subset hnodup fun e he => mem_sortedEntries he).perm_of_length_le ?_
  rw [sortedEntries_chain.2, List.length_zipIdx, huffman_length]

theorem codeLe_iff {a b : (Nat × Nat) × Nat} :
    codeLe a b = true ↔ a.1.2 < b.1.2 ∨ a.1.2 = b.1.2 ∧ a.1.1 ≤ b.1.1 := by
  simp [codeLe]

instance : IsTrans ((Nat × Nat) × Nat) fun a b => codeLe a b = true where
  trans a b c hab hbc := by
    rw [codeLe_iff] at hab hbc ⊢
    omega

instance : Std.Total (α := (Nat × Nat) × Nat) fun a b => codeLe a b = true where
  total a b := by
    rw [codeLe_iff, codeLe_iff]
    omega

/-- No two entries have one code, so there is one order for them. -/
theorem sort_huffman :
    (huffman.zipIdx.insertionSort fun a b => codeLe a b) = sortedEntries := by
  have hperm := List.perm_insertionSort (fun a b => codeLe a b = true) huffman.zipIdx
  refine List.Perm.eq_of_pairwise (fun a b ha hb hab hba => ?_)
    (List.pairwise_insertionSort _ _) (List.isChain_iff_pairwise.mp sortedEntries_chain.1)
    (hperm.trans perm_sortedEntries)
  rw [codeLe_iff] at hab hba
  have hkey : a.1 = b.1 := Prod.ext (by omega) (by omega)
  have hsym := (index_complete a (hperm.mem_iff.mp ha)).2.2
  rw [hkey, (index_complete b (perm_sortedEntries.mem_iff.mpr hb)).2.2] at hsym
  exact Prod.ext hkey hsym.symm

/-- The symbols are entered one behind the other. -/
theorem symbols_foldl_enter (entries : List ((Nat × Nat) × Nat)) (start : Nat) (idx : HuffmanIndex)
    (h : idx.symbols.length = start + entries.length) :
    ((entries.zipIdx start).foldl HuffmanIndex.enter idx).symbols =
      idx.symbols.take start ++ entries.map Prod.snd := by
  induction entries generalizing start idx with
  | nil =>
    rw [List.length_nil, Nat.add_zero] at h
    simp [h]
  | cons e entries ih =>
    rw [List.length_cons] at h
    have hset : (idx.enter (e, start)).symbols = idx.symbols.set start e.2 := rfl
    have htake : (idx.symbols.set start e.2).take (start + 1) = idx.symbols.take start ++ [e.2] := by
      rw [List.take_add_one, List.take_set_of_le (Nat.le_refl start),
        List.getElem?_set_self (by omega)]
      rfl
    rw [List.zipIdx_cons, List.foldl_cons, ih, hset, htake, List.map_cons, List.append_assoc,
      List.singleton_append]
    rw [hset, List.length_set]
    omega

theorem map_getD_range (l : List Nat) {o n : Nat} (h : o + n ≤ l.length) :
    (List.range n).map (fun d => l.getD (o + d) 0) = (l.drop o).take n := by
  apply List.ext_getElem
  · rw [List.length_map, List.length_range, List.length_take, List.length_drop]
    omega
  · intro d hd _
    rw [List.length_map, List.length_range] at hd
    rw [List.getElem_map, List.getElem_range, List.getElem_take, List.getElem_drop,
      List.getD_eq_getElem _ _ (by omega)]

theorem symbols_sortedEntries : sortedEntries.map Prod.snd = indexTable.symbols := by
  rw [sortedEntries, List.map_flatMap]
  refine Eq.trans (List.flatMap_congr fun l hl => ?_) table_checked.2.2.2.2.2
  rw [List.map_map, ← map_getD_range _ (table_checked.2.2.2.2.1 l hl)]
  rfl

theorem HuffmanIndex.eq_of_fields {a b : HuffmanIndex} (hfirst : a.first = b.first)
    (hcount : a.count = b.count) (hoffset : a.offset = b.offset) (hsymbols : a.symbols = b.symbols) :
    a = b := by
  cases a
  cases b
  cases hfirst
  cases hcount
  cases hoffset
  cases hsymbols
  rfl

/-- The index of the table is the one that is written out. -/
theorem huffmanIndex_eq : huffmanIndex = indexTable := by
  unfold huffmanIndex
  rw [sort_huffman]
  refine HuffmanIndex.eq_of_fields ?_ ?_ ?_ ?_
  · decide +kernel
  · decide +kernel
  · decide +kernel
  · have hlength : 257 = 0 + sortedEntries.length := by rw [sortedEntries_chain.2]
    rw [symbols_foldl_enter _ 0 _ (List.length_replicate.trans hlength), symbols_sortedEntries]
    rfl

theorem index_sound : ∀ l < 31, ∀ d < indexTable.count.getD l 0,
    indexTable.symbols.getD (indexTable.offset.getD l 0 + d) 0 < 257 ∧
    huffman.getD (indexTable.symbols.getD (indexTable.offset.getD l 0 + d) 0) (0, 0) =
      (indexTable.first.getD l 0 + d, l) := by
  intro l hl d hd
  have hmem := perm_sortedEntries.mem_iff.mpr (List.mem_flatMap.mpr
    ⟨l, List.mem_range.mpr hl, List.mem_map.mpr ⟨d, List.mem_range.mpr hd, rfl⟩⟩)
  have hget := List.mem_zipIdx_iff_getElem?.mp hmem
  obtain ⟨hlt, hentry⟩ := List.getElem?_eq_some_iff.mp hget
  exact ⟨huffman_length ▸ hlt, by rw [List.getD_eq_getElem _ _ hlt, hentry]⟩

/-- The code word of a symbol. -/
def codeBits (sym : Nat) : List Bool :=
  bitsOf (huffman.getD sym (0, 0)).2 (huffman.getD sym (0, 0)).1

/-! ## The code -/

theorem getD_mem {sym : Nat} (h : sym < 257) : huffman.getD sym (0, 0) ∈ huffman := by
  have hs : sym < huffman.length := by rw [huffman_length]; exact h
  rw [List.getD_eq_getElem _ _ hs]
  exact List.getElem_mem hs

theorem getD_mem_zipIdx {sym : Nat} (h : sym < 257) :
    (huffman.getD sym (0, 0), sym) ∈ huffman.zipIdx := by
  have hs : sym < huffman.length := by rw [huffman_length]; exact h
  rw [List.getD_eq_getElem _ _ hs]
  exact List.mem_zipIdx_iff_getElem?.mpr (List.getElem?_eq_getElem hs)

theorem length_codeBits (sym : Nat) : (codeBits sym).length = (huffman.getD sym (0, 0)).2 := by
  simp [codeBits]

theorem codeBits_length_bounds {sym : Nat} (h : sym < 257) :
    5 ≤ (codeBits sym).length ∧ (codeBits sym).length ≤ 30 := by
  rw [length_codeBits]
  exact ⟨(code_bounds _ (getD_mem h)).1, (code_bounds _ (getD_mem h)).2.1⟩

theorem indexTable_count_length : indexTable.count.length = 31 := rfl

/-- A table entry is found under its own code. -/
theorem lookupHuffman_code {sym : Nat} (h : sym < 257) :
    lookupHuffman (huffman.getD sym (0, 0)).1 (huffman.getD sym (0, 0)).2 = some sym := by
  obtain ⟨⟨hcount, hfirst⟩, hdelta, hsym⟩ := index_complete _ (getD_mem_zipIdx h)
  have hlen := (code_bounds _ (getD_mem h)).2.1
  simp only at hcount hfirst hdelta hsym
  have hguard : ¬(indexTable.count.length ≤ (huffman.getD sym (0, 0)).2 ∨
      indexTable.count.getD (huffman.getD sym (0, 0)).2 0 = 0) := by
    rw [indexTable_count_length]; omega
  rw [lookupHuffman, huffmanIndex_eq, if_neg hguard, if_neg (by omega)]
  simp only [if_neg (Nat.not_le.mpr hdelta), hsym]

/-- Whatever a lookup finds has the code that was looked up. -/
theorem lookupHuffman_sound {code len sym : Nat} (h : lookupHuffman code len = some sym) :
    sym < 257 ∧ huffman.getD sym (0, 0) = (code, len) := by
  rw [lookupHuffman, huffmanIndex_eq] at h
  split at h
  · cases h
  · split at h
    · cases h
    · rename_i hguard hfirst
      simp only at h
      split at h
      · cases h
      · rename_i hcount
        have hlen : len < 31 := by rw [indexTable_count_length] at hguard; omega
        obtain ⟨hlt, heq⟩ := index_sound len hlen _ (Nat.not_le.mp hcount)
        rw [Option.some.injEq] at h
        rw [h] at hlt heq
        refine ⟨hlt, ?_⟩
        rw [heq, Nat.add_sub_cancel' (Nat.not_lt.mp hfirst)]

/-- The code range of a symbol's length contains its code. -/
theorem code_in_range {sym : Nat} (h : sym < 257) :
    indexTable.first.getD (huffman.getD sym (0, 0)).2 0 ≤ (huffman.getD sym (0, 0)).1 ∧
    (huffman.getD sym (0, 0)).1 < indexTable.first.getD (huffman.getD sym (0, 0)).2 0 +
      indexTable.count.getD (huffman.getD sym (0, 0)).2 0 ∧
    indexTable.count.getD (huffman.getD sym (0, 0)).2 0 ≠ 0 := by
  obtain ⟨⟨hcount, hfirst⟩, hdelta, -⟩ := index_complete _ (getD_mem_zipIdx h)
  simp only at hcount hfirst hdelta
  omega

/-- A code word that begins another is shorter only if the table is not canonical. -/
theorem eq_of_codeBits_isPrefix {a b : Nat} (ha : a < 257) (hb : b < 257)
    (h : codeBits a <+: codeBits b) : a = b := by
  obtain ⟨ra, rb⟩ := And.intro (code_in_range ha) (code_in_range hb)
  have la := code_bounds _ (getD_mem ha)
  have lb := code_bounds _ (getD_mem hb)
  have hle := h.length_le
  rw [length_codeBits, length_codeBits] at hle
  have hcode : (huffman.getD b (0, 0)).1 / 2 ^ ((huffman.getD b (0, 0)).2 -
      (huffman.getD a (0, 0)).2) = (huffman.getD a (0, 0)).1 := by
    obtain ⟨rest, hrest⟩ := h
    have hsplit := bitsOf_add (huffman.getD a (0, 0)).2
      ((huffman.getD b (0, 0)).2 - (huffman.getD a (0, 0)).2) (huffman.getD b (0, 0)).1
    rw [Nat.add_sub_cancel' hle] at hsplit
    unfold codeBits at hrest
    rw [hsplit] at hrest
    obtain ⟨hword, -⟩ := List.append_inj hrest (by simp)
    refine (bitsOf_inj la.2.2 ?_ hword).symm
    rw [Nat.div_lt_iff_lt_mul (Nat.two_pow_pos _), ← Nat.pow_add, Nat.add_sub_cancel' hle]
    exact lb.2.2
  rcases Nat.lt_or_eq_of_le hle with hlt | heq
  · exfalso
    have hcan := index_canonical _ (by omega) _ (by omega) ⟨hlt, ra.2.2, rb.2.2⟩
    have : (huffman.getD a (0, 0)).1 + 1 ≤ (huffman.getD b (0, 0)).1 / 2 ^
        ((huffman.getD b (0, 0)).2 - (huffman.getD a (0, 0)).2) := by
      rw [Nat.le_div_iff_mul_le (Nat.two_pow_pos _)]
      refine le_trans (Nat.mul_le_mul_right _ ?_) (hcan.trans rb.1)
      omega
    omega
  · rw [heq, Nat.sub_self, Nat.pow_zero, Nat.div_one] at hcode
    have hl := lookupHuffman_code ha
    rw [heq, ← hcode, lookupHuffman_code hb] at hl
    exact (Option.some.inj hl).symm

/-- The code restricted to the table's symbols. -/
def symbolBits (sym : Fin 257) : List Bool := codeBits sym

theorem symbolBits_prefixFree : PrefixFree symbolBits :=
  fun a b h => Fin.ext (eq_of_codeBits_isPrefix a.isLt b.isLt h)

end Rsurl.Hpack
