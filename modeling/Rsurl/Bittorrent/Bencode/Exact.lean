import Rsurl.Bittorrent.Bencode.Sorted
import Rsurl.Library.Checked

/-!
# The decoder reads what the encoder writes

Wherever the text of a value stands in the buffer the decoder reads the value, sorted, and is then
behind it; and it reads nothing else. The walk that only passes over values does it in step with the
one that builds them.
-/

namespace Rsurl.Bittorrent.Bencode

open Library Library.Cursor Text
open Library.Loop (Turn)

variable {buf : Bytes} {pos stop left : Nat} {b d : UInt8} {s raw : Bytes} {v : Value}

/-! ## Scalars -/

theorem peek_eq_ok : peek buf pos = .ok b ↔ buf[pos]? = some b := by
  unfold peek
  split <;> simp_all

theorem peek_ne_stuck (buf : Bytes) (pos : Nat) : peek buf pos ≠ .stuck := by
  unfold peek
  split <;> simp

theorem lt_of_peek (h : peek buf pos = .ok b) : pos < buf.length :=
  (List.getElem?_eq_some_iff.mp (peek_eq_ok.mp h)).1

/-- The position of the first delimiter. -/
theorem find_eq_ok (hpos : pos ≤ buf.length) : find buf pos d = .ok stop ↔
    ∃ raw, d ∉ raw ∧ At buf pos (raw ++ [d]) ∧ stop = pos + raw.length := by
  rw [find, Checked.dropFrom_eq hpos, Checked.ok_bind]
  simp only [At]
  generalize buf.drop pos = l
  constructor
  · intro h
    split at h
    · rename_i i hi
      cases h
      obtain ⟨hlt, hd, hbefore⟩ := List.findIdx?_eq_some_iff_getElem.mp hi
      refine ⟨l.take i, fun hmem => ?_, ?_, by rw [List.length_take_of_le (Nat.le_of_lt hlt)]⟩
      · obtain ⟨j, hj, heq⟩ := List.getElem_of_mem hmem
        rw [List.length_take_of_le (Nat.le_of_lt hlt)] at hj
        refine hbefore j hj ?_
        rw [← heq]
        simp
      · rw [← eq_of_beq hd, ← List.take_succ_eq_append_getElem hlt]
        exact List.take_prefix _ _
    · cases h
  · rintro ⟨raw, hd, ⟨rest, rfl⟩, rfl⟩
    have hi : (raw ++ [d] ++ rest).findIdx? (· == d) = some raw.length := by
      rw [List.append_assoc, List.findIdx?_append, List.findIdx?_eq_none_iff.mpr fun x hx => ?_]
      · simp [List.findIdx?_cons]
      · simpa using fun heq : x = d => hd (heq ▸ hx)
    rw [hi]

theorem find_ne_stuck (hpos : pos ≤ buf.length) : find buf pos d ≠ .stuck := by
  rw [find, Checked.dropFrom_eq hpos, Checked.ok_bind]
  split <;> simp

/-- What is before the delimiter. -/
theorem slice_of_find {ε : Type} (hpos : pos ≤ buf.length) (h : find buf pos d = .ok stop) :
    ∃ raw, d ∉ raw ∧ At buf pos (raw ++ [d]) ∧ stop = pos + raw.length ∧
      (Checked.slice buf pos stop : Checked ε Bytes) = .ok raw := by
  obtain ⟨raw, hd, hat, rfl⟩ := (find_eq_ok hpos).mp h
  exact ⟨raw, hd, hat, rfl, (at_append.mp hat).1.slice hpos⟩

theorem badDigits_eq_false {s : String} : badDigits s = false ↔
    s ≠ "" ∧ allDigits s = true ∧ ¬(startsWith "0" s = true ∧ 1 < len s) := by
  simp [badDigits, and_assoc]

theorem badDigits_repr (n : Nat) : badDigits n.repr = false :=
  badDigits_eq_false.mpr ⟨repr_ne_empty n, all_asBytes_repr n, not_leading_zero_repr n⟩

theorem parseUnsigned_of_digits {limit n : Nat} {s : String} (h : badDigits s = false) :
    parseUnsigned limit s = some n ↔ s = n.repr ∧ n ≤ limit :=
  have ⟨hne, hall, hlead⟩ := badDigits_eq_false.mp h
  parseUnsigned_eq_some_iff hne hall hlead

theorem byteStringSpan_ok {start : Nat} (hpos : pos ≤ buf.length)
    (h : byteStringSpan buf pos = .ok (start, stop)) : ∃ s, s.length ≤ maxAlloc ∧
      At buf pos (encodeBytes s) ∧ stop = pos + (encodeBytes s).length ∧ stop = start + s.length ∧
      stop ≤ buf.length := by
  obtain ⟨colon, hfind, h⟩ := Checked.bind_eq_ok.mp h
  obtain ⟨raw, hd, hat, hcolon, hslice⟩ := slice_of_find (ε := Error) hpos hfind
  rw [hslice, Checked.ok_bind] at h
  split at h
  · cases h
  rename_i s hs
  split at h
  · cases h
  rename_i hdigits
  split at h
  · cases h
  rename_i n hn
  obtain ⟨hrepr, -⟩ := (parseUnsigned_of_digits (by simpa using hdigits)).mp hn
  split at h
  · cases h
  split at h
  · cases h
  split at h
  · cases h
  rename_i halloc _ hend
  cases h
  have hlen : ((buf.take (colon + 1 + n)).drop (colon + 1)).length = n := by
    rw [List.length_drop, List.length_take_of_le (by omega)]
    omega
  have hraw : raw = asBytes n.repr := by rw [← hrepr, asBytes_of_fromUtf8 hs]
  refine ⟨(buf.take (colon + 1 + n)).drop (colon + 1), by omega, ?_, ?_, by omega, by omega⟩
  · rw [encodeBytes, hlen, ← hraw, ← List.singleton_append, ← List.append_assoc]
    refine at_append.mpr ⟨hat, ?_⟩
    rw [List.length_append, List.length_singleton, ← Nat.add_assoc, ← hcolon]
    exact at_slice _ _
  · rw [encodeBytes, List.length_append, List.length_cons, hlen, ← hraw]
    omega

theorem byteStringSpan_of_at (hbuf : buf.length ≤ maxUsize) (hpos : pos ≤ buf.length)
    (hs : s.length ≤ maxAlloc) (h : At buf pos (encodeBytes s)) :
    byteStringSpan buf pos =
      .ok (pos + (encodeBytes s).length - s.length, pos + (encodeBytes s).length) := by
  have hend := h.le hpos
  have hlen : (encodeBytes s).length = (asBytes s.length.repr).length + 1 + s.length := by
    rw [encodeBytes, List.length_append, List.length_cons]
    omega
  have hat : At buf pos (asBytes s.length.repr ++ [0x3a]) := by
    rw [encodeBytes, ← List.singleton_append, ← List.append_assoc] at h
    exact (at_append.mp h).1
  have hfind : find buf pos 0x3a = .ok (pos + (asBytes s.length.repr).length) :=
    (find_eq_ok hpos).mpr ⟨_, not_mem_repr _ (by decide), hat, rfl⟩
  rw [byteStringSpan, hfind, Checked.ok_bind, (at_append.mp hat).1.slice hpos, Checked.ok_bind,
    fromUtf8_asBytes]
  dsimp only
  rw [badDigits_repr, if_neg Bool.false_ne_true, parseUnsigned_repr, if_pos (by omega)]
  dsimp only
  rw [if_neg (by omega), if_neg (by omega), if_neg (by omega)]
  congr 2 <;> omega

theorem byteStringSpan_ne_stuck (hpos : pos ≤ buf.length) : byteStringSpan buf pos ≠ .stuck := by
  refine Checked.bind_ne_stuck (find_ne_stuck hpos) fun colon hfind => ?_
  obtain ⟨raw, -, -, -, hslice⟩ := slice_of_find (ε := Error) hpos hfind
  rw [hslice, Checked.ok_bind]
  split
  · simp
  split
  · simp
  split
  · simp
  split
  · simp
  split
  · simp
  · split <;> simp

theorem byteString_ok (hpos : pos ≤ buf.length) (h : byteString buf pos = .ok (s, stop)) :
    s.length ≤ maxAlloc ∧ At buf pos (encodeBytes s) ∧ stop = pos + (encodeBytes s).length ∧
      stop ≤ buf.length := by
  obtain ⟨⟨start, stop'⟩, hspan, h⟩ := Checked.bind_eq_ok.mp h
  obtain ⟨b, hslice, h⟩ := Checked.bind_eq_ok.mp h
  cases h
  obtain ⟨s', halloc, hat, hstop, hstart, hle⟩ := byteStringSpan_ok hpos hspan
  have hs : s = s' := by
    have hbody : At buf start s' := by
      rw [encodeBytes, ← List.singleton_append, ← List.append_assoc] at hat
      have hlater := (at_append.mp hat).2
      rw [encodeBytes, List.length_append, List.length_cons] at hstop
      rwa [List.length_append, List.length_singleton,
        show pos + ((asBytes s'.length.repr).length + 1) = start by omega] at hlater
    rw [hstart, hbody.slice (by omega)] at hslice
    cases hslice
    rfl
  rw [hs]
  exact ⟨halloc, hat, hstop, hle⟩

theorem byteString_of_at (hbuf : buf.length ≤ maxUsize) (hpos : pos ≤ buf.length)
    (hs : s.length ≤ maxAlloc) (h : At buf pos (encodeBytes s)) :
    byteString buf pos = .ok (s, pos + (encodeBytes s).length) := by
  have hbody : At buf (pos + (encodeBytes s).length - s.length) s := by
    rw [encodeBytes, ← List.singleton_append, ← List.append_assoc] at h
    have hlater := (at_append.mp h).2
    rw [List.length_append, List.length_singleton] at hlater
    rw [encodeBytes, List.length_append, List.length_cons]
    rwa [show pos + ((asBytes s.length.repr).length + (s.length + 1)) - s.length =
      pos + ((asBytes s.length.repr).length + 1) by omega]
  have hle := h.le hpos
  have hlen : s.length ≤ (encodeBytes s).length := by
    rw [encodeBytes, List.length_append, List.length_cons]
    omega
  have hslice := hbody.slice (ε := Error) (by omega)
  rw [Nat.sub_add_cancel (by omega)] at hslice
  rw [byteString, byteStringSpan_of_at hbuf hpos hs h, Checked.ok_bind]
  dsimp only
  rw [hslice, Checked.ok_bind]

theorem byteString_ne_stuck (hpos : pos ≤ buf.length) : byteString buf pos ≠ .stuck := by
  refine Checked.bind_ne_stuck (byteStringSpan_ne_stuck hpos) fun ⟨start, stop⟩ hspan => ?_
  obtain ⟨s, -, -, -, hstart, hle⟩ := byteStringSpan_ok hpos hspan
  dsimp only
  rw [Checked.slice_eq (by omega) hle, Checked.ok_bind]
  simp

/-! ## Integers -/

def IsI64 (n : Int) : Prop := -2 ^ 63 ≤ n ∧ n < 2 ^ 63

theorem badInteger_intRepr (n : Int) : badInteger n.repr = false := by
  rw [badInteger, stripPrefix_intRepr, Bool.or_eq_false_iff, beq_eq_false_iff_ne]
  split
  · rename_i hn
    refine ⟨badDigits_repr _, fun heq => ?_⟩
    rw [intRepr_eq, if_pos hn, show "-0" = "-" ++ (0 : Nat).repr from rfl, String.append_right_inj] at heq
    have := nat_repr_injective heq
    omega
  · rename_i hn
    rw [intRepr_eq, if_neg hn]
    refine ⟨badDigits_repr _, fun heq => ?_⟩
    exact asBytes_repr_ne_cons n.natAbs (b := 0x2d) (by decide) [0x30] (by rw [heq]; rfl)

theorem parseI64_eq_some {s : String} {n : Int} (h : badInteger s = false) :
    parseI64 s = some n ↔ s = n.repr ∧ IsI64 n := by
  rw [badInteger, Bool.or_eq_false_iff, beq_eq_false_iff_ne] at h
  obtain ⟨hdigits, hzero⟩ := h
  unfold parseI64
  cases hs : stripPrefix '-' s with
  | some digits =>
    rw [hs, Option.getD_some] at hdigits
    have htext := stripPrefix_eq_some.mp hs
    have hplus : startsWith "+" digits = false := by
      obtain ⟨-, hall, -⟩ := badDigits_eq_false.mp hdigits
      rw [startsWith, Bool.eq_false_iff, ne_eq, List.isPrefixOf_iff_prefix]
      rintro ⟨rest, hrest⟩
      have hplus := allDigits_iff.mp hall '+' (by rw [← hrest]; simp)
      revert hplus
      decide
    dsimp only
    rw [hplus, if_neg Bool.false_ne_true, Option.map_eq_some_iff]
    constructor
    · rintro ⟨m, hm, rfl⟩
      obtain ⟨hrepr, hle⟩ := (parseUnsigned_of_digits hdigits).mp hm
      have hpos : m ≠ 0 := by
        rintro rfl
        exact hzero (by rw [htext, hrepr]; rfl)
      refine ⟨?_, by unfold IsI64; omega⟩
      rw [intRepr_eq, if_pos (by omega), htext, hrepr]
      simp
    · rintro ⟨hrepr, hi64⟩
      rw [hrepr, stripPrefix_intRepr] at hs
      split at hs
      · rename_i hn
        cases hs
        unfold IsI64 at hi64
        exact ⟨n.natAbs, (parseUnsigned_of_digits hdigits).mpr ⟨rfl, by omega⟩, by omega⟩
      · cases hs
  | none =>
    rw [hs, Option.getD_none] at hdigits
    dsimp only
    rw [Option.map_eq_some_iff]
    constructor
    · rintro ⟨m, hm, rfl⟩
      obtain ⟨hrepr, hle⟩ := (parseUnsigned_of_digits hdigits).mp hm
      exact ⟨hrepr, by unfold IsI64; omega⟩
    · rintro ⟨hrepr, hi64⟩
      rw [hrepr, stripPrefix_intRepr] at hs
      split at hs
      · cases hs
      · rename_i hn
        unfold IsI64 at hi64
        rw [hrepr, intRepr_eq, if_neg hn]
        exact ⟨n.natAbs, (parseUnsigned_of_digits (badDigits_repr _)).mpr ⟨rfl, by omega⟩, by omega⟩

theorem integer_ok (hpos : pos < buf.length) (hlead : buf[pos]? = some 0x69)
    (h : integer buf pos = .ok (v, stop)) : ∃ n, IsI64 n ∧ v = .int n ∧
      At buf pos (encode (.int n)) ∧ stop = pos + (encode (.int n)).length ∧ stop ≤ buf.length := by
  unfold integer at h
  extract_lets start at h
  obtain ⟨stop', hfind, h⟩ := Checked.bind_eq_ok.mp h
  obtain ⟨raw, hd, hat, hstop, hslice⟩ := slice_of_find (ε := Error) (by omega) hfind
  rw [hslice, Checked.ok_bind] at h
  split at h
  · cases h
  rename_i s hs
  split at h
  · cases h
  rename_i hgood
  split at h
  · cases h
  rename_i n hn
  obtain ⟨hrepr, hi64⟩ := (parseI64_eq_some (by simpa using hgood)).mp hn
  cases h
  have hraw : raw = asBytes n.repr := by rw [← hrepr, asBytes_of_fromUtf8 hs]
  rw [hraw] at hat hstop
  have hall : At buf pos (encode (.int n)) := at_cons.mpr ⟨hlead, hat⟩
  have hlen : (encode (.int n)).length = (asBytes n.repr).length + 2 := by
    rw [encode, List.length_append, List.length_cons, List.length_singleton]
  refine ⟨n, hi64, rfl, hall, by omega, ?_⟩
  have := hall.le (Nat.le_of_lt hpos)
  omega

theorem integer_of_at {n : Int} (hpos : pos ≤ buf.length) (hn : IsI64 n)
    (h : At buf pos (encode (.int n))) :
    integer buf pos = .ok (.int n, pos + (encode (.int n)).length) := by
  have hlen : (encode (.int n)).length = (asBytes n.repr).length + 2 := by
    rw [encode, List.length_append, List.length_cons, List.length_singleton]
  have hle := h.le hpos
  obtain ⟨-, hat⟩ := at_cons.mp h
  have hfind : find buf (pos + 1) 0x65 = .ok (pos + 1 + (asBytes n.repr).length) :=
    (find_eq_ok (by omega)).mpr ⟨_, not_mem_intRepr n (by decide) (by decide), hat, rfl⟩
  unfold integer
  extract_lets start
  rw [hfind, Checked.ok_bind, (at_append.mp hat).1.slice (by omega), Checked.ok_bind,
    fromUtf8_asBytes]
  dsimp only
  rw [badInteger_intRepr, if_neg Bool.false_ne_true,
    (parseI64_eq_some (badInteger_intRepr n)).mpr ⟨rfl, hn⟩]
  dsimp only
  congr 2
  omega

theorem integer_ne_stuck (hpos : pos < buf.length) : integer buf pos ≠ .stuck := by
  unfold integer
  extract_lets start
  refine Checked.bind_ne_stuck (find_ne_stuck (by omega)) fun stop hfind => ?_
  obtain ⟨raw, -, -, -, hslice⟩ := slice_of_find (ε := Error) (by omega) hfind
  rw [hslice, Checked.ok_bind]
  split
  · simp
  split
  · simp
  · split <;> simp

/-! ## Texts that are read -/

/-- Fewer than `left` levels of nesting, integers and lengths in range, and no key twice. -/
def Value.Legal : Nat → Value → Prop
  | 0, _ => False
  | _ + 1, .int n => IsI64 n
  | _ + 1, .bytes b => b.length ≤ maxAlloc
  | left + 1, .list items => ∀ v ∈ items, v.Legal left
  | left + 1, .dict entries => Entries.Distinct entries ∧
    ∀ e ∈ entries, e.1.length ≤ maxAlloc ∧ e.2.Legal left

/-- The text of a value that is sorted into `v`. -/
def Spelled (buf : Bytes) (left pos : Nat) (v : Value) (stop : Nat) : Prop :=
  ∃ r : Value, r.Legal left ∧ r.sorted = v ∧ At buf pos (encode r) ∧
    stop = pos + (encode r).length

theorem length_encode_pos (v : Value) : 0 < (encode v).length := by
  obtain ⟨b, rest, hb, -⟩ := lead_encode v
  rw [hb]
  exact Nat.succ_pos _

theorem Spelled.le (h : Spelled buf left pos v stop) (hpos : pos ≤ buf.length) :
    pos < stop ∧ stop ≤ buf.length := by
  obtain ⟨r, -, -, hat, rfl⟩ := h
  have hlen := length_encode_pos r
  exact ⟨by omega, hat.le hpos⟩

/-! ### Lists -/

section Items

variable {item : Nat → Checked Error (Value × Nat)} {acc rs : List Value}
  {es m : List (Bytes × Value)}

theorem listLoop_ok
    (hitem : ∀ pos v stop, pos ≤ buf.length → item pos = .ok (v, stop) → Spelled buf left pos v stop)
    (hpos : pos ≤ buf.length)
    (h : Checked.loop (remaining buf) (listTurn buf item) (acc, pos) = .ok (v, stop)) :
    ∃ rs, (∀ r ∈ rs, r.Legal left) ∧ v = .list (acc ++ sortedItems rs) ∧
      At buf pos (encodeItems rs ++ [0x65]) ∧ stop = pos + (encodeItems rs).length + 1 := by
  refine Checked.loop_rule (motive := fun st res => st.2 ≤ buf.length → ∃ rs,
    (∀ r ∈ rs, r.Legal left) ∧ res.1 = .list (st.1 ++ sortedItems rs) ∧
      At buf st.2 (encodeItems rs ++ [0x65]) ∧ res.2 = st.2 + (encodeItems rs).length + 1)
    ?_ ?_ h hpos
  · intro st res hdone hpos
    obtain ⟨b, hb, hdone⟩ := Checked.bind_eq_ok.mp hdone
    split at hdone
    · rename_i hend
      cases hdone
      rw [hend] at hb
      exact ⟨[], by simp, by simp [sortedItems], at_singleton.mpr (peek_eq_ok.mp hb), rfl⟩
    · obtain ⟨⟨v', pos'⟩, -, hdone⟩ := Checked.bind_eq_ok.mp hdone
      cases hdone
  · intro st st' res hnext ih hpos
    obtain ⟨b, hb, hnext⟩ := Checked.bind_eq_ok.mp hnext
    split at hnext
    · cases hnext
    obtain ⟨⟨v', pos'⟩, hv, hnext⟩ := Checked.bind_eq_ok.mp hnext
    cases hnext
    have hspelled := hitem _ _ _ hpos hv
    obtain ⟨rs, hlegal, hres, hat, hstop⟩ := ih (hspelled.le hpos).2
    obtain ⟨r, hr, rfl, hr', rfl⟩ := hspelled
    refine ⟨r :: rs, List.forall_mem_cons.mpr ⟨hr, hlegal⟩, ?_, ?_, ?_⟩
    · rw [hres, sortedItems, List.append_assoc]
      rfl
    · rw [encodeItems, List.append_assoc]
      exact at_append.mpr ⟨hr', hat⟩
    · rw [hstop, encodeItems, List.length_append]
      dsimp only
      omega

theorem listLoop_of_at
    (hitem : ∀ r pos, r.Legal left → pos ≤ buf.length → At buf pos (encode r) →
      item pos = .ok (r.sorted, pos + (encode r).length))
    (hlegal : ∀ r ∈ rs, r.Legal left) (hpos : pos ≤ buf.length)
    (h : At buf pos (encodeItems rs ++ [0x65])) :
    Checked.loop (remaining buf) (listTurn buf item) (acc, pos) =
      .ok (.list (acc ++ sortedItems rs), pos + (encodeItems rs).length + 1) := by
  induction rs generalizing acc pos with
  | nil =>
    have hb := peek_eq_ok.mpr (at_singleton.mp h)
    rw [Checked.loop_done (a := (.list acc, pos + 1)) (by rw [listTurn, hb]; rfl)]
    simp [sortedItems, encodeItems]
  | cons r rs ih =>
    obtain ⟨hr, hrs⟩ := List.forall_mem_cons.mp hlegal
    rw [encodeItems, List.append_assoc] at h
    obtain ⟨hat, hrest⟩ := at_append.mp h
    obtain ⟨b, more, hb, hlead⟩ := lead_encode r
    have hpeek := peek_eq_ok.mpr (at_cons.mp (hb ▸ hat)).1
    have hle := hat.le hpos
    have hlen := length_encode_pos r
    have hturn : listTurn buf item (acc, pos) =
        .ok (.next (acc ++ [r.sorted], pos + (encode r).length)) := by
      rw [listTurn, hpeek, Checked.ok_bind, if_neg hlead.ne_end, hitem r pos hr hpos hat]
      rfl
    rw [Checked.loop_next hturn (by simp only [remaining]; omega), ih hrs hle hrest, sortedItems,
      encodeItems, List.length_append, List.append_assoc]
    congr 2
    omega

/-! ### Dictionaries -/

theorem sortedEntries_append (es rs : List (Bytes × Value)) :
    sortedEntries (es ++ rs) = sortedEntries es ++ sortedEntries rs := by
  simp only [sortedEntries_eq_map, List.map_append]

theorem distinct_sortedEntries : Entries.Distinct (sortedEntries es) ↔ Entries.Distinct es := by
  rw [Entries.Distinct, Entries.Distinct, keys_sortedEntries]

/-- One more entry of a sorted dictionary. -/
theorem insert_sorted (h : Entries.Distinct es) (k : Bytes) (r : Value) :
    Entries.insert (Entries.sort (sortedEntries es)) k r.sorted =
      if k ∈ es.map Prod.fst then none
      else some (Entries.sort (sortedEntries (es ++ [(k, r)]))) := by
  rw [Entries.insert_sort (distinct_sortedEntries.mpr h), keys_sortedEntries, sortedEntries_append]
  rfl

theorem dictLoop_ok
    (hitem : ∀ pos v stop, pos ≤ buf.length → item pos = .ok (v, stop) → Spelled buf left pos v stop)
    (hpos : pos ≤ buf.length)
    (h : Checked.loop (remaining buf) (dictTurn buf item) ([], pos) = .ok (v, stop)) :
    ∃ rs, Entries.Distinct rs ∧ (∀ e ∈ rs, e.1.length ≤ maxAlloc ∧ e.2.Legal left) ∧
      v = .dict (Entries.sort (sortedEntries rs)) ∧ At buf pos (encodeEntries rs ++ [0x65]) ∧
      stop = pos + (encodeEntries rs).length + 1 := by
  have hrun := Checked.loop_rule (motive := fun st res => st.2 ≤ buf.length → ∀ es,
    Entries.Distinct es → st.1 = Entries.sort (sortedEntries es) → ∃ rs, Entries.Distinct (es ++ rs) ∧
      (∀ e ∈ rs, e.1.length ≤ maxAlloc ∧ e.2.Legal left) ∧
      res.1 = .dict (Entries.sort (sortedEntries (es ++ rs))) ∧
      At buf st.2 (encodeEntries rs ++ [0x65]) ∧ res.2 = st.2 + (encodeEntries rs).length + 1)
    ?_ ?_ h hpos [] List.nodup_nil rfl
  · exact hrun
  · intro st res hdone hpos es hes hst
    obtain ⟨b, hb, hdone⟩ := Checked.bind_eq_ok.mp hdone
    split at hdone
    · rename_i hend
      cases hdone
      rw [hend] at hb
      refine ⟨[], by rwa [List.append_nil], by simp, ?_, at_singleton.mpr (peek_eq_ok.mp hb), rfl⟩
      rw [List.append_nil, ← hst]
    split at hdone
    · cases hdone
    obtain ⟨⟨k, pos'⟩, -, hdone⟩ := Checked.bind_eq_ok.mp hdone
    obtain ⟨⟨v', pos''⟩, -, hdone⟩ := Checked.bind_eq_ok.mp hdone
    dsimp only at hdone
    split at hdone <;> cases hdone
  · intro st st' res hnext ih hpos es hes hst
    obtain ⟨b, hb, hnext⟩ := Checked.bind_eq_ok.mp hnext
    split at hnext
    · cases hnext
    split at hnext
    · cases hnext
    obtain ⟨⟨k, pos'⟩, hk, hnext⟩ := Checked.bind_eq_ok.mp hnext
    obtain ⟨⟨v', pos''⟩, hv, hnext⟩ := Checked.bind_eq_ok.mp hnext
    dsimp only at hnext hv
    obtain ⟨halloc, hkat, hpos', hle⟩ := byteString_ok hpos hk
    have hspelled := hitem _ _ _ hle hv
    have hle' := (hspelled.le hle).2
    obtain ⟨r, hr, rfl, hrat, hpos''⟩ := hspelled
    rw [hst, insert_sorted hes] at hnext
    split at hnext
    · cases hnext
    rename_i entries hinsert
    cases hnext
    split at hinsert
    · cases hinsert
    rename_i hfresh
    cases hinsert
    have hes' : Entries.Distinct (es ++ [(k, r)]) :=
      Entries.distinct_append_singleton.mpr ⟨hes, hfresh⟩
    obtain ⟨rs, hdistinct, hlegal, hres, hat, hstop⟩ := ih hle' _ hes' rfl
    rw [List.append_assoc, List.singleton_append] at hdistinct hres
    refine ⟨(k, r) :: rs, hdistinct, List.forall_mem_cons.mpr ⟨⟨halloc, hr⟩, hlegal⟩, hres, ?_, ?_⟩
    · rw [encodeEntries, List.append_assoc, List.append_assoc]
      refine at_append.mpr ⟨hkat, at_append.mpr ?_⟩
      rw [← hpos', ← hpos'']
      exact ⟨hrat, hat⟩
    · rw [hstop, encodeEntries, List.length_append, List.length_append]
      dsimp only
      omega

theorem dictLoop_of_at
    (hitem : ∀ r pos, r.Legal left → pos ≤ buf.length → At buf pos (encode r) →
      item pos = .ok (r.sorted, pos + (encode r).length))
    (hbuf : buf.length ≤ maxUsize) {rs : List (Bytes × Value)}
    (hdistinct : Entries.Distinct (es ++ rs))
    (hlegal : ∀ e ∈ rs, e.1.length ≤ maxAlloc ∧ e.2.Legal left) (hpos : pos ≤ buf.length)
    (h : At buf pos (encodeEntries rs ++ [0x65])) :
    Checked.loop (remaining buf) (dictTurn buf item) (Entries.sort (sortedEntries es), pos) =
      .ok (.dict (Entries.sort (sortedEntries (es ++ rs))), pos + (encodeEntries rs).length + 1) := by
  induction rs generalizing es pos with
  | nil =>
    have hb := peek_eq_ok.mpr (at_singleton.mp h)
    rw [Checked.loop_done (a := (.dict (Entries.sort (sortedEntries es)), pos + 1))
      (by rw [dictTurn, hb]; rfl), List.append_nil]
    rfl
  | cons e rs ih =>
    obtain ⟨k, r⟩ := e
    obtain ⟨⟨hk, hr⟩, hrs⟩ := List.forall_mem_cons.mp hlegal
    rw [encodeEntries, List.append_assoc, List.append_assoc] at h
    obtain ⟨hkat, hrest⟩ := at_append.mp h
    obtain ⟨hrat, hrest⟩ := at_append.mp hrest
    obtain ⟨b, more, hb, hdigit⟩ := head_encodeBytes k
    have hpeek := peek_eq_ok.mpr (at_cons.mp (hb ▸ hkat)).1
    have hend : b ≠ 0x65 := Lead.ne_end (v := .bytes k) hdigit
    have hkle := hkat.le hpos
    have hrle := hrat.le hkle
    have hlen := length_encode_pos r
    have hdistinct' : Entries.Distinct (es ++ [(k, r)] ++ rs) := by
      rwa [List.append_assoc, List.singleton_append]
    have hes : Entries.Distinct (es ++ [(k, r)]) := by
      rw [Entries.Distinct, List.map_append] at hdistinct'
      exact hdistinct'.of_append_left
    obtain ⟨hes, hfresh⟩ := Entries.distinct_append_singleton.mp hes
    have hturn : dictTurn buf item (Entries.sort (sortedEntries es), pos) =
        .ok (.next (Entries.sort (sortedEntries (es ++ [(k, r)])),
          pos + (encodeBytes k).length + (encode r).length)) := by
      rw [dictTurn, hpeek, Checked.ok_bind, if_neg hend, if_neg (by simpa using hdigit),
        byteString_of_at hbuf hpos hk hkat, Checked.ok_bind]
      dsimp only
      rw [hitem r _ hr hkle hrat, Checked.ok_bind]
      dsimp only
      rw [insert_sorted hes, if_neg hfresh]
    rw [Checked.loop_next hturn (by simp only [remaining]; omega), ih hdistinct' hrs hrle hrest,
      encodeEntries, List.length_append, List.length_append, List.append_assoc,
      List.singleton_append]
    congr 2
    omega

end Items

/-! ### Values -/

theorem valueDepth_ok (hpos : pos ≤ buf.length) (h : valueDepth buf left pos = .ok (v, stop)) :
    Spelled buf left pos v stop := by
  induction left generalizing pos v stop with
  | zero => cases h
  | succ left ih =>
    obtain ⟨b, hb, h⟩ := Checked.bind_eq_ok.mp h
    have hlt := lt_of_peek hb
    have hlead := peek_eq_ok.mp hb
    have hitem : ∀ pos v stop, pos ≤ buf.length → valueDepth buf left pos = .ok (v, stop) →
        Spelled buf left pos v stop := fun pos v stop hpos h => ih hpos h
    split at h
    · rename_i hkind
      obtain ⟨n, hn, rfl, hat, hstop, -⟩ := integer_ok hlt (hkind ▸ hlead) h
      exact ⟨.int n, hn, rfl, hat, hstop⟩
    split at h
    · rename_i hkind
      obtain ⟨rs, hlegal, rfl, hat, rfl⟩ := listLoop_ok hitem hlt h
      refine ⟨.list rs, hlegal, rfl, at_cons.mpr ⟨hkind ▸ hlead, hat⟩, ?_⟩
      rw [encode, List.length_append, List.length_cons, List.length_singleton]
      omega
    split at h
    · rename_i hkind
      obtain ⟨rs, hdistinct, hlegal, rfl, hat, rfl⟩ := dictLoop_ok hitem hlt h
      refine ⟨.dict rs, ⟨hdistinct, hlegal⟩, rfl, at_cons.mpr ⟨hkind ▸ hlead, hat⟩, ?_⟩
      rw [encode, List.length_append, List.length_cons, List.length_singleton]
      omega
    split at h
    · obtain ⟨⟨s, pos'⟩, hs, h⟩ := Checked.bind_eq_ok.mp h
      cases h
      obtain ⟨halloc, hat, hstop, -⟩ := byteString_ok hpos hs
      exact ⟨.bytes s, halloc, rfl, hat, hstop⟩
    · cases h

theorem valueDepth_of_at {r : Value} (hbuf : buf.length ≤ maxUsize) (hr : r.Legal left)
    (hpos : pos ≤ buf.length) (h : At buf pos (encode r)) :
    valueDepth buf left pos = .ok (r.sorted, pos + (encode r).length) := by
  induction left generalizing pos r with
  | zero => exact hr.elim
  | succ left ih =>
    obtain ⟨b, more, hb, hlead⟩ := lead_encode r
    have hpeek := peek_eq_ok.mpr (at_cons.mp (hb ▸ h)).1
    have hlt := lt_of_peek hpeek
    have hitem : ∀ r pos, r.Legal left → pos ≤ buf.length → At buf pos (encode r) →
        valueDepth buf left pos = .ok (r.sorted, pos + (encode r).length) :=
      fun r pos hr hpos h => ih hr hpos h
    rw [valueDepth, hpeek, Checked.ok_bind]
    cases r with
    | int n =>
      cases hlead
      exact integer_of_at hpos hr h
    | bytes s =>
      have hdigit : isAsciiDigit b = true := hlead
      have hkind : b ≠ 0x69 ∧ b ≠ 0x6c ∧ b ≠ 0x64 := by
        refine ⟨?_, ?_, ?_⟩ <;> (rintro rfl; simp [isAsciiDigit] at hdigit)
      rw [if_neg hkind.1, if_neg hkind.2.1, if_neg hkind.2.2, if_pos hdigit,
        byteString_of_at hbuf hpos hr h]
      rfl
    | list rs =>
      cases hlead
      rw [if_neg (by decide), if_pos rfl, listLoop_of_at hitem hr hlt (at_cons.mp h).2, encode,
        List.length_append, List.length_cons, List.length_singleton]
      congr 2
      omega
    | dict rs =>
      cases hlead
      have hdistinct : Entries.Distinct ([] ++ rs) := hr.1
      have hdict := dictLoop_of_at hitem hbuf hdistinct hr.2 hlt (at_cons.mp h).2
      rw [if_neg (by decide), if_neg (by decide), if_pos rfl]
      refine hdict.trans ?_
      rw [encode, List.length_append, List.length_cons, List.length_singleton]
      congr 2
      omega

/-! ## Coming back -/

theorem listTurn_ne_stuck {item : Nat → Checked Error (Value × Nat)} {st : List Value × Nat}
    (hitem : item st.2 ≠ .stuck) : listTurn buf item st ≠ .stuck := by
  refine Checked.bind_ne_stuck (peek_ne_stuck _ _) fun b _ => ?_
  split
  · simp
  · exact Checked.bind_ne_stuck hitem fun _ _ => by simp

theorem dictTurn_ne_stuck {item : Nat → Checked Error (Value × Nat)}
    {st : List (Bytes × Value) × Nat} (hpos : st.2 ≤ buf.length)
    (hitem : ∀ pos ≤ buf.length, item pos ≠ .stuck) : dictTurn buf item st ≠ .stuck := by
  refine Checked.bind_ne_stuck (peek_ne_stuck _ _) fun b _ => ?_
  split
  · simp
  split
  · simp
  refine Checked.bind_ne_stuck (byteString_ne_stuck hpos) fun ⟨k, pos⟩ hk => ?_
  refine Checked.bind_ne_stuck (hitem pos (byteString_ok hpos hk).2.2.2) fun ⟨v, pos⟩ _ => ?_
  dsimp only
  split <;> simp

/-- Every turn reads something. -/
theorem valueDepth_ne_stuck (hpos : pos ≤ buf.length) : valueDepth buf left pos ≠ .stuck := by
  induction left generalizing pos with
  | zero => simp [valueDepth]
  | succ left ih =>
    refine Checked.bind_ne_stuck (peek_ne_stuck _ _) fun b hb => ?_
    have hlt := lt_of_peek hb
    split
    · exact integer_ne_stuck hlt
    split
    · refine Checked.loop_ne_stuck (I := fun st => st.2 ≤ buf.length) hlt
        (fun st hst => listTurn_ne_stuck (ih hst)) fun st st' hst hnext => ?_
      obtain ⟨b, -, hnext⟩ := Checked.bind_eq_ok.mp hnext
      split at hnext
      · cases hnext
      obtain ⟨⟨v, stop⟩, hv, hnext⟩ := Checked.bind_eq_ok.mp hnext
      cases hnext
      obtain ⟨hmore, hle⟩ := (valueDepth_ok hst hv).le hst
      exact ⟨hle, by simp only [remaining]; omega⟩
    split
    · refine Checked.loop_ne_stuck (I := fun st => st.2 ≤ buf.length) hlt
        (fun st hst => dictTurn_ne_stuck hst fun pos hpos => ih hpos) fun st st' hst hnext => ?_
      obtain ⟨b, -, hnext⟩ := Checked.bind_eq_ok.mp hnext
      split at hnext
      · cases hnext
      split at hnext
      · cases hnext
      obtain ⟨⟨k, pos'⟩, hk, hnext⟩ := Checked.bind_eq_ok.mp hnext
      obtain ⟨⟨v, stop⟩, hv, hnext⟩ := Checked.bind_eq_ok.mp hnext
      dsimp only at hnext hv
      split at hnext <;> cases hnext
      obtain ⟨-, -, hpos', hkle⟩ := byteString_ok hst hk
      obtain ⟨hmore, hle⟩ := (valueDepth_ok hkle hv).le hkle
      exact ⟨hle, by simp only [remaining]; omega⟩
    split
    · exact Checked.bind_ne_stuck (byteString_ne_stuck hpos) fun _ _ => by simp
    · simp

/-! ## Parsing -/

theorem at_zero_iff {text : Bytes} : At buf 0 text ↔ text <+: buf := Iff.rfl

theorem parse_ok (h : parse s = .ok v) :
    ∃ r : Value, r.Legal (maxDepth + 1) ∧ encode r = s ∧ r.sorted = v := by
  obtain ⟨⟨v', stop⟩, hv, h⟩ := Checked.bind_eq_ok.mp h
  dsimp only at h
  split at h
  · cases h
  rename_i hend
  cases h
  obtain ⟨r, hr, hsorted, hat, hstop⟩ := valueDepth_ok (Nat.zero_le _) hv
  refine ⟨r, hr, ?_, hsorted⟩
  rw [Nat.zero_add] at hstop
  exact (at_zero_iff.mp hat).eq_of_length_le (by omega)

theorem parse_encode {r : Value} (hr : r.Legal (maxDepth + 1)) (hlen : (encode r).length ≤ maxUsize) :
    parse (encode r) = .ok r.sorted := by
  rw [parse, value, valueDepth_of_at hlen hr (Nat.zero_le _) (at_zero_iff.mpr List.prefix_rfl),
    Checked.ok_bind]
  exact if_neg (by omega)

theorem parse_ne_stuck (s : Bytes) : parse s ≠ .stuck := by
  refine Checked.bind_ne_stuck (valueDepth_ne_stuck (Nat.zero_le _)) fun ⟨v, stop⟩ _ => ?_
  dsimp only
  split <;> simp

/-- The value of an input is what is written in it, sorted. -/
theorem bencode_exact :
    (∀ v : Value, v.Legal (maxDepth + 1) → v.Ascending → (encode v).length ≤ maxUsize →
      parse (encode v) = .ok v) ∧
    (∀ b v, parse b = .ok v → ∃ r : Value, (∀ r', encode r' = b ↔ r' = r) ∧
      encode v = encode r.sorted ∧ (encode v = b ↔ r.Ascending)) ∧
    ∀ b, parse b ≠ .stuck := by
  refine ⟨fun v hv hasc hlen => ?_, fun b v hv => ?_, parse_ne_stuck⟩
  · rw [parse_encode hv hlen, hasc.sorted_eq]
  · obtain ⟨r, -, rfl, rfl⟩ := parse_ok hv
    refine ⟨r, fun r' => encode_injective.eq_iff, rfl, ?_⟩
    rw [encode_injective.eq_iff, Value.ascending_iff]

/-- One entry, of a list. -/
def oneList : Value := .dict [([0x61], .list [.int (-7), .bytes []])]

theorem bencode_exact_oneList : parse (encode oneList) = .ok oneList ∧
    ∃ r : Value, (∀ r', encode r' = encode oneList ↔ r' = r) ∧ encode oneList = encode r.sorted ∧
      (encode oneList = encode oneList ↔ r.Ascending) := by
  have hparse : parse (encode oneList) = .ok oneList := by
    refine bencode_exact.1 _ ?_ ?_ (by decide)
    · refine ⟨List.nodup_singleton _, ?_⟩
      simp [Value.Legal, IsI64, maxAlloc]
    · simp [oneList, Value.Ascending, AscendingItems, AscendingEntries]
  exact ⟨hparse, bencode_exact.2.1 _ _ hparse⟩

end Rsurl.Bittorrent.Bencode
