import Rsurl.Bittorrent.Bencode
import Rsurl.Library.Delimited

/-!
# Sorted dictionaries

A value whose dictionaries have their entries as they were written is sorted into the value that the
decoder builds. What is written of a value determines the value.
-/

namespace Rsurl.Bittorrent.Bencode

open Library Text

/-! ## Sorting -/

mutual

/-- The entries of each dictionary sorted by key. -/
def Value.sorted : Value → Value
  | .int n => .int n
  | .bytes b => .bytes b
  | .list items => .list (sortedItems items)
  | .dict entries => .dict (Entries.sort (sortedEntries entries))

def sortedItems : List Value → List Value
  | [] => []
  | v :: items => v.sorted :: sortedItems items

def sortedEntries : List (Bytes × Value) → List (Bytes × Value)
  | [] => []
  | (k, v) :: entries => (k, v.sorted) :: sortedEntries entries

end

mutual

/-- The keys of every dictionary ascend. -/
def Value.Ascending : Value → Prop
  | .int _ => True
  | .bytes _ => True
  | .list items => AscendingItems items
  | .dict entries => entries.Pairwise Entries.Before ∧ AscendingEntries entries

def AscendingItems : List Value → Prop
  | [] => True
  | v :: items => v.Ascending ∧ AscendingItems items

def AscendingEntries : List (Bytes × Value) → Prop
  | [] => True
  | (_, v) :: entries => v.Ascending ∧ AscendingEntries entries

end

theorem sortedEntries_eq_map (entries : List (Bytes × Value)) :
    sortedEntries entries = entries.map (Prod.map id Value.sorted) := by
  induction entries with
  | nil => rfl
  | cons e entries ih =>
    obtain ⟨k, v⟩ := e
    rw [sortedEntries, ih, List.map_cons]
    rfl

theorem keys_sortedEntries (entries : List (Bytes × Value)) :
    (sortedEntries entries).map Prod.fst = entries.map Prod.fst := by
  rw [sortedEntries_eq_map, List.map_map]
  rfl

/-- Sorting looks at the keys only. -/
theorem sortedEntries_sort (entries : List (Bytes × Value)) :
    sortedEntries (Entries.sort entries) = Entries.sort (sortedEntries entries) := by
  rw [sortedEntries_eq_map, sortedEntries_eq_map, Entries.sort, Entries.sort]
  exact List.map_insertionSort _ _ _ _ fun _ _ _ _ => Iff.rfl

mutual

theorem Value.sorted_sorted (v : Value) : v.sorted.sorted = v.sorted := by
  cases v with
  | int n => rfl
  | bytes b => rfl
  | list items => simp only [Value.sorted, sortedItems_sortedItems items]
  | dict entries =>
    simp only [Value.sorted]
    rw [sortedEntries_sort, sortedEntries_sortedEntries entries]
    exact congrArg Value.dict (List.pairwise_insertionSort _ _).insertionSort_eq

theorem sortedItems_sortedItems (items : List Value) :
    sortedItems (sortedItems items) = sortedItems items := by
  cases items with
  | nil => rfl
  | cons v items => rw [sortedItems, sortedItems, v.sorted_sorted, sortedItems_sortedItems items]

theorem sortedEntries_sortedEntries (entries : List (Bytes × Value)) :
    sortedEntries (sortedEntries entries) = sortedEntries entries := by
  cases entries with
  | nil => rfl
  | cons e entries =>
    obtain ⟨k, v⟩ := e
    rw [sortedEntries, sortedEntries, v.sorted_sorted, sortedEntries_sortedEntries entries]

end

mutual

theorem Value.Ascending.sorted_eq {v : Value} (h : v.Ascending) : v.sorted = v := by
  cases v with
  | int n => rfl
  | bytes b => rfl
  | list items => exact congrArg Value.list (sortedItems_eq h)
  | dict entries =>
    obtain ⟨hasc, hall⟩ := h
    rw [Value.sorted, sortedEntries_eq hall]
    exact congrArg Value.dict hasc.insertionSort_eq

theorem sortedItems_eq {items : List Value} (h : AscendingItems items) :
    sortedItems items = items := by
  cases items with
  | nil => rfl
  | cons v items => rw [sortedItems, h.1.sorted_eq, sortedItems_eq h.2]

theorem sortedEntries_eq {entries : List (Bytes × Value)} (h : AscendingEntries entries) :
    sortedEntries entries = entries := by
  cases entries with
  | nil => rfl
  | cons e entries =>
    obtain ⟨k, v⟩ := e
    rw [sortedEntries, h.1.sorted_eq, sortedEntries_eq h.2]

end

mutual

theorem Value.ascending_of_sorted_eq {v : Value} (h : v.sorted = v) : v.Ascending := by
  cases v with
  | int n => trivial
  | bytes b => trivial
  | list items => exact ascendingItems_of_eq (Value.list.inj h)
  | dict entries =>
    have hsort := Value.dict.inj h
    -- Every value is the outcome of sorting, and so sorted.
    have hfix : sortedEntries entries = entries := by
      conv_lhs => rw [← hsort, sortedEntries_sort, sortedEntries_sortedEntries]
      exact hsort
    refine ⟨?_, ascendingEntries_of_eq hfix⟩
    rw [← hsort]
    exact List.pairwise_insertionSort _ _

theorem ascendingItems_of_eq {items : List Value} (h : sortedItems items = items) :
    AscendingItems items := by
  cases items with
  | nil => trivial
  | cons v items =>
    obtain ⟨hv, hitems⟩ := List.cons.inj h
    exact ⟨Value.ascending_of_sorted_eq hv, ascendingItems_of_eq hitems⟩

theorem ascendingEntries_of_eq {entries : List (Bytes × Value)}
    (h : sortedEntries entries = entries) : AscendingEntries entries := by
  cases entries with
  | nil => trivial
  | cons e entries =>
    obtain ⟨k, v⟩ := e
    obtain ⟨hv, hentries⟩ := List.cons.inj h
    exact ⟨Value.ascending_of_sorted_eq (Prod.mk.inj hv).2, ascendingEntries_of_eq hentries⟩

end

theorem Value.ascending_iff {v : Value} : v.sorted = v ↔ v.Ascending :=
  ⟨Value.ascending_of_sorted_eq, Value.Ascending.sorted_eq⟩

/-! ## What is written determines the value -/

theorem encodeBytes_append_inj {b b' s s' : Bytes} (h : encodeBytes b ++ s = encodeBytes b' ++ s') :
    b = b' ∧ s = s' := by
  rw [encodeBytes, encodeBytes, List.append_assoc, List.append_assoc, List.cons_append,
    List.cons_append] at h
  obtain ⟨hlen, hrest⟩ := Delimited.append_inj (not_mem_repr _ (by decide)) (not_mem_repr _ (by decide)) h
  exact List.append_inj hrest (nat_repr_injective (asBytes_injective hlen))

theorem head_encodeBytes (b : Bytes) : ∃ d rest, encodeBytes b = d :: rest ∧ isAsciiDigit d = true := by
  obtain ⟨d, rest, hd⟩ := List.exists_cons_of_ne_nil (l := asBytes b.length.repr) (by
    rw [asBytes_repr]
    simp)
  refine ⟨d, rest ++ 0x3a :: b, by rw [encodeBytes, hd, List.cons_append], ?_⟩
  exact List.all_eq_true.mp (all_asBytes_repr b.length) d (hd ▸ List.mem_cons_self)

/-- The first byte of what is written, which tells the kind of value. -/
def Lead (b : UInt8) : Value → Prop
  | .int _ => b = 0x69
  | .bytes _ => isAsciiDigit b = true
  | .list _ => b = 0x6c
  | .dict _ => b = 0x64

theorem lead_encode (v : Value) : ∃ b rest, encode v = b :: rest ∧ Lead b v := by
  cases v with
  | int n => exact ⟨_, _, rfl, rfl⟩
  | bytes b => exact head_encodeBytes b
  | list items => exact ⟨_, _, rfl, rfl⟩
  | dict entries => exact ⟨_, _, rfl, rfl⟩

theorem Lead.ne_end {b : UInt8} {v : Value} (h : Lead b v) : b ≠ 0x65 := by
  rintro rfl
  cases v <;> simp [Lead, isAsciiDigit] at h

mutual

theorem encode_append_inj {r r' : Value} {s s' : Bytes} (h : encode r ++ s = encode r' ++ s') :
    r = r' ∧ s = s' := by
  obtain ⟨b, rest, hb, hlead⟩ := lead_encode r
  obtain ⟨b', rest', hb', hlead'⟩ := lead_encode r'
  have heq : b = b' := by
    rw [hb, hb'] at h
    exact (List.cons.inj h).1
  cases r with
  | int n =>
    cases r' with
    | int n' =>
      simp only [encode, List.cons_append, List.append_assoc, List.nil_append] at h
      obtain ⟨hn, hs⟩ := Delimited.append_inj (not_mem_intRepr n (by decide) (by decide))
        (not_mem_intRepr n' (by decide) (by decide)) (List.cons.inj h).2
      exact ⟨congrArg Value.int (intRepr_injective hn), hs⟩
    | _ => simp_all [Lead, isAsciiDigit]
  | bytes x =>
    cases r' with
    | bytes x' =>
      obtain ⟨hx, hs⟩ := encodeBytes_append_inj h
      exact ⟨congrArg Value.bytes hx, hs⟩
    | _ => simp_all [Lead, isAsciiDigit]
  | list items =>
    cases r' with
    | list items' =>
      simp only [encode, List.cons_append, List.append_assoc, List.nil_append] at h
      obtain ⟨hitems, hs⟩ := encodeItems_append_inj (List.cons.inj h).2
      exact ⟨congrArg Value.list hitems, hs⟩
    | _ => simp_all [Lead, isAsciiDigit]
  | dict entries =>
    cases r' with
    | dict entries' =>
      simp only [encode, List.cons_append, List.append_assoc, List.nil_append] at h
      obtain ⟨hentries, hs⟩ := encodeEntries_append_inj (List.cons.inj h).2
      exact ⟨congrArg Value.dict hentries, hs⟩
    | _ => simp_all [Lead, isAsciiDigit]

theorem encodeItems_append_inj {items items' : List Value} {s s' : Bytes}
    (h : encodeItems items ++ 0x65 :: s = encodeItems items' ++ 0x65 :: s') :
    items = items' ∧ s = s' := by
  cases items with
  | nil =>
    cases items' with
    | nil => exact ⟨rfl, (List.cons.inj h).2⟩
    | cons v' items' =>
      obtain ⟨b, rest, hb, hlead⟩ := lead_encode v'
      rw [encodeItems, encodeItems, hb] at h
      exact absurd (List.cons.inj h).1.symm hlead.ne_end
  | cons v items =>
    cases items' with
    | nil =>
      obtain ⟨b, rest, hb, hlead⟩ := lead_encode v
      rw [encodeItems, encodeItems, hb] at h
      exact absurd (List.cons.inj h).1 hlead.ne_end
    | cons v' items' =>
      rw [encodeItems, encodeItems, List.append_assoc, List.append_assoc] at h
      obtain ⟨rfl, hrest⟩ := encode_append_inj h
      obtain ⟨rfl, hs⟩ := encodeItems_append_inj hrest
      exact ⟨rfl, hs⟩

theorem encodeEntries_append_inj {entries entries' : List (Bytes × Value)} {s s' : Bytes}
    (h : encodeEntries entries ++ 0x65 :: s = encodeEntries entries' ++ 0x65 :: s') :
    entries = entries' ∧ s = s' := by
  cases entries with
  | nil =>
    cases entries' with
    | nil => exact ⟨rfl, (List.cons.inj h).2⟩
    | cons e' entries' =>
      obtain ⟨k, v⟩ := e'
      obtain ⟨b, rest, hb, hlead⟩ := lead_encode (.bytes k)
      rw [encodeEntries, encodeEntries, ← encode, hb] at h
      exact absurd (List.cons.inj h).1.symm hlead.ne_end
  | cons e entries =>
    obtain ⟨k, v⟩ := e
    cases entries' with
    | nil =>
      obtain ⟨b, rest, hb, hlead⟩ := lead_encode (.bytes k)
      rw [encodeEntries, encodeEntries, ← encode, hb] at h
      exact absurd (List.cons.inj h).1 hlead.ne_end
    | cons e' entries' =>
      obtain ⟨k', v'⟩ := e'
      rw [encodeEntries, encodeEntries] at h
      simp only [List.append_assoc] at h
      obtain ⟨rfl, hvalue⟩ := encodeBytes_append_inj h
      obtain ⟨rfl, hrest⟩ := encode_append_inj hvalue
      obtain ⟨rfl, hs⟩ := encodeEntries_append_inj hrest
      exact ⟨rfl, hs⟩

end

theorem encode_injective : Function.Injective encode := by
  intro r r' h
  exact (encode_append_inj (congrArg (· ++ []) h)).1

end Rsurl.Bittorrent.Bencode
