import Rsurl.Bittorrent.Metainfo
import Rsurl.Bittorrent.Bencode.Exact

/-!
# What is hashed

The infohash of a torrent is that of the text of its `info` dictionary. The dictionary that a peer
sends is wrapped by concatenation, so that it may bring entries of its own behind its first value;
these are not hashed.
-/

/-!
## The spans of a dictionary

The walk that passes over values reads what the parser reads, and so the range it gives a key is the
text of the value that the parser has there.
-/

namespace Rsurl.Bittorrent.Bencode

open Library Library.Cursor Text
open Library.Checked (Agree agree_bind agree_loop)

variable {buf : Bytes} {pos stop left : Nat}

/-! ## Passing over and building -/

/-- Where the value ends. -/
def Ends (buf : Bytes) (pos : Nat) (res : Value × Nat) : Prop := pos = res.2 ∧ pos ≤ buf.length

theorem agree_integer (hpos : pos < buf.length) (hlead : buf[pos]? = some 0x69) :
    Agree (Ends buf) (integer buf pos >>= fun (_, pos) => .ok pos) (integer buf pos) := by
  cases h : integer buf pos with
  | ok res =>
    obtain ⟨v, stop⟩ := res
    obtain ⟨n, -, -, -, -, hle⟩ := integer_ok hpos hlead h
    exact ⟨rfl, hle⟩
  | error e => exact rfl
  | stuck => exact trivial

theorem agree_byteString (hpos : pos ≤ buf.length) :
    Agree (Ends buf) (byteStringSpan buf pos >>= fun (_, stop) => .ok stop)
      (byteString buf pos >>= fun (s, pos) => .ok (.bytes s, pos)) := by
  rw [byteString, Checked.bind_assoc]
  cases h : byteStringSpan buf pos with
  | ok res =>
    obtain ⟨start, stop⟩ := res
    obtain ⟨s, -, -, -, hstart, hle⟩ := byteStringSpan_ok hpos h
    rw [Checked.ok_bind, Checked.ok_bind]
    dsimp only
    rw [Checked.slice_eq (by omega) hle]
    exact ⟨rfl, hle⟩
  | error e => exact rfl
  | stuck => exact trivial

/-- The two walks in step, to the same errors. -/
theorem skipValue_agree (hpos : pos ≤ buf.length) :
    Agree (Ends buf) (skipValue buf left pos) (valueDepth buf left pos) := by
  induction left generalizing pos with
  | zero => exact rfl
  | succ left ih =>
    rw [skipValue, valueDepth]
    refine agree_bind fun b hb => ?_
    have hlt := lt_of_peek hb
    split
    · rename_i hkind
      exact agree_integer hlt (hkind ▸ peek_eq_ok.mp hb)
    split
    · refine agree_loop (R := fun st st' => st.2 = st'.2 ∧ st.2 ≤ buf.length)
        (fun st st' h => by rw [remaining, remaining, h.1]) (fun st st' hst => ?_) ⟨rfl, hlt⟩
      obtain ⟨hst, hle⟩ := hst
      rw [skipListTurn, listTurn, ← hst]
      refine agree_bind fun b hb => ?_
      split
      · exact ⟨rfl, lt_of_peek hb⟩
      · exact (ih hle).bind fun stop res hres => hres
    split
    · refine agree_loop (R := fun st st' => st.2 = st'.2 ∧ st.2 ≤ buf.length ∧
        ∀ k, k ∈ st.1 ↔ k ∈ st'.1.map Prod.fst) (fun st st' h => by rw [remaining, remaining, h.1])
        (fun st st' hst => ?_) ⟨rfl, hlt, by simp⟩
      obtain ⟨hst, hle, hkeys⟩ := hst
      rw [skipDictTurn, dictTurn, ← hst]
      refine agree_bind fun b hb => ?_
      split
      · exact ⟨rfl, lt_of_peek hb⟩
      split
      · exact rfl
      rw [byteString, Checked.bind_assoc]
      refine agree_bind fun span hspan => ?_
      obtain ⟨start, stop⟩ := span
      obtain ⟨s, -, -, -, hstart, hstop⟩ := byteStringSpan_ok hle hspan
      dsimp only
      rw [Checked.slice_eq (by omega) hstop, Checked.ok_bind, Checked.ok_bind, Checked.ok_bind]
      refine (ih hstop).bind fun pos res hres => ?_
      obtain ⟨rfl, hpos⟩ := hres
      dsimp only
      by_cases hk : (buf.take stop).drop start ∈ st.1
      · rw [if_pos hk, Entries.insert_eq_none.mpr ((hkeys _).mp hk)]
        exact rfl
      · rw [if_neg hk]
        split
        · rename_i hnone
          exact absurd ((hkeys _).mpr (Entries.insert_eq_none.mp hnone)) hk
        · rename_i entries hsome
          refine ⟨rfl, hpos, fun k => ?_⟩
          rw [List.mem_cons, Entries.mem_keys_insert hsome, hkeys]
    split
    · exact agree_byteString hpos
    · exact rfl

theorem skipValue_ok (hpos : pos ≤ buf.length) (h : skipValue buf left pos = .ok stop) :
    stop ≤ buf.length ∧ ∃ v, Spelled buf left pos v stop := by
  have hagree : Agree (Ends buf) (skipValue buf left pos) (valueDepth buf left pos) :=
    skipValue_agree hpos
  rw [h] at hagree
  obtain ⟨⟨v, stop'⟩, hv, rfl, hle⟩ := hagree.ok_left
  exact ⟨hle, v, valueDepth_ok hpos hv⟩

/-! ## Spans -/

/-- A key, and the range of the text of its value. -/
def Span (buf : Bytes) (e : Bytes × Value) (span : Bytes × Nat × Nat) : Prop :=
  span.1 = e.1 ∧ span.2.1 ≤ buf.length ∧ At buf span.2.1 (encode e.2) ∧
    span.2.2 = span.2.1 + (encode e.2).length

theorem Span.slice {e : Bytes × Value} {span : Bytes × Nat × Nat} (h : Span buf e span) :
    (Checked.slice buf span.2.1 span.2.2 : Checked Error Bytes) = .ok (encode e.2) := by
  obtain ⟨-, hle, hat, hstop⟩ := h
  rw [hstop]
  exact hat.slice hle

theorem dictEntrySpans_ok {spans : List (Bytes × Nat × Nat)}
    (h : dictEntrySpans buf pos = .ok (spans, stop)) : ∃ es : List (Bytes × Value),
      At buf pos (encode (.dict es)) ∧ List.Forall₂ (Span buf) es spans := by
  obtain ⟨b, hb, h⟩ := Checked.bind_eq_ok.mp h
  split at h
  · cases h
  rename_i hkind
  have hkind : b = 0x64 := by simpa using hkind
  have hlt := lt_of_peek hb
  have hrun := Checked.loop_rule (motive := fun st res => st.2 ≤ buf.length →
    ∃ es more, res.1 = st.1 ++ more ∧ At buf st.2 (encodeEntries es ++ [0x65]) ∧
      List.Forall₂ (Span buf) es more) ?_ ?_ h hlt
  · obtain ⟨es, more, hmore, hat, hspans⟩ := hrun
    have hmore : spans = more := hmore
    exact ⟨es, at_cons.mpr ⟨hkind ▸ peek_eq_ok.mp hb, hat⟩, hmore ▸ hspans⟩
  · intro st res hdone hpos
    obtain ⟨b, hb, hdone⟩ := Checked.bind_eq_ok.mp hdone
    split at hdone
    · rename_i hend
      cases hdone
      rw [hend] at hb
      exact ⟨[], [], by simp, at_singleton.mpr (peek_eq_ok.mp hb), .nil⟩
    split at hdone
    · cases hdone
    obtain ⟨⟨k, start⟩, -, hdone⟩ := Checked.bind_eq_ok.mp hdone
    obtain ⟨stop, -, hdone⟩ := Checked.bind_eq_ok.mp hdone
    cases hdone
  · intro st st' res hnext ih hpos
    obtain ⟨b, hb, hnext⟩ := Checked.bind_eq_ok.mp hnext
    split at hnext
    · cases hnext
    split at hnext
    · cases hnext
    obtain ⟨⟨k, start⟩, hk, hnext⟩ := Checked.bind_eq_ok.mp hnext
    obtain ⟨stop, hskip, hnext⟩ := Checked.bind_eq_ok.mp hnext
    cases hnext
    obtain ⟨-, hkat, hstart, hle⟩ := byteString_ok hpos hk
    obtain ⟨hstople, v, r, -, -, hrat, hstop⟩ := skipValue_ok hle hskip
    obtain ⟨es, more, hmore, hat, hspans⟩ := ih hstople
    refine ⟨(k, r) :: es, (k, start, stop) :: more, ?_, ?_, .cons ⟨rfl, hle, hrat, hstop⟩ hspans⟩
    · rw [hmore, List.append_assoc]
      rfl
    · rw [encodeEntries, List.append_assoc, List.append_assoc]
      refine at_append.mpr ⟨hkat, at_append.mpr ?_⟩
      rw [← hstart, ← hstop]
      exact ⟨hrat, hat⟩

end Rsurl.Bittorrent.Bencode

namespace Rsurl.Bittorrent

open Library Library.Cursor Text Bencode

variable {sha1 : Bytes → Bytes} {t i : Bytes} {m : Metainfo}

/-! ## Texts and their parts -/

theorem Bencode.Value.Legal.succ {v : Value} {left : Nat} (h : v.Legal left) : v.Legal (left + 1) := by
  induction left generalizing v with
  | zero => exact h.elim
  | succ left ih =>
    cases v with
    | int n => exact h
    | bytes b => exact h
    | list items => exact fun v hv => ih (h v hv)
    | dict entries => exact ⟨h.1, fun e he => ⟨(h.2 e he).1, ih (h.2 e he).2⟩⟩

theorem length_encode_le {es : List (Bytes × Value)} {e : Bytes × Value} (he : e ∈ es) :
    (encode e.2).length ≤ (encodeEntries es).length := by
  induction es with
  | nil => cases he
  | cons e' es ih =>
    obtain ⟨k, v⟩ := e'
    rw [encodeEntries, List.length_append, List.length_append]
    rcases List.mem_cons.mp he with rfl | he
    · dsimp only
      omega
    · have := ih he
      omega

/-- The text of a dictionary that is parsed, and the spans in it. -/
theorem spans_of_parse {root : Value} {spans : List (Bytes × Nat × Nat)} {stop : Nat}
    (hroot : parse t = .ok root) (hspans : dictEntrySpans t 0 = .ok (spans, stop)) :
    ∃ es : List (Bytes × Value), encode (.dict es) = t ∧ (Value.dict es).Legal (maxDepth + 1) ∧
      root = .dict (Entries.sort (sortedEntries es)) ∧ List.Forall₂ (Span t) es spans := by
  obtain ⟨r, hr, rfl, rfl⟩ := parse_ok hroot
  obtain ⟨es, ⟨rest, hrest⟩, hall⟩ := dictEntrySpans_ok hspans
  obtain ⟨rfl, -⟩ := encode_append_inj (hrest.trans (List.append_nil _).symm)
  exact ⟨es, rfl, hr, rfl, hall⟩

theorem get_of_mem {es : List (Bytes × Value)} (hdistinct : Entries.Distinct es)
    {e : Bytes × Value} (he : e ∈ es) :
    (Value.dict (Entries.sort (sortedEntries es))).get e.1 = some e.2.sorted := by
  have hmem : (e.1, e.2.sorted) ∈ sortedEntries es := by
    rw [sortedEntries_eq_map]
    exact List.mem_map.mpr ⟨e, he, rfl⟩
  have hkeys := distinct_sortedEntries.mpr hdistinct
  refine (Entries.lookup_eq_some_iff (Entries.isMap_sort hkeys).distinct).mpr ?_
  exact (Entries.sort_perm _).mem_iff.mpr hmem

/-! ## Torrents -/

theorem fromBytes_ok (h : Metainfo.fromBytes sha1 t = .ok m) :
    ∃ (es : List (Bytes × Value)) (r root : Value), encode (.dict es) = t ∧
      (Value.dict es).Legal (maxDepth + 1) ∧ (Text.asBytes "info", r) ∈ es ∧
      (∃ start stop, (Checked.slice t start stop : Checked Error Bytes) = .ok (encode r)) ∧
      parse t = .ok root ∧ root.get (Text.asBytes "info") = some r.sorted ∧
      Metainfo.ofInfo (sha1 (encode r)) (parseTrackers root) r.sorted = .ok m := by
  obtain ⟨root, hroot, h⟩ := Checked.bind_eq_ok.mp h
  obtain ⟨⟨spans, stop⟩, hspans, h⟩ := Checked.bind_eq_ok.mp h
  obtain ⟨es, htext, hlegal, rfl, hall⟩ := spans_of_parse hroot hspans
  dsimp only at h
  split at h
  · cases h
  rename_i k start stop' hfind
  have hmem := List.mem_of_find?_eq_some hfind
  have hkey : k = Text.asBytes "info" := by simpa using List.find?_some hfind
  obtain ⟨n, hn, hget⟩ := List.mem_iff_getElem.mp hmem
  have hn' : n < es.length := by rw [hall.length_eq]; exact hn
  have hspan : Span t es[n] (k, start, stop') := hget ▸ hall.get hn' hn
  obtain ⟨raw, hraw, h⟩ := Checked.bind_eq_ok.mp h
  have hslice := hspan.slice
  dsimp only at hslice
  rw [hslice] at hraw
  cases hraw
  have he : es[n] = (Text.asBytes "info", es[n].2) := Prod.ext (hspan.1.symm.trans hkey) rfl
  have hin := List.getElem_mem hn'
  obtain ⟨info, hinfo, h⟩ := Checked.except_bind_eq_ok.mp (Checked.ofExcept_eq_ok.mp h)
  have hget := get_of_mem hlegal.1 hin
  rw [← show k = es[n].1 from hspan.1, hkey] at hget
  rw [hget] at hinfo
  cases hinfo
  exact ⟨es, es[n].2, _, htext, hlegal, he ▸ hin, ⟨start, stop', hslice⟩, hroot, hget, h⟩

/-! ## Dictionaries from peers -/

/-- Only the first value is hashed. -/
theorem fromInfoDict_ok (h : Metainfo.fromInfoDict sha1 i = .ok m) :
    ∃ (r : Value) (more : List (Bytes × Value)), i = encode r ++ encodeEntries more ∧
      r.Legal (maxDepth + 1) ∧ m.infoHash = sha1 (encode r) := by
  obtain ⟨es, r, root, htext, hlegal, hmem, -, -, -, hm⟩ := fromBytes_ok h
  have hhash := (Metainfo.ofInfo_ok hm).infoHash
  have hwrap : Text.asBytes "d4:info" = 0x64 :: encodeBytes (Text.asBytes "info") := by decide
  rw [encode, hwrap, List.cons_append, List.cons_append, List.cons_append] at htext
  replace htext := (List.cons.inj htext).2
  cases es with
  | nil => cases hmem
  | cons e more =>
    obtain ⟨k, v⟩ := e
    rw [encodeEntries] at htext
    simp only [List.append_assoc] at htext
    obtain ⟨rfl, hvalue⟩ := encodeBytes_append_inj htext
    have hfirst : r = v := by
      have hv := (Entries.lookup_eq_some_iff (k := Text.asBytes "info") hlegal.1).mpr
        (List.mem_cons_self (a := (Text.asBytes "info", v)) (l := more))
      have hr := (Entries.lookup_eq_some_iff hlegal.1).mpr hmem
      exact Option.some.inj (hr.symm.trans hv)
    refine ⟨r, more, ?_, (hlegal.2 _ hmem).2.succ, hhash⟩
    rw [← List.append_assoc] at hvalue
    rw [hfirst]
    exact (List.append_cancel_right hvalue).symm

/-- The part of the text that is hashed, and whether it is all of it. -/
theorem hashed_part (hlen : i.length ≤ maxUsize) (h : Metainfo.fromInfoDict sha1 i = .ok m) :
    ∃ first rest, i = first ++ rest ∧ m.infoHash = sha1 first ∧ (∃ v, parse first = .ok v) ∧
      ((∃ v, parse i = .ok v) ↔ rest = []) := by
  obtain ⟨r, more, rfl, hr, hhash⟩ := fromInfoDict_ok h
  rw [List.length_append] at hlen
  have hparse := parse_encode hr (by omega)
  refine ⟨_, _, rfl, hhash, ⟨_, hparse⟩, ?_⟩
  constructor
  · rintro ⟨v, hv⟩
    obtain ⟨r', -, hr', -⟩ := parse_ok hv
    exact (encode_append_inj (hr'.symm.trans (List.append_nil _).symm)).2
  · intro hnil
    rw [hnil, List.append_nil]
    exact ⟨_, hparse⟩

/-- What is hashed is parsed. Of a dictionary from a peer it is all that is hashed if there is one
value; no text has the hash of a part of it. -/
theorem infohash_exact (sha1 : Bytes → Bytes) :
    (∀ t m, t.length ≤ maxUsize → Metainfo.fromBytes sha1 t = .ok m →
      ∃ start stop raw info root, (Checked.slice t start stop : Checked Error Bytes) = .ok raw ∧
        m.infoHash = sha1 raw ∧ parse raw = .ok info ∧ parse t = .ok root ∧
        root.get (Text.asBytes "info") = some info ∧
        Metainfo.ofInfo m.infoHash (parseTrackers root) info = .ok m) ∧
    ∀ i m, i.length ≤ maxUsize → Metainfo.fromInfoDict sha1 i = .ok m →
      ((∃ v, parse i = .ok v) → m.infoHash = sha1 i) ∧
      ((∀ first rest, i = first ++ rest → sha1 first = sha1 i → rest = []) →
        (m.infoHash = sha1 i ↔ ∃ v, parse i = .ok v)) := by
  refine ⟨fun t m hlen h => ?_, fun i m hlen h => ?_⟩
  · obtain ⟨es, r, root, rfl, hlegal, hmem, ⟨start, stop, hslice⟩, hroot, hget, hm⟩ := fromBytes_ok h
    have hhash := (Metainfo.ofInfo_ok hm).infoHash
    have hle : (encode r).length ≤ (encodeEntries es).length := length_encode_le hmem
    rw [encode, List.length_append, List.length_cons] at hlen
    refine ⟨start, stop, _, _, root, hslice, hhash, ?_, hroot, hget, hhash ▸ hm⟩
    exact parse_encode (hlegal.2 _ hmem).2.succ (by omega)
  · obtain ⟨first, rest, hi, hhash, -, hone⟩ := hashed_part hlen h
    have hall : (∃ v, parse i = .ok v) → m.infoHash = sha1 i := by
      intro hv
      rw [hhash, hi, hone.mp hv, List.append_nil]
    refine ⟨hall, fun hfree => ⟨fun heq => ?_, hall⟩⟩
    exact hone.mpr (hfree first rest hi (hhash.symm.trans heq))

/-! ## An entry behind the dictionary -/

def smallInfo : Bytes := Text.asBytes "d6:lengthi0e4:name1:x12:piece lengthi1e6:pieces0:e"

def longerInfo : Bytes := smallInfo ++ Text.asBytes "1:xi0e"

/-- SHA-1 of the two. -/
def sha1Small (b : Bytes) : Bytes :=
  if b = longerInfo then
    [0xe5, 0x2c, 0xdc, 0xe1, 0xa0, 0xb7, 0x77, 0xc8, 0x61, 0x11, 0x2e, 0xc2, 0x03, 0xe2, 0xd9, 0xd7,
      0x9b, 0xf9, 0x9a, 0xd3]
  else
    [0x0c, 0x78, 0xa7, 0x88, 0x3a, 0x72, 0x1e, 0xbe, 0x94, 0x98, 0xe7, 0xbc, 0x6d, 0xeb, 0x9b, 0x8c,
      0xe9, 0xda, 0xaf, 0x3d]

def smallMetainfo : Metainfo :=
  ⟨sha1Small smallInfo, "x", 1, [], [⟨"x", 0, false⟩], 0, [], false⟩

def smallValue : Value := .dict [(Text.asBytes "length", .int 0),
  (Text.asBytes "name", .bytes (Text.asBytes "x")), (Text.asBytes "piece length", .int 1),
  (Text.asBytes "pieces", .bytes [])]

theorem parse_smallInfo : ∃ v, parse smallInfo = .ok v := by
  have hlegal : smallValue.Legal (maxDepth + 1) := by
    refine ⟨by unfold Entries.Distinct; decide, ?_⟩
    simp [Value.Legal, IsI64]
    decide
  have htext : encode smallValue = smallInfo := by decide
  exact ⟨_, htext ▸ parse_encode hlegal (by rw [htext]; decide)⟩

theorem infohash_exact_small :
    (∃ start stop raw info root, (Checked.slice (Text.asBytes "d4:info" ++ smallInfo ++ [0x65])
        start stop : Checked Error Bytes) = .ok raw ∧
      smallMetainfo.infoHash = sha1Small raw ∧ parse raw = .ok info ∧
      parse (Text.asBytes "d4:info" ++ smallInfo ++ [0x65]) = .ok root ∧
      root.get (Text.asBytes "info") = some info ∧
      Metainfo.ofInfo smallMetainfo.infoHash (parseTrackers root) info = .ok smallMetainfo) ∧
    smallMetainfo.infoHash = sha1Small smallInfo ∧
    (smallMetainfo.infoHash = sha1Small longerInfo ↔ ∃ v, parse longerInfo = .ok v) := by
  have hsmall : Metainfo.fromInfoDict sha1Small smallInfo = .ok smallMetainfo := by decide +kernel
  have hlonger : Metainfo.fromInfoDict sha1Small longerInfo = .ok smallMetainfo := by
    decide +kernel
  have hfree : ∀ first rest, longerInfo = first ++ rest → sha1Small first = sha1Small longerInfo →
      rest = [] := by
    intro first rest hi heq
    by_cases hfirst : first = longerInfo
    · rw [hfirst] at hi
      exact List.self_eq_append_right.mp hi
    · rw [sha1Small, if_neg hfirst, sha1Small, if_pos rfl] at heq
      cases heq
  exact ⟨(infohash_exact sha1Small).1 _ _ (by decide) hsmall,
    ((infohash_exact sha1Small).2 _ _ (by decide) hsmall).1 parse_smallInfo,
    ((infohash_exact sha1Small).2 _ _ (by decide) hlonger).2 hfree⟩

theorem infohash_longer : Metainfo.fromInfoDict sha1Small longerInfo = .ok smallMetainfo ∧
    smallMetainfo.infoHash ≠ sha1Small longerInfo := by
  decide +kernel

end Rsurl.Bittorrent
