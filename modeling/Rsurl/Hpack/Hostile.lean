import Rsurl.Hpack.Table

/-!
# The decoder on hostile blocks

Whatever a block holds, and whether it is accepted, the dynamic table keeps its size and its cap. The
functions of the decoder are written a second time here with every index and slice of the source
checked: out of range, the program would panic, which is `none`. No block gets there.
-/

namespace Rsurl.Hpack

open Library Text

/-! ## Indices and slices -/

/-- `&buf[pos..]` -/
def sliceFrom (buf : Bytes) (pos : Nat) : Option Bytes :=
  if pos ≤ buf.length then some (buf.drop pos) else none

/-- `&buf[pos..last]` -/
def slice (buf : Bytes) (pos last : Nat) : Option Bytes :=
  if pos ≤ last ∧ last ≤ buf.length then some ((buf.drop pos).take (last - pos)) else none

namespace Decoder

def lookupChecked (d : Decoder) (index : Nat) : Option (Except Error Header) :=
  if index = 0 then some (.error (.badResponse "hpack: index 0"))
  else if index ≤ staticTable.length then staticTable[index - 1]?.map .ok
  else match d.dynTable[index - staticTable.length - 1]? with
    | some e => some (.ok e)
    | none => some (.error (.badResponse s!"hpack: index {index} out of range"))

def lookupNameChecked (d : Decoder) (index : Nat) : Option (Except Error String) :=
  (d.lookupChecked index).map fun r => r.map Prod.fst

def literalText (huffmanFlag : Bool) (raw : Bytes) (pos : Nat) : Except Error (String × Nat) :=
  if huffmanFlag then
    match huffmanDecode raw with
    | .error e => .error e
    | .ok bytes => match fromUtf8 bytes with
      | some s => .ok (s, pos)
      | none => .error (.badResponse "hpack: non-utf8 Huffman literal")
  else match fromUtf8 raw with
    | some s => .ok (s, pos)
    | none => .error (.badResponse "hpack: non-utf8 literal")

def readStringChecked (buf : Bytes) (pos : Nat) : Option (Except Error (String × Nat)) :=
  if buf.length ≤ pos then some (.error (.badResponse "hpack: truncated string"))
  else
    buf[pos]?.bind fun b => (sliceFrom buf pos).bind fun rest =>
    match decodeInt rest 7 with
    | .error e => some (.error e)
    | .ok (n, consumed) =>
      let pos := pos + consumed
      if 2 ^ 64 ≤ pos + n then some (.error (.badResponse "hpack: string length overflow"))
      else if buf.length < pos + n then
        some (.error (.badResponse "hpack: truncated string body"))
      else (slice buf pos (pos + n)).map fun raw => literalText (b &&& 0x80 ≠ 0) raw (pos + n)

def readLiteralChecked (d : Decoder) (buf : Bytes) (pos prefixBits : Nat) :
    Option (Except Error (Header × Nat)) :=
  (sliceFrom buf pos).bind fun rest =>
  match decodeInt rest prefixBits with
  | .error e => some (.error e)
  | .ok (idx, n) =>
    (if idx = 0 then readStringChecked buf (pos + n)
      else (d.lookupNameChecked idx).map fun r => r.map (·, pos + n)).bind fun name =>
    match name with
    | .error e => some (.error e)
    | .ok (name, pos) => (readStringChecked buf pos).map fun value =>
      value.map fun (value, pos) => ((name, value), pos)

def decodeReprChecked (d : Decoder) (buf : Bytes) (pos : Nat) (fieldSeen : Bool) :
    Option (Outcome Decoder (Option Header × Nat)) :=
  buf[pos]?.bind fun b =>
  if b &&& 0x80 ≠ 0 then
    (sliceFrom buf pos).bind fun rest =>
    match decodeInt rest 7 with
    | .error e => some (.error e d)
    | .ok (idx, n) => (d.lookupChecked idx).map fun entry =>
      match entry with
      | .error e => .error e d
      | .ok entry => .ok (some entry, pos + n) d
  else if b &&& 0x40 ≠ 0 then
    (d.readLiteralChecked buf pos 6).map fun read =>
      match read with
      | .error e => .error e d
      | .ok (entry, pos) => .ok (some entry, pos) (d.insert entry.1 entry.2)
  else if b &&& 0x20 ≠ 0 then
    if fieldSeen then
      some (.error (.badResponse
        "hpack: dynamic table size update after a header field (COMPRESSION_ERROR)") d)
    else
      (sliceFrom buf pos).bind fun rest =>
      match decodeInt rest 5 with
      | .error e => some (.error e d)
      | .ok (newSize, n) =>
        if dynTableCapMax < newSize then
          some (.error (.badResponse
            s!"hpack: dynamic table size update {newSize} exceeds limit 4096 (COMPRESSION_ERROR)") d)
        else some (.ok (none, pos + n) ({ d with dynTableCap := newSize }.evictToFit 0))
  else
    (d.readLiteralChecked buf pos 4).map fun read =>
      match read with
      | .error e => .error e d
      | .ok (entry, pos) => .ok (some entry, pos) d

/-- To be out of rounds before the end of the block is a panic here. -/
def decodeLoopChecked :
    Nat → Decoder → Bytes → Nat → List Header → Nat → Option (Outcome Decoder (List Header))
  | 0, d, buf, pos, out, _ => if buf.length ≤ pos then some (.ok out d) else none
  | rounds + 1, d, buf, pos, out, listSize =>
    if buf.length ≤ pos then some (.ok out d)
    else (d.decodeReprChecked buf pos !out.isEmpty).bind fun r =>
      match r with
      | .error e d => some (.error e d)
      | .ok (none, pos) d => decodeLoopChecked rounds d buf pos out listSize
      | .ok (some entry, pos) d =>
        if !headerOctetsOk (asBytes entry.1) (asBytes entry.2) then
          some (.error (.badResponse "hpack: forbidden octet in decoded header") d)
        else
          let listSize := satAdd (satAdd (satAdd listSize (len entry.1)) (len entry.2)) 32
          if maxDecodedHeaderList < listSize then
            some (.error (.badResponse "hpack: decoded header list exceeds limit") d)
          else decodeLoopChecked rounds d buf pos (out ++ [entry]) listSize

def decodeBlockChecked (d : Decoder) (buf : Bytes) : Option (Outcome Decoder (List Header)) :=
  decodeLoopChecked buf.length d buf 0 [] 0

end Decoder

theorem sliceFrom_eq {buf : Bytes} {pos : Nat} (h : pos ≤ buf.length) :
    sliceFrom buf pos = some (buf.drop pos) := if_pos h

theorem slice_eq {buf : Bytes} {pos n : Nat} (h : pos + n ≤ buf.length) :
    slice buf pos (pos + n) = some ((buf.drop pos).take n) := by
  rw [slice, if_pos ⟨by omega, h⟩, Nat.add_sub_cancel_left]

/-! ## Progress -/

theorem decodeRest_advances {buf : Bytes} {value shift i v n : Nat}
    (h : decodeRest buf value shift i = .ok (v, n)) : i < n := by
  induction buf generalizing value shift i with
  | nil => cases h
  | cons b rest ih =>
    rw [decodeRest] at h
    split at h
    · cases h
    · split at h
      · cases h
      · split at h
        · cases h
          omega
        · split at h
          · cases h
          · exact (Nat.lt_succ_self i).trans (ih h)

theorem decodeInt_advances {buf : Bytes} {prefixBits v n : Nat}
    (h : decodeInt buf prefixBits = .ok (v, n)) : 0 < n := by
  unfold decodeInt at h
  split at h
  · cases h
  · simp only at h
    split at h
    · cases h
      exact Nat.one_pos
    · exact Nat.one_pos.trans (decodeRest_advances h)

namespace Decoder

/-! ## No panic -/

theorem lookupChecked_eq (d : Decoder) (index : Nat) :
    d.lookupChecked index = some (d.lookup index) := by
  unfold lookupChecked lookup
  split
  · rfl
  · split
    · rename_i hpos hle
      have hlt : index - 1 < staticTable.length := by omega
      rw [List.getElem?_eq_getElem hlt, List.getD_eq_getElem _ _ hlt]
      rfl
    · cases d.dynTable[index - staticTable.length - 1]? <;> rfl

theorem readStringChecked_eq (buf : Bytes) (pos : Nat) :
    readStringChecked buf pos = some (readString buf pos) := by
  unfold readStringChecked readString
  split
  · rename_i hend
    rw [List.getElem?_eq_none hend]
  · rename_i hin
    have hlt : pos < buf.length := Nat.lt_of_not_le hin
    rw [List.getElem?_eq_getElem hlt, sliceFrom_eq hlt.le]
    simp only [Option.bind_some]
    cases hint : decodeInt (buf.drop pos) 7 with
    | error e => rfl
    | ok read =>
      obtain ⟨n, consumed⟩ := read
      simp only
      split
      · rfl
      · split
        · rfl
        · rw [slice_eq (Nat.le_of_not_lt ‹_›), Option.map_some, literalText]
          by_cases hflag : buf[pos] &&& 0x80 ≠ 0
          · refine congrArg some ((if_pos (decide_eq_true hflag)).trans
              (Eq.trans ?_ (if_pos hflag).symm))
            cases huffmanDecode ((buf.drop (pos + consumed)).take n) with
            | error e => rfl
            | ok bytes => cases fromUtf8 bytes <;> rfl
          · have hraw : ¬decide (buf[pos] &&& 0x80 ≠ 0) = true := by
              rw [decide_eq_true_eq]
              exact hflag
            refine congrArg some ((if_neg hraw).trans (Eq.trans ?_ (if_neg hflag).symm))
            cases fromUtf8 ((buf.drop (pos + consumed)).take n) <;> rfl

theorem readLiteralChecked_eq (d : Decoder) {buf : Bytes} {pos : Nat} (h : pos < buf.length)
    (prefixBits : Nat) :
    d.readLiteralChecked buf pos prefixBits = some (d.readLiteral buf pos prefixBits) := by
  unfold readLiteralChecked readLiteral
  rw [sliceFrom_eq h.le, Option.bind_some]
  cases hint : decodeInt (buf.drop pos) prefixBits with
  | error e => rfl
  | ok read =>
    obtain ⟨idx, n⟩ := read
    simp only [bind, Except.bind, readStringChecked_eq, lookupNameChecked, lookupChecked_eq]
    by_cases hidx : idx = 0
    · simp only [hidx, if_true, Option.bind_some]
      cases readString buf (pos + n) with
      | error e => rfl
      | ok name =>
        simp only [Option.map_some]
        cases readString buf name.2 <;> rfl
    · simp only [hidx, if_false, Option.map_some, Option.bind_some, lookupName]
      cases d.lookup idx with
      | error e => rfl
      | ok entry =>
        simp only [Except.map]
        cases readString buf (pos + n) <;> rfl

theorem decodeReprChecked_eq (d : Decoder) {buf : Bytes} {pos : Nat} (h : pos < buf.length)
    (fieldSeen : Bool) :
    d.decodeReprChecked buf pos fieldSeen = some (d.decodeRepr buf pos fieldSeen) := by
  unfold decodeReprChecked decodeRepr
  rw [List.getElem?_eq_getElem h, List.getD_eq_getElem _ _ h, sliceFrom_eq h.le]
  simp only [Option.bind_some, readLiteralChecked_eq d h, Option.map_some, lookupChecked_eq]
  split
  · cases decodeInt (buf.drop pos) 7 with
    | error e => rfl
    | ok read => rfl
  · split
    · rfl
    · split
      · split
        · rfl
        · cases decodeInt (buf.drop pos) 5 with
          | error e => rfl
          | ok read =>
            simp only
            split <;> rfl
      · rfl

theorem literalText_pos {huffmanFlag : Bool} {raw : Bytes} {s : String} {pos pos' : Nat}
    (h : literalText huffmanFlag raw pos = .ok (s, pos')) : pos' = pos := by
  unfold literalText at h
  split at h
  · split at h
    · cases h
    · split at h <;> cases h
      rfl
  · split at h <;> cases h
    rfl

theorem readString_advances {buf : Bytes} {pos pos' : Nat} {s : String}
    (h : readString buf pos = .ok (s, pos')) : pos < pos' := by
  have hchecked := readStringChecked_eq buf pos
  rw [h] at hchecked
  unfold readStringChecked at hchecked
  split at hchecked
  · cases hchecked
  · obtain ⟨b, -, hchecked⟩ := Option.bind_eq_some_iff.mp hchecked
    obtain ⟨rest, -, hchecked⟩ := Option.bind_eq_some_iff.mp hchecked
    split at hchecked
    · cases hchecked
    · rename_i n consumed hint
      have := decodeInt_advances hint
      simp only at hchecked
      split at hchecked
      · cases hchecked
      · split at hchecked
        · cases hchecked
        · obtain ⟨raw, -, htext⟩ := Option.map_eq_some_iff.mp hchecked
          have := literalText_pos htext
          omega

theorem readLiteral_advances {d : Decoder} {buf : Bytes} {pos pos' prefixBits : Nat} {entry : Header}
    (h : d.readLiteral buf pos prefixBits = .ok (entry, pos')) : pos < pos' := by
  unfold readLiteral at h
  cases hint : decodeInt (buf.drop pos) prefixBits with
  | error e =>
    rw [hint] at h
    cases h
  | ok read =>
    obtain ⟨idx, n⟩ := read
    have hn := decodeInt_advances hint
    simp only [hint, bind, Except.bind] at h
    split at h
    · split at h
      · cases h
      · rename_i name hname
        have := readString_advances hname
        split at h
        · cases h
        · rename_i value hvalue
          have := readString_advances hvalue
          cases h
          omega
    · cases hname : d.lookupName idx with
      | error e =>
        rw [hname] at h
        cases h
      | ok name =>
        simp only [hname, Except.map] at h
        split at h
        · cases h
        · rename_i value hvalue
          have := readString_advances hvalue
          cases h
          omega

/-- A representation takes at least one byte. -/
theorem decodeRepr_advances {d d' : Decoder} {buf : Bytes} {pos pos' : Nat} {fieldSeen : Bool}
    {entry : Option Header} (h : d.decodeRepr buf pos fieldSeen = .ok (entry, pos') d') :
    pos < pos' := by
  unfold decodeRepr at h
  simp only at h
  split at h
  · split at h
    · cases h
    · rename_i idx n hint
      have := decodeInt_advances hint
      split at h <;> cases h
      omega
  · split at h
    · split at h <;> cases h
      exact readLiteral_advances ‹_›
    · split at h
      · split at h
        · cases h
        · split at h
          · cases h
          · rename_i newSize n hint
            have := decodeInt_advances hint
            split at h <;> cases h
            omega
      · split at h <;> cases h
        exact readLiteral_advances ‹_›

theorem decodeLoopChecked_eq {rounds pos listSize : Nat} {d : Decoder} {buf : Bytes}
    {out : List Header} (h : buf.length ≤ pos + rounds) :
    decodeLoopChecked rounds d buf pos out listSize =
      some (decodeLoop rounds d buf pos out listSize) := by
  induction rounds generalizing d pos out listSize with
  | zero => rw [decodeLoopChecked, if_pos (by omega), decodeLoop]
  | succ rounds ih =>
    rw [decodeLoopChecked, decodeLoop]
    split
    · rfl
    · rename_i hin
      rw [decodeReprChecked_eq d (Nat.lt_of_not_le hin), Option.bind_some]
      cases hrepr : d.decodeRepr buf pos !out.isEmpty with
      | error e d' => rfl
      | ok repr d' =>
        obtain ⟨entry, next⟩ := repr
        have hadvance := decodeRepr_advances hrepr
        cases entry with
        | none => exact ih (by omega)
        | some entry =>
          simp only [Outcome.andThen]
          split
          · rfl
          · split
            · rfl
            · exact ih (by omega)

/-- The decoder panics on no block. -/
theorem decodeBlockChecked_eq (d : Decoder) (buf : Bytes) :
    d.decodeBlockChecked buf = some (d.decodeBlock buf) :=
  decodeLoopChecked_eq (Nat.le_add_left _ _)

/-! ## The table -/

/-- The size is that of the entries, within a cap that is within our own. -/
structure Bounded (d : Decoder) : Prop where
  consistent : Fifo.Consistent entrySize d.table
  fits : d.dynTableSize ≤ d.dynTableCap
  capped : d.dynTableCap ≤ dynTableCapMax

theorem bounded_new : Bounded .new := ⟨rfl, Nat.zero_le _, le_rfl⟩

theorem Bounded.insert {d : Decoder} (h : Bounded d) (name value : String) :
    Bounded (d.insert name value) where
  consistent := h.consistent.insert d.dynTableCap (name, value)
  fits := h.consistent.insert_fits d.dynTableCap (name, value)
  capped := h.capped

/-- A new cap, and what is evicted for it. -/
theorem Bounded.resize {d : Decoder} (h : Bounded d) {newSize : Nat} (hsize : newSize ≤ dynTableCapMax) :
    Bounded ({ d with dynTableCap := newSize }.evictToFit 0) where
  consistent := h.consistent.evict newSize 0
  fits := h.consistent.evict_fits (Nat.zero_le newSize)
  capped := hsize

theorem Bounded.decodeRepr {d : Decoder} (h : Bounded d) (buf : Bytes) (pos : Nat) (fieldSeen : Bool) :
    (d.decodeRepr buf pos fieldSeen).Post (fun _ => Bounded) (fun _ => Bounded) := by
  unfold Decoder.decodeRepr
  simp only
  split
  · split
    · exact h
    · split <;> exact h
  · split
    · split
      · exact h
      · exact h.insert _ _
    · split
      · split
        · exact h
        · split
          · exact h
          · split
            · exact h
            · exact h.resize (Nat.le_of_not_lt ‹_›)
      · split <;> exact h

/-- What a decoded list is: clean fields, no more of them than we take. -/
def Listed (fields : List Header) (listSize : Nat) : Prop :=
  (∀ f ∈ fields, headerOctetsOk (asBytes f.1) (asBytes f.2) = true) ∧
    listSize = (fields.map entrySize).sum ∧ listSize ≤ maxDecodedHeaderList

/-- Below the limit the saturating sum is the sum. -/
theorem Listed.concat {fields : List Header} {listSize : Nat} (h : Listed fields listSize)
    {entry : Header} (hok : headerOctetsOk (asBytes entry.1) (asBytes entry.2) = true)
    (hlimit : satAdd (satAdd (satAdd listSize (len entry.1)) (len entry.2)) 32 ≤ maxDecodedHeaderList) :
    Listed (fields ++ [entry]) (satAdd (satAdd (satAdd listSize (len entry.1)) (len entry.2)) 32) := by
  obtain ⟨hall, hsum, -⟩ := h
  refine ⟨?_, ?_, hlimit⟩
  · rintro f hf
    rcases List.mem_append.mp hf with hf | hf
    · exact hall f hf
    · rw [List.mem_singleton.mp hf]
      exact hok
  · have hmax : maxDecodedHeaderList = 262144 := rfl
    rw [List.map_append, List.sum_append, ← hsum]
    simp only [List.map_cons, List.map_nil, List.sum_cons, List.sum_nil, entrySize]
    unfold satAdd at hlimit ⊢
    omega

theorem Bounded.decodeLoop {d : Decoder} (h : Bounded d) {rounds pos listSize : Nat} {buf : Bytes}
    {out : List Header} (hout : Listed out listSize) :
    (decodeLoop rounds d buf pos out listSize).Post
      (fun fields d => (∃ size, Listed fields size) ∧ Bounded d) (fun _ => Bounded) := by
  induction rounds generalizing d pos out listSize with
  | zero => exact ⟨⟨listSize, hout⟩, h⟩
  | succ rounds ih =>
    rw [Decoder.decodeLoop]
    split
    · exact ⟨⟨listSize, hout⟩, h⟩
    · refine Outcome.post_andThen (h.decodeRepr buf pos _) fun repr d' h' => ?_
      obtain ⟨entry, next⟩ := repr
      cases entry with
      | none => exact ih h' hout
      | some entry =>
        simp only
        split
        · exact h'
        · rename_i hok
          split
          · exact h'
          · rename_i hlimit
            exact ih h' (hout.concat (by simpa using hok) (Nat.le_of_not_lt hlimit))

theorem Bounded.decodeBlock {d : Decoder} (h : Bounded d) (buf : Bytes) :
    (d.decodeBlock buf).Post (fun fields d => (∃ size, Listed fields size) ∧ Bounded d)
      (fun _ => Bounded) :=
  h.decodeLoop ⟨by simp, rfl, Nat.zero_le _⟩

theorem Bounded.decodeBlock_state {d : Decoder} (h : Bounded d) (buf : Bytes) :
    Bounded (d.decodeBlock buf).state :=
  Outcome.post_state ((h.decodeBlock buf).imp (fun _ _ h => h.2) fun _ _ h => h)

/-- A decoder that was given these blocks, whatever came of them. -/
def after (blocks : List Bytes) : Decoder :=
  blocks.foldl (fun d buf => (d.decodeBlock buf).state) .new

theorem bounded_after (blocks : List Bytes) : Bounded (after blocks) := by
  induction blocks using List.reverseRecOn with
  | nil => exact bounded_new
  | append_singleton blocks buf ih =>
    rw [after, List.foldl_append]
    exact ih.decodeBlock_state buf

/-- Whatever blocks a decoder is given, its table is accounted for and within its cap, what it accepts
is clean and within the limit, and nothing is read out of range. -/
theorem decoder_withstands (blocks : List Bytes) (buf : Bytes) :
    (let d := ((after blocks).decodeBlock buf).state;
      d.dynTableSize = (d.dynTable.map fun e => len e.1 + len e.2 + 32).sum ∧
        d.dynTableSize ≤ d.dynTableCap ∧ d.dynTableCap ≤ 4096) ∧
    (∀ fields d, (after blocks).decodeBlock buf = .ok fields d →
      (∀ f ∈ fields, headerOctetsOk (asBytes f.1) (asBytes f.2) = true) ∧
        (fields.map fun e => len e.1 + len e.2 + 32).sum ≤ maxDecodedHeaderList) ∧
    (after blocks).decodeBlockChecked buf = some ((after blocks).decodeBlock buf) := by
  have hbounded := (bounded_after blocks).decodeBlock_state buf
  refine ⟨⟨hbounded.consistent, hbounded.fits, hbounded.capped⟩, fun fields d h => ?_,
    decodeBlockChecked_eq _ buf⟩
  have hpost := (bounded_after blocks).decodeBlock buf
  rw [h] at hpost
  obtain ⟨⟨size, hall, rfl, hlimit⟩, -⟩ := hpost
  exact ⟨hall, hlimit⟩

end Decoder

end Rsurl.Hpack
