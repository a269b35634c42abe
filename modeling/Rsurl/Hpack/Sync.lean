import Rsurl.Hpack.Literal

/-!
# Encoder and decoder stay synchronised

The two dynamic tables are separate machines coupled by bytes. `InSync` says that they agree, and
`Related` adds the case in which size changes are owed to the peer: the encoder has already
evicted down to the smallest size since the last block, and the decoder will when it reads the
updates at the head of the next one.
-/

namespace Rsurl.Hpack

open Library Text

/-- Tables, sizes and caps agree and nothing is owed. -/
structure InSync (e : Encoder) (d : Decoder) : Prop where
  table : e.table = d.table
  cap : e.maxDynTableSize = d.dynTableCap
  signal : e.pendingMaxTableSizeSignal = none
  smallest : e.pendingMinTableSize = none
  consistent : Fifo.Consistent entrySize d.table
  fits : d.dynTableSize ≤ d.dynTableCap
  bounded : d.dynTableCap ≤ dynTableCapMax

/-- A size update is owed: `m` is the smallest size since the last block, `n` the current one. -/
structure Owed (e : Encoder) (d : Decoder) (m n : Nat) : Prop where
  signal : e.pendingMaxTableSizeSignal = some n
  smallest : e.pendingMinTableSize = some m
  order : m ≤ n
  cap : e.maxDynTableSize = n
  bounded : n ≤ dynTableCapMax
  table : e.table = Fifo.evict entrySize m 0 d.table
  consistent : Fifo.Consistent entrySize d.table

def Related (e : Encoder) (d : Decoder) : Prop := InSync e d ∨ ∃ m n, Owed e d m n

theorem inSync_new : InSync .new .new where
  table := rfl
  cap := rfl
  signal := rfl
  smallest := rfl
  consistent := rfl
  fits := Nat.zero_le _
  bounded := le_rfl

@[simp] theorem Decoder.table_withTable (d : Decoder) (t : List Header × Nat) :
    (d.withTable t).table = t := rfl

@[simp] theorem Encoder.table_withTable (e : Encoder) (t : List Header × Nat) :
    (e.withTable t).table = t := rfl

/-! ## Size changes -/

/-- A size change leaves the encoder owing an update. -/
theorem setPeerMaxTableSize_owed {e : Encoder} {d : Decoder} {k : Nat}
    (h : e.table = Fifo.evict entrySize (e.pendingMinTableSize.getD e.maxDynTableSize) 0 d.table)
    (hc : Fifo.Consistent entrySize d.table)
    (hchange : ¬(min k dynTableCapMax = e.maxDynTableSize ∧
      e.pendingMaxTableSizeSignal = none)) :
    Owed (e.setPeerMaxTableSize k) d
      (min (e.pendingMinTableSize.getD e.maxDynTableSize) (min k dynTableCapMax))
      (min k dynTableCapMax) := by
  have heq : e.setPeerMaxTableSize k =
      { ({ e with
            pendingMinTableSize := some (min (e.pendingMinTableSize.getD e.maxDynTableSize)
              (min k dynTableCapMax)),
            maxDynTableSize := min k dynTableCapMax }.evictToFit 0)
        with pendingMaxTableSizeSignal := some (min k dynTableCapMax) } := by
    simp only [Encoder.setPeerMaxTableSize, if_neg hchange]
  rw [heq]
  refine ⟨rfl, rfl, by omega, rfl, by omega, ?_, hc⟩
  change Fifo.evict entrySize (min k dynTableCapMax) 0 e.table = _
  rw [h, Fifo.evict_evict]

theorem Related.setPeerMaxTableSize {e : Encoder} {d : Decoder} (h : Related e d) (k : Nat) :
    Related (e.setPeerMaxTableSize k) d := by
  by_cases hchange : min k dynTableCapMax = e.maxDynTableSize ∧
      e.pendingMaxTableSizeSignal = none
  · have : e.setPeerMaxTableSize k = e := by
      simp only [Encoder.setPeerMaxTableSize, if_pos hchange]
    rwa [this]
  · right
    rcases h with h | ⟨m, n, h⟩
    · refine ⟨_, _, setPeerMaxTableSize_owed ?_ h.consistent hchange⟩
      rw [h.smallest, Option.getD_none, h.cap, Fifo.evict_of_fits (by simpa [Decoder.table] using
        h.fits), h.table]
    · refine ⟨_, _, setPeerMaxTableSize_owed ?_ h.consistent hchange⟩
      rw [h.smallest, Option.getD_some, h.table]

/-! ## Looking up what the encoder indexed -/

theorem staticTable_length : staticTable.length = 61 := rfl

theorem lookup_static {d : Decoder} {i : Nat} {h : Header} (hi : staticTable[i]? = some h) :
    d.lookup (i + 1) = .ok h := by
  obtain ⟨hlt, hget⟩ := List.getElem?_eq_some_iff.mp hi
  rw [Decoder.lookup, if_neg (by omega), if_pos (by omega), Nat.add_sub_cancel,
    List.getD_eq_getElem?_getD, hi]
  rfl

theorem lookup_dynamic {d : Decoder} {i : Nat} {h : Header} (hi : d.dynTable[i]? = some h) :
    d.lookup (staticTable.length + 1 + i) = .ok h := by
  rw [Decoder.lookup, if_neg (by omega), if_neg (by omega),
    show staticTable.length + 1 + i - staticTable.length - 1 = i by omega, hi]

theorem findIdx?_some {α : Type} {p : α → Bool} {l : List α} {i : Nat}
    (h : l.findIdx? p = some i) : ∃ a, l[i]? = some a ∧ p a = true := by
  obtain ⟨hlt, hp, -⟩ := List.findIdx?_eq_some_iff_getElem.mp h
  exact ⟨l[i], List.getElem?_eq_getElem hlt, hp⟩

/-- An index is positive and at most one past both tables. -/
def IndexBound (e : Encoder) (idx : Nat) : Prop := 0 < idx ∧ idx ≤ 61 + e.dynTable.length

theorem combinedFullIndex_lookup {e : Encoder} {d : Decoder} {name value : String} {idx : Nat}
    (htable : e.dynTable = d.dynTable) (h : e.combinedFullIndex name value = some idx) :
    d.lookup idx = .ok (name, value) ∧ IndexBound e idx := by
  unfold Encoder.combinedFullIndex at h
  cases hstatic : staticFullIndex name value with
  | some i =>
    rw [hstatic] at h
    cases h
    obtain ⟨j, hj, rfl⟩ := Option.map_eq_some_iff.mp hstatic
    obtain ⟨a, ha, hp⟩ := findIdx?_some hj
    have hlt := (List.getElem?_eq_some_iff.mp ha).1
    rw [staticTable_length] at hlt
    simp only [Bool.and_eq_true, beq_iff_eq] at hp
    refine ⟨?_, by omega, by omega⟩
    rw [lookup_static ha, ← hp.1, ← hp.2]
  | none =>
    rw [hstatic] at h
    obtain ⟨j, hj, rfl⟩ := Option.map_eq_some_iff.mp h
    obtain ⟨a, ha, hp⟩ := findIdx?_some hj
    have hlt := (List.getElem?_eq_some_iff.mp ha).1
    simp only [Bool.and_eq_true, beq_iff_eq] at hp
    have hst := staticTable_length
    refine ⟨?_, by omega, by omega⟩
    rw [htable] at ha
    rw [lookup_dynamic ha, ← hp.1, ← hp.2]

theorem combinedNameIndex_lookup {e : Encoder} {d : Decoder} {name : String} {idx : Nat}
    (htable : e.dynTable = d.dynTable) (h : e.combinedNameIndex name = some idx) :
    d.lookupName idx = .ok name ∧ IndexBound e idx := by
  unfold Encoder.combinedNameIndex at h
  cases hstatic : staticNameIndex name with
  | some i =>
    rw [hstatic] at h
    cases h
    obtain ⟨j, hj, rfl⟩ := Option.map_eq_some_iff.mp hstatic
    obtain ⟨a, ha, hp⟩ := findIdx?_some hj
    have hlt := (List.getElem?_eq_some_iff.mp ha).1
    rw [staticTable_length] at hlt
    refine ⟨?_, by omega, by omega⟩
    rw [Decoder.lookupName, lookup_static ha, ← beq_iff_eq.mp hp]
    rfl
  | none =>
    rw [hstatic] at h
    obtain ⟨j, hj, rfl⟩ := Option.map_eq_some_iff.mp h
    obtain ⟨a, ha, hp⟩ := findIdx?_some hj
    have hlt := (List.getElem?_eq_some_iff.mp ha).1
    have hst := staticTable_length
    refine ⟨?_, by omega, by omega⟩
    rw [htable] at ha
    rw [Decoder.lookupName, lookup_dynamic ha, ← beq_iff_eq.mp hp]
    rfl

theorem InSync.dynTable {e : Encoder} {d : Decoder} (h : InSync e d) :
    e.dynTable = d.dynTable := congrArg Prod.fst h.table

/-- Entries cost at least 32 each, so the table holds at most 128 of them. -/
theorem InSync.index_small {e : Encoder} {d : Decoder} (h : InSync e d) {idx : Nat}
    (hidx : IndexBound e idx) : idx ≤ 189 := by
  have hcount : ∀ l : List Header, 32 * l.length ≤ (l.map entrySize).sum := by
    intro l
    induction l with
    | nil => rfl
    | cons x xs ih => simp only [List.length_cons, List.map_cons, List.sum_cons, entrySize]; omega
  have hsum : d.dynTableSize = (d.dynTable.map entrySize).sum := h.consistent
  have := hcount d.dynTable
  have := h.fits
  have hb : d.dynTableCap ≤ 4096 := h.bounded
  rw [IndexBound, h.dynTable] at hidx
  omega

theorem InSync.insert {e : Encoder} {d : Decoder} (h : InSync e d) (name value : String) :
    InSync (e.insert name value) (d.insert name value) where
  table := by
    simp only [Encoder.insert, Decoder.insert, Encoder.table_withTable, Decoder.table_withTable,
      h.cap, h.table]
  cap := h.cap
  signal := h.signal
  smallest := h.smallest
  consistent := h.consistent.insert _ _
  fits := h.consistent.insert_fits _ _
  bounded := h.bounded

/-! ## One representation -/

theorem getD_of_drop {buf tail : Bytes} {b : UInt8} {pos : Nat} (h : buf.drop pos = b :: tail) :
    buf.getD pos 0 = b := by
  rw [List.getD_eq_getElem?_getD, getElem?_of_drop tail h]
  rfl

theorem decodeRepr_sizeUpdate {d : Decoder} {buf suffix : Bytes} {pos n : Nat}
    (hdrop : buf.drop pos = encodeIntInto [] n 5 0x20 ++ suffix) (hn : n ≤ dynTableCapMax) :
    d.decodeRepr buf pos false = .ok (none, pos + (encodeIntInto [] n 5 0x20).length)
      ({ d with dynTableCap := n }.evictToFit 0) := by
  obtain ⟨w, tail, hw, hhead⟩ := encodeInt_head n 5 0x20
  obtain ⟨h80, h40, h20⟩ := head_sizeUpdate w hw
  have hbyte : buf.getD pos 0 = UInt8.ofNat w ||| 0x20 := getD_of_drop (by rw [hdrop, hhead]; rfl)
  have hint := decodeInt_encodeInt n suffix flags_sizeUpdate (by
    unfold dynTableCapMax at hn; omega)
  rw [← hdrop] at hint
  simp only [Decoder.decodeRepr, hbyte, h80, h40, h20, ne_eq, not_true, not_false_eq_true,
    if_true, if_false, hint, Bool.false_eq_true, if_neg (Nat.not_lt.mpr hn)]

theorem decodeRepr_indexed {d : Decoder} {buf suffix : Bytes} {pos idx : Nat} {h : Header}
    {seen : Bool} (hdrop : buf.drop pos = encodeIntInto [] idx 7 0x80 ++ suffix)
    (hidx : idx ≤ 189) (hlook : d.lookup idx = .ok h) :
    d.decodeRepr buf pos seen =
      .ok (some h, pos + (encodeIntInto [] idx 7 0x80).length) d := by
  obtain ⟨w, tail, hw, hhead⟩ := encodeInt_head idx 7 0x80
  have hbyte : buf.getD pos 0 = UInt8.ofNat w ||| 0x80 := getD_of_drop (by rw [hdrop, hhead]; rfl)
  have hint := decodeInt_encodeInt idx suffix flags_indexed (by omega)
  rw [← hdrop] at hint
  simp only [Decoder.decodeRepr, hbyte, head_indexed w hw, ne_eq, not_false_eq_true, if_true,
    hint, hlook]

/-- A literal with incremental indexing, once its pair has been read. -/
theorem decodeRepr_incremental {d : Decoder} {buf rest : Bytes} {pos idx next : Nat} {h : Header}
    {seen : Bool} (hdrop : buf.drop pos = encodeIntInto [] idx 6 0x40 ++ rest)
    (hread : d.readLiteral buf pos 6 = .ok (h, next)) :
    d.decodeRepr buf pos seen = .ok (some h, next) (d.insert h.1 h.2) := by
  obtain ⟨w, tail, hw, hhead⟩ := encodeInt_head idx 6 0x40
  obtain ⟨h80, h40⟩ := head_incremental w hw
  have hbyte : buf.getD pos 0 = UInt8.ofNat w ||| 0x40 := getD_of_drop (by rw [hdrop, hhead]; rfl)
  simp only [Decoder.decodeRepr, hbyte, h80, h40, ne_eq, not_true, not_false_eq_true, if_true,
    if_false, hread]

theorem readLiteral_named {d : Decoder} {buf suffix : Bytes} {pos idx : Nat} {name value : String}
    (hdrop : buf.drop pos = encodeIntInto [] idx 6 0x40 ++ encodeLiteralString [] value ++ suffix)
    (hidx : 0 < idx ∧ idx ≤ 189) (hlook : d.lookupName idx = .ok name)
    (hbuf : buf.length < 2 ^ 64) :
    d.readLiteral buf pos 6 = .ok ((name, value),
      pos + (encodeIntInto [] idx 6 0x40 ++ encodeLiteralString [] value).length) := by
  rw [List.append_assoc] at hdrop
  have hint := decodeInt_encodeInt idx (encodeLiteralString [] value ++ suffix)
    flags_incremental (by omega)
  rw [← hdrop] at hint
  have hval := readString_encodeLiteralString value (drop_advance hdrop) hbuf
  rw [Decoder.readLiteral, hint]
  simp only [bind, Except.bind, if_neg (Nat.ne_of_gt hidx.1), hlook, Except.map, hval, pure,
    Except.pure, List.length_append, Nat.add_assoc]

theorem readLiteral_new {d : Decoder} {buf suffix : Bytes} {pos : Nat} {name value : String}
    (hdrop : buf.drop pos = encodeIntInto [] 0 6 0x40 ++
      (encodeLiteralString [] name ++ (encodeLiteralString [] value ++ suffix)))
    (hbuf : buf.length < 2 ^ 64) :
    d.readLiteral buf pos 6 = .ok ((name, value), pos + (encodeIntInto [] 0 6 0x40 ++
      (encodeLiteralString [] name ++ encodeLiteralString [] value)).length) := by
  have hint := decodeInt_encodeInt 0
    (encodeLiteralString [] name ++ (encodeLiteralString [] value ++ suffix))
    flags_incremental (by omega)
  rw [← hdrop] at hint
  have hnext := drop_advance hdrop
  have hname := readString_encodeLiteralString name hnext hbuf
  have hval := readString_encodeLiteralString value (drop_advance hnext) hbuf
  rw [Decoder.readLiteral, hint]
  simp only [bind, Except.bind, if_true, hname, hval, pure, Except.pure, List.length_append]
  simp only [Nat.add_assoc]

/-! ## One header field -/

theorem flushSignal_quiet {e : Encoder} (h : e.pendingMaxTableSizeSignal = none) (out : Bytes) :
    e.flushSignal out = (e, out) := by simp [Encoder.flushSignal, h]

/-- The literal-name marker byte is the index zero of an incremental literal. -/
theorem marker_eq : encodeIntInto [] 0 6 0x40 = [0x40] := by decide

/-- With nothing owed, a field is read back and both tables change alike. -/
theorem decodeRepr_encodeHeader {e : Encoder} {d : Decoder} (hs : InSync e d) {buf suffix : Bytes}
    {pos : Nat} {name value : String} (seen : Bool)
    (hdrop : buf.drop pos = (e.encodeHeader [] name value).2 ++ suffix)
    (hbuf : buf.length < 2 ^ 64) :
    ∃ d', d.decodeRepr buf pos seen =
        .ok (some (name, value), pos + (e.encodeHeader [] name value).2.length) d' ∧
      InSync (e.encodeHeader [] name value).1 d' := by
  unfold Encoder.encodeHeader at hdrop ⊢
  rw [flushSignal_quiet hs.signal] at hdrop ⊢
  simp only at hdrop ⊢
  cases hfull : e.combinedFullIndex name value with
  | some idx =>
    obtain ⟨hlook, hbound⟩ := combinedFullIndex_lookup hs.dynTable hfull
    simp only [hfull] at hdrop ⊢
    exact ⟨d, decodeRepr_indexed hdrop (hs.index_small hbound) hlook, hs⟩
  | none =>
    simp only [hfull] at hdrop ⊢
    cases hname : e.combinedNameIndex name with
    | some idx =>
      obtain ⟨hlook, hbound⟩ := combinedNameIndex_lookup hs.dynTable hname
      simp only [hname] at hdrop ⊢
      rw [encodeLiteralString_append] at hdrop ⊢
      refine ⟨d.insert name value, ?_, hs.insert name value⟩
      exact decodeRepr_incremental (by rw [hdrop, List.append_assoc])
        (readLiteral_named hdrop ⟨hbound.1, hs.index_small hbound⟩ hlook hbuf)
    | none =>
      simp only [hname, List.nil_append] at hdrop ⊢
      rw [encodeLiteralString_append, encodeLiteralString_append [0x40], ← marker_eq,
        List.append_assoc] at hdrop ⊢
      refine ⟨d.insert name value, ?_, hs.insert name value⟩
      rw [List.append_assoc] at hdrop
      exact decodeRepr_incremental hdrop (readLiteral_new hdrop hbuf)

theorem InSync.encodeHeader {e : Encoder} {d : Decoder} (hs : InSync e d) (name value : String) :
    ∃ d', InSync (e.encodeHeader [] name value).1 d' := by
  unfold Encoder.encodeHeader
  rw [flushSignal_quiet hs.signal]
  simp only
  split
  · exact ⟨d, hs⟩
  · split <;> exact ⟨d.insert name value, hs.insert name value⟩

theorem encodeHeader_append (e : Encoder) (out : Bytes) (name value : String) :
    e.encodeHeader out name value =
      ((e.encodeHeader [] name value).1, out ++ (e.encodeHeader [] name value).2) := by
  have hflush : e.flushSignal out = ((e.flushSignal []).1, out ++ (e.flushSignal []).2) := by
    unfold Encoder.flushSignal
    cases e.pendingMaxTableSizeSignal with
    | none => simp
    | some n =>
      simp only
      cases e.pendingMinTableSize.filter (· < n) with
      | none => simp only; rw [encodeIntInto_append]
      | some m =>
        simp only
        rw [encodeIntInto_append, encodeIntInto_append out, encodeIntInto_append
          (encodeIntInto [] m 5 0x20), List.append_assoc]
  obtain ⟨q, sig, hq⟩ : ∃ q sig, e.flushSignal [] = (q, sig) := ⟨_, _, rfl⟩
  rw [hq] at hflush
  unfold Encoder.encodeHeader
  rw [hflush, hq]
  simp only
  cases q.combinedFullIndex name value with
  | some idx =>
    simp only
    rw [encodeIntInto_append, encodeIntInto_append sig, List.append_assoc]
  | none =>
    simp only
    cases q.combinedNameIndex name with
    | some idx =>
      simp only
      rw [encodeLiteralString_append, encodeIntInto_append, encodeLiteralString_append
        (encodeIntInto sig _ _ _), encodeIntInto_append sig]
      simp only [List.append_assoc]
    | none =>
      simp only
      rw [encodeLiteralString_append, encodeLiteralString_append (out ++ sig ++ [0x40]),
        encodeLiteralString_append (encodeLiteralString (sig ++ [0x40]) name),
        encodeLiteralString_append (sig ++ [0x40])]
      simp only [List.append_assoc]

/-- A field takes at most eight times its table size on the wire. -/
theorem length_encodeHeader_le {e : Encoder} {d : Decoder} (hs : InSync e d)
    (name value : String) :
    (e.encodeHeader [] name value).2.length ≤ 8 * entrySize (name, value) := by
  have hn := length_encodeLiteralString_le name
  have hv := length_encodeLiteralString_le value
  unfold Encoder.encodeHeader entrySize
  rw [flushSignal_quiet hs.signal]
  simp only
  cases hfull : e.combinedFullIndex name value with
  | some idx =>
    have hsmall := hs.index_small (combinedFullIndex_lookup hs.dynTable hfull).2
    have := length_encodeInt_le idx 7 0x80
    simp only
    omega
  | none =>
    cases hname : e.combinedNameIndex name with
    | some idx =>
      have hsmall := hs.index_small (combinedNameIndex_lookup hs.dynTable hname).2
      have := length_encodeInt_le idx 6 0x40
      simp only
      rw [encodeLiteralString_append, List.length_append]
      omega
    | none =>
      simp only [List.nil_append]
      rw [encodeLiteralString_append, encodeLiteralString_append [0x40], List.length_append,
        List.length_append]
      simp only [List.length_singleton]
      omega

/-! ## Blocks -/

theorem decodeLoop_field {rounds pos next listSize : Nat} {d d' : Decoder} {buf : Bytes}
    {out : List Header} {h : Header} (hpos : pos < buf.length)
    (hrepr : d.decodeRepr buf pos (!out.isEmpty) = .ok (some h, next) d')
    (hok : headerOctetsOk (asBytes h.1) (asBytes h.2) = true)
    (hsize : listSize + entrySize h ≤ maxDecodedHeaderList) :
    Decoder.decodeLoop (rounds + 1) d buf pos out listSize =
      Decoder.decodeLoop rounds d' buf next (out ++ [h]) (listSize + entrySize h) := by
  have hsat : satAdd (satAdd (satAdd listSize (len h.1)) (len h.2)) 32 =
      listSize + entrySize h := by
    unfold satAdd entrySize at *
    unfold maxDecodedHeaderList at hsize
    omega
  rw [Decoder.decodeLoop, if_neg (by omega), hrepr]
  simp only [Outcome.andThen, hok, hsat, Bool.not_true, Bool.false_eq_true, if_false,
    if_neg (Nat.not_lt.mpr hsize)]

theorem decodeLoop_update {rounds pos next listSize : Nat} {d d' : Decoder} {buf : Bytes}
    {out : List Header} (hpos : pos < buf.length)
    (hrepr : d.decodeRepr buf pos (!out.isEmpty) = .ok (none, next) d') :
    Decoder.decodeLoop (rounds + 1) d buf pos out listSize =
      Decoder.decodeLoop rounds d' buf next out listSize := by
  rw [Decoder.decodeLoop, if_neg (by omega), hrepr]
  rfl

theorem decodeLoop_done {rounds pos listSize : Nat} {d : Decoder} {buf : Bytes}
    {out : List Header} (hpos : buf.length ≤ pos) :
    Decoder.decodeLoop rounds d buf pos out listSize = .ok out d := by
  cases rounds with
  | zero => rfl
  | succ rounds => rw [Decoder.decodeLoop, if_pos hpos]

/-- The fields of a block, appended to `out`. -/
def encodeFields (e : Encoder) (out : Bytes) (fields : List Header) : Encoder × Bytes :=
  fields.foldl (fun acc h => acc.1.encodeHeader acc.2 h.1 h.2) (e, out)

theorem encodeFields_cons (e : Encoder) (h : Header) (fields : List Header) :
    encodeFields e [] (h :: fields) =
      ((encodeFields (e.encodeHeader [] h.1 h.2).1 [] fields).1,
        (e.encodeHeader [] h.1 h.2).2 ++
          (encodeFields (e.encodeHeader [] h.1 h.2).1 [] fields).2) := by
  have happ : ∀ (fields : List Header) (e : Encoder) (out : Bytes),
      encodeFields e out fields =
        ((encodeFields e [] fields).1, out ++ (encodeFields e [] fields).2) := by
    intro fields
    induction fields with
    | nil => intro e out; simp [encodeFields]
    | cons x xs ih =>
      intro e out
      have hstep : ∀ out, encodeFields e out (x :: xs) =
          encodeFields (e.encodeHeader [] x.1 x.2).1 (out ++ (e.encodeHeader [] x.1 x.2).2) xs := by
        intro out
        rw [encodeFields, List.foldl_cons]
        simp only
        rw [encodeHeader_append]
        rfl
      rw [hstep, hstep [], ih, List.nil_append, ih _ (e.encodeHeader [] x.1 x.2).2]
      simp only [List.append_assoc]
  rw [encodeFields, List.foldl_cons]
  exact happ fields _ _

theorem encodeHeader_ne_nil {e : Encoder} (name value : String) :
    (e.encodeHeader [] name value).2 ≠ [] := by
  unfold Encoder.encodeHeader
  obtain ⟨q, sig, hq⟩ : ∃ q sig, e.flushSignal [] = (q, sig) := ⟨_, _, rfl⟩
  rw [hq]
  simp only
  split
  · rename_i idx _
    obtain ⟨w, tail, -, hhead⟩ := encodeInt_head idx 7 0x80
    rw [encodeIntInto_append, hhead]
    simp
  · split <;> simp only <;> rw [encodeLiteralString_append] <;>
      simp [encodeLiteralString_ne_nil]

/-- Fields encoded with nothing owed are decoded in order. -/
theorem decodeLoop_encodeFields (fields : List Header) {e : Encoder} {d : Decoder}
    (hs : InSync e d) {buf : Bytes} {rounds pos : Nat} (listSize : Nat) (out : List Header)
    (hdrop : buf.drop pos = (encodeFields e [] fields).2) (hbuf : buf.length < 2 ^ 64)
    (hrounds : buf.length - pos ≤ rounds)
    (hok : ∀ h ∈ fields, headerOctetsOk (asBytes h.1) (asBytes h.2) = true)
    (hsize : listSize + (fields.map entrySize).sum ≤ maxDecodedHeaderList) :
    ∃ d', Decoder.decodeLoop rounds d buf pos out listSize = .ok (out ++ fields) d' ∧
      InSync (encodeFields e [] fields).1 d' := by
  induction fields generalizing e d rounds pos listSize out with
  | nil =>
    refine ⟨d, ?_, hs⟩
    rw [decodeLoop_done (List.drop_eq_nil_iff.mp hdrop), List.append_nil]
  | cons h fields ih =>
    rw [encodeFields_cons] at hdrop ⊢
    simp only [List.map_cons, List.sum_cons] at hsize
    obtain ⟨d₁, hrepr, hs₁⟩ := decodeRepr_encodeHeader hs (!out.isEmpty) hdrop hbuf
    have hentry : entrySize (h.1, h.2) = entrySize h := rfl
    have hne := encodeHeader_ne_nil (e := e) h.1 h.2
    have hlen := length_of_drop hdrop hne
    have hpos := List.length_pos_iff.mpr hne
    have hrest : buf.length - (pos + (e.encodeHeader [] h.1 h.2).2.length) ≤ rounds - 1 := by
      omega
    obtain ⟨d', hdec, hs'⟩ := ih hs₁ (listSize + entrySize h) (out ++ [h])
      (drop_advance hdrop) hrest (fun x hx => hok x (List.mem_cons_of_mem _ hx)) (by omega)
    refine ⟨d', ?_, hs'⟩
    rw [show rounds = rounds - 1 + 1 by omega,
      decodeLoop_field (by omega) hrepr (hok h List.mem_cons_self) (by omega), hdec,
      List.append_assoc, List.singleton_append]

theorem length_encodeFields_le (fields : List Header) {e : Encoder} {d : Decoder}
    (hs : InSync e d) :
    (encodeFields e [] fields).2.length ≤ 8 * (fields.map entrySize).sum := by
  induction fields generalizing e d with
  | nil => simp [encodeFields]
  | cons h fields ih =>
    have hhead := length_encodeHeader_le hs h.1 h.2
    obtain ⟨d', hs'⟩ := hs.encodeHeader h.1 h.2
    have htail := ih hs'
    rw [encodeFields_cons]
    simp only [List.length_append, List.map_cons, List.sum_cons]
    have : entrySize (h.1, h.2) = entrySize h := rfl
    omega

/-! ## Owed size updates -/

/-- The encoder once its size updates have been written. -/
def Encoder.settled (e : Encoder) : Encoder :=
  { e with pendingMaxTableSizeSignal := none, pendingMinTableSize := none }

theorem Owed.flushSignal {e : Encoder} {d : Decoder} {m n : Nat} (h : Owed e d m n) :
    e.flushSignal [] =
      (e.settled,
        (if m < n then encodeIntInto [] m 5 0x20 else []) ++ encodeIntInto [] n 5 0x20) := by
  simp only [Encoder.flushSignal, Encoder.settled, h.signal, h.smallest]
  by_cases hlt : m < n
  · simp only [Option.filter, hlt, decide_true, if_true]
    rw [encodeIntInto_append]
  · simp [Option.filter, hlt]

/-- Reading the owed updates brings the decoder in step. -/
theorem Owed.inSync {e : Encoder} {d : Decoder} {m n : Nat} (h : Owed e d m n) :
    InSync e.settled
      ({ (if m < n then { d with dynTableCap := m }.evictToFit 0 else d) with
        dynTableCap := n }.evictToFit 0) := by
  have htable : ({ (if m < n then { d with dynTableCap := m }.evictToFit 0 else d) with
      dynTableCap := n }.evictToFit 0).table = Fifo.evict entrySize m 0 d.table := by
    by_cases hlt : m < n
    · rw [if_pos hlt]
      change Fifo.evict entrySize n 0 (Fifo.evict entrySize m 0 d.table) = _
      rw [Fifo.evict_evict, Nat.min_eq_left h.order]
    · rw [if_neg hlt, Nat.le_antisymm h.order (Nat.not_lt.mp hlt)]
      rfl
  refine ⟨by rw [htable]; exact h.table, h.cap, rfl, rfl, ?_, ?_, h.bounded⟩
  · rw [htable]
    exact h.consistent.evict m 0
  · have hfit := h.consistent.evict_fits (Nat.zero_le m)
    rw [← htable] at hfit
    exact (Nat.le_of_add_right_le hfit).trans h.order

/-- The first field of a block, after the updates it carries. -/
theorem encodeFields_owed {e : Encoder} {d : Decoder} {m n : Nat} (h : Owed e d m n)
    (x : Header) (fields : List Header) :
    encodeFields e [] (x :: fields) =
      ((encodeFields e.settled []
          (x :: fields)).1,
        (if m < n then encodeIntInto [] m 5 0x20 else []) ++ (encodeIntInto [] n 5 0x20 ++
          (encodeFields e.settled
            [] (x :: fields)).2)) := by
  have hhead : e.encodeHeader [] x.1 x.2 =
      e.settled.encodeHeader
        ((if m < n then encodeIntInto [] m 5 0x20 else []) ++ encodeIntInto [] n 5 0x20)
        x.1 x.2 := by
    unfold Encoder.encodeHeader
    rw [h.flushSignal, flushSignal_quiet rfl]
  rw [encodeFields_cons, encodeFields_cons, hhead, encodeHeader_append]
  simp only [List.append_assoc]

theorem decodeLoop_sizeUpdate {rounds pos n : Nat} (d : Decoder) {buf suffix : Bytes}
    (hdrop : buf.drop pos = encodeIntInto [] n 5 0x20 ++ suffix) (hn : n ≤ dynTableCapMax)
    (hrounds : buf.length - pos ≤ rounds) :
    ∃ rounds', buf.length - (pos + (encodeIntInto [] n 5 0x20).length) ≤ rounds' ∧
      Decoder.decodeLoop rounds d buf pos [] 0 =
        Decoder.decodeLoop rounds' ({ d with dynTableCap := n }.evictToFit 0) buf
          (pos + (encodeIntInto [] n 5 0x20).length) [] 0 := by
  obtain ⟨w, tail, -, hhead⟩ := encodeInt_head n 5 0x20
  have hne : encodeIntInto [] n 5 0x20 ≠ [] := by simp [hhead]
  have hlen := length_of_drop hdrop hne
  have hpos := List.length_pos_iff.mpr hne
  refine ⟨rounds - 1, by omega, ?_⟩
  rw [show rounds = rounds - 1 + 1 by omega]
  exact decodeLoop_update (by omega) (decodeRepr_sizeUpdate hdrop hn)

/-- One block: what was encoded is decoded, and the tables agree afterwards. -/
theorem decodeBlock_encodeBlock {e : Encoder} {d : Decoder} (h : Related e d)
    {fields : List Header} (hne : fields ≠ [])
    (hok : ∀ x ∈ fields, headerOctetsOk (asBytes x.1) (asBytes x.2) = true)
    (hsize : (fields.map entrySize).sum ≤ maxDecodedHeaderList) :
    ∃ d', d.decodeBlock (e.encodeBlock fields).2 = .ok fields d' ∧
      InSync (e.encodeBlock fields).1 d' := by
  change ∃ d', Decoder.decodeLoop (encodeFields e [] fields).2.length d
    (encodeFields e [] fields).2 0 [] 0 = .ok fields d' ∧ InSync (encodeFields e [] fields).1 d'
  have hmax : maxDecodedHeaderList = 262144 := rfl
  rcases h with hs | ⟨m, n, h⟩
  · have hlen := length_encodeFields_le fields hs
    have hstart : (encodeFields e [] fields).2.drop 0 = (encodeFields e [] fields).2 := rfl
    have hrounds : (encodeFields e [] fields).2.length - 0 ≤ (encodeFields e [] fields).2.length :=
      Nat.sub_le _ _
    have := decodeLoop_encodeFields fields hs 0 [] hstart (by omega) hrounds hok (by omega)
    simpa using this
  · cases fields with
    | nil => exact absurd rfl hne
    | cons x fields =>
      have hs := h.inSync
      have hlen := length_encodeFields_le (x :: fields) hs
      have hcap : dynTableCapMax = 4096 := rfl
      have hbound := h.bounded
      have hm : m ≤ dynTableCapMax := h.order.trans hbound
      have hmlen := length_encodeInt_le m 5 0x20
      have hnlen := length_encodeInt_le n 5 0x20
      rw [encodeFields_owed h]
      generalize hrest : (encodeFields e.settled [] (x :: fields)).2 = rest at hlen ⊢
      simp only
      generalize hbufdef : (if m < n then encodeIntInto [] m 5 0x20 else []) ++
        (encodeIntInto [] n 5 0x20 ++ rest) = buf
      have hbuf : buf.length < 2 ^ 64 := by
        rw [← hbufdef]
        split <;> simp only [List.length_append, List.length_nil] <;> omega
      -- the first update is sent only when the size shrank and grew again
      obtain ⟨r₁, p₁, hr₁, hd₁, hloop₁⟩ : ∃ r₁ p₁, buf.length - p₁ ≤ r₁ ∧
          buf.drop p₁ = encodeIntInto [] n 5 0x20 ++ rest ∧
          Decoder.decodeLoop buf.length d buf 0 [] 0 = Decoder.decodeLoop r₁
            (if m < n then { d with dynTableCap := m }.evictToFit 0 else d) buf p₁ [] 0 := by
        by_cases hlt : m < n
        · rw [if_pos hlt] at hbufdef ⊢
          have hstart : buf.drop 0 =
              encodeIntInto [] m 5 0x20 ++ (encodeIntInto [] n 5 0x20 ++ rest) := hbufdef.symm
          obtain ⟨r, hr, hloop⟩ := decodeLoop_sizeUpdate d hstart hm (Nat.sub_le _ 0)
          exact ⟨r, _, hr, drop_advance hstart, hloop⟩
        · rw [if_neg hlt] at hbufdef ⊢
          exact ⟨buf.length, 0, by omega, by rw [List.drop_zero, ← hbufdef]; rfl, rfl⟩
      obtain ⟨r₂, hr₂, hloop₂⟩ := decodeLoop_sizeUpdate
        (if m < n then { d with dynTableCap := m }.evictToFit 0 else d) hd₁ hbound hr₁
      obtain ⟨d', hdec, hs'⟩ := decodeLoop_encodeFields (x :: fields) hs 0 []
        (by rw [drop_advance hd₁, hrest]) hbuf hr₂ hok (by omega)
      refine ⟨d', ?_, hs'⟩
      rw [hloop₁, hloop₂, hdec, List.nil_append]

/-! ## Whole histories -/

/-- What may happen between an encoder and its peer. -/
inductive Op where
  | setPeerMaxTableSize (n : Nat)
  | encodeBlock (fields : List Header)

/-- A block has fields, allowed octets and a list size within the decoder's limit. -/
def Op.Admissible : Op → Prop
  | .setPeerMaxTableSize _ => True
  | .encodeBlock fields => fields ≠ [] ∧
      (∀ h ∈ fields, headerOctetsOk (asBytes h.1) (asBytes h.2) = true) ∧
      (fields.map entrySize).sum ≤ maxDecodedHeaderList

instance (op : Op) : Decidable op.Admissible :=
  match op with
  | .setPeerMaxTableSize _ => inferInstanceAs (Decidable True)
  | .encodeBlock fields => inferInstanceAs (Decidable (fields ≠ [] ∧
      (∀ h ∈ fields, headerOctetsOk (asBytes h.1) (asBytes h.2) = true) ∧
      (fields.map entrySize).sum ≤ maxDecodedHeaderList))

/-- Every block of the history is decoded to the fields that were encoded, and leaves the two
tables with the same entries in the same order, the same size and the same cap. -/
def Synchronised : Encoder → Decoder → List Op → Prop
  | _, _, [] => True
  | e, d, .setPeerMaxTableSize n :: ops => Synchronised (e.setPeerMaxTableSize n) d ops
  | e, d, .encodeBlock fields :: ops =>
    ∃ d', d.decodeBlock (e.encodeBlock fields).2 = .ok fields d' ∧
      d'.dynTable = (e.encodeBlock fields).1.dynTable ∧
      d'.dynTableSize = (e.encodeBlock fields).1.dynTableSize ∧
      d'.dynTableCap = (e.encodeBlock fields).1.maxDynTableSize ∧
      Synchronised (e.encodeBlock fields).1 d' ops

theorem Related.synchronised (ops : List Op) {e : Encoder} {d : Decoder} (h : Related e d)
    (hops : ∀ op ∈ ops, op.Admissible) : Synchronised e d ops := by
  induction ops generalizing e d with
  | nil => trivial
  | cons op ops ih =>
    have hrest := fun o ho => hops o (List.mem_cons_of_mem op ho)
    cases op with
    | setPeerMaxTableSize n => exact ih (h.setPeerMaxTableSize n) hrest
    | encodeBlock fields =>
      obtain ⟨hne, hok, hsize⟩ := hops _ List.mem_cons_self
      obtain ⟨d', hdec, hs⟩ := decodeBlock_encodeBlock h hne hok hsize
      exact ⟨d', hdec, hs.dynTable.symm, (congrArg Prod.snd hs.table).symm, hs.cap.symm,
        ih (.inl hs) hrest⟩

/-- From fresh state, any history of size changes and admissible blocks keeps the peer's decoder
synchronised with the encoder. -/
theorem encoder_decoder_synchronised (ops : List Op) (hops : ∀ op ∈ ops, op.Admissible) :
    Synchronised .new .new ops :=
  Related.synchronised ops (.inl inSync_new) hops

/-- A repeated field, a shrink that grows again, and a Huffman-coded value. -/
theorem encoder_decoder_synchronised_shrink_grow :
    Synchronised .new .new
      [.encodeBlock [(":method", "GET"), ("x-a", "www")], .setPeerMaxTableSize 40,
        .setPeerMaxTableSize 70000, .encodeBlock [("x-a", "www")]] :=
  encoder_decoder_synchronised _ (by decide +kernel)

end Rsurl.Hpack
