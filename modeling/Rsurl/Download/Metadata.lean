import Rsurl.Ascii
import Rsurl.Utf8
import Rsurl.Download.Response
import Rsurl.Library.Endian

/-!
# What is kept for a resumed download

The block of metadata in a partial file: how far the transfer is, and the validators of the
resource, as three strings with their lengths in front. A length is written in two bytes, and one
that does not fit is cut. Reading never leaves the block.
-/

namespace Rsurl.Download

open Library Endian Text

/-! ## Writing -/

/-- A string behind its length. -/
def encodeString (s : String) : Bytes := toLe 2 ((asBytes s).length % 2 ^ 16) ++ asBytes s

def encodeValidators (v : Validators) : Bytes :=
  [v.url, v.etag, v.lastModified].flatMap encodeString

def streamMeta (total done : UInt64) (v : Validators) : Bytes :=
  toLe 8 total.toNat ++ toLe 8 done.toNat ++ encodeValidators v

def rangedMeta (chunk : UInt32) (total : UInt64) (v : Validators) (bitmap : Bytes) : Bytes :=
  toLe 4 chunk.toNat ++ toLe 8 total.toNat ++ toLe 4 ((encodeValidators v).length % 2 ^ 32) ++
    encodeValidators v ++ bitmap

/-! ## Reading -/

inductive Fault where
  /-- The reader gives up: `None`. -/
  | malformed
  /-- An index leaves the block: a panic. -/
  | outOfRange
  deriving DecidableEq

/-- `p[a..b]` -/
def index (p : Bytes) (a b : Nat) : Except Fault Bytes :=
  if a ≤ b ∧ b ≤ p.length then .ok ((p.take b).drop a) else .error .outOfRange

/-- `p.get(a..b)?` -/
def get (p : Bytes) (a b : Nat) : Except Fault Bytes :=
  if a ≤ b ∧ b ≤ p.length then .ok ((p.take b).drop a) else .error .malformed

/-- The next string, and what is behind it. -/
def takeString (p : Bytes) : Except Fault (String × Bytes) :=
  if p.length < 2 then .error .malformed
  else do
    let n := fromLe (← index p 0 2)
    let s := fromUtf8Lossy (← get p 2 (2 + n))
    let rest ← index p (2 + n) p.length
    return (s, rest)

def decodeValidators (p : Bytes) : Except Fault Validators := do
  let (url, p) ← takeString p
  let (etag, p) ← takeString p
  let (lastModified, _) ← takeString p
  return { url, etag, lastModified }

def parseStreamMeta (block : Bytes) : Except Fault (UInt64 × Validators) :=
  if block.length < 16 then .error .malformed
  else do
    let done := UInt64.ofNat (fromLe (← index block 8 16))
    let v ← decodeValidators (← index block 16 block.length)
    return (done, v)

def parseRangedFull (block : Bytes) : Except Fault (UInt32 × Validators × Bytes) :=
  if block.length < 16 then .error .malformed
  else do
    let chunk := UInt32.ofNat (fromLe (← index block 0 4))
    let vlen := fromLe (← index block 12 16)
    let rest ← get block 16 block.length
    let v ← decodeValidators (← get rest 0 vlen)
    let bitmap ← get rest vlen rest.length
    return (chunk, v, bitmap)

/-! ## Parts of a block -/

theorem index_append {front part back : Bytes} {a b : Nat} (ha : front.length = a)
    (hb : front.length + part.length = b) : index (front ++ part ++ back) a b = .ok part := by
  have hrange : a ≤ b ∧ b ≤ (front ++ part ++ back).length := by
    simp only [List.length_append]
    omega
  rw [index, if_pos hrange, ← ha, ← hb, ← List.length_append, List.take_left, List.drop_left]

/-- What an index gives is part of the block. -/
theorem index_ok {p part : Bytes} {a b : Nat} (h : index p a b = .ok part) :
    part.length = b - a ∧ p = p.take a ++ part ++ p.drop b := by
  unfold index at h
  split at h
  · rename_i hrange
    cases h
    refine ⟨by simp [hrange.2], ?_⟩
    have hfront : p.take a = (p.take b).take a := by rw [List.take_take, Nat.min_eq_left hrange.1]
    rw [hfront, List.take_append_drop, List.take_append_drop]
  · cases h

theorem exists_index {p : Bytes} {a b : Nat} (hab : a ≤ b) (hb : b ≤ p.length) :
    ∃ part, index p a b = .ok part :=
  ⟨_, if_pos ⟨hab, hb⟩⟩

theorem get_eq_ok {p part : Bytes} {a b : Nat} : get p a b = .ok part ↔ index p a b = .ok part := by
  unfold get index
  split <;> simp

theorem get_cases (p : Bytes) (a b : Nat) :
    get p a b = .error .malformed ∨ ∃ part, get p a b = .ok part := by
  unfold get
  split
  · exact .inr ⟨_, rfl⟩
  · exact .inl rfl

theorem get_append {front part back : Bytes} {a b : Nat} (ha : front.length = a)
    (hb : front.length + part.length = b) : get (front ++ part ++ back) a b = .ok part :=
  get_eq_ok.mpr (index_append ha hb)

theorem index_suffix {front part : Bytes} {a : Nat} (ha : front.length = a) :
    index (front ++ part) a (front ++ part).length = .ok part := by
  have h := @index_append front part [] a (front ++ part).length ha (by rw [List.length_append])
  rwa [List.append_nil] at h

theorem get_suffix {front part : Bytes} {a : Nat} (ha : front.length = a) :
    get (front ++ part) a (front ++ part).length = .ok part :=
  get_eq_ok.mpr (index_suffix ha)

theorem index_front {part back : Bytes} {b : Nat} (hb : part.length = b) :
    index (part ++ back) 0 b = .ok part := by
  have h := @index_append [] part back 0 b rfl (by rw [List.length_nil, Nat.zero_add, hb])
  rwa [List.nil_append] at h

theorem toLe_fromLe {bytes : Bytes} {n : Nat} (h : bytes.length = n) :
    toLe n (fromLe bytes) = bytes := by
  subst h
  rw [toLe, fromLe, ← List.length_reverse, toBe_fromBe, List.reverse_reverse]

theorem fromLe_lt {bytes : Bytes} {n : Nat} (h : bytes.length = n) : fromLe bytes < 256 ^ n := by
  subst h
  simpa [fromLe] using fromBe_lt bytes.reverse

/-! ## Strings -/

/-- Bytes behind their number. -/
def prefixed (raw : Bytes) : Bytes := toLe 2 raw.length ++ raw

theorem takeString_prefixed {raw : Bytes} (h : raw.length < 2 ^ 16) (rest : Bytes) :
    takeString (prefixed raw ++ rest) = .ok (fromUtf8Lossy raw, rest) := by
  have hlen : ¬(prefixed raw ++ rest).length < 2 := by
    simp only [prefixed, List.length_append, length_toLe]
    omega
  have hn : fromLe (toLe 2 raw.length) = raw.length := fromLe_toLe (by simpa using h)
  have hhead : index (prefixed raw ++ rest) 0 2 = .ok (toLe 2 raw.length) := by
    rw [prefixed, List.append_assoc]
    exact index_front (by simp)
  have hraw : get (prefixed raw ++ rest) 2 (2 + raw.length) = .ok raw :=
    get_append (by simp) (by simp)
  have hrest : index (prefixed raw ++ rest) (2 + raw.length) (prefixed raw ++ rest).length =
      .ok rest :=
    index_suffix (by simp [prefixed])
  rw [takeString, if_neg hlen, hhead]
  simp only [bind, Except.bind, hn, hraw, hrest]
  rfl

theorem takeString_cases (p : Bytes) :
    takeString p = .error .malformed ∨ ∃ raw rest, raw.length < 2 ^ 16 ∧
      p = prefixed raw ++ rest ∧ takeString p = .ok (fromUtf8Lossy raw, rest) := by
  by_cases hlen : p.length < 2
  · exact .inl (if_pos hlen)
  obtain ⟨head, hhead⟩ := @exists_index p 0 2 (by omega) (by omega)
  obtain ⟨hsize, hsplit⟩ := index_ok hhead
  have hlt := fromLe_lt hsize
  rcases get_cases p 2 (2 + fromLe head) with hraw | ⟨raw, hraw⟩
  · left
    rw [takeString, if_neg hlen, hhead]
    simp only [bind, Except.bind, hraw]
  · obtain ⟨hrawlen, hrawsplit⟩ := index_ok (get_eq_ok.mp hraw)
    have hraw' : raw.length = fromLe head := by omega
    have htwo : p.take 2 = toLe 2 raw.length := by
      have htake := congrArg (List.take 2) hsplit
      rw [List.take_zero, List.nil_append, List.take_left' hsize] at htake
      rw [htake, hraw', toLe_fromLe hsize]
    have hwhole : p = prefixed raw ++ p.drop (2 + raw.length) := by
      rw [prefixed, ← htwo, hraw']
      exact hrawsplit
    have hsmall : raw.length < 2 ^ 16 := by
      rw [hraw']
      simpa using hlt
    refine .inr ⟨raw, _, hsmall, hwhole, ?_⟩
    rw [← takeString_prefixed hsmall, ← hwhole]

/-! ## Validators -/

/-- The bytes begin with three strings, which read as the validators. -/
def Validators.ReadFrom (v : Validators) (p : Bytes) : Prop :=
  ∃ url etag lastModified slack : Bytes,
    url.length < 2 ^ 16 ∧ etag.length < 2 ^ 16 ∧ lastModified.length < 2 ^ 16 ∧
      p = prefixed url ++ (prefixed etag ++ (prefixed lastModified ++ slack)) ∧
        v = ⟨fromUtf8Lossy url, fromUtf8Lossy etag, fromUtf8Lossy lastModified⟩

theorem decodeValidators_of_readFrom {v : Validators} {p : Bytes} (h : v.ReadFrom p) :
    decodeValidators p = .ok v := by
  obtain ⟨url, etag, lastModified, slack, hu, he, hl, rfl, rfl⟩ := h
  simp only [decodeValidators, bind, Except.bind, takeString_prefixed hu, takeString_prefixed he,
    takeString_prefixed hl]
  rfl

theorem decodeValidators_cases (p : Bytes) :
    decodeValidators p = .error .malformed ∨
      ∃ v, v.ReadFrom p ∧ decodeValidators p = .ok v := by
  rcases takeString_cases p with h | ⟨url, rest, hu, rfl, h⟩
  · left
    simp only [decodeValidators, bind, Except.bind, h]
  · rcases takeString_cases rest with h' | ⟨etag, rest, he, rfl, h'⟩
    · left
      simp only [decodeValidators, bind, Except.bind, h, h']
    · rcases takeString_cases rest with h'' | ⟨lastModified, rest, hl, rfl, h''⟩
      · left
        simp only [decodeValidators, bind, Except.bind, h, h', h'']
      · have hread : Validators.ReadFrom
            ⟨fromUtf8Lossy url, fromUtf8Lossy etag, fromUtf8Lossy lastModified⟩ _ :=
          ⟨url, etag, lastModified, rest, hu, he, hl, rfl, rfl⟩
        exact .inr ⟨_, hread, decodeValidators_of_readFrom hread⟩

/-! ## Blocks -/

/-- The parts of a block for a stream: its total, how far it is, and the validators. -/
theorem parseStreamMeta_append {total tail : Bytes} (htotal : total.length = 8) (done : UInt64) :
    parseStreamMeta (total ++ toLe 8 done.toNat ++ tail) =
      (decodeValidators tail).map fun v => (done, v) := by
  have hlen : ¬(total ++ toLe 8 done.toNat ++ tail).length < 16 := by
    simp only [List.length_append, length_toLe]
    omega
  have hdone : index (total ++ toLe 8 done.toNat ++ tail) 8 16 = .ok (toLe 8 done.toNat) :=
    index_append htotal (by simp [htotal])
  have htail : index (total ++ toLe 8 done.toNat ++ tail) 16
      (total ++ toLe 8 done.toNat ++ tail).length = .ok tail :=
    index_suffix (by simp [htotal])
  have hvalue : UInt64.ofNat (fromLe (toLe 8 done.toNat)) = done := by
    rw [fromLe_toLe (by simpa using done.toNat_lt), UInt64.ofNat_toNat]
  rw [parseStreamMeta, if_neg hlen, hdone]
  simp only [bind, Except.bind, htail, hvalue]
  cases decodeValidators tail <;> rfl

theorem split_stream {block : Bytes} (h : ¬block.length < 16) :
    ∃ (total : Bytes) (done : UInt64) (tail : Bytes), total.length = 8 ∧
      block = total ++ toLe 8 done.toNat ++ tail := by
  have hpart : ((block.drop 8).take 8).length = 8 := by
    simp only [List.length_take, List.length_drop]
    omega
  have hlt := fromLe_lt hpart
  refine ⟨block.take 8, UInt64.ofNat (fromLe ((block.drop 8).take 8)), block.drop 16, ?_, ?_⟩
  · rw [List.length_take]
    omega
  · have hdrop : block.drop 16 = (block.drop 8).drop 8 := by rw [List.drop_drop]
    rw [UInt64.toNat_ofNat', Nat.mod_eq_of_lt (by simpa using hlt), toLe_fromLe hpart, hdrop,
      List.append_assoc, List.take_append_drop, List.take_append_drop]

theorem parseStreamMeta_cases (block : Bytes) :
    parseStreamMeta block = .error .malformed ∨
      ∃ (total : Bytes) (done : UInt64) (tail : Bytes) (v : Validators), total.length = 8 ∧
        block = total ++ toLe 8 done.toNat ++ tail ∧ v.ReadFrom tail ∧
          parseStreamMeta block = .ok (done, v) := by
  by_cases hlen : block.length < 16
  · exact .inl (if_pos hlen)
  obtain ⟨total, done, tail, htotal, rfl⟩ := split_stream hlen
  rw [parseStreamMeta_append htotal]
  rcases decodeValidators_cases tail with h | ⟨v, hread, h⟩
  · exact .inl (by rw [h]; rfl)
  · exact .inr ⟨total, done, tail, v, htotal, rfl, hread, by rw [h]; rfl⟩

/-- The parts of a block for chunks: the key of the plan, the total, a length, and the rest, whose
first bytes, of that length, are the validators. -/
theorem parseRangedFull_eq {total size rest : Bytes} (htotal : total.length = 8)
    (hsize : size.length = 4) (chunk : UInt32) :
    parseRangedFull (toLe 4 chunk.toNat ++ total ++ size ++ rest) = do
      let v ← decodeValidators (← get rest 0 (fromLe size))
      let bitmap ← get rest (fromLe size) rest.length
      return (chunk, v, bitmap) := by
  set block := toLe 4 chunk.toNat ++ total ++ size ++ rest with hblock
  have hlen : ¬block.length < 16 := by
    simp only [hblock, List.length_append, length_toLe]
    omega
  have hchunk : index block 0 4 = .ok (toLe 4 chunk.toNat) := by
    rw [hblock, List.append_assoc, List.append_assoc]
    exact index_front (by simp)
  have hvlen : index block 12 16 = .ok size := index_append (by simp [htotal]) (by simp [htotal, hsize])
  have hrest : get block 16 block.length = .ok rest := get_suffix (by simp [htotal, hsize])
  have hkey : UInt32.ofNat (fromLe (toLe 4 chunk.toNat)) = chunk := by
    rw [fromLe_toLe (by simpa using chunk.toNat_lt), UInt32.ofNat_toNat]
  rw [parseRangedFull, if_neg hlen, hchunk]
  simp only [bind, Except.bind, hvlen, hrest, hkey]

theorem parseRangedFull_append {total part : Bytes} (htotal : total.length = 8)
    (hpart : part.length < 2 ^ 32) (chunk : UInt32) (bitmap : Bytes) :
    parseRangedFull (toLe 4 chunk.toNat ++ total ++ toLe 4 part.length ++ (part ++ bitmap)) =
      (decodeValidators part).map fun v => (chunk, v, bitmap) := by
  have hsize : fromLe (toLe 4 part.length) = part.length := fromLe_toLe (by simpa using hpart)
  have hvalidators : get (part ++ bitmap) 0 part.length = .ok part :=
    get_eq_ok.mpr (index_front rfl)
  have hbitmap : get (part ++ bitmap) part.length (part ++ bitmap).length = .ok bitmap :=
    get_suffix rfl
  rw [parseRangedFull_eq htotal (length_toLe 4 _), hsize]
  simp only [bind, Except.bind, hvalidators]
  cases decodeValidators part with
  | error e => rfl
  | ok v =>
    simp only [hbitmap]
    rfl

theorem split_ranged {block : Bytes} (h : ¬block.length < 16) :
    ∃ (chunk : UInt32) (total size rest : Bytes), total.length = 8 ∧ size.length = 4 ∧
      block = toLe 4 chunk.toNat ++ total ++ size ++ rest := by
  have hkey : (block.take 4).length = 4 := by
    rw [List.length_take]
    omega
  have hlt := fromLe_lt hkey
  refine ⟨UInt32.ofNat (fromLe (block.take 4)), (block.drop 4).take 8, (block.drop 12).take 4,
    block.drop 16, ?_, ?_, ?_⟩
  · simp only [List.length_take, List.length_drop]
    omega
  · simp only [List.length_take, List.length_drop]
    omega
  · have h12 : block.drop 12 = (block.drop 4).drop 8 := by rw [List.drop_drop]
    have h16 : block.drop 16 = (block.drop 12).drop 4 := by rw [List.drop_drop]
    rw [UInt32.toNat_ofNat', Nat.mod_eq_of_lt (by simpa using hlt), toLe_fromLe hkey, h16,
      List.append_assoc, List.take_append_drop, h12, List.append_assoc, List.take_append_drop,
      List.take_append_drop]

theorem parseRangedFull_cases (block : Bytes) :
    parseRangedFull block = .error .malformed ∨
      ∃ (chunk : UInt32) (total part bitmap : Bytes) (v : Validators), total.length = 8 ∧
        part.length < 2 ^ 32 ∧
          block = toLe 4 chunk.toNat ++ total ++ toLe 4 part.length ++ (part ++ bitmap) ∧
            v.ReadFrom part ∧ parseRangedFull block = .ok (chunk, v, bitmap) := by
  by_cases hlen : block.length < 16
  · exact .inl (if_pos hlen)
  obtain ⟨chunk, total, size, rest, htotal, hsize, rfl⟩ := split_ranged hlen
  rcases get_cases rest 0 (fromLe size) with hpart | ⟨part, hpart⟩
  · left
    rw [parseRangedFull_eq htotal hsize, hpart]
    rfl
  · obtain ⟨hpartlen, hsplit⟩ := index_ok (get_eq_ok.mp hpart)
    have hlt := fromLe_lt hsize
    have hpart' : part.length = fromLe size := by omega
    have hfront : size = toLe 4 part.length := by rw [hpart', toLe_fromLe hsize]
    rw [List.take_zero, List.nil_append] at hsplit
    have hsmall : part.length < 2 ^ 32 := by
      rw [hpart']
      simpa using hlt
    rw [hfront, hsplit, parseRangedFull_append htotal hsmall]
    rcases decodeValidators_cases part with h | ⟨v, hread, h⟩
    · exact .inl (by rw [h]; rfl)
    · exact .inr ⟨chunk, total, part, _, v, htotal, hsmall, rfl, hread, by rw [h]; rfl⟩

/-! ## Round trips -/

/-- The lengths fit their two bytes. -/
structure Validators.Fits (v : Validators) : Prop where
  url : (asBytes v.url).length < 2 ^ 16
  etag : (asBytes v.etag).length < 2 ^ 16
  lastModified : (asBytes v.lastModified).length < 2 ^ 16

theorem encodeString_eq {s : String} (h : (asBytes s).length < 2 ^ 16) :
    encodeString s = prefixed (asBytes s) := by
  rw [encodeString, prefixed, Nat.mod_eq_of_lt h]

theorem encodeValidators_eq (v : Validators) :
    encodeValidators v = encodeString v.url ++ (encodeString v.etag ++ encodeString v.lastModified) := by
  simp [encodeValidators]

theorem Validators.Fits.readFrom {v : Validators} (h : v.Fits) : v.ReadFrom (encodeValidators v) := by
  refine ⟨asBytes v.url, asBytes v.etag, asBytes v.lastModified, [], h.url, h.etag, h.lastModified,
    ?_, ?_⟩
  · rw [encodeValidators_eq, encodeString_eq h.url, encodeString_eq h.etag,
      encodeString_eq h.lastModified, List.append_nil]
  · simp only [fromUtf8Lossy_asBytes]

theorem Validators.Fits.length_lt {v : Validators} (h : v.Fits) :
    (encodeValidators v).length < 2 ^ 32 := by
  obtain ⟨hurl, hetag, hlast⟩ := h
  simp only [encodeValidators_eq, encodeString, List.length_append, length_toLe]
  omega

/-- A string that is read back from behind its cut length was not cut. -/
theorem eq_of_encodeString {s : String} {raw back rest : Bytes} (hraw : raw.length < 2 ^ 16)
    (hs : s = fromUtf8Lossy raw) (h : encodeString s ++ back = prefixed raw ++ rest) :
    (asBytes s).length < 2 ^ 16 ∧ back = rest := by
  rw [encodeString, prefixed, List.append_assoc, List.append_assoc] at h
  obtain ⟨hlen, htail⟩ := List.append_inj h (by simp)
  have hmod : (asBytes s).length % 2 ^ 16 = raw.length := by
    have hread := congrArg fromLe hlen
    rwa [fromLe_toLe (by simpa using Nat.mod_lt _ (by decide)),
      fromLe_toLe (by simpa using hraw)] at hread
  have htake : (asBytes s).take raw.length = raw := by
    have htake := congrArg (List.take raw.length) htail
    rwa [List.take_left, List.take_append_of_le_length (by omega)] at htake
  have hshort : (asBytes s).length ≤ raw.length + 4 := by
    rw [asBytes_eq_flatMap] at htake ⊢
    refine length_le_of_lossyChars_take ?_
    rw [htake, hs, fromUtf8Lossy, String.toList_ofList]
  have hsmall : (asBytes s).length < 2 ^ 16 := by omega
  rw [Nat.mod_eq_of_lt hsmall] at hmod
  exact ⟨hsmall, (List.append_inj htail hmod).2⟩

theorem Validators.ReadFrom.fits {v : Validators} (h : v.ReadFrom (encodeValidators v)) : v.Fits := by
  obtain ⟨url, etag, lastModified, slack, hu, he, hl, heq, hv⟩ := h
  rw [encodeValidators_eq] at heq
  have hurl : v.url = fromUtf8Lossy url := by rw [hv]
  have hetag : v.etag = fromUtf8Lossy etag := by rw [hv]
  have hlast : v.lastModified = fromUtf8Lossy lastModified := by rw [hv]
  obtain ⟨hurlFits, heq⟩ := eq_of_encodeString hu hurl heq
  obtain ⟨hetagFits, heq⟩ := eq_of_encodeString he hetag heq
  rw [← List.append_nil (encodeString v.lastModified)] at heq
  exact ⟨hurlFits, hetagFits, (eq_of_encodeString hl hlast heq).1⟩

/-- What is written for the state of a download is read back. -/
structure RoundTrips (v : Validators) (total done : UInt64) (key : UInt32) (bitmap : Bytes) :
    Prop where
  stream : parseStreamMeta (streamMeta total done v) = .ok (done, v)
  ranged : parseRangedFull (rangedMeta key total v bitmap) = .ok (key, v, bitmap)

/-- What a parser makes of a block is spelled by its bytes, and no index leaves the block. -/
structure Understood (block : Bytes) : Prop where
  stream : ∀ (done : UInt64) (v : Validators), parseStreamMeta block = .ok (done, v) →
    ∃ total tail : Bytes, total.length = 8 ∧ block = total ++ toLe 8 done.toNat ++ tail ∧
      v.ReadFrom tail
  ranged : ∀ (key : UInt32) (v : Validators) (bitmap : Bytes),
    parseRangedFull block = .ok (key, v, bitmap) → ∃ total part : Bytes, total.length = 8 ∧
      part.length < 2 ^ 32 ∧
        block = toLe 4 key.toNat ++ total ++ toLe 4 part.length ++ (part ++ bitmap) ∧
          v.ReadFrom part
  in_range : parseStreamMeta block ≠ .error .outOfRange ∧ parseRangedFull block ≠ .error .outOfRange

theorem understood (block : Bytes) : Understood block where
  stream done v h := by
    rcases parseStreamMeta_cases block with h' | ⟨total, done', tail, v', htotal, hblock, hread, h'⟩
    · rw [h] at h'
      cases h'
    · rw [h] at h'
      cases h'
      exact ⟨total, tail, htotal, hblock, hread⟩
  ranged key v bitmap h := by
    rcases parseRangedFull_cases block with
      h' | ⟨key', total, part, bitmap', v', htotal, hpart, hblock, hread, h'⟩
    · rw [h] at h'
      cases h'
    · rw [h] at h'
      cases h'
      exact ⟨total, part, htotal, hpart, hblock, hread⟩
  in_range := by
    constructor
    · rcases parseStreamMeta_cases block with h | ⟨_, _, _, _, _, _, _, h⟩ <;> rw [h] <;> nofun
    · rcases parseRangedFull_cases block with h | ⟨_, _, _, _, _, _, _, _, _, h⟩ <;> rw [h] <;> nofun

theorem Validators.Fits.roundTrips {v : Validators} (h : v.Fits) (total done : UInt64) (key : UInt32)
    (bitmap : Bytes) : RoundTrips v total done key bitmap where
  stream := by
    rw [streamMeta, parseStreamMeta_append (length_toLe 8 _), decodeValidators_of_readFrom h.readFrom]
    rfl
  ranged := by
    rw [rangedMeta, Nat.mod_eq_of_lt h.length_lt, List.append_assoc,
      parseRangedFull_append (length_toLe 8 _) h.length_lt, decodeValidators_of_readFrom h.readFrom]
    rfl

theorem RoundTrips.fits {v : Validators} {total done : UInt64} {key : UInt32} {bitmap : Bytes}
    (h : RoundTrips v total done key bitmap) : v.Fits := by
  have hstream := h.stream
  rw [streamMeta, parseStreamMeta_append (length_toLe 8 _)] at hstream
  rcases decodeValidators_cases (encodeValidators v) with hdecode | ⟨v', hread, hdecode⟩
  · rw [hdecode] at hstream
    cases hstream
  · rw [hdecode] at hstream
    cases hstream
    exact hread.fits

/-- The state of a download is restored if and only if the lengths of the URL and of the validators
fit in two bytes. -/
theorem metadata_restored_iff (v : Validators) (total done : UInt64) (key : UInt32)
    (bitmap : Bytes) :
    (RoundTrips v total done key bitmap ∧ ∀ block, Understood block) ↔ v.Fits :=
  ⟨fun h => h.1.fits, fun h => ⟨h.roundTrips total done key bitmap, understood⟩⟩

/-- An entity tag of 2^16 letters. -/
def longTag : Validators := ⟨"http://h/", String.ofList (List.replicate 65536 'a'), ""⟩

theorem length_asBytes_replicate (n : Nat) :
    (asBytes (String.ofList (List.replicate n 'a'))).length = n := by
  rw [asBytes_eq_flatMap, String.toList_ofList, List.length_flatMap, List.map_replicate,
    List.sum_replicate]
  simp [String.utf8EncodeChar]

theorem metadata_lost : ¬RoundTrips longTag 0 0 0 [] := fun h =>
  absurd h.fits.etag (by rw [longTag, length_asBytes_replicate]; decide)

end Rsurl.Download
