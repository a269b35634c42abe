import Rsurl.Library.Checked
import Rsurl.Library.Endian
import Rsurl.Net.Wire

/-!
# BER

The small part of BER that LDAP messages are written in: tag, length and value, lengths in the short
and the long form, and integers in two's complement. A `usize` has 64 bits, which every length of a
slice fits in.
-/

namespace Rsurl.Ldap

open Library Library.Endian
open Library.Framing (Read)

/-! ## Tags -/

namespace Tag

def boolean : UInt8 := 0x01
def integer : UInt8 := 0x02
def octetString : UInt8 := 0x04
def enumerated : UInt8 := 0x0a
def sequence : UInt8 := 0x30
def set : UInt8 := 0x31

def classApplication : UInt8 := 0x40
def classContext : UInt8 := 0x80
def constructed : UInt8 := 0x20

def app (n : UInt8) (isConstructed : Bool) : UInt8 :=
  classApplication ||| (if isConstructed then constructed else 0) ||| (n &&& 0x1f)

def ctx (n : UInt8) (isConstructed : Bool) : UInt8 :=
  classContext ||| (if isConstructed then constructed else 0) ||| (n &&& 0x1f)

end Tag

/-! ## Writing -/

/-- The bytes of a length, the lowest first. -/
def lowBytes (l : Nat) : Bytes :=
  if h : 0 < l then UInt8.ofNat (l % 256) :: lowBytes (l / 256) else []
termination_by l
decreasing_by omega

def encodeLength (len : Nat) : Bytes :=
  if len < 0x80 then [UInt8.ofNat len]
  else
    let tmp := lowBytes len
    (0x80 ||| UInt8.ofNat tmp.length) :: tmp.reverse

def writeTlv (out : Bytes) (tag : UInt8) (value : Bytes) : Bytes :=
  out ++ tag :: encodeLength value.length ++ value

/-- `f` writes the body behind what it is given; the length is patched in afterwards. -/
def writeConstructed (out : Bytes) (tag : UInt8) (f : Bytes → Bytes) : Bytes :=
  let start := out.length
  let out := f (out ++ [tag, 0])
  let bodyLen := out.length - (start + 2)
  if bodyLen < 0x80 then out.set (start + 1) (UInt8.ofNat bodyLen)
  else out.take (start + 1) ++ encodeLength bodyLen ++ out.drop (start + 2)

/-- The bytes of an `i64` without those that only repeat the sign. -/
def skipSign : Bytes → Bytes
  | first :: next :: rest =>
    if (first = 0x00 ∧ next &&& 0x80 = 0) ∨ (first = 0xff ∧ next &&& 0x80 ≠ 0) then
      skipSign (next :: rest)
    else first :: next :: rest
  | bytes => bytes

/-- `to_be_bytes` of an `i64`. -/
def toBeBytes (v : Int) : Bytes := toBe 8 (v % 2 ^ 64).toNat

def writeIntTlv (out : Bytes) (tag : UInt8) (v : Int) : Bytes :=
  writeTlv out tag (skipSign (toBeBytes v))

def writeInteger (out : Bytes) (v : Int) : Bytes := writeIntTlv out Tag.integer v
def writeEnumerated (out : Bytes) (v : Int) : Bytes := writeIntTlv out Tag.enumerated v
def writeOctetString (out s : Bytes) : Bytes := writeTlv out Tag.octetString s
def writeBoolean (out : Bytes) (b : Bool) : Bytes :=
  writeTlv out Tag.boolean [if b then 0xff else 0x00]

/-! ## Reading -/

structure Tlv where
  tag : UInt8
  value : Bytes
  deriving DecidableEq, Repr

/-- `(len << 8) | b` on a `usize`. -/
def shiftIn (len : Nat) (b : UInt8) : Nat := (len <<< 8) % 2 ^ 64 ||| b.toNat

/-- With the data that is left. -/
def readLength (data : Bytes) : Checked Error (Nat × Bytes) :=
  if data.isEmpty then .error (.badResponse "ber: truncated length")
  else do
    let first ← Checked.get data 0
    let data ← Checked.dropFrom data 1
    if first < 0x80 then .ok (first.toNat, data)
    else
      let n := (first &&& 0x7f).toNat
      if n = 0 then .error (.badResponse "ber: indefinite length not allowed")
      else if 8 < n then .error (.badResponse "ber: length too large")
      else if data.length < n then .error (.badResponse "ber: truncated length bytes")
      else do
        let lb ← Checked.takeTo data n
        let data ← Checked.dropFrom data n
        .ok (lb.foldl shiftIn 0, data)

def readTlv (data : Bytes) : Checked Error (Tlv × Bytes) :=
  if data.isEmpty then .error (.badResponse "ber: truncated tag")
  else do
    let tag ← Checked.get data 0
    let data ← Checked.dropFrom data 1
    let (len, data) ← readLength data
    if data.length < len then .error (.badResponse "ber: truncated value")
    else do
      let value ← Checked.takeTo data len
      let data ← Checked.dropFrom data len
      .ok (⟨tag, value⟩, data)

def readExpect (tag : UInt8) (data : Bytes) : Checked Error (Bytes × Bytes) := do
  let (tlv, data) ← readTlv data
  if tlv.tag ≠ tag then
    .error (.badResponse s!"ber: expected tag {Net.hexByte tag}, got {Net.hexByte tlv.tag}")
  else .ok (tlv.value, data)

/-- `acc << 8 | b` on an `i64`. -/
def shiftInSigned (acc : Int) (b : UInt8) : Int := (acc * 256 + b.toNat).bmod (2 ^ 64)

def decodeIntegerI64 (bytes : Bytes) : Checked Error Int :=
  if bytes.isEmpty ∨ 8 < bytes.length then .error (.badResponse "ber: bad integer length")
  else do
    let first ← Checked.get bytes 0
    .ok (bytes.foldl shiftInSigned (if first &&& 0x80 ≠ 0 then -1 else 0))

def readIntegerI64 (data : Bytes) : Checked Error (Int × Bytes) := do
  let (v, data) ← readExpect Tag.integer data
  let n ← decodeIntegerI64 v
  .ok (n, data)

def readEnumeratedI64 (data : Bytes) : Checked Error (Int × Bytes) := do
  let (v, data) ← readExpect Tag.enumerated data
  let n ← decodeIntegerI64 v
  .ok (n, data)

def readOctetString (data : Bytes) : Checked Error (Bytes × Bytes) := readExpect Tag.octetString data

/-! ## Reading from the wire -/

def maxMessageBytes : Nat := 64 * 1024 * 1024

/-- The length behind a tag, from the wire. -/
def readWireLength (reads : List (Read Error UInt8)) :
    Checked Error (Nat × List (Read Error UInt8)) :=
  match Net.readExact 1 reads with
  | (.error e, _) => .error e
  | (.ok buf, reads) => do
    let first ← Checked.get buf 0
    if first < 0x80 then .ok (first.toNat, reads)
    else
      let n := (first &&& 0x7f).toNat
      if n = 0 ∨ 8 < n then .error (.badResponse "ldap: bad length form")
      else match Net.readExact n reads with
        | (.error e, _) => .error e
        | (.ok lb, reads) => .ok (lb.foldl shiftIn 0, reads)

def readMessageFrom (reads : List (Read Error UInt8)) :
    Checked Error (Bytes × List (Read Error UInt8)) :=
  match Net.readExact 1 reads with
  | (.error e, _) => .error e
  | (.ok tagBuf, reads) => do
    let tag ← Checked.get tagBuf 0
    if tag ≠ Tag.sequence then
      .error (.badResponse s!"ldap: expected SEQUENCE, got {Net.hexByte tag}")
    else do
      let (len, reads) ← readWireLength reads
      if maxMessageBytes < len then
        .error (.badResponse s!"ldap: message length {len} exceeds maximum {maxMessageBytes}")
      else match Net.readUpTo len reads with
        | (.error e, _) => .error e
        | (.ok body, reads) =>
          if body.length < len then .error .unexpectedEof else .ok (body, reads)

/-! ## Lengths -/

theorem shiftIn_eq {len : Nat} (h : len * 256 < 2 ^ 64) (b : UInt8) :
    shiftIn len b = len * 256 + b.toNat := by
  have hb : b.toNat < 2 ^ 8 := b.toNat_lt
  rw [shiftIn, Nat.shiftLeft_eq, Nat.mod_eq_of_lt (by simpa using h), ← Nat.shiftLeft_eq,
    ← Nat.shiftLeft_add_eq_or_of_lt hb, Nat.shiftLeft_eq]

/-- Up to eight bytes nothing is shifted out. -/
theorem foldl_shiftIn {bytes : Bytes} (h : bytes.length ≤ 8) : bytes.foldl shiftIn 0 = fromBe bytes := by
  induction bytes using List.reverseRecOn with
  | nil => rfl
  | append_singleton bytes b ih =>
    rw [List.length_append, List.length_singleton] at h
    have hlt : fromBe bytes < 256 ^ 7 :=
      Nat.lt_of_lt_of_le (fromBe_lt bytes) (Nat.pow_le_pow_right (by decide) (by omega))
    rw [List.foldl_append, ih (by omega), fromBe_concat]
    exact shiftIn_eq (by omega) b

theorem fromBe_reverse_lowBytes (l : Nat) : fromBe (lowBytes l).reverse = l := by
  fun_induction lowBytes l with
  | case1 l hl ih =>
    rw [List.reverse_cons, fromBe_concat, ih, UInt8.toNat_ofNat']
    omega
  | case2 l hl =>
    have : l = 0 := by omega
    rw [this]
    rfl

theorem length_lowBytes {l n : Nat} (h : l < 256 ^ n) : (lowBytes l).length ≤ n := by
  induction n generalizing l with
  | zero =>
    have hl : l = 0 := by simpa using h
    rw [hl, lowBytes, dif_neg (by decide)]
    exact Nat.le_refl 0
  | succ n ih =>
    rw [lowBytes]
    split
    · have hdiv : l / 256 < 256 ^ n := by
        rw [Nat.pow_succ] at h
        exact Nat.div_lt_of_lt_mul (by omega)
      exact Nat.succ_le_succ (ih hdiv)
    · exact Nat.zero_le _

theorem lowBytes_ne_nil {l : Nat} (h : 0 < l) : lowBytes l ≠ [] := by
  rw [lowBytes, dif_pos h]
  exact List.cons_ne_nil _ _

theorem readLength_nil : readLength [] = .error (.badResponse "ber: truncated length") := rfl

theorem readLength_cons (first : UInt8) (data : Bytes) : readLength (first :: data) =
    if first < 0x80 then .ok (first.toNat, data)
    else if (first &&& 0x7f).toNat = 0 then
      .error (.badResponse "ber: indefinite length not allowed")
    else if 8 < (first &&& 0x7f).toNat then .error (.badResponse "ber: length too large")
    else if data.length < (first &&& 0x7f).toNat then
      .error (.badResponse "ber: truncated length bytes")
    else
      .ok (fromBe (data.take (first &&& 0x7f).toNat), data.drop (first &&& 0x7f).toNat) := by
  rw [readLength, if_neg (by simp), Checked.get_cons_zero, Checked.ok_bind,
    Checked.dropFrom_cons_one, Checked.ok_bind]
  split
  · rfl
  extract_lets n
  split
  · rfl
  split
  · rfl
  split
  · rfl
  rename_i h8 hlen
  rw [Checked.takeTo_eq (by omega), Checked.ok_bind, Checked.dropFrom_eq (by omega),
    Checked.ok_bind, foldl_shiftIn (by rw [List.length_take]; omega)]

/-- The first byte of the long form. -/
theorem longForm {n : Nat} (h : n < 128) : ¬(0x80 ||| UInt8.ofNat n) < 0x80 ∧
    ((0x80 ||| UInt8.ofNat n) &&& 0x7f).toNat = n := by
  have hall : ∀ n : Fin 128, ¬(0x80 ||| UInt8.ofNat n) < 0x80 ∧
      ((0x80 ||| UInt8.ofNat n) &&& 0x7f).toNat = n := by decide
  exact hall ⟨n, h⟩

theorem readLength_encodeLength {len : Nat} (h : len < 2 ^ 64) (rest : Bytes) :
    readLength (encodeLength len ++ rest) = .ok (len, rest) := by
  unfold encodeLength
  split
  · rename_i hshort
    have hn : (UInt8.ofNat len).toNat = len := by
      rw [UInt8.toNat_ofNat']
      omega
    have hlt : UInt8.ofNat len < 0x80 := by
      rw [UInt8.lt_iff_toNat_lt, hn]
      exact hshort
    rw [List.singleton_append, readLength_cons, if_pos hlt, hn]
  · rename_i hlong
    extract_lets tmp
    have hlen : tmp.length ≤ 8 := length_lowBytes (by simpa using h)
    have hpos : tmp.length ≠ 0 := fun h0 =>
      lowBytes_ne_nil (show 0 < len by omega) (List.eq_nil_of_length_eq_zero h0)
    obtain ⟨hform, hn⟩ := longForm (show tmp.length < 128 by omega)
    rw [List.cons_append, readLength_cons, if_neg hform, hn, if_neg hpos, if_neg (by omega),
      if_neg (by simp), ← List.length_reverse, List.take_left, List.drop_left,
      fromBe_reverse_lowBytes]

theorem readLength_ne_stuck (data : Bytes) : readLength data ≠ .stuck := by
  cases data with
  | nil => simp [readLength_nil]
  | cons first data =>
    rw [readLength_cons]
    repeat' split
    all_goals simp

/-! ## Tag, length and value -/

theorem writeTlv_eq (out : Bytes) (tag : UInt8) (value : Bytes) :
    writeTlv out tag value = out ++ writeTlv [] tag value := by
  simp [writeTlv]

theorem readTlv_cons (tag : UInt8) (data : Bytes) : readTlv (tag :: data) =
    readLength data >>= fun (len, data) =>
      if data.length < len then .error (.badResponse "ber: truncated value")
      else .ok (⟨tag, data.take len⟩, data.drop len) := by
  rw [readTlv, if_neg (by simp), Checked.get_cons_zero, Checked.ok_bind,
    Checked.dropFrom_cons_one, Checked.ok_bind]
  congr 1
  funext ⟨len, data⟩
  dsimp only
  split
  · rfl
  · rename_i hlen
    rw [Checked.takeTo_eq (by omega), Checked.ok_bind, Checked.dropFrom_eq (by omega),
      Checked.ok_bind]

theorem readTlv_writeTlv (tag : UInt8) {value : Bytes} (h : value.length < 2 ^ 64) (rest : Bytes) :
    readTlv (writeTlv [] tag value ++ rest) = .ok (⟨tag, value⟩, rest) := by
  rw [writeTlv, List.nil_append, List.cons_append, List.cons_append, List.append_assoc,
    readTlv_cons, readLength_encodeLength h, Checked.ok_bind]
  simp

theorem readTlv_ne_stuck (data : Bytes) : readTlv data ≠ .stuck := by
  cases data with
  | nil => simp [readTlv]
  | cons tag data =>
    rw [readTlv_cons]
    refine Checked.bind_ne_stuck (readLength_ne_stuck data) fun ⟨len, data⟩ _ => ?_
    dsimp only
    split <;> simp

theorem readExpect_ne_stuck (tag : UInt8) (data : Bytes) : readExpect tag data ≠ .stuck := by
  refine Checked.bind_ne_stuck (readTlv_ne_stuck data) fun ⟨tlv, data⟩ _ => ?_
  dsimp only
  split <;> simp

/-- Patching the length in afterwards is as good as knowing it. -/
theorem writeConstructed_eq {out : Bytes} {tag : UInt8} {f : Bytes → Bytes} {body : Bytes}
    (hf : f (out ++ [tag, 0]) = out ++ [tag, 0] ++ body) :
    writeConstructed out tag f = writeTlv out tag body := by
  unfold writeConstructed
  rw [hf]
  extract_lets start out' bodyLen
  have hout : out' = (out ++ [tag]) ++ 0 :: body := by simp [out']
  have hlen : (out ++ [tag]).length = start + 1 := by simp [start]
  have hbody : bodyLen = body.length := by
    simp only [bodyLen, hout, List.length_append, hlen, List.length_cons]
    omega
  rw [hbody, hout]
  split
  · rename_i hshort
    rw [← hlen, List.set_append_right _ _ (Nat.le_refl _), Nat.sub_self, List.set_cons_zero,
      writeTlv, encodeLength, if_pos hshort]
    simp
  · rw [← hlen, List.take_left, show start + 2 = (out ++ [tag] ++ [0]).length by simp [start],
      show out ++ [tag] ++ 0 :: body = (out ++ [tag] ++ [0]) ++ body by simp, List.drop_left,
      writeTlv]
    simp

end Rsurl.Ldap
