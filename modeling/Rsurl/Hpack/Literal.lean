import Rsurl.Hpack.HuffmanCodec
import Rsurl.Hpack.Table

/-!
# Reading back what the encoder writes

Each representation the encoder emits, wherever it stands in a block, is read back by the decoder
together with the position after it. A buffer position is described by `buf.drop pos`, the bytes
still to be read, so that no statement depends on what came before.
-/

namespace Rsurl.Hpack

open Library Text

/-! ## Integers inside a block -/

theorem encodeIntInto_append (out : Bytes) (value prefixBits : Nat) (flags : UInt8) :
    encodeIntInto out value prefixBits flags =
      out ++ encodeIntInto [] value prefixBits flags := by
  unfold encodeIntInto
  simp only
  split <;> simp

theorem decodeInt_encodeInt (value : Nat) {prefixBits : Nat} {flags : UInt8} (suffix : Bytes)
    (hflags : FlagsAbove prefixBits flags) (h : value < 2 ^ 64) :
    decodeInt (encodeIntInto [] value prefixBits flags ++ suffix) prefixBits =
      .ok (value, (encodeIntInto [] value prefixBits flags).length) :=
  decodeInt_encodeIntInto [] suffix hflags h

/-- The first byte carries the flags over a prefix value. -/
theorem encodeInt_head (value prefixBits : Nat) (flags : UInt8) :
    ∃ w tail, w ≤ 2 ^ prefixBits - 1 ∧
      encodeIntInto [] value prefixBits flags = (UInt8.ofNat w ||| flags) :: tail := by
  unfold encodeIntInto
  simp only
  split
  · rename_i h
    exact ⟨value, [], h.le, rfl⟩
  · exact ⟨2 ^ prefixBits - 1, _, le_rfl, rfl⟩

theorem length_encodeRest_le (rem : Nat) : (encodeRest rem).length ≤ rem + 1 := by
  induction rem using Nat.strongRecOn with
  | ind rem ih =>
    by_cases h : rem < 128
    · simp [encodeRest_last h]
    · have := ih (rem / 128) (by omega)
      rw [encodeRest_more h, List.length_cons]
      omega

theorem length_encodeInt_le (value prefixBits : Nat) (flags : UInt8) :
    (encodeIntInto [] value prefixBits flags).length ≤ value + 2 := by
  unfold encodeIntInto
  simp only
  split
  · simp
  · have := length_encodeRest_le (value - (2 ^ prefixBits - 1))
    simp only [List.nil_append, List.length_cons]
    omega

theorem flags_indexed : FlagsAbove 7 0x80 := by unfold FlagsAbove; decide
theorem flags_incremental : FlagsAbove 6 0x40 := by unfold FlagsAbove; decide
theorem flags_sizeUpdate : FlagsAbove 5 0x20 := by unfold FlagsAbove; decide
theorem flags_raw : FlagsAbove 7 0 := by unfold FlagsAbove; decide

theorem head_indexed : ∀ w ≤ 2 ^ 7 - 1, (UInt8.ofNat w ||| 0x80) &&& 0x80 ≠ 0 := by decide
theorem head_raw : ∀ w ≤ 2 ^ 7 - 1, (UInt8.ofNat w ||| 0) &&& 0x80 = 0 := by decide
theorem head_incremental : ∀ w ≤ 2 ^ 6 - 1, (UInt8.ofNat w ||| 0x40) &&& 0x80 = 0 ∧
    (UInt8.ofNat w ||| 0x40) &&& 0x40 ≠ 0 := by decide
theorem head_sizeUpdate : ∀ w ≤ 2 ^ 5 - 1, (UInt8.ofNat w ||| 0x20) &&& 0x80 = 0 ∧
    (UInt8.ofNat w ||| 0x20) &&& 0x40 = 0 ∧ (UInt8.ofNat w ||| 0x20) &&& 0x20 ≠ 0 := by decide

/-! ## Buffer positions -/

theorem getElem?_of_drop {buf : Bytes} (tail : Bytes) {b : UInt8} {pos : Nat}
    (h : buf.drop pos = b :: tail) : buf[pos]? = some b := by
  have := congrArg (·[0]?) h
  simpa using this

theorem drop_advance {buf front back : Bytes} {pos : Nat} (h : buf.drop pos = front ++ back) :
    buf.drop (pos + front.length) = back := by
  rw [← List.drop_drop, h, List.drop_left]

theorem length_of_drop {buf front back : Bytes} {pos : Nat} (h : buf.drop pos = front ++ back)
    (hne : front ≠ []) : buf.length = pos + front.length + back.length := by
  have hlen := congrArg List.length h
  have := List.length_pos_iff.mpr hne
  rw [List.length_drop, List.length_append] at hlen
  omega

/-! ## String literals -/

theorem encodeLiteralString_append (out : Bytes) (s : String) :
    encodeLiteralString out s = out ++ encodeLiteralString [] s := by
  unfold encodeLiteralString
  simp only
  split <;> rw [encodeIntInto_append out] <;> simp

theorem encodeLiteralString_ne_nil (s : String) : encodeLiteralString [] s ≠ [] := by
  unfold encodeLiteralString
  simp only
  split
  · obtain ⟨w, tail, -, he⟩ := encodeInt_head ((huffmanBitLen (asBytes s) + 7) / 8) 7 0x80
    simp [he]
  · obtain ⟨w, tail, -, he⟩ := encodeInt_head (asBytes s).length 7 0
    simp [he]

theorem length_encodeLiteralString_le (s : String) :
    (encodeLiteralString [] s).length ≤ 2 * len s + 2 := by
  unfold encodeLiteralString len
  simp only
  split
  · have := length_encodeInt_le ((huffmanBitLen (asBytes s) + 7) / 8) 7 0x80
    rw [List.length_append, length_huffmanEncode]
    omega
  · have := length_encodeInt_le (asBytes s).length 7 0
    rw [List.length_append]
    omega

/-- The value, once its length prefix `n` has been read, is what the prefix is followed by. -/
theorem readString_prefixed {buf body suffix : Bytes} {pos : Nat} {flags : UInt8} {s : String}
    (hflags : FlagsAbove 7 flags)
    (hdrop : buf.drop pos = encodeIntInto [] body.length 7 flags ++ body ++ suffix)
    (hbuf : buf.length < 2 ^ 64)
    (hbody : ∀ w ≤ 2 ^ 7 - 1,
      (if (UInt8.ofNat w ||| flags) &&& 0x80 ≠ 0 then huffmanDecode body else .ok body) =
        .ok (asBytes s)) :
    Decoder.readString buf pos =
      .ok (s, pos + (encodeIntInto [] body.length 7 flags ++ body).length) := by
  obtain ⟨w, tail, hw, hhead⟩ := encodeInt_head body.length 7 flags
  have hne : encodeIntInto [] body.length 7 flags ++ body ≠ [] := by simp [hhead]
  have hlen := length_of_drop hdrop hne
  have hbyte : buf[pos]? = some (UInt8.ofNat w ||| flags) :=
    getElem?_of_drop (tail ++ (body ++ suffix)) (by simp [hdrop, hhead])
  have hint := decodeInt_encodeInt body.length (body ++ suffix) hflags (by
    rw [List.length_append] at hlen; omega)
  rw [← List.append_assoc, ← hdrop] at hint
  have hrest : buf.drop (pos + (encodeIntInto [] body.length 7 flags).length) =
      body ++ suffix := drop_advance (by rw [hdrop, List.append_assoc])
  rw [List.length_append] at hlen
  have hdec := hbody w hw
  unfold Decoder.readString
  simp only [hbyte, hint]
  rw [if_neg (by omega), if_neg (by omega), hrest, List.take_left]
  split at hdec
  · rename_i hflag
    rw [if_pos hflag, hdec]
    simp only [fromUtf8_asBytes, List.length_append]
    congr 2
    omega
  · rename_i hflag
    rw [if_neg hflag, show body = asBytes s from Except.ok.inj hdec]
    simp only [fromUtf8_asBytes, List.length_append]
    congr 2
    omega

theorem readString_encodeLiteralString {buf suffix : Bytes} {pos : Nat} (s : String)
    (hdrop : buf.drop pos = encodeLiteralString [] s ++ suffix) (hbuf : buf.length < 2 ^ 64) :
    Decoder.readString buf pos = .ok (s, pos + (encodeLiteralString [] s).length) := by
  unfold encodeLiteralString at hdrop ⊢
  simp only at hdrop ⊢
  split at hdrop
  · rename_i hshort
    rw [if_pos hshort]
    rw [← length_huffmanEncode] at hdrop ⊢
    refine readString_prefixed flags_indexed hdrop hbuf ?_
    intro w hw
    rw [if_pos (head_indexed w hw), huffmanDecode_huffmanEncode]
  · rename_i hlong
    rw [if_neg hlong]
    refine readString_prefixed flags_raw hdrop hbuf ?_
    intro w hw
    rw [if_neg (not_not.mpr (head_raw w hw))]

end Rsurl.Hpack
