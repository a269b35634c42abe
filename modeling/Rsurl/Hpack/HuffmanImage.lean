import Rsurl.Hpack.HuffmanCodec

/-!
# Huffman encoding inverts decoding

The code is complete: thirty bits always begin with a code word. So the decoder never holds more
than 29 bits between two bytes, and the bits that its 64-bit accumulator loses are ones it has
consumed. What it accepts is then the code words it has found and fewer than eight ones, which is
what the encoder writes.
-/

namespace Rsurl.Hpack

open Library

/-! ## Completeness of the code -/

/-- The code words of one length, extended to thirty bits, are a range. -/
def codeRange (len : Nat) : Nat × Nat :=
  (indexTable.first.getD len 0 * 2 ^ (30 - len),
    (indexTable.first.getD len 0 + indexTable.count.getD len 0) * 2 ^ (30 - len))

/-- The lengths that some code word has. -/
def codeLengths : List Nat := (List.range 31).filter fun len => indexTable.count.getD len 0 ≠ 0

theorem index_tiles : Tiles 0 (codeLengths.map codeRange) (2 ^ 30) := by decide

/-- Thirty bits begin with a code word. -/
theorem exists_codeBits_isPrefix {v : Nat} (hv : v < 2 ^ 30) :
    ∃ sym < 257, codeBits sym <+: bitsOf 30 v := by
  obtain ⟨r, hr, hlow, hhigh⟩ := index_tiles.covers (Nat.zero_le v) hv
  obtain ⟨len, hlen, rfl⟩ := List.mem_map.mp hr
  have hlen : len < 31 := List.mem_range.mp (List.mem_filter.mp hlen).1
  have hle : len ≤ 30 := by omega
  have hfirst : indexTable.first.getD len 0 ≤ v / 2 ^ (30 - len) :=
    (Nat.le_div_iff_mul_le (Nat.two_pow_pos _)).mpr hlow
  have hlast : v / 2 ^ (30 - len) <
      indexTable.first.getD len 0 + indexTable.count.getD len 0 :=
    (Nat.div_lt_iff_lt_mul (Nat.two_pow_pos _)).mpr hhigh
  obtain ⟨hsym, hentry⟩ := index_sound len hlen (v / 2 ^ (30 - len) - indexTable.first.getD len 0)
    (by omega)
  refine ⟨_, hsym, ?_⟩
  rw [codeBits, hentry, Nat.add_sub_cancel' hfirst]
  exact bitsOf_div_isPrefix hle v

theorem Drained.short {acc accLen : Nat} (h : Drained acc accLen) : accLen < 30 := by
  by_contra hlong
  have hle : 30 ≤ accLen := Nat.le_of_not_lt hlong
  obtain ⟨sym, hsym, hpre⟩ :=
    exists_codeBits_isPrefix (Nat.mod_lt (acc / 2 ^ (accLen - 30)) (Nat.two_pow_pos 30))
  rw [bitsOf_mod] at hpre
  exact h sym hsym (hpre.trans (bitsOf_div_isPrefix hle acc))

/-! ## What the decoder consumes -/

/-- The symbols pulled are the code words at the front of the accumulator. -/
theorem pullSymbols_ok {rounds acc accLen left : Nat} {out out' : Bytes} (hrounds : accLen ≤ rounds)
    (h : pullSymbols acc rounds accLen out = .ok (left, out')) :
    ∃ now, out' = out ++ now ∧ bitsOf accLen acc = inputBits now ++ bitsOf left acc ∧
      Drained acc left := by
  induction rounds generalizing accLen out with
  | zero =>
    cases h
    exact ⟨[], by simp, rfl, drained_of_short (by omega)⟩
  | succ rounds ih =>
    rw [pullSymbols] at h
    split at h
    · rename_i hfive
      cases h
      exact ⟨[], by simp, rfl, drained_of_short hfive⟩
    · cases hmatch : firstMatch acc accLen with
      | none =>
        rw [hmatch] at h
        cases h
        exact ⟨[], by simp, rfl, firstMatch_none hmatch⟩
      | some found =>
        obtain ⟨sym, len⟩ := found
        obtain ⟨hsym, hlow, hlen, hbits⟩ := firstMatch_some hmatch
        rw [hmatch] at h
        simp only at h
        split at h
        · cases h
        · rename_i hne
          obtain ⟨now, rfl, hrest, hdone⟩ := ih (by omega) h
          have hbyte : (UInt8.ofNat sym).toNat = sym := by
            rw [UInt8.toNat_ofNat', Nat.mod_eq_of_lt]
            omega
          refine ⟨UInt8.ofNat sym :: now, by simp, ?_, hdone⟩
          rw [hbits, hrest, inputBits_cons, hbyte, List.append_assoc]

/-- The bits read so far are the code words of the symbols found and the bits still held. -/
theorem decodeBytes_ok {input out out' : Bytes} {acc acc' accLen left : Nat}
    (hdone : Drained acc accLen) (h : decodeBytes input acc accLen out = .ok (acc', left, out')) :
    ∃ now, out' = out ++ now ∧ Drained acc' left ∧
      bitsOf accLen acc ++ byteBits input = inputBits now ++ bitsOf left acc' := by
  induction input generalizing acc accLen out with
  | nil =>
    cases h
    exact ⟨[], by simp, hdone, by simp [inputBits]⟩
  | cons byte rest ih =>
    rw [decodeBytes] at h
    split at h
    · cases h
    · rename_i left₁ out₁ hpull
      obtain ⟨now, rfl, hfound, hdone₁⟩ := pullSymbols_ok le_rfl hpull
      obtain ⟨later, rfl, hdone', hrest⟩ := ih hdone₁ h
      have hshort := hdone.short
      refine ⟨now ++ later, by simp, hdone', ?_⟩
      calc bitsOf accLen acc ++ byteBits (byte :: rest)
          = bitsOf (accLen + 8) (((acc <<< 8) % 2 ^ 64) ||| byte.toNat) ++ byteBits rest := by
            rw [byteBits_cons, ← List.append_assoc, bitsOf_shiftIn byte (by omega)]
        _ = inputBits now ++ (inputBits later ++ bitsOf left acc') := by
            rw [hfound, List.append_assoc, hrest]
        _ = inputBits (now ++ later) ++ bitsOf left acc' := by
            rw [← List.append_assoc, inputBits, inputBits, inputBits, List.flatMap_append]

/-! ## The codec -/

theorem huffmanEncode_of_decode {x y : Bytes} (h : huffmanDecode y = .ok x) :
    huffmanEncode x = y := by
  unfold huffmanDecode at h
  split at h
  · cases h
  · rename_i acc left out hdec
    obtain ⟨now, rfl, -, hbits⟩ := decodeBytes_ok (drained_of_short (by omega)) hdec
    split at h
    · cases h
    · rename_i hfew
      split at h
      · cases h
      · rename_i hpad
        cases h
        have hones : bitsOf left acc = List.replicate left true := by
          rcases Nat.eq_zero_or_pos left with rfl | hpos
          · rfl
          · have hmask : acc &&& (2 ^ left - 1) = 2 ^ left - 1 := by
              by_contra hne
              exact hpad ⟨hpos, hne⟩
            rw [Nat.and_two_pow_sub_one_eq_mod] at hmask
            rw [← bitsOf_mod, hmask, bitsOf_ones]
        rw [bitsOf_zero, List.nil_append, hones] at hbits
        have hlen := congrArg List.length hbits
        rw [length_byteBits, List.length_append, List.length_replicate, ← huffmanBitLen_eq] at hlen
        have hleft : padBits (huffmanBitLen x) = left := by
          unfold padBits
          omega
        apply byteBits_inj
        rw [huffmanEncode_bits, hleft, hbits]

/-- Decoding and encoding invert each other, and the accumulator has room for the next byte at every
point of the input: what it holds and has not consumed is what was read of it. -/
theorem huffman_exact :
    (∀ x, huffmanDecode (huffmanEncode x) = .ok x) ∧
    (∀ x y, huffmanDecode y = .ok x → huffmanEncode x = y) ∧
    (∀ y, (∃ x, huffmanDecode y = .ok x) ↔ y ∈ Set.range huffmanEncode) ∧
    ∀ front acc accLen out, decodeBytes front 0 0 [] = .ok (acc, accLen, out) →
      accLen + 8 ≤ 64 ∧ byteBits front = inputBits out ++ bitsOf accLen acc := by
  refine ⟨huffmanDecode_huffmanEncode, fun _ _ => huffmanEncode_of_decode, fun y => ?_,
    fun front acc accLen out h => ?_⟩
  · constructor
    · rintro ⟨x, hx⟩
      exact ⟨x, huffmanEncode_of_decode hx⟩
    · rintro ⟨x, rfl⟩
      exact ⟨x, huffmanDecode_huffmanEncode x⟩
  · obtain ⟨now, rfl, hdone, hbits⟩ := decodeBytes_ok (drained_of_short (by omega)) h
    have hshort := hdone.short
    exact ⟨by omega, by simpa using hbits⟩

end Rsurl.Hpack
