import Rsurl.Hpack.HuffmanTable

/-!
# Huffman decoding inverts encoding

The encoder's output, read as bits, is the concatenation of the symbols' code words followed by
fewer than eight ones. The decoder keeps as invariant that the bits it has not consumed, followed
by the bits it has not read, are the code words of the symbols still to come. Prefix freedom of
the table makes the shortest match the right one.
-/

namespace Rsurl.Hpack

open Library

/-- The code words of a byte string. -/
def inputBits (input : Bytes) : List Bool := input.flatMap fun b => codeBits b.toNat

@[simp] theorem inputBits_cons (b : UInt8) (bs : Bytes) :
    inputBits (b :: bs) = codeBits b.toNat ++ inputBits bs := rfl

theorem byte_lt_symbols (b : UInt8) : b.toNat < 257 := by have := b.toNat_lt; omega

theorem huffmanBitLen_eq (input : Bytes) : huffmanBitLen input = (inputBits input).length := by
  induction input with
  | nil => rfl
  | cons b bs ih =>
    rw [inputBits_cons, List.length_append, ← ih, length_codeBits]
    rfl

/-! ## Encoding -/

/-- The byte that holds the boundary between written and zero bits. -/
theorem boundary_byte {out : Bytes} {written : List Bool} {free : Nat}
    (hout : byteBits out = written ++ List.replicate free false) (hfree : 0 < free) :
    ∃ pre b post, out = pre ++ b :: post ∧ pre.length = written.length / 8 ∧
      byteBits pre ++ bitsOf (written.length % 8) (b.toNat / 2 ^ (8 - written.length % 8)) =
        written ∧
      b.toNat % 2 ^ (8 - written.length % 8) = 0 ∧ 8 - written.length % 8 ≤ free ∧
      byteBits post = List.replicate (free - (8 - written.length % 8)) false := by
  have hlen : 8 * out.length = written.length + free := by
    have := congrArg List.length hout
    simpa using this
  have hidx : written.length / 8 < out.length := by omega
  have hsplit : out = out.take (written.length / 8) ++
      out[written.length / 8] :: out.drop (written.length / 8 + 1) := by
    rw [← List.drop_eq_getElem_cons hidx, List.take_append_drop]
  generalize hb : out[written.length / 8] = b at hsplit
  generalize hpre : out.take (written.length / 8) = pre at hsplit
  generalize hpost : out.drop (written.length / 8 + 1) = post at hsplit
  have hprelen : pre.length = written.length / 8 := by
    rw [← hpre, List.length_take]; omega
  have hbyte : bitsOf 8 b.toNat = bitsOf (written.length % 8)
      (b.toNat / 2 ^ (8 - written.length % 8)) ++ bitsOf (8 - written.length % 8) b.toNat := by
    rw [← bitsOf_add]; congr 1; omega
  rw [hsplit, byteBits_append, byteBits_cons, hbyte, List.append_assoc,
    ← List.append_assoc] at hout
  obtain ⟨hwritten, hrest⟩ := List.append_inj hout (by simp; omega)
  have hspace : 8 - written.length % 8 ≤ free := by omega
  rw [← Nat.add_sub_cancel' hspace, ← List.replicate_append_replicate] at hrest
  obtain ⟨hlow, hpostbits⟩ := List.append_inj hrest (by simp)
  refine ⟨pre, b, post, hsplit, hprelen, hwritten, ?_, hspace, hpostbits⟩
  rw [← bitsOf_zeros, ← bitsOf_mod] at hlow
  exact bitsOf_inj (Nat.mod_lt _ (Nat.two_pow_pos _)) (Nat.two_pow_pos _) hlow

/-- Filling zero bits: a value below `2 ^ take`, placed `low` bits up, reads back as its bits. -/
theorem toNat_or_chunk {b chunk : UInt8} {space take : Nat} (hspace : space ≤ 8)
    (htake : take ≤ space) (hpos : 0 < take) (hb : b.toNat % 2 ^ space = 0)
    (hchunk : chunk.toNat < 2 ^ take) :
    (b ||| (chunk <<< UInt8.ofNat (space - take))).toNat =
      b.toNat + chunk.toNat * 2 ^ (space - take) := by
  have hshift : (chunk <<< UInt8.ofNat (space - take)).toNat =
      chunk.toNat * 2 ^ (space - take) := by
    have hlt : chunk.toNat * 2 ^ (space - take) < 2 ^ 8 := by
      calc chunk.toNat * 2 ^ (space - take) < 2 ^ take * 2 ^ (space - take) :=
            Nat.mul_lt_mul_of_pos_right hchunk (Nat.two_pow_pos _)
        _ = 2 ^ space := by rw [← Nat.pow_add, Nat.add_sub_cancel' htake]
        _ ≤ 2 ^ 8 := Nat.pow_le_pow_right (by omega) hspace
    rw [UInt8.toNat_shiftLeft, UInt8.toNat_ofNat', Nat.shiftLeft_eq,
      Nat.mod_eq_of_lt (a := space - take) (by omega), Nat.mod_eq_of_lt (a := space - take)
      (by omega), Nat.mod_eq_of_lt hlt]
  have hsmall : chunk.toNat * 2 ^ (space - take) < 2 ^ space := by
    calc chunk.toNat * 2 ^ (space - take) < 2 ^ take * 2 ^ (space - take) :=
          Nat.mul_lt_mul_of_pos_right hchunk (Nat.two_pow_pos _)
      _ = 2 ^ space := by rw [← Nat.pow_add, Nat.add_sub_cancel' htake]
  have hsplit : b.toNat = 2 ^ space * (b.toNat / 2 ^ space) := by
    have := Nat.div_add_mod b.toNat (2 ^ space); omega
  rw [UInt8.toNat_or, hshift, hsplit, Nat.two_pow_add_eq_or_of_lt hsmall]

/-- Filling the first `take` zero bits after `written` within one byte. -/
theorem byteBits_fill {out : Bytes} {written : List Bool} {free : Nat} (take : Nat)
    (chunk : UInt8) (hout : byteBits out = written ++ List.replicate free false) (hpos : 0 < take)
    (htake : take ≤ 8 - written.length % 8) (hfree : take ≤ free)
    (hchunk : chunk.toNat < 2 ^ take) :
    byteBits (out.modify (written.length / 8)
      (· ||| (chunk <<< UInt8.ofNat (8 - written.length % 8 - take)))) =
      written ++ bitsOf take chunk.toNat ++ List.replicate (free - take) false := by
  obtain ⟨pre, b, post, rfl, hpre, hwritten, hb, hspace, hpost⟩ :=
    boundary_byte hout (by omega)
  have hw : written.length % 8 < 8 := Nat.mod_lt _ (by omega)
  generalize hused : written.length % 8 = used at *
  generalize hspc : 8 - used = space at *
  have hbyte : bitsOf 8 (b ||| (chunk <<< UInt8.ofNat (space - take))).toNat =
      bitsOf used (b.toNat / 2 ^ space) ++ bitsOf take chunk.toNat ++
        List.replicate (space - take) false := by
    rw [toNat_or_chunk (by omega) htake hpos hb hchunk]
    have hpow : 2 ^ space = 2 ^ take * 2 ^ (space - take) := by
      rw [← Nat.pow_add, Nat.add_sub_cancel' htake]
    have hval : b.toNat = b.toNat / 2 ^ space * 2 ^ take * 2 ^ (space - take) := by
      have := Nat.div_add_mod b.toNat (2 ^ space)
      rw [hb, Nat.add_zero, Nat.mul_comm] at this
      rw [Nat.mul_assoc, ← hpow, this]
    generalize b.toNat / 2 ^ space = high at *
    have hsum : b.toNat + chunk.toNat * 2 ^ (space - take) =
        (high * 2 ^ take + chunk.toNat) * 2 ^ (space - take) := by rw [hval, Nat.add_mul]
    rw [hsum, show 8 = used + take + (space - take) by omega, bitsOf_add,
      Nat.mul_div_cancel _ (Nat.two_pow_pos _), ← bitsOf_mod (space - take), Nat.mul_mod_left,
      bitsOf_zeros, bitsOf_add, ← bitsOf_mod take (_ + _), Nat.mul_comm high,
      Nat.mul_add_mod, bitsOf_mod, Nat.mul_add_div (Nat.two_pow_pos _),
      Nat.div_eq_of_lt hchunk, Nat.add_zero]
  rw [← hpre, List.modify_eq_take_drop, List.take_left, List.drop_left, List.modifyHead_cons,
    byteBits_append, byteBits_cons, hbyte, hpost, ← hwritten]
  simp only [List.append_assoc, List.append_cancel_left_eq, List.replicate_append_replicate]
  congr 1
  omega

/-- Writing a code word appends its bits. -/
theorem writeCode_bits (rounds : Nat) {out : Bytes} {written : List Bool}
    {free remaining codeLeft : Nat}
    (hout : byteBits out = written ++ List.replicate free false) (hrounds : remaining ≤ rounds)
    (hfree : remaining ≤ free) (hcode : codeLeft < 2 ^ remaining) :
    byteBits (writeCode rounds out written.length remaining codeLeft).1 =
        written ++ bitsOf remaining codeLeft ++ List.replicate (free - remaining) false ∧
      (writeCode rounds out written.length remaining codeLeft).2 =
        written.length + remaining := by
  induction rounds generalizing out written free remaining codeLeft with
  | zero =>
    have : remaining = 0 := by omega
    subst this
    simpa [writeCode] using hout
  | succ rounds ih =>
    rw [writeCode]
    by_cases hzero : remaining = 0
    · subst hzero
      simpa using hout
    · rw [if_neg hzero]
      simp only
      generalize htake : min remaining (8 - written.length % 8) = take
      have hw : written.length % 8 < 8 := Nat.mod_lt _ (by omega)
      have hle : take ≤ remaining := by omega
      have hchunk : (codeLeft >>> (remaining - take)) &&& (2 ^ take - 1) =
          codeLeft / 2 ^ (remaining - take) := by
        rw [Nat.and_two_pow_sub_one_eq_mod, Nat.shiftRight_eq_div_pow, Nat.mod_eq_of_lt]
        rw [Nat.div_lt_iff_lt_mul (Nat.two_pow_pos _), ← Nat.pow_add, Nat.add_sub_cancel' hle]
        exact hcode
      have hlt : codeLeft / 2 ^ (remaining - take) < 2 ^ take := by
        rw [← hchunk, Nat.and_two_pow_sub_one_eq_mod]
        exact Nat.mod_lt _ (Nat.two_pow_pos _)
      have hbyte : (UInt8.ofNat (codeLeft / 2 ^ (remaining - take))).toNat =
          codeLeft / 2 ^ (remaining - take) := by
        rw [UInt8.toNat_ofNat', Nat.mod_eq_of_lt]
        exact hlt.trans_le (Nat.pow_le_pow_right (by omega) (by omega))
      have hleft : (if 0 < remaining - take then codeLeft &&& (2 ^ (remaining - take) - 1) else 0)
          = codeLeft % 2 ^ (remaining - take) := by
        split
        · rw [Nat.and_two_pow_sub_one_eq_mod]
        · rw [show remaining - take = 0 by omega, Nat.pow_zero, Nat.mod_one]
      rw [hchunk, hleft]
      have hfill := byteBits_fill take (UInt8.ofNat (codeLeft / 2 ^ (remaining - take))) hout
        (by omega) (by omega) (by omega) (by rw [hbyte]; exact hlt)
      have hnext := ih hfill (by omega) (by omega)
        (Nat.mod_lt codeLeft (Nat.two_pow_pos (remaining - take)))
      rw [hbyte, List.length_append, length_bitsOf] at hnext
      refine ⟨?_, by rw [hnext.2]; omega⟩
      have hwhole : bitsOf remaining codeLeft = bitsOf take (codeLeft / 2 ^ (remaining - take)) ++
          bitsOf (remaining - take) (codeLeft % 2 ^ (remaining - take)) := by
        rw [bitsOf_mod, ← bitsOf_add, Nat.add_sub_cancel' hle]
      rw [hnext.1, hwhole, Nat.sub_sub, Nat.add_sub_cancel' hle]
      simp only [List.append_assoc]

theorem foldl_writeSymbol_bits (input : Bytes) {out : Bytes} {written : List Bool} {free : Nat}
    (hout : byteBits out = written ++ List.replicate free false)
    (hfree : huffmanBitLen input ≤ free) :
    byteBits (input.foldl writeSymbol (out, written.length)).1 =
      written ++ inputBits input ++ List.replicate (free - huffmanBitLen input) false := by
  induction input generalizing out written free with
  | nil => simpa [inputBits, huffmanBitLen] using hout
  | cons b bs ih =>
    have hlen := length_codeBits b.toNat
    rw [huffmanBitLen_eq, inputBits_cons, List.length_append, ← huffmanBitLen_eq] at hfree
    obtain ⟨hbits, hpos⟩ := writeCode_bits (huffman.getD b.toNat (0, 0)).2 hout le_rfl
      (by omega) (code_bounds _ (getD_mem (byte_lt_symbols b))).2.2
    have hnext := ih hbits (by omega)
    rw [List.length_append, length_bitsOf, ← hpos] at hnext
    rw [List.foldl_cons, huffmanBitLen_eq, inputBits_cons, List.length_append,
      ← huffmanBitLen_eq, ← Nat.sub_sub, hlen, ← List.append_assoc]
    exact hnext

theorem length_huffmanEncode_fold (input : Bytes) (buf : Bytes × Nat) :
    (input.foldl writeSymbol buf).1.length = buf.1.length := by
  have hcode : ∀ rounds (out : Bytes) bitPos remaining codeLeft,
      (writeCode rounds out bitPos remaining codeLeft).1.length = out.length := by
    intro rounds
    induction rounds with
    | zero => intros; rfl
    | succ rounds ih =>
      intro out bitPos remaining codeLeft
      rw [writeCode]
      split
      · rfl
      · simp only [ih, List.length_modify]
  induction input generalizing buf with
  | nil => rfl
  | cons b bs ih => rw [List.foldl_cons, ih, writeSymbol, hcode]

/-- Number of padding bits after `n` code bits. -/
def padBits (n : Nat) : Nat := (8 - n % 8) % 8

theorem huffmanEncode_bits (input : Bytes) :
    byteBits (huffmanEncode input) =
      inputBits input ++ List.replicate (padBits (huffmanBitLen input)) true := by
  have hzero : byteBits (List.replicate ((huffmanBitLen input + 7) / 8) (0 : UInt8)) =
      [] ++ List.replicate (8 * ((huffmanBitLen input + 7) / 8)) false := byteBits_zeros _
  have hbits := foldl_writeSymbol_bits input hzero (by omega)
  have hpad : 8 * ((huffmanBitLen input + 7) / 8) - huffmanBitLen input =
      padBits (huffmanBitLen input) := by unfold padBits; omega
  have hlen := length_huffmanEncode_fold input
    (List.replicate ((huffmanBitLen input + 7) / 8) 0, 0)
  rw [List.length_nil, List.nil_append, hpad] at hbits
  rw [List.length_replicate] at hlen
  rw [huffmanEncode]
  split
  · rename_i hpos
    change 0 < padBits (huffmanBitLen input) at hpos
    have hones : (UInt8.ofNat (2 ^ padBits (huffmanBitLen input) - 1)).toNat =
        2 ^ padBits (huffmanBitLen input) - 1 := by
      rw [UInt8.toNat_ofNat', Nat.mod_eq_of_lt]
      have : 2 ^ padBits (huffmanBitLen input) ≤ 2 ^ 8 :=
        Nat.pow_le_pow_right (by omega) (by unfold padBits; omega)
      omega
    have hspace : 8 - (inputBits input).length % 8 = padBits (huffmanBitLen input) := by
      rw [← huffmanBitLen_eq]; unfold padBits at hpos ⊢; omega
    have hsmall := Nat.two_pow_pos (padBits (huffmanBitLen input))
    have hfill := byteBits_fill (padBits (huffmanBitLen input))
      (UInt8.ofNat (2 ^ padBits (huffmanBitLen input) - 1)) hbits hpos hspace.ge le_rfl
      (by rw [hones]; omega)
    rw [hspace, Nat.sub_self, hones, bitsOf_ones, List.replicate_zero, List.append_nil,
      ← huffmanBitLen_eq] at hfill
    have hidx : (huffmanBitLen input + 7) / 8 - 1 = huffmanBitLen input / 8 := by
      unfold padBits at hpos; omega
    rw [hlen, hidx]
    simpa [padBits] using hfill
  · rename_i hpos
    change ¬0 < padBits (huffmanBitLen input) at hpos
    rw [hbits, Nat.eq_zero_of_not_pos hpos]
    rfl

theorem length_huffmanEncode (input : Bytes) :
    (huffmanEncode input).length = (huffmanBitLen input + 7) / 8 := by
  have h := congrArg List.length (huffmanEncode_bits input)
  rw [length_byteBits, List.length_append, ← huffmanBitLen_eq, List.length_replicate] at h
  unfold padBits at h
  omega

/-! ## Decoding -/

theorem topBits_eq (acc accLen len : Nat) (h : len ≤ accLen) :
    bitsOf accLen acc = bitsOf len (acc >>> (accLen - len)) ++ bitsOf (accLen - len) acc := by
  rw [Nat.shiftRight_eq_div_pow, ← bitsOf_add, Nat.add_sub_cancel' h]

theorem firstMatch_some {acc accLen sym len : Nat} (h : firstMatch acc accLen = some (sym, len)) :
    sym < 257 ∧ 5 ≤ len ∧ len ≤ accLen ∧
      bitsOf accLen acc = codeBits sym ++ bitsOf (accLen - len) acc := by
  obtain ⟨tryLen, hmem, hlook⟩ := List.exists_of_findSome?_eq_some h
  obtain ⟨found, hfound, heq⟩ := Option.map_eq_some_iff.mp hlook
  cases heq
  rw [List.mem_range'_1] at hmem
  obtain ⟨hsym, hentry⟩ := lookupHuffman_sound hfound
  refine ⟨hsym, hmem.1, by omega, ?_⟩
  rw [topBits_eq acc accLen len (by omega), codeBits, hentry, Nat.and_two_pow_sub_one_eq_mod,
    bitsOf_mod]

theorem firstMatch_none {acc accLen : Nat} (h : firstMatch acc accLen = none) (sym : Nat)
    (hsym : sym < 257) : ¬codeBits sym <+: bitsOf accLen acc := by
  intro hpre
  obtain ⟨hlow, hhigh, hcode⟩ := code_bounds _ (getD_mem hsym)
  have hlen := hpre.length_le
  rw [length_codeBits, length_bitsOf] at hlen
  have hlook := List.findSome?_eq_none_iff.mp h (huffman.getD sym (0, 0)).2
    (by rw [List.mem_range'_1]; omega)
  have hword : (acc >>> (accLen - (huffman.getD sym (0, 0)).2)) &&&
      (2 ^ (huffman.getD sym (0, 0)).2 - 1) = (huffman.getD sym (0, 0)).1 := by
    obtain ⟨rest, hrest⟩ := hpre
    rw [topBits_eq acc accLen _ hlen] at hrest
    obtain ⟨heq, -⟩ := List.append_inj hrest (by rw [length_codeBits, length_bitsOf])
    rw [codeBits, ← bitsOf_mod _ (acc >>> _)] at heq
    rw [Nat.and_two_pow_sub_one_eq_mod]
    exact (bitsOf_inj hcode (Nat.mod_lt _ (Nat.two_pow_pos _)) heq).symm
  rw [hword, lookupHuffman_code hsym] at hlook
  cases hlook

/-- Padding shorter than a byte contains no code word. -/
theorem codeBits_not_prefix_ones {sym k : Nat} (hsym : sym < 257) (hk : k < 8) :
    ¬codeBits sym <+: List.replicate k true := by
  intro hpre
  have heos : List.replicate k true <+: codeBits 256 := by
    have : codeBits 256 = List.replicate 30 true := by decide
    rw [this, ← Nat.add_sub_cancel' (show k ≤ 30 by omega), ← List.replicate_append_replicate]
    exact List.prefix_append _ _
  have hlen := hpre.length_le
  have := eq_of_codeBits_isPrefix hsym (by omega) (hpre.trans heos)
  subst this
  rw [length_codeBits, List.length_replicate, show (huffman.getD 256 (0, 0)).2 = 30 by
    decide] at hlen
  omega

/-- What the decoder knows between symbols: the `accLen` bits it holds and the bits it has not
read are the code words of the symbols still to come, then padding. -/
def Pending (acc accLen : Nat) (unread : List Bool) (todo : Bytes) (k : Nat) : Prop :=
  bitsOf accLen acc ++ unread = inputBits todo ++ List.replicate k true

/-- No complete code word is held back. -/
def Drained (acc accLen : Nat) : Prop := ∀ sym < 257, ¬codeBits sym <+: bitsOf accLen acc

theorem drained_of_short {acc accLen : Nat} (h : accLen < 5) : Drained acc accLen := by
  intro sym hsym hpre
  have hlen := hpre.length_le
  have := (codeBits_length_bounds hsym).1
  rw [length_bitsOf] at hlen
  omega

theorem Pending.short {acc accLen k : Nat} {unread : List Bool} {todo : Bytes}
    (h : Pending acc accLen unread todo k) (hdone : Drained acc accLen) (hk : k < 8) :
    accLen < 30 := by
  cases todo with
  | nil =>
    have := congrArg List.length h
    simp [inputBits] at this
    omega
  | cons b bs =>
    by_contra hlong
    have hb := byte_lt_symbols b
    have hword : codeBits b.toNat <+: codeBits b.toNat ++ inputBits bs ++ List.replicate k true := by
      rw [List.append_assoc]
      exact List.prefix_append _ _
    have hread : bitsOf accLen acc <+:
        codeBits b.toNat ++ inputBits bs ++ List.replicate k true := by
      unfold Pending at h
      rw [inputBits_cons] at h
      exact h ▸ List.prefix_append _ _
    have hlen := (codeBits_length_bounds hb).2
    exact hdone b.toNat hb
      (List.prefix_of_prefix_length_le hword hread (by rw [length_bitsOf]; omega))

theorem pullSymbols_spec (rounds : Nat) {acc accLen k : Nat} (out : Bytes) {todo : Bytes}
    {unread : List Bool} (hk : k < 8) (hrounds : accLen ≤ rounds)
    (h : Pending acc accLen unread todo k) :
    ∃ now later left, todo = now ++ later ∧ left ≤ accLen ∧
      pullSymbols acc rounds accLen out = .ok (left, out ++ now) ∧
      Pending acc left unread later k ∧ Drained acc left := by
  induction rounds generalizing accLen out todo with
  | zero =>
    exact ⟨[], todo, accLen, rfl, le_rfl, by simp [pullSymbols], h,
      drained_of_short (by omega)⟩
  | succ rounds ih =>
    rw [pullSymbols]
    by_cases hfive : accLen < 5
    · exact ⟨[], todo, accLen, rfl, le_rfl, by simp [hfive], h, drained_of_short hfive⟩
    · rw [if_neg hfive]
      cases hmatch : firstMatch acc accLen with
      | none =>
        exact ⟨[], todo, accLen, rfl, le_rfl, by simp, h, firstMatch_none hmatch⟩
      | some found =>
        obtain ⟨sym, len⟩ := found
        obtain ⟨hsym, hlow, hlen, hbits⟩ := firstMatch_some hmatch
        have hpre : codeBits sym <+: bitsOf accLen acc := hbits ▸ List.prefix_append _ _
        cases todo with
        | nil =>
          -- only padding is left, and padding holds no code word
          refine absurd ?_ (codeBits_not_prefix_ones hsym hk)
          have : bitsOf accLen acc <+: List.replicate k true := ⟨unread, h⟩
          exact hpre.trans this
        | cons b bs =>
          have hhead : (⟨sym, hsym⟩ : Fin 257) = ⟨b.toNat, byte_lt_symbols b⟩ :=
            symbolBits_prefixFree.head_of_prefix unread (inputBits bs ++ List.replicate k true) hpre
              (by rw [h, inputBits_cons, List.append_assoc]; rfl)
          cases hhead
          have hnext : Pending acc (accLen - len) unread bs k := by
            unfold Pending at h ⊢
            rw [hbits, inputBits_cons, List.append_assoc, List.append_assoc,
              List.append_cancel_left_eq] at h
            exact h
          have hne : b.toNat ≠ 256 := by have := b.toNat_lt; omega
          obtain ⟨now, later, left, rfl, hleft, hpull, hpend, hdone⟩ :=
            ih (out ++ [b]) (by omega) hnext
          refine ⟨b :: now, later, left, rfl, by omega, ?_, hpend, hdone⟩
          simp only [if_neg hne, UInt8.ofNat_toNat, hpull, List.append_assoc]
          rfl

/-- Shifting a byte into the accumulator appends its bits to those held. -/
theorem bitsOf_shiftIn {acc accLen : Nat} (byte : UInt8) (h : accLen ≤ 56) :
    bitsOf (accLen + 8) (((acc <<< 8) % 2 ^ 64) ||| byte.toNat) =
      bitsOf accLen acc ++ bitsOf 8 byte.toNat := by
  have hor : ((acc <<< 8) % 2 ^ 64) ||| byte.toNat = acc % 2 ^ 56 * 256 + byte.toNat := by
    rw [Nat.shiftLeft_eq, show 2 ^ 64 = 2 ^ 56 * 2 ^ 8 by norm_num, Nat.mul_mod_mul_right,
      Nat.mul_comm _ (2 ^ 8), ← Nat.two_pow_add_eq_or_of_lt byte.toNat_lt, Nat.mul_comm]
  rw [hor, bitsOf_shift_byte, ← bitsOf_mod accLen, Nat.mod_mod_of_dvd _ (pow_dvd_pow 2 h),
    bitsOf_mod]

theorem decodeBytes_spec (input : Bytes) {acc accLen k : Nat} (out : Bytes) {todo : Bytes}
    (hk : k < 8) (hdone : Drained acc accLen) (h : Pending acc accLen (byteBits input) todo k) :
    ∃ acc' left, decodeBytes input acc accLen out = .ok (acc', left, out ++ todo) ∧
      left = k ∧ bitsOf left acc' = List.replicate k true := by
  induction input generalizing acc accLen out todo with
  | nil =>
    unfold Pending at h
    rw [byteBits_nil, List.append_nil] at h
    cases todo with
    | nil =>
      have hlen := congrArg List.length h
      simp [inputBits] at hlen
      exact ⟨acc, accLen, by simp [decodeBytes], hlen, by simpa [inputBits] using h⟩
    | cons b bs =>
      refine absurd ?_ (hdone b.toNat (byte_lt_symbols b))
      rw [h, inputBits_cons, List.append_assoc]
      exact List.prefix_append _ _
  | cons byte rest ih =>
    have hshort := h.short hdone hk
    have hin : Pending (((acc <<< 8) % 2 ^ 64) ||| byte.toNat) (accLen + 8) (byteBits rest)
        todo k := by
      unfold Pending at h ⊢
      rw [bitsOf_shiftIn byte (by omega), List.append_assoc, ← byteBits_cons, h]
    obtain ⟨now, later, left, rfl, -, hpull, hpend, hdone'⟩ :=
      pullSymbols_spec (accLen + 8) out hk le_rfl hin
    obtain ⟨acc', left', hdec, hleft, hones⟩ := ih (out ++ now) hdone' hpend
    refine ⟨acc', left', ?_, hleft, hones⟩
    rw [decodeBytes]
    simp only [hpull, hdec, List.append_assoc]

/-- Decoding recovers every encoded byte string. -/
theorem huffmanDecode_huffmanEncode (input : Bytes) :
    huffmanDecode (huffmanEncode input) = .ok input := by
  have hk : padBits (huffmanBitLen input) < 8 := Nat.mod_lt _ (by omega)
  have hstart : Pending 0 0 (byteBits (huffmanEncode input)) input
      (padBits (huffmanBitLen input)) := by
    unfold Pending
    rw [bitsOf_zero, List.nil_append, huffmanEncode_bits]
  obtain ⟨acc, left, hdec, hleft, hones⟩ :=
    decodeBytes_spec (huffmanEncode input) [] hk (drained_of_short (by omega)) hstart
  have hpad : acc &&& (2 ^ left - 1) = 2 ^ left - 1 := by
    have hpos := Nat.two_pow_pos left
    rw [Nat.and_two_pow_sub_one_eq_mod]
    refine bitsOf_inj (n := left) (Nat.mod_lt _ hpos) (by omega) ?_
    rw [bitsOf_mod, hones, bitsOf_ones, hleft]
  rw [huffmanDecode, hdec]
  simp only [hpad, ne_eq, not_true, and_false, if_false, List.nil_append]
  rw [if_neg (by omega)]

end Rsurl.Hpack
