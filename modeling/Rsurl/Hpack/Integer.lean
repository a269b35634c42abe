import Rsurl.Error

/-!
# Prefix integers

The variable-length integers of header compression. Values are `u64` in the source: the decoder
refuses a continuation byte whose bits a 64-bit shift would drop, and a sum past `2 ^ 64`.
-/

namespace Rsurl.Hpack

/-- Seven bits a byte, least significant first, with the high bit on all bytes but the last. -/
def encodeRest (rem : Nat) : Bytes :=
  if rem < 128 then [UInt8.ofNat rem]
  else (UInt8.ofNat (rem &&& 0x7f) ||| 0x80) :: encodeRest (rem >>> 7)
termination_by rem
decreasing_by rw [Nat.shiftRight_eq_div_pow]; omega

def encodeIntInto (out : Bytes) (value prefixBits : Nat) (flags : UInt8) : Bytes :=
  let maxPrefix := 2 ^ prefixBits - 1
  if value < maxPrefix then out ++ [UInt8.ofNat value ||| flags]
  else out ++ (UInt8.ofNat maxPrefix ||| flags) :: encodeRest (value - maxPrefix)

/-- The continuation bytes, from byte `i` of the integer on. -/
def decodeRest : Bytes → Nat → Nat → Nat → Except Error (Nat × Nat)
  | [], _, _, _ => .error (.badResponse "hpack: truncated integer")
  | b :: rest, value, shift, i =>
    let part := (b &&& 0x7f).toNat
    let shifted := (part <<< shift) % 2 ^ 64
    if shifted >>> shift ≠ part then .error (.badResponse "hpack: integer overflow")
    else if 2 ^ 64 ≤ value + shifted then .error (.badResponse "hpack: integer overflow")
    else if b &&& 0x80 = 0 then .ok (value + shifted, i + 1)
    else if 63 < shift + 7 then .error (.badResponse "hpack: integer overflow")
    else decodeRest rest (value + shifted) (shift + 7) (i + 1)

/-- The value and the number of bytes it took. -/
def decodeInt (buf : Bytes) (prefixBits : Nat) : Except Error (Nat × Nat) :=
  match buf with
  | [] => .error (.badResponse "hpack: empty integer")
  | b :: rest =>
    let maxPrefix := 2 ^ prefixBits - 1
    let value := b.toNat &&& maxPrefix
    if value < maxPrefix then .ok (value, 1) else decodeRest rest value 0 1

theorem encodeRest_last {rem : Nat} (h : rem < 128) : encodeRest rem = [UInt8.ofNat rem] := by
  rw [encodeRest, if_pos h]

theorem encodeRest_more {rem : Nat} (h : ¬rem < 128) :
    encodeRest rem = (UInt8.ofNat (rem % 128) ||| 0x80) :: encodeRest (rem / 128) := by
  rw [encodeRest, if_neg h, Nat.and_two_pow_sub_one_eq_mod rem 7,
    Nat.shiftRight_eq_div_pow]

/-- A continuation byte carries its seven bits and the flag. -/
theorem group_byte (n : Nat) (h : n < 128) :
    ((UInt8.ofNat n ||| 0x80) &&& 0x7f).toNat = n ∧ (UInt8.ofNat n ||| 0x80) &&& 0x80 ≠ 0 ∧
    (UInt8.ofNat n &&& 0x7f).toNat = n ∧ UInt8.ofNat n &&& 0x80 = 0 := by
  have : ∀ n < 128, ((UInt8.ofNat n ||| 0x80) &&& 0x7f).toNat = n ∧
      (UInt8.ofNat n ||| 0x80) &&& 0x80 ≠ 0 ∧ (UInt8.ofNat n &&& 0x7f).toNat = n ∧
      UInt8.ofNat n &&& 0x80 = 0 := by decide
  exact this n h

/-- A 64-bit shift that loses no bits is multiplication. -/
theorem shift_exact (part shift : Nat) (h : part * 2 ^ shift < 2 ^ 64) :
    (part <<< shift) % 2 ^ 64 = part * 2 ^ shift ∧ (part * 2 ^ shift) >>> shift = part := by
  refine ⟨by rw [Nat.shiftLeft_eq, Nat.mod_eq_of_lt h], ?_⟩
  rw [Nat.shiftRight_eq_div_pow, Nat.mul_div_cancel _ (Nat.two_pow_pos _)]

/-- Reading back the continuation bytes of `rem`, at any shift that is a multiple of seven. -/
theorem decodeRest_encodeRest (rem value groups i : Nat) (suffix : Bytes)
    (h : value + rem * 2 ^ (7 * groups) < 2 ^ 64) (hg : 7 * groups ≤ 63) :
    decodeRest (encodeRest rem ++ suffix) value (7 * groups) i =
      .ok (value + rem * 2 ^ (7 * groups), i + (encodeRest rem).length) := by
  induction rem using Nat.strongRecOn generalizing value groups i with
  | ind rem ih =>
    by_cases hlast : rem < 128
    · obtain ⟨-, -, hpart, hstop⟩ := group_byte rem hlast
      obtain ⟨hshift, hback⟩ := shift_exact rem (7 * groups) (by omega)
      rw [encodeRest_last hlast, List.singleton_append, decodeRest]
      simp only [hpart, hstop, hshift, hback, ne_eq, not_true, if_false, if_true,
        List.length_singleton, if_neg (Nat.not_le.mpr h)]
    · obtain ⟨hpart, hcont, -, -⟩ := group_byte (rem % 128) (Nat.mod_lt _ (by omega))
      have hsum : value + rem % 128 * 2 ^ (7 * groups) + rem / 128 * 2 ^ (7 * (groups + 1)) =
          value + rem * 2 ^ (7 * groups) := by
        rw [show 7 * (groups + 1) = 7 + 7 * groups by omega, Nat.pow_add, ← Nat.mul_assoc,
          Nat.add_assoc, ← Nat.add_mul, Nat.add_comm (rem % 128), Nat.mul_comm (rem / 128),
          Nat.div_add_mod]
      have hroom : 7 * (groups + 1) ≤ 63 := by
        -- a further group of a nonzero remainder would not fit in 64 bits
        by_contra hfull
        have hbig : 2 ^ 64 ≤ 2 ^ (7 * (groups + 1)) := Nat.pow_le_pow_right (by omega) (by omega)
        have hone : 1 * 2 ^ (7 * (groups + 1)) ≤ rem / 128 * 2 ^ (7 * (groups + 1)) :=
          Nat.mul_le_mul_right _ (by omega)
        omega
      obtain ⟨hshift, hback⟩ := shift_exact (rem % 128) (7 * groups) (by omega)
      have hrec := ih (rem / 128) (by omega) (value + rem % 128 * 2 ^ (7 * groups)) (groups + 1)
        (i + 1) (by omega) hroom
      rw [encodeRest_more hlast, List.cons_append, decodeRest]
      have hfit : ¬2 ^ 64 ≤ value + rem % 128 * 2 ^ (7 * groups) := by omega
      simp only [hpart, hshift, hback, ne_eq, not_true, if_false, List.length_cons, if_neg hfit,
        if_neg hcont, if_neg (show ¬63 < 7 * groups + 7 by omega)]
      rw [show 7 * groups + 7 = 7 * (groups + 1) by omega, hrec, hsum]
      congr 2
      omega

/-- The flag bits of a representation lie above its prefix. -/
def FlagsAbove (prefixBits : Nat) (flags : UInt8) : Prop :=
  ∀ v ≤ 2 ^ prefixBits - 1, (UInt8.ofNat v ||| flags).toNat &&& (2 ^ prefixBits - 1) = v

theorem decodeInt_encodeIntInto {value prefixBits : Nat} {flags : UInt8} (out suffix : Bytes)
    (hflags : FlagsAbove prefixBits flags) (h : value < 2 ^ 64) :
    decodeInt ((encodeIntInto out value prefixBits flags).drop out.length ++ suffix) prefixBits =
      .ok (value, (encodeIntInto out value prefixBits flags).length - out.length) := by
  unfold encodeIntInto
  by_cases hsmall : value < 2 ^ prefixBits - 1
  · have hv := hflags value hsmall.le
    simp only [if_pos hsmall, List.drop_left, List.singleton_append, decodeInt, hv]
    simp
  · have hv := hflags _ le_rfl
    have hrest := decodeRest_encodeRest (value - (2 ^ prefixBits - 1)) (2 ^ prefixBits - 1) 0 1
      suffix (by simp; omega) (by omega)
    simp only [Nat.mul_zero, Nat.pow_zero, Nat.mul_one] at hrest
    rw [Nat.add_sub_cancel' (Nat.not_lt.mp hsmall)] at hrest
    simp only [if_neg hsmall, List.drop_left, List.cons_append, decodeInt, hv, lt_irrefl,
      if_false, hrest, List.length_append, List.length_cons]
    congr 2
    omega

/-! ## What is read -/

/-- Seven bits a byte, without bound. -/
def groupsValue : Bytes → Nat
  | [] => 0
  | b :: rest => (b &&& 0x7f).toNat + 128 * groupsValue rest

/-- The value of an integer of any number of bytes. -/
def intValue (prefixBits : Nat) : Bytes → Nat
  | [] => 0
  | b :: rest => (b.toNat &&& (2 ^ prefixBits - 1)) + groupsValue rest

/-- A prefix that is not full, or a full one with the bytes up to the first that says that there are
no more. -/
inductive IsEncoding (prefixBits : Nat) : Bytes → Prop where
  | short (b : UInt8) (h : b.toNat &&& (2 ^ prefixBits - 1) < 2 ^ prefixBits - 1) :
    IsEncoding prefixBits [b]
  | long (b : UInt8) (more : Bytes) (last : UInt8)
    (h : b.toNat &&& (2 ^ prefixBits - 1) = 2 ^ prefixBits - 1)
    (hmore : ∀ c ∈ more, c &&& 0x80 ≠ 0) (hlast : last &&& 0x80 = 0) :
    IsEncoding prefixBits (b :: (more ++ [last]))

/-- Bits that come back from a 64-bit shift have not been dropped by it. -/
theorem shift_kept {part shift : Nat} (h : ((part <<< shift) % 2 ^ 64) >>> shift = part) :
    (part <<< shift) % 2 ^ 64 = part * 2 ^ shift := by
  rw [Nat.shiftRight_eq_div_pow, Nat.shiftLeft_eq] at h
  rw [Nat.shiftLeft_eq]
  have hle := Nat.mod_le (part * 2 ^ shift) (2 ^ 64)
  have hge := Nat.div_mul_le_self (part * 2 ^ shift % 2 ^ 64) (2 ^ shift)
  rw [h] at hge
  omega

theorem decodeRest_ok {bytes : Bytes} {value shift i v n : Nat}
    (h : decodeRest bytes value shift i = .ok (v, n)) :
    ∃ more last rest, bytes = more ++ last :: rest ∧ n = i + more.length + 1 ∧
      (∀ c ∈ more, c &&& 0x80 ≠ 0) ∧ last &&& 0x80 = 0 ∧
      v = value + groupsValue (more ++ [last]) * 2 ^ shift := by
  induction bytes generalizing value shift i with
  | nil => cases h
  | cons b bytes ih =>
    rw [decodeRest] at h
    split_ifs at h with hkept hfits hmore hlast
    · rw [not_not] at hkept
      cases h
      refine ⟨[], b, bytes, rfl, rfl, (fun _ hc => nomatch hc), hmore, ?_⟩
      rw [shift_kept hkept]
      simp [groupsValue]
    · rw [not_not] at hkept
      obtain ⟨more, last, rest, rfl, rfl, hall, hstop, rfl⟩ := ih h
      refine ⟨b :: more, last, rest, rfl, ?_, List.forall_mem_cons.mpr ⟨hmore, hall⟩, hstop, ?_⟩
      · rw [List.length_cons]
        omega
      · rw [shift_kept hkept, List.cons_append, groupsValue, Nat.pow_add, Nat.add_mul,
          Nat.add_assoc]
        congr 2
        rw [Nat.mul_comm (2 ^ shift), ← Nat.mul_assoc, Nat.mul_comm 128]

theorem decodeInt_ok {buf : Bytes} {prefixBits v n : Nat}
    (h : decodeInt buf prefixBits = .ok (v, n)) :
    n ≤ buf.length ∧ IsEncoding prefixBits (buf.take n) ∧ v = intValue prefixBits (buf.take n) := by
  cases buf with
  | nil => cases h
  | cons b bytes =>
    rw [decodeInt] at h
    split_ifs at h with hshort
    · cases h
      refine ⟨by simp, .short b hshort, ?_⟩
      simp [intValue, groupsValue]
    · obtain ⟨more, last, rest, rfl, rfl, hall, hstop, rfl⟩ := decodeRest_ok h
      have hfull : b.toNat &&& (2 ^ prefixBits - 1) = 2 ^ prefixBits - 1 :=
        Nat.le_antisymm Nat.and_le_right (Nat.not_lt.mp hshort)
      have htake : (b :: (more ++ last :: rest)).take (1 + more.length + 1) =
          b :: (more ++ [last]) := by
        rw [Nat.add_comm 1, List.take_succ_cons, List.append_cons more last rest,
          List.take_left' (by simp)]
      rw [htake]
      refine ⟨by simp; omega, .long b more last hfull hall hstop, ?_⟩
      rw [intValue, Nat.pow_zero, Nat.mul_one]

theorem flagsAbove_of_clear {prefixBits : Nat} {flags : UInt8} (hbits : prefixBits ≤ 8)
    (h : flags.toNat &&& (2 ^ prefixBits - 1) = 0) : FlagsAbove prefixBits flags := by
  intro v hv
  have hpow : 2 ^ prefixBits ≤ 2 ^ 8 := Nat.pow_le_pow_right (by omega) hbits
  have hpos := Nat.two_pow_pos prefixBits
  have hbyte : v < 256 := by omega
  rw [UInt8.toNat_or, UInt8.toNat_ofNat', Nat.mod_eq_of_lt hbyte, Nat.and_or_distrib_right, h,
    Nat.or_zero, Nat.and_two_pow_sub_one_eq_mod]
  exact Nat.mod_eq_of_lt (by omega)

/-- What is written is read back, whatever comes behind it, and what is read is the value of the
bytes that were taken: none is wrapped. -/
theorem prefix_integers {prefixBits : Nat} (hbits : prefixBits ≤ 8) :
    (∀ value < 2 ^ 64, ∀ flags : UInt8, flags.toNat &&& (2 ^ prefixBits - 1) = 0 →
      ∀ out suffix : Bytes,
        decodeInt ((encodeIntInto out value prefixBits flags).drop out.length ++ suffix)
          prefixBits =
            .ok (value, (encodeIntInto out value prefixBits flags).length - out.length)) ∧
    ∀ buf v n, decodeInt buf prefixBits = .ok (v, n) → n ≤ buf.length ∧
      IsEncoding prefixBits (buf.take n) ∧ v = intValue prefixBits (buf.take n) :=
  ⟨fun _ hvalue _ hflags out suffix =>
    decodeInt_encodeIntInto out suffix (flagsAbove_of_clear hbits hflags) hvalue,
    fun _ _ _ h => decodeInt_ok h⟩

theorem prefix_integers_max :
    decodeInt ((encodeIntInto [0x00] (2 ^ 64 - 1) 5 0xe0).drop 1 ++ [0xff]) 5 =
        .ok (2 ^ 64 - 1, 11) ∧
      ∀ buf v n, decodeInt buf 5 = .ok (v, n) → n ≤ buf.length ∧ IsEncoding 5 (buf.take n) ∧
        v = intValue 5 (buf.take n) := by
  obtain ⟨hwritten, hread⟩ := prefix_integers (show 5 ≤ 8 by decide)
  have hlen : (encodeIntInto [0x00] (2 ^ 64 - 1) 5 0xe0).length = 12 := by decide +kernel
  have hmax := hwritten (2 ^ 64 - 1) (by decide) 0xe0 (by decide) [0x00] [0xff]
  rw [hlen] at hmax
  exact ⟨hmax, hread⟩

end Rsurl.Hpack
