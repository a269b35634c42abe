import Rsurl.Ldap.Ber
import Rsurl.Library.Endian

/-!
# The BER codec is exact

What is written is read back, behind it whatever follows; integers are written in their shortest form;
and the length on the wire is read by the same rules as the length in a buffer.
-/

namespace Rsurl.Ldap

open Library Library.Endian
open Library.Framing (Read)
open Net

/-! ## Integers -/

theorem and_high_eq_zero (b : UInt8) : b &&& 0x80 = 0 ↔ b.toNat < 128 := by
  have hall : ∀ n : Fin 256, UInt8.ofNat n &&& 0x80 = 0 ↔ (n : Nat) < 128 := by
    set_option maxRecDepth 8000 in decide
  have hb := hall ⟨b.toNat, b.toNat_lt⟩
  rwa [UInt8.ofNat_toNat] at hb

theorem repeats_iff (first next : UInt8) :
    Repeats first next ↔
      (first = 0x00 ∧ next &&& 0x80 = 0) ∨ (first = 0xff ∧ next &&& 0x80 ≠ 0) := by
  have hzero : first = 0x00 ↔ first.toNat = 0 := by rw [← UInt8.toNat_inj]; rfl
  have hlast : first = 0xff ↔ first.toNat = 255 := by rw [← UInt8.toNat_inj]; rfl
  rw [Repeats, ne_eq, and_high_eq_zero, hzero, hlast, Nat.not_lt]

theorem skipSign_ne_nil {bytes : Bytes} (h : bytes ≠ []) : skipSign bytes ≠ [] := by
  fun_induction skipSign bytes with
  | case1 first next rest hskip ih => exact ih (List.cons_ne_nil _ _)
  | case2 first next rest hskip => exact List.cons_ne_nil _ _
  | case3 bytes _ => exact h

theorem length_skipSign (bytes : Bytes) : (skipSign bytes).length ≤ bytes.length := by
  fun_induction skipSign bytes with
  | case1 first next rest hskip ih => exact ih.trans (Nat.le_succ _)
  | case2 first next rest hskip => exact Nat.le_refl _
  | case3 bytes _ => exact Nat.le_refl _

theorem signed_skipSign (bytes : Bytes) : signed (skipSign bytes) = signed bytes := by
  fun_induction skipSign bytes with
  | case1 first next rest hskip ih =>
    rw [ih, signed_repeats ((repeats_iff first next).mpr hskip)]
  | case2 first next rest hskip => rfl
  | case3 bytes _ => rfl

theorem shortest_skipSign (bytes : Bytes) : Shortest (skipSign bytes) := by
  fun_induction skipSign bytes with
  | case1 first next rest hskip ih => exact ih
  | case2 first next rest hskip => exact mt (repeats_iff first next).mp hskip
  | case3 bytes hshort =>
    match bytes, hshort with
    | [], _ => trivial
    | [b], _ => trivial
    | first :: next :: rest, hshort => exact (hshort first next rest rfl).elim

/-- A signed number of 64 bits. -/
def IsI64 (v : Int) : Prop := -2 ^ 63 ≤ v ∧ v < 2 ^ 63

theorem signed_toBeBytes {v : Int} (h : IsI64 v) : signed (toBeBytes v) = v := by
  obtain ⟨hlow, hhigh⟩ := h
  have hn : (v % 2 ^ 64).toNat < 256 ^ 8 := by omega
  have hval := fromBe_toBe hn
  obtain ⟨n, hdef⟩ : ∃ n, n = (v % 2 ^ 64).toNat := ⟨_, rfl⟩
  rw [toBeBytes, ← hdef]
  rw [← hdef] at hval
  have hlen := length_toBe 8 n
  cases hbytes : toBe 8 n with
  | nil =>
    rw [hbytes] at hlen
    cases hlen
  | cons first rest =>
    rw [hbytes] at hlen hval
    have hrest : rest.length = 7 := by simpa using hlen
    have hlt := fromBe_lt rest
    have hfirst := first.toNat_lt
    rw [fromBe_cons, hrest] at hval
    rw [hrest] at hlt
    rw [signed, hrest, high]
    split <;> omega

/-- Shifting bytes in loses nothing as long as the number fits. -/
theorem foldl_shiftInSigned {bytes : Bytes} {k : Nat} {acc : Int} (hk : k + bytes.length ≤ 7)
    (hlow : -(128 * 256 ^ k) ≤ acc) (hhigh : acc < 128 * 256 ^ k) :
    bytes.foldl shiftInSigned acc = acc * 256 ^ bytes.length + fromBe bytes := by
  induction bytes generalizing k acc with
  | nil => simp [fromBe]
  | cons b bytes ih =>
    rw [List.length_cons] at hk
    have hb : (b.toNat : Int) < 256 := by exact_mod_cast b.toNat_lt
    have hb0 : (0 : Int) ≤ b.toNat := Int.natCast_nonneg _
    have hsucc : (256 : Int) ^ (k + 1) = 256 ^ k * 256 := pow_succ _ _
    have hmax : (256 : Int) ^ (k + 1) ≤ 256 ^ 7 := pow_le_pow_right₀ (by decide) (by omega)
    have hstep : shiftInSigned acc b = acc * 256 + b.toNat := by
      refine Int.bmod_eq_of_le ?_ ?_ <;> norm_num at hmax ⊢ <;> omega
    rw [List.foldl_cons, hstep, ih (k := k + 1) (by omega) (by omega) (by omega), fromBe_cons,
      List.length_cons, pow_succ]
    push_cast
    ring

theorem decodeIntegerI64_eq {bytes : Bytes} (hne : bytes ≠ []) (hlen : bytes.length ≤ 8) :
    decodeIntegerI64 bytes = .ok (signed bytes) := by
  obtain ⟨first, rest, rfl⟩ := List.exists_cons_of_ne_nil hne
  rw [List.length_cons] at hlen
  have hcond : ¬((first :: rest).isEmpty = true ∨ 8 < (first :: rest).length) := by
    simpa using hlen
  rw [decodeIntegerI64, if_neg hcond, Checked.get_cons_zero, Checked.ok_bind, List.foldl_cons,
    signed]
  have hfirst : shiftInSigned (if first &&& 0x80 ≠ 0 then -1 else 0) first = high first := by
    have hb := first.toNat_lt
    rw [shiftInSigned, high]
    by_cases hsign : first.toNat < 128
    · rw [if_neg (not_not_intro ((and_high_eq_zero first).mpr hsign)), if_pos hsign]
      refine (Int.bmod_eq_of_le ?_ ?_).trans (by omega)
      · norm_num
      · norm_num
        omega
    · rw [if_pos (mt (and_high_eq_zero first).mp hsign), if_neg hsign]
      refine (Int.bmod_eq_of_le ?_ ?_).trans (by omega)
      · norm_num
      · norm_num
        omega
  obtain ⟨hlow, hhigh⟩ := high_bounds first
  rw [hfirst, foldl_shiftInSigned (k := 0) (by omega) (by simpa using hlow) (by simpa using by omega)]

theorem decodeIntegerI64_ne_stuck (bytes : Bytes) : decodeIntegerI64 bytes ≠ .stuck := by
  by_cases hne : bytes = []
  · simp [hne, decodeIntegerI64]
  · by_cases hlen : bytes.length ≤ 8
    · simp [decodeIntegerI64_eq hne hlen]
    · rw [decodeIntegerI64, if_pos (.inr (by omega))]
      simp

/-- The content of an integer. -/
theorem intContent {v : Int} (h : IsI64 v) :
    decodeIntegerI64 (skipSign (toBeBytes v)) = .ok v ∧
      ∀ bytes, bytes ≠ [] → signed bytes = v → (skipSign (toBeBytes v)).length ≤ bytes.length := by
  have hlen : (toBeBytes v).length = 8 := length_toBe 8 _
  have hne : toBeBytes v ≠ [] := List.ne_nil_of_length_eq_add_one hlen
  refine ⟨?_, fun bytes hbytes hval => ?_⟩
  · rw [decodeIntegerI64_eq (skipSign_ne_nil hne) (hlen ▸ length_skipSign _), signed_skipSign,
      signed_toBeBytes h]
  · refine (shortest_skipSign _).length_le hbytes ?_
    rw [hval, signed_skipSign, signed_toBeBytes h]

/-! ## The wire -/

variable {reads : List (Read Error UInt8)} {v : Nat} {first tag : UInt8} {data rest body : Bytes}

theorem readExact_one (h : Delivers reads) (hu : unread reads = first :: data) :
    ∃ reads', readExact 1 reads = (.ok [first], reads') ∧ Delivers reads' ∧ unread reads' = data := by
  have hread := readExact_of_le h (n := 1) (by rw [hu]; simp)
  rwa [hu] at hread

/-- The same length as in a buffer, or an error where that is one. -/
theorem readWireLength_eq (h : Delivers reads) :
    (∃ e e', readLength (unread reads) = .error e ∧ readWireLength reads = .error e') ∨
      ∃ v rest reads', readLength (unread reads) = .ok (v, rest) ∧
        readWireLength reads = .ok (v, reads') ∧ Delivers reads' ∧ unread reads' = rest := by
  cases hu : unread reads with
  | nil =>
    obtain ⟨rest, hread⟩ := readExact_of_lt h (n := 1) (by simp [hu])
    exact .inl ⟨_, _, readLength_nil, by rw [readWireLength, hread]⟩
  | cons first data =>
    obtain ⟨reads', hread, hdel, hunread⟩ := readExact_one h hu
    rw [readWireLength, hread, readLength_cons]
    dsimp only
    rw [Checked.get_cons_zero, Checked.ok_bind]
    by_cases hshort : first < 0x80
    · rw [if_pos hshort, if_pos hshort]
      exact .inr ⟨_, _, _, rfl, rfl, hdel, hunread⟩
    rw [if_neg hshort, if_neg hshort]
    generalize (first &&& 0x7f).toNat = n
    by_cases hzero : n = 0
    · rw [if_pos hzero, if_pos (.inl hzero)]
      exact .inl ⟨_, _, rfl, rfl⟩
    by_cases hbig : 8 < n
    · rw [if_neg hzero, if_pos hbig, if_pos (.inr hbig)]
      exact .inl ⟨_, _, rfl, rfl⟩
    rw [if_neg hzero, if_neg hbig, if_neg (not_or.mpr ⟨hzero, hbig⟩)]
    by_cases hlen : data.length < n
    · obtain ⟨rest, hread⟩ := readExact_of_lt hdel (n := n) (by rwa [hunread])
      rw [if_pos hlen, hread]
      exact .inl ⟨_, _, rfl, rfl⟩
    · obtain ⟨reads'', hread, hdel', hunread'⟩ :=
        readExact_of_le hdel (n := n) (by rw [hunread]; omega)
      rw [hunread] at hread hunread'
      have htake : (data.take n).length ≤ 8 := by
        rw [List.length_take]
        omega
      rw [if_neg hlen, hread, ← foldl_shiftIn htake]
      exact .inr ⟨_, _, _, rfl, rfl, hdel', hunread'⟩

/-- A message is a sequence of bounded length. -/
theorem readMessageFrom_iff (h : Delivers reads) :
    (∃ reads', readMessageFrom reads = .ok (body, reads') ∧ unread reads' = rest) ↔
      readTlv (unread reads) = .ok (⟨Tag.sequence, body⟩, rest) ∧ body.length ≤ maxMessageBytes := by
  cases hu : unread reads with
  | nil =>
    obtain ⟨rest', hread⟩ := readExact_of_lt h (n := 1) (by simp [hu])
    simp [readMessageFrom, hread, readTlv]
  | cons tag data =>
    obtain ⟨reads₁, hread, hdel, hunread⟩ := readExact_one h hu
    rw [readMessageFrom, hread, readTlv_cons]
    dsimp only
    rw [Checked.get_cons_zero, Checked.ok_bind]
    by_cases htag : tag = Tag.sequence
    case neg =>
      rw [if_pos htag]
      refine iff_of_false (by rintro ⟨_, hok, _⟩; cases hok) ?_
      rintro ⟨hok, -⟩
      obtain ⟨⟨len, data'⟩, -, hrest⟩ := Checked.bind_eq_ok.mp hok
      dsimp only at hrest
      split at hrest
      · cases hrest
      · cases hrest
        exact htag rfl
    rw [if_neg (not_not_intro htag), htag]
    rcases readWireLength_eq hdel with ⟨e, e', hlen, hwire⟩ | ⟨v, data', reads₂, hlen, hwire, hdel₂, hunread₂⟩
    · rw [hunread] at hlen
      rw [hlen, hwire]
      simp
    rw [hunread] at hlen
    rw [hlen, hwire, Checked.ok_bind, Checked.ok_bind]
    dsimp only
    obtain ⟨reads₃, hbody, hdel₃, hunread₃⟩ := readUpTo_eq hdel₂ v
    rw [hunread₂] at hbody hunread₃
    rw [hbody]
    dsimp only
    rw [List.length_take]
    by_cases hcap : maxMessageBytes < v
    · rw [if_pos hcap]
      refine iff_of_false (by rintro ⟨_, hok, _⟩; cases hok) ?_
      rintro ⟨hok, hle⟩
      split at hok
      · cases hok
      · cases hok
        rw [List.length_take] at hle
        omega
    rw [if_neg hcap]
    by_cases hshort : data'.length < v
    · rw [if_pos (by omega), if_pos hshort]
      simp
    rw [if_neg (by omega), if_neg hshort]
    constructor
    · rintro ⟨reads', hok, hrest⟩
      cases hok
      rw [← hrest, hunread₃, List.length_take]
      exact ⟨rfl, by omega⟩
    · rintro ⟨hok, -⟩
      cases hok
      exact ⟨_, rfl, hunread₃⟩

theorem readWireLength_ne_stuck (reads : List (Read Error UInt8)) :
    readWireLength reads ≠ .stuck := by
  rw [readWireLength]
  split
  · simp
  · rename_i buf reads' hread
    obtain ⟨first, rfl⟩ := List.length_eq_one_iff.mp (readExact_ok hread).1
    rw [Checked.get_cons_zero, Checked.ok_bind]
    split
    · simp
    extract_lets n
    split
    · simp
    · split <;> simp

theorem readMessageFrom_ne_stuck (reads : List (Read Error UInt8)) :
    readMessageFrom reads ≠ .stuck := by
  rw [readMessageFrom]
  split
  · simp
  · rename_i buf reads' hread
    obtain ⟨tag, rfl⟩ := List.length_eq_one_iff.mp (readExact_ok hread).1
    rw [Checked.get_cons_zero, Checked.ok_bind]
    split
    · simp
    refine Checked.bind_ne_stuck (readWireLength_ne_stuck _) fun ⟨len, reads''⟩ _ => ?_
    dsimp only
    split
    · simp
    split
    · simp
    · split <;> simp

theorem ber_exact :
    (∀ (tag : UInt8) (value rest : Bytes), value.length < 2 ^ 64 →
      readTlv (writeTlv [] tag value ++ rest) = .ok (⟨tag, value⟩, rest)) ∧
    (∀ (out : Bytes) (tag : UInt8) (f : Bytes → Bytes) (body : Bytes),
      f (out ++ [tag, 0]) = out ++ [tag, 0] ++ body →
        writeConstructed out tag f = writeTlv out tag body) ∧
    (∀ v, IsI64 v → ∃ content, (∀ out tag, writeIntTlv out tag v = writeTlv out tag content) ∧
      decodeIntegerI64 content = .ok v ∧
      ∀ bytes, bytes ≠ [] → signed bytes = v → content.length ≤ bytes.length) ∧
    (∀ (tag : UInt8) (data : Bytes), readLength data ≠ .stuck ∧ readTlv data ≠ .stuck ∧
      readExpect tag data ≠ .stuck ∧ decodeIntegerI64 data ≠ .stuck) ∧
    (∀ reads, readMessageFrom reads ≠ .stuck) ∧
    ∀ reads, Delivers reads →
      (∀ v rest, (∃ reads', readWireLength reads = .ok (v, reads') ∧ unread reads' = rest) ↔
        readLength (unread reads) = .ok (v, rest)) ∧
      ∀ body rest, (∃ reads', readMessageFrom reads = .ok (body, reads') ∧ unread reads' = rest) ↔
        readTlv (unread reads) = .ok (⟨Tag.sequence, body⟩, rest) ∧
          body.length ≤ maxMessageBytes := by
  refine ⟨fun tag value rest h => readTlv_writeTlv tag h rest,
    fun out tag f body hf => writeConstructed_eq hf,
    fun v hv => ⟨_, fun _ _ => rfl, intContent hv⟩,
    fun tag data => ⟨readLength_ne_stuck data, readTlv_ne_stuck data, readExpect_ne_stuck tag data,
      decodeIntegerI64_ne_stuck data⟩,
    readMessageFrom_ne_stuck,
    fun reads h => ⟨fun v rest => ?_, fun body rest => readMessageFrom_iff h⟩⟩
  rcases readWireLength_eq h with ⟨e, e', hlen, hwire⟩ | ⟨v', rest', reads', hlen, hwire, -, hunread⟩
  · rw [hlen, hwire]
    simp
  · rw [hlen, hwire]
    constructor
    · rintro ⟨_, hok, rfl⟩
      cases hok
      rw [hunread]
    · intro hok
      cases hok
      exact ⟨_, rfl, hunread⟩

theorem ber_exact_small :
    readTlv (writeTlv [] Tag.octetString [1, 2] ++ [9]) = .ok (⟨Tag.octetString, [1, 2]⟩, [9]) ∧
    writeConstructed [7] Tag.set (· ++ [1, 2]) = writeTlv [7] Tag.set [1, 2] ∧
    (∃ content, (∀ out tag, writeIntTlv out tag (-129) = writeTlv out tag content) ∧
      decodeIntegerI64 content = .ok (-129) ∧
      ∀ bytes, bytes ≠ [] → signed bytes = -129 → content.length ≤ bytes.length) ∧
    ∃ reads', readMessageFrom [.data 0x30 [0x01], .data 0x05 [0x06]] = .ok ([0x05], reads') ∧
      unread reads' = [0x06] := by
  refine ⟨ber_exact.1 _ _ _ (by decide), ber_exact.2.1 _ _ _ _ rfl,
    ber_exact.2.2.1 _ ⟨by decide, by decide⟩, ?_⟩
  have hdel : Delivers [.data 0x30 [0x01], .data 0x05 [0x06]] := by simp [Delivers]
  exact ((ber_exact.2.2.2.2.2 _ hdel).2 _ _).mpr ⟨by decide, by decide⟩

end Rsurl.Ldap
