import Rsurl.Ascii
import Rsurl.Text

/-!
# Numerals

A text of digits without a leading zero is a number that is printed, and no other text is.
-/

namespace Rsurl.Text

theorem toDigits_digit {c : Char} (h : c.isDigit = true) : Nat.toDigits 10 (c.toNat - 48) = [c] := by
  obtain ⟨h0, h9⟩ := isDigit_bounds h
  rw [Nat.toDigits_of_lt_base (by omega), List.cons.injEq]
  refine ⟨Char.toNat_inj.mp ?_, rfl⟩
  rw [Nat.toNat_digitChar_of_lt_ten (by omega)]
  omega

/-- Digits behind a number that is not zero. -/
theorem toDigits_ofDigitChars {s : List Char} (h : ∀ c ∈ s, c.isDigit = true) {n : Nat}
    (hn : 0 < n) : Nat.toDigits 10 (Nat.ofDigitChars 10 s n) = Nat.toDigits 10 n ++ s := by
  induction s generalizing n with
  | nil => simp [Nat.ofDigitChars]
  | cons c rest ih =>
    have hc := h c List.mem_cons_self
    obtain ⟨h0, h9⟩ := isDigit_bounds hc
    have hzero : '0'.toNat = 48 := rfl
    rw [Nat.ofDigitChars_cons, hzero, ih (fun d hd => h d (List.mem_cons_of_mem c hd)) (by omega),
      ← Nat.toDigits_append_toDigits (by decide) hn (by omega), toDigits_digit hc, List.append_assoc,
      List.singleton_append]

/-- Digits without a leading zero are the number they are read as, printed. -/
theorem toDigits_eq {s : List Char} (h : ∀ c ∈ s, c.isDigit = true) (hne : s ≠ [])
    (hlead : s.head? = some '0' → s.length = 1) :
    Nat.toDigits 10 (Nat.ofDigitChars 10 s 0) = s := by
  obtain ⟨c, rest, rfl⟩ := List.exists_cons_of_ne_nil hne
  have hc := h c List.mem_cons_self
  obtain ⟨h0, h9⟩ := isDigit_bounds hc
  have hzero : '0'.toNat = 48 := rfl
  by_cases hlead' : c = '0'
  · have hrest : rest = [] := by simpa using hlead (by rw [hlead']; rfl)
    rw [hlead', hrest]
    rfl
  · have hpos : c.toNat ≠ '0'.toNat := fun heq => hlead' (Char.toNat_inj.mp heq)
    rw [Nat.ofDigitChars_cons, hzero, Nat.mul_zero, Nat.zero_add,
      toDigits_ofDigitChars (fun d hd => h d (List.mem_cons_of_mem c hd)) (by omega),
      toDigits_digit hc, List.singleton_append]

theorem allDigits_iff {s : String} : allDigits s = true ↔ ∀ c ∈ s.toList, c.isDigit = true := by
  rw [allDigits, List.all_eq_true, asBytes_eq_flatMap]
  simp only [List.mem_flatMap]
  constructor
  · intro h c hc
    have hlow : c.toNat < 0x80 := by
      by_contra hhigh
      obtain ⟨b, hb⟩ := List.exists_mem_of_ne_nil _ (String.utf8EncodeChar_ne_nil (c := c))
      have hdigit := h b ⟨c, hc, hb⟩
      have hle := le_of_mem_utf8EncodeChar (by omega) hb
      simp only [isAsciiDigit, Bool.and_eq_true, decide_eq_true_eq, UInt8.le_iff_toNat_le,
        UInt8.reduceToNat] at hdigit hle
      omega
    have hdigit := h (UInt8.ofNat c.toNat) ⟨c, hc, by rw [utf8EncodeChar_ascii hlow]; simp⟩
    simp only [isAsciiDigit, Bool.and_eq_true, decide_eq_true_eq, UInt8.le_iff_toNat_le,
      UInt8.reduceToNat, UInt8.toNat_ofNat', Nat.mod_eq_of_lt (show c.toNat < 2 ^ 8 by omega)] at hdigit
    simpa [Char.isDigit, UInt32.le_iff_toNat_le] using hdigit
  · rintro h b ⟨c, hc, hb⟩
    rw [utf8EncodeChar_of_isDigit (h c hc), List.mem_singleton] at hb
    rw [hb]
    exact isAsciiDigit_of_isDigit (h c hc)

/-- A number in digits, without a leading zero, is the number printed. -/
theorem parseUnsigned_eq_some_iff {limit n : Nat} {s : String} (hne : s ≠ "")
    (hdigits : allDigits s = true) (hlead : ¬(startsWith "0" s = true ∧ 1 < len s)) :
    parseUnsigned limit s = some n ↔ s = n.repr ∧ n ≤ limit := by
  have hall := allDigits_iff.mp hdigits
  have hrepr : (Nat.ofDigitChars 10 s.toList 0).repr = s := by
    rw [Nat.repr_eq_ofList_toDigits, toDigits_eq hall (by simpa using hne), String.ofList_toList]
    intro hhead
    have hlen : len s = s.toList.length := by
      rw [len, ← String.ofList_toList (s := s), asBytes_digits (by simpa using hall), List.length_map,
        String.toList_ofList]
    obtain ⟨rest, hrest⟩ := List.head?_eq_some_iff.mp hhead
    have hstart : startsWith "0" s = true := by
      rw [startsWith, hrest]
      simp
    have hpos : 0 < s.toList.length := by simp [hrest]
    have hle : ¬1 < len s := fun hlt => hlead ⟨hstart, hlt⟩
    omega
  constructor
  · intro h
    have hn := parseUnsigned_repr limit (Nat.ofDigitChars 10 s.toList 0)
    rw [hrepr, h] at hn
    split at hn
    · rename_i hle
      cases hn
      exact ⟨hrepr.symm, hle⟩
    · cases hn
  · rintro ⟨rfl, hle⟩
    rw [parseUnsigned_repr, if_pos hle]

theorem repr_ne_empty (n : Nat) : n.repr ≠ "" := by
  intro h
  have hnil := congrArg String.toList h
  rw [Nat.toList_repr] at hnil
  exact Nat.toDigits_ne_nil hnil

theorem head_toDigits {n : Nat} (h : 0 < n) : (Nat.toDigits 10 n).head? ≠ some '0' := by
  induction n using Nat.strongRecOn with
  | ind n ih =>
    rw [Nat.toDigits_eq_if (by decide)]
    split
    · simpa using Nat.ne_of_gt h
    · rw [List.head?_append_of_ne_nil _ Nat.toDigits_ne_nil]
      exact ih (n / 10) (by omega) (by omega)

theorem not_leading_zero_repr (n : Nat) : ¬(startsWith "0" n.repr = true ∧ 1 < len n.repr) := by
  rintro ⟨hstart, hlen⟩
  rcases Nat.eq_zero_or_pos n with rfl | hpos
  · revert hlen
    decide
  · refine head_toDigits hpos ?_
    rw [startsWith, Nat.toList_repr, List.isPrefixOf_iff_prefix] at hstart
    obtain ⟨rest, hrest⟩ := hstart
    rw [← hrest]
    rfl

/-! ## Printed numbers -/

theorem stripPrefix_eq_some {c : Char} {s t : String} :
    stripPrefix c s = some t ↔ s = String.singleton c ++ t := by
  unfold stripPrefix
  rw [← String.toList_inj, String.toList_append, String.toList_singleton, List.singleton_append]
  cases hs : s.toList with
  | nil => simp
  | cons d rest =>
    dsimp only
    split
    · rename_i hd
      rw [Option.some.injEq, ← String.toList_inj, String.toList_ofList, hd, List.cons.injEq]
      exact (and_iff_right rfl).symm
    · rename_i hd
      simp [hd]

theorem intRepr_eq (n : Int) :
    n.repr = if n < 0 then "-" ++ n.natAbs.repr else n.natAbs.repr := by
  cases n with
  | ofNat n =>
    have hn : ¬Int.ofNat n < 0 := by simp
    rw [if_neg hn]
    rfl
  | negSucc n =>
    have hn : Int.negSucc n < 0 := Int.negSucc_lt_zero n
    rw [if_pos hn]
    rfl

theorem stripPrefix_minus_repr (n : Nat) : stripPrefix '-' n.repr = none := by
  rw [Option.eq_none_iff_forall_ne_some]
  intro t ht
  have hs := congrArg asBytes (stripPrefix_eq_some.mp ht)
  rw [asBytes_append] at hs
  exact asBytes_repr_ne_cons n (b := 0x2d) (by decide) (asBytes t) hs

theorem stripPrefix_intRepr (n : Int) : stripPrefix '-' n.repr =
    if n < 0 then some n.natAbs.repr else none := by
  rw [intRepr_eq]
  split
  · exact stripPrefix_eq_some.mpr rfl
  · exact stripPrefix_minus_repr _

theorem asBytes_intRepr (n : Int) : asBytes n.repr =
    if n < 0 then 0x2d :: asBytes n.natAbs.repr else asBytes n.natAbs.repr := by
  rw [intRepr_eq]
  split
  · exact asBytes_append "-" _
  · rfl

theorem nat_repr_injective {m n : Nat} (h : m.repr = n.repr) : m = n := by
  have hm := parseUnsigned_repr (max m n) m
  have hn := parseUnsigned_repr (max m n) n
  rw [h, hn, if_pos (Nat.le_max_right ..), if_pos (Nat.le_max_left ..)] at hm
  exact (Option.some.inj hm).symm

theorem intRepr_injective {m n : Int} (h : asBytes m.repr = asBytes n.repr) : m = n := by
  rw [asBytes_intRepr, asBytes_intRepr] at h
  split at h <;> split at h
  · have := nat_repr_injective (asBytes_injective (List.cons.inj h).2)
    omega
  · exact absurd h.symm (asBytes_repr_ne_cons _ (by decide) _)
  · exact absurd h (asBytes_repr_ne_cons _ (by decide) _)
  · have := nat_repr_injective (asBytes_injective h)
    omega

theorem not_mem_repr (n : Nat) {b : UInt8} (hb : isAsciiDigit b = false) : b ∉ asBytes n.repr := by
  intro hmem
  have hall := List.all_eq_true.mp (all_asBytes_repr n) b hmem
  rw [hb] at hall
  cases hall

theorem not_mem_intRepr (n : Int) {b : UInt8} (hb : isAsciiDigit b = false) (hminus : b ≠ 0x2d) :
    b ∉ asBytes n.repr := by
  rw [asBytes_intRepr]
  split
  · exact List.not_mem_cons_of_ne_of_not_mem hminus (not_mem_repr _ hb)
  · exact not_mem_repr _ hb

end Rsurl.Text
