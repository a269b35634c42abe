import Rsurl.Text
import Rsurl.Error

/-!
# ASCII inside UTF-8

An ASCII character is one byte, and the bytes of any other character are above all of ASCII, so that
looking for an ASCII byte in a string is looking for the character.
-/

/-!
## Letter case

Comparisons that ignore the case of ASCII letters.
-/

namespace Rsurl.Text

theorem toList_toAsciiLowercase (s : String) :
    (toAsciiLowercase s).toList = s.toList.map Char.toLower := by
  simp [toAsciiLowercase]

@[simp] theorem toAsciiLowercase_idem (s : String) :
    toAsciiLowercase (toAsciiLowercase s) = toAsciiLowercase s := by
  simp [toAsciiLowercase, Function.comp_def]

theorem eqIgnoreAsciiCase_iff {s t : String} :
    eqIgnoreAsciiCase s t = true ↔ toAsciiLowercase s = toAsciiLowercase t := by
  simp [eqIgnoreAsciiCase]

/-- Lowering a letter gives a letter, and lowers nothing else. -/
theorem toLower_eq_iff {c d : Char} (hd : d.isAlpha = false) : c.toLower = d ↔ c = d := by
  constructor
  · intro h
    have hc : c.isAlpha = false := by rw [← Char.isAlpha_toLower_eq_isAlpha, h, hd]
    have hu : ¬c.isUpper := by simp [Char.isAlpha] at hc; simp [hc]
    rw [← h, Char.toLower_eq_of_not_isUpper hu]
  · rintro rfl
    exact Char.toLower_eq_of_not_isUpper (by simp [Char.isAlpha] at hd; simp [hd])

theorem toAsciiUppercase_eq_iff {s t : String} :
    toAsciiUppercase s = toAsciiUppercase t ↔ toAsciiLowercase s = toAsciiLowercase t := by
  have hupper : ∀ s, toAsciiUppercase (toAsciiLowercase s) = toAsciiUppercase s := by
    simp [toAsciiUppercase, toAsciiLowercase, Function.comp_def]
  have hlower : ∀ s, toAsciiLowercase (toAsciiUppercase s) = toAsciiLowercase s := by
    simp [toAsciiUppercase, toAsciiLowercase, Function.comp_def]
  constructor
  · intro h
    rw [← hlower s, h, hlower]
  · intro h
    rw [← hupper s, h, hupper]

theorem eqIgnoreAsciiCase_eq_toAsciiUppercase (s t : String) :
    eqIgnoreAsciiCase s t = (toAsciiUppercase s == toAsciiUppercase t) := by
  rw [Bool.eq_iff_iff]
  simp only [eqIgnoreAsciiCase, beq_iff_eq, toAsciiUppercase_eq_iff]

theorem eqIgnoreAsciiCase_lower (a name : String) :
    eqIgnoreAsciiCase (toAsciiLowercase a) name = eqIgnoreAsciiCase a name := by
  simp [eqIgnoreAsciiCase, toAsciiLowercase, Function.comp_def]

theorem toAsciiLowercase_beq {a name : String} (hname : toAsciiLowercase name = name) :
    (toAsciiLowercase a == name) = eqIgnoreAsciiCase a name := by
  rw [eqIgnoreAsciiCase, hname]

end Rsurl.Text

/-!
## Numbers in decimal

A number that is printed reads back as itself. The reader works on bytes, the printer on characters.
-/

namespace Rsurl.Text

theorem asBytes_ofList (s : List Char) :
    asBytes (String.ofList s) = s.flatMap String.utf8EncodeChar := by
  simp [asBytes, List.utf8Encode]

theorem utf8EncodeChar_of_isDigit {c : Char} (h : c.isDigit = true) :
    String.utf8EncodeChar c = [UInt8.ofNat c.toNat] := by
  obtain ⟨-, h9⟩ : 48 ≤ c.val.toNat ∧ c.val.toNat ≤ 57 := by
    simpa [Char.isDigit, UInt32.le_iff_toNat_le] using h
  have hc : c.toNat ≤ 127 := by
    show c.val.toNat ≤ 127
    omega
  simp [String.utf8EncodeChar, hc]

theorem asBytes_digits {s : List Char} (h : ∀ c ∈ s, c.isDigit = true) :
    asBytes (String.ofList s) = s.map fun c => UInt8.ofNat c.toNat := by
  rw [asBytes_ofList]
  induction s with
  | nil => rfl
  | cons c rest ih =>
    rw [List.flatMap_cons, utf8EncodeChar_of_isDigit (h c List.mem_cons_self),
      ih fun d hd => h d (List.mem_cons_of_mem c hd)]
    rfl

theorem isDigit_bounds {c : Char} (h : c.isDigit = true) : 48 ≤ c.toNat ∧ c.toNat ≤ 57 := by
  simpa [Char.isDigit, UInt32.le_iff_toNat_le] using h

theorem isAsciiDigit_of_isDigit {c : Char} (h : c.isDigit = true) :
    isAsciiDigit (UInt8.ofNat c.toNat) = true := by
  obtain ⟨h0, h9⟩ := isDigit_bounds h
  simp only [isAsciiDigit, Bool.and_eq_true, decide_eq_true_eq, UInt8.le_iff_toNat_le,
    UInt8.toNat_ofNat']
  simp
  omega

/-- The digits of a number, read as bytes. -/
theorem foldl_digits {s : List Char} (h : ∀ c ∈ s, c.isDigit = true) (n : Nat) :
    (s.map fun c => UInt8.ofNat c.toNat).foldl (fun acc b => acc * 10 + (b.toNat - 0x30)) n =
      Nat.ofDigitChars 10 s n := by
  induction s generalizing n with
  | nil => rfl
  | cons c rest ih =>
    have hc := isDigit_bounds (h c List.mem_cons_self)
    have hmod : c.toNat % 256 = c.toNat := Nat.mod_eq_of_lt (by omega)
    rw [List.map_cons, List.foldl_cons, ih fun d hd => h d (List.mem_cons_of_mem c hd),
      Nat.ofDigitChars_cons]
    congr 1
    simp only [UInt8.toNat_ofNat', Nat.reducePow, hmod]
    have hzero : '0'.toNat = 48 := rfl
    omega

theorem asBytes_repr (n : Nat) :
    asBytes n.repr = (Nat.toDigits 10 n).map fun c => UInt8.ofNat c.toNat := by
  rw [Nat.repr_eq_ofList_toDigits]
  exact asBytes_digits fun c hc => Nat.isDigit_of_mem_toDigits (by decide) (by decide) hc

theorem all_asBytes_repr (n : Nat) : (asBytes n.repr).all isAsciiDigit = true := by
  rw [asBytes_repr, List.all_map, List.all_eq_true]
  intro c hc
  exact isAsciiDigit_of_isDigit (Nat.isDigit_of_mem_toDigits (by decide) (by decide) hc)

/-- A printed number does not begin with a sign. -/
theorem asBytes_repr_ne_cons (n : Nat) {b : UInt8} (hb : isAsciiDigit b = false) (rest : Bytes) :
    asBytes n.repr ≠ b :: rest := by
  intro h
  have hall := all_asBytes_repr n
  rw [h] at hall
  simp [hb] at hall

/-- Digits are read as the number they are, with zeros in front or not. -/
theorem parseUnsigned_digits {s : List Char} (h : ∀ c ∈ s, c.isDigit = true) (hne : s ≠ [])
    (limit : Nat) : parseUnsigned limit (String.ofList s) =
      if Nat.ofDigitChars 10 s 0 ≤ limit then some (Nat.ofDigitChars 10 s 0) else none := by
  have hbytes := asBytes_digits h
  have hall : (s.map fun c => UInt8.ofNat c.toNat).all isAsciiDigit = true := by
    rw [List.all_map, List.all_eq_true]
    exact fun c hc => isAsciiDigit_of_isDigit (h c hc)
  have hempty : (s.map fun c => UInt8.ofNat c.toNat).isEmpty = false := by simpa using hne
  unfold parseUnsigned
  extract_lets digits m
  have hdigits : digits = s.map fun c => UInt8.ofNat c.toNat := by
    unfold digits
    rw [hbytes]
    split
    · rename_i rest heq
      rw [heq, List.all_cons] at hall
      exact absurd hall (by simp [isAsciiDigit])
    · rfl
  unfold m
  simp only [hdigits, hall, hempty, foldl_digits h, Bool.not_true, Bool.or_self,
    Bool.false_eq_true, if_false]

theorem parseUnsigned_repr (limit n : Nat) :
    parseUnsigned limit n.repr = if n ≤ limit then some n else none := by
  have hall (c : Char) (hc : c ∈ Nat.toDigits 10 n) : c.isDigit = true :=
    Nat.isDigit_of_mem_toDigits (by decide) (by decide) hc
  rw [Nat.repr_eq_ofList_toDigits, parseUnsigned_digits hall Nat.toDigits_ne_nil,
    Nat.ofDigitChars_ten_toDigits]

end Rsurl.Text

namespace Rsurl.Text

theorem asBytes_append (s t : String) : asBytes (s ++ t) = asBytes s ++ asBytes t := by
  simp [asBytes]

theorem asBytes_eq_flatMap (s : String) : asBytes s = s.toList.flatMap String.utf8EncodeChar := by
  rw [← asBytes_ofList, String.ofList_toList]

theorem utf8EncodeChar_ascii {c : Char} (h : c.toNat < 0x80) :
    String.utf8EncodeChar c = [UInt8.ofNat c.toNat] := by
  have hc : c.toNat ≤ 127 := by omega
  simp [String.utf8EncodeChar, hc]

theorem le_of_mem_utf8EncodeChar {c : Char} (h : 0x80 ≤ c.toNat) {b : UInt8}
    (hb : b ∈ String.utf8EncodeChar c) : 0x80 ≤ b := by
  have hc : ¬c.val.toNat ≤ 0x7f := by
    show ¬c.toNat ≤ 127
    omega
  rw [UInt8.le_iff_toNat_le]
  unfold String.utf8EncodeChar at hb
  dsimp only at hb
  rw [if_neg hc] at hb
  split_ifs at hb <;> simp only [List.mem_cons, List.not_mem_nil, or_false] at hb
  · rcases hb with rfl | rfl <;> simp <;> omega
  · rcases hb with rfl | rfl | rfl <;> simp <;> omega
  · rcases hb with rfl | rfl | rfl | rfl <;> simp <;> omega

/-- An ASCII byte is there exactly if the character is. -/
theorem mem_asBytes {s : String} {c : Char} (hc : c.toNat < 0x80) :
    UInt8.ofNat c.toNat ∈ asBytes s ↔ c ∈ s.toList := by
  rw [asBytes_eq_flatMap, List.mem_flatMap]
  constructor
  · rintro ⟨d, hd, hb⟩
    by_cases hlow : d.toNat < 0x80
    · rw [utf8EncodeChar_ascii hlow, List.mem_singleton, ← UInt8.toNat_inj, UInt8.toNat_ofNat',
        UInt8.toNat_ofNat'] at hb
      have heq : c.toNat = d.toNat := by omega
      rwa [Char.toNat_inj.mp heq]
    · have hle := le_of_mem_utf8EncodeChar (Nat.le_of_not_lt hlow) hb
      rw [UInt8.le_iff_toNat_le, UInt8.toNat_ofNat'] at hle
      simp at hle
      omega
  · exact fun hin => ⟨c, hin, by rw [utf8EncodeChar_ascii hc]; exact List.mem_singleton_self _⟩

theorem asBytes_cons {c : Char} (hc : c.toNat < 0x80) (rest : List Char) :
    asBytes (String.ofList (c :: rest)) = UInt8.ofNat c.toNat :: asBytes (String.ofList rest) := by
  rw [asBytes_ofList, asBytes_ofList, List.flatMap_cons, utf8EncodeChar_ascii hc]
  rfl

/-- A string that begins with an ASCII byte begins with the character. -/
theorem head_asBytes {s : String} {c : Char} (hc : c.toNat < 0x80) {rest : Bytes}
    (h : asBytes s = UInt8.ofNat c.toNat :: rest) :
    ∃ t, s.toList = c :: t ∧ rest = asBytes (String.ofList t) := by
  rw [asBytes_eq_flatMap] at h
  cases hs : s.toList with
  | nil =>
    rw [hs] at h
    cases h
  | cons d t =>
    rw [hs, List.flatMap_cons] at h
    have hmem : UInt8.ofNat c.toNat ∈ String.utf8EncodeChar d := by
      cases hd : String.utf8EncodeChar d with
      | nil => exact absurd hd String.utf8EncodeChar_ne_nil
      | cons x xs =>
        rw [hd] at h
        rw [(List.cons.inj h).1]
        exact List.mem_cons_self
    have hin : UInt8.ofNat c.toNat ∈ asBytes (String.ofList [d]) := by
      rw [asBytes_ofList, List.flatMap_singleton]
      exact hmem
    rw [mem_asBytes hc, String.toList_ofList, List.mem_singleton] at hin
    subst hin
    rw [utf8EncodeChar_ascii hc] at h
    exact ⟨t, rfl, (List.cons.inj h).2.symm.trans (asBytes_ofList t).symm⟩

theorem asBytes_injective : Function.Injective asBytes := by
  intro s t h
  have hs := fromUtf8_asBytes s
  rw [h, fromUtf8_asBytes] at hs
  exact (Option.some.inj hs).symm

end Rsurl.Text
