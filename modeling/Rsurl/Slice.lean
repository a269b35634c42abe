import Rsurl.Ascii
import Rsurl.Library.Checked

/-!
# Slices of a text

A text is cut at byte positions, and only between characters: a cut inside one panics. A scan that
looks for ASCII bytes stops between characters.
-/

namespace Rsurl.Text

open Library

/-- The bytes of characters. -/
abbrev utf8 (s : List Char) : Bytes := s.flatMap String.utf8EncodeChar

/-- Where a character begins, or the text ends (`str::is_char_boundary`). -/
def isCharBoundary (bytes : Bytes) (i : Nat) : Bool :=
  match bytes[i]? with
  | some b => b &&& 0xc0 != 0x80
  | none => i == bytes.length

/-- `&s[i..j]`. -/
def slice (bytes : Bytes) (i j : Nat) : Checked Empty String :=
  if i ≤ j ∧ isCharBoundary bytes i = true ∧ isCharBoundary bytes j = true then
    match fromUtf8 ((bytes.take j).drop i) with
    | some s => .ok s
    | none => .stuck
  else .stuck

/-- The first position from here on where the byte does not match. -/
def skipWhile (p : UInt8 → Bool) (bytes : Bytes) (i : Nat) : Nat :=
  if h : i < bytes.length then if p bytes[i] then skipWhile p bytes (i + 1) else i else i
termination_by bytes.length - i

/-! ## Between characters -/

theorem utf8_cons (c : Char) (s : List Char) :
    utf8 (c :: s) = String.utf8EncodeChar c ++ utf8 s := by
  rw [utf8, List.flatMap_cons]

theorem utf8_cons_ascii {c : Char} (h : c.toNat < 0x80) (s : List Char) :
    utf8 (c :: s) = UInt8.ofNat c.toNat :: utf8 s := by
  rw [utf8_cons, utf8EncodeChar_ascii h]
  rfl

theorem utf8_append (s t : List Char) : utf8 (s ++ t) = utf8 s ++ utf8 t := by
  rw [utf8, List.flatMap_append]

@[simp] theorem utf8_singleton (c : Char) : utf8 [c] = String.utf8EncodeChar c := by
  rw [utf8_cons, utf8, List.flatMap_nil, List.append_nil]

theorem drop_utf8 (front rest : List Char) :
    (utf8 (front ++ rest)).drop (utf8 front).length = utf8 rest := by
  rw [utf8_append, List.drop_left]

theorem length_utf8_pos (c : Char) : 0 < (String.utf8EncodeChar c).length :=
  List.length_pos_iff.mpr String.utf8EncodeChar_ne_nil

set_option maxRecDepth 8000 in
/-- Only the first byte of a character is not one that continues it. -/
theorem head_utf8EncodeChar (c : Char) :
    ∃ first more, String.utf8EncodeChar c = first :: more ∧ first &&& 0xc0 ≠ 0x80 ∧
      ∀ b ∈ more, 0x80 ≤ b := by
  have hbytes : ∀ n : Fin 256, ((UInt8.ofNat n).IsUTF8FirstByte → UInt8.ofNat n &&& 0xc0 ≠ 0x80) ∧
      (¬(UInt8.ofNat n).IsUTF8FirstByte → 0x80 ≤ UInt8.ofNat n) := by decide +kernel
  have hbyte : ∀ b : UInt8, (b.IsUTF8FirstByte → b &&& 0xc0 ≠ 0x80) ∧
      (¬b.IsUTF8FirstByte → 0x80 ≤ b) := by
    intro b
    simpa using hbytes ⟨b.toNat, b.toNat_lt⟩
  obtain ⟨first, more, heq⟩ := List.exists_cons_of_ne_nil (String.utf8EncodeChar_ne_nil (c := c))
  have hat : ∀ i (h : i < (first :: more).length), (first :: more)[i].IsUTF8FirstByte ↔ i = 0 := by
    intro i h
    have hindex : i < (String.utf8EncodeChar c).length := heq ▸ h
    have hfirst : (String.utf8EncodeChar c)[i].IsUTF8FirstByte ↔ i = 0 :=
      UInt8.isUTF8FirstByte_getElem_utf8EncodeChar
    simpa only [heq] using hfirst
  refine ⟨first, more, heq, (hbyte first).1 ((hat 0 (by simp)).mpr rfl), fun b hb => ?_⟩
  obtain ⟨i, hi, rfl⟩ := List.getElem_of_mem hb
  refine (hbyte _).2 fun hfirst => ?_
  exact absurd ((hat (i + 1) (by simpa using hi)).mp hfirst) (Nat.succ_ne_zero i)

theorem isCharBoundary_utf8 (front rest : List Char) :
    isCharBoundary (utf8 (front ++ rest)) (utf8 front).length = true := by
  rw [isCharBoundary, ← List.head?_drop, drop_utf8]
  cases rest with
  | nil => simp
  | cons c rest =>
    obtain ⟨first, more, heq, hfirst, -⟩ := head_utf8EncodeChar c
    rw [utf8_cons, heq]
    simpa using hfirst

/-- Cut between characters. -/
theorem slice_utf8 (front mid rest : List Char) :
    slice (utf8 (front ++ (mid ++ rest))) (utf8 front).length (utf8 (front ++ mid)).length =
      .ok (String.ofList mid) := by
  have hle : (utf8 front).length ≤ (utf8 (front ++ mid)).length := by
    rw [utf8_append, List.length_append]
    exact Nat.le_add_right _ _
  have hstop := isCharBoundary_utf8 (front ++ mid) rest
  rw [List.append_assoc] at hstop
  have hcut : ((utf8 (front ++ (mid ++ rest))).take (utf8 (front ++ mid)).length).drop
      (utf8 front).length = asBytes (String.ofList mid) := by
    rw [← List.append_assoc, utf8_append (front ++ mid), List.take_left, drop_utf8, asBytes_ofList]
  rw [slice, if_pos ⟨hle, isCharBoundary_utf8 front _, hstop⟩, hcut, fromUtf8_asBytes]

theorem skipWhile_eq (p : UInt8 → Bool) (bytes : Bytes) (i : Nat) :
    skipWhile p bytes i = i + ((bytes.drop i).takeWhile p).length := by
  fun_induction skipWhile p bytes i with
  | case1 i h hp ih =>
    rw [ih, List.drop_eq_getElem_cons h, List.takeWhile_cons_of_pos hp, List.length_cons]
    omega
  | case2 i h hp =>
    rw [List.drop_eq_getElem_cons h, List.takeWhile_cons_of_neg hp]
    rfl
  | case3 i h =>
    rw [List.drop_of_length_le (Nat.le_of_not_lt h)]
    rfl

/-- A test of bytes that all bytes of a character pass, or none, tests characters. -/
theorem skipWhile_utf8 {p : UInt8 → Bool} {q : Char → Bool}
    (h : ∀ c, ∀ b ∈ String.utf8EncodeChar c, p b = q c) (front rest : List Char) :
    skipWhile p (utf8 (front ++ rest)) (utf8 front).length =
      (utf8 (front ++ rest.takeWhile q)).length := by
  have htake : (utf8 rest).takeWhile p = utf8 (rest.takeWhile q) := by
    induction rest with
    | nil => rfl
    | cons c rest ih =>
      rw [utf8_cons]
      by_cases hc : q c = true
      · rw [List.takeWhile_append_of_pos fun b hb => (h c b hb).trans hc, ih,
          List.takeWhile_cons_of_pos hc, utf8_cons]
      · obtain ⟨first, more, heq, -⟩ := head_utf8EncodeChar c
        have hfirst : ¬p first = true := by
          rw [h c first (heq ▸ List.mem_cons_self)]
          exact hc
        rw [heq, List.cons_append, List.takeWhile_cons_of_neg hfirst, List.takeWhile_cons_of_neg hc]
        rfl
  rw [skipWhile_eq, drop_utf8, htake, utf8_append, List.length_append]

end Rsurl.Text
