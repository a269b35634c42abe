import Mathlib

/-!
# Bit strings and prefix codes

Most-significant-bit-first bit strings of natural numbers, and decoding of a stream that is a
concatenation of code words. Nothing here depends on a particular code: a code is any function
from symbols to bit strings, and the only property used is that no code word begins another.
-/

namespace Rsurl.Library

/-- The low `n` bits of `v`, most significant first. -/
def bitsOf : Nat → Nat → List Bool
  | 0, _ => []
  | n + 1, v => bitsOf n (v / 2) ++ [v % 2 == 1]

/-- The bits of a byte string, most significant bit of the first byte first. -/
def byteBits (bytes : List UInt8) : List Bool := bytes.flatMap fun b => bitsOf 8 b.toNat

@[simp] theorem bitsOf_zero (v : Nat) : bitsOf 0 v = [] := rfl

theorem bitsOf_succ (n v : Nat) : bitsOf (n + 1) v = bitsOf n (v / 2) ++ [v % 2 == 1] := rfl

@[simp] theorem length_bitsOf (n v : Nat) : (bitsOf n v).length = n := by
  induction n generalizing v with
  | zero => rfl
  | succ n ih => simp [bitsOf_succ, ih]

/-- A bit string splits at every position: the quotient above, the remainder below. -/
theorem bitsOf_add (m n v : Nat) : bitsOf (m + n) v = bitsOf m (v / 2 ^ n) ++ bitsOf n v := by
  induction n generalizing v with
  | zero => simp
  | succ n ih =>
    rw [← Nat.add_assoc, bitsOf_succ, bitsOf_succ, ih, Nat.div_div_eq_div_mul, ← Nat.pow_succ',
      List.append_assoc]

theorem bitsOf_mod (n v : Nat) : bitsOf n (v % 2 ^ n) = bitsOf n v := by
  induction n generalizing v with
  | zero => rfl
  | succ n ih =>
    have hdiv : v % 2 ^ (n + 1) / 2 = v / 2 % 2 ^ n := by
      rw [Nat.pow_succ', Nat.mod_mul_right_div_self]
    have hmod : v % 2 ^ (n + 1) % 2 = v % 2 := Nat.mod_mod_of_dvd _ (Dvd.intro_left _ rfl)
    rw [bitsOf_succ, bitsOf_succ, hdiv, hmod, ih]

theorem bitsOf_inj {n v w : Nat} (hv : v < 2 ^ n) (hw : w < 2 ^ n)
    (h : bitsOf n v = bitsOf n w) : v = w := by
  induction n generalizing v w with
  | zero => simp at hv hw; omega
  | succ n ih =>
    obtain ⟨hhigh, hlow⟩ := List.append_inj' h rfl
    have hq : v / 2 = w / 2 := ih (by omega) (by omega) hhigh
    have hr : v % 2 = w % 2 := by
      have := Nat.mod_two_eq_zero_or_one v
      have := Nat.mod_two_eq_zero_or_one w
      simp only [List.cons.injEq, and_true] at hlow
      rcases Nat.mod_two_eq_zero_or_one v with a | a <;>
        rcases Nat.mod_two_eq_zero_or_one w with b | b <;> simp_all
    omega

theorem bitsOf_zeros (n : Nat) : bitsOf n 0 = List.replicate n false := by
  induction n with
  | zero => rfl
  | succ n ih => simp [bitsOf_succ, ih, List.replicate_succ']

theorem bitsOf_ones (n : Nat) : bitsOf n (2 ^ n - 1) = List.replicate n true := by
  induction n with
  | zero => rfl
  | succ n ih =>
    have hpos := Nat.two_pow_pos n
    have hdiv : (2 ^ (n + 1) - 1) / 2 = 2 ^ n - 1 := by omega
    have hmod : (2 ^ (n + 1) - 1) % 2 = 1 := by omega
    rw [bitsOf_succ, hdiv, hmod, ih, List.replicate_succ']
    rfl

@[simp] theorem byteBits_nil : byteBits [] = [] := rfl

@[simp] theorem byteBits_cons (b : UInt8) (bs : List UInt8) :
    byteBits (b :: bs) = bitsOf 8 b.toNat ++ byteBits bs := rfl

@[simp] theorem byteBits_append (xs ys : List UInt8) :
    byteBits (xs ++ ys) = byteBits xs ++ byteBits ys := by simp [byteBits]

@[simp] theorem length_byteBits (bs : List UInt8) : (byteBits bs).length = 8 * bs.length := by
  induction bs with
  | nil => rfl
  | cons b bs ih => simp [ih]; omega

theorem byteBits_zeros (n : Nat) :
    byteBits (List.replicate n 0) = List.replicate (8 * n) false := by
  induction n with
  | zero => rfl
  | succ n ih =>
    rw [List.replicate_succ, byteBits_cons, ih, UInt8.toNat_zero, bitsOf_zeros,
      List.replicate_append_replicate]
    congr 1
    omega

/-- Shifting a new byte into an accumulator appends the byte's bits. -/
theorem bitsOf_shift_byte (n v : Nat) (b : UInt8) :
    bitsOf (n + 8) (v * 256 + b.toNat) = bitsOf n v ++ bitsOf 8 b.toNat := by
  have hb := b.toNat_lt
  rw [bitsOf_add, show (v * 256 + b.toNat) / 2 ^ 8 = v by omega, ← bitsOf_mod 8 (v * 256 + _),
    show (v * 256 + b.toNat) % 2 ^ 8 = b.toNat by omega]

theorem byteBits_inj {xs ys : List UInt8} (h : byteBits xs = byteBits ys) : xs = ys := by
  induction xs generalizing ys with
  | nil =>
    cases ys with
    | nil => rfl
    | cons y ys =>
      have hlen := congrArg List.length h
      rw [length_byteBits, length_byteBits, List.length_nil, List.length_cons] at hlen
      omega
  | cons x xs ih =>
    cases ys with
    | nil =>
      have hlen := congrArg List.length h
      rw [length_byteBits, length_byteBits, List.length_nil, List.length_cons] at hlen
      omega
    | cons y ys =>
      rw [byteBits_cons, byteBits_cons] at h
      obtain ⟨hbyte, hrest⟩ := List.append_inj h (by simp)
      rw [UInt8.toNat_inj.mp (bitsOf_inj x.toNat_lt y.toNat_lt hbyte), ih hrest]

/-- The upper bits of a number are the bits of its quotient. -/
theorem bitsOf_div_isPrefix {len n : Nat} (h : len ≤ n) (v : Nat) :
    bitsOf len (v / 2 ^ (n - len)) <+: bitsOf n v := by
  have hsplit := bitsOf_add len (n - len) v
  rw [Nat.add_sub_cancel' h] at hsplit
  exact hsplit ▸ List.prefix_append _ _

/-! ## Prefix codes -/

section PrefixCode

variable {α : Type*} (code : α → List Bool)

/-- No code word begins another. -/
def PrefixFree : Prop := ∀ a b, code a <+: code b → a = b

variable {code}

/-- Two code words that begin the same stream are the same word. -/
theorem PrefixFree.eq_of_prefix (free : PrefixFree code) {a b : α} {stream : List Bool}
    (ha : code a <+: stream) (hb : code b <+: stream) : a = b := by
  rcases le_total (code a).length (code b).length with h | h
  · exact free a b (List.prefix_of_prefix_length_le ha hb h)
  · exact (free b a (List.prefix_of_prefix_length_le hb ha h)).symm

/-- Only the first symbol's word can begin a stream of code words. -/
theorem PrefixFree.head_of_prefix (free : PrefixFree code) {a b : α} {front : List Bool}
    (back rest : List Bool) (ha : code a <+: front) (h : front ++ back = code b ++ rest) : a = b := by
  have hstream : code a <+: code b ++ rest := h ▸ ha.trans (List.prefix_append _ _)
  exact free.eq_of_prefix hstream (List.prefix_append _ _)

end PrefixCode

/-- Half-open ranges, each starting where the one before it ends. The words of a canonical code,
extended to one length, are such ranges. -/
def Tiles : Nat → List (Nat × Nat) → Nat → Prop
  | a, [], b => a = b
  | a, r :: rest, b => r.1 = a ∧ Tiles r.2 rest b

instance Tiles.decidable : ∀ a ranges b, Decidable (Tiles a ranges b)
  | a, [], b => inferInstanceAs (Decidable (a = b))
  | a, r :: rest, b =>
    have := Tiles.decidable r.2 rest b
    inferInstanceAs (Decidable (r.1 = a ∧ Tiles r.2 rest b))

theorem Tiles.covers {a b v : Nat} {ranges : List (Nat × Nat)} (h : Tiles a ranges b) (ha : a ≤ v)
    (hb : v < b) : ∃ r ∈ ranges, r.1 ≤ v ∧ v < r.2 := by
  induction ranges generalizing a with
  | nil =>
    cases h
    omega
  | cons r rest ih =>
    obtain ⟨rfl, hrest⟩ := h
    by_cases hv : v < r.2
    · exact ⟨r, List.mem_cons_self, ha, hv⟩
    · obtain ⟨s, hs, hrange⟩ := ih hrest (Nat.le_of_not_lt hv)
      exact ⟨s, List.mem_cons_of_mem r hs, hrange⟩

end Rsurl.Library
