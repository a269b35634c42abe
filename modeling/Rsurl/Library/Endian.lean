import Mathlib

/-!
# Fixed-width unsigned integers as bytes

`toBe` and `fromBe` spell a natural number with the most significant byte first, `toLe` and `fromLe`
with the least significant one first.
-/

namespace Rsurl.Library.Endian

/-- The last `width` bytes of a number. -/
def toBe : Nat → Nat → List UInt8
  | 0, _ => []
  | width + 1, n => toBe width (n / 256) ++ [UInt8.ofNat n]

def fromBe (bytes : List UInt8) : Nat := bytes.foldl (fun acc b => acc * 256 + b.toNat) 0

def toLe (width n : Nat) : List UInt8 := (toBe width n).reverse

def fromLe (bytes : List UInt8) : Nat := fromBe bytes.reverse

@[simp] theorem length_toBe (width n : Nat) : (toBe width n).length = width := by
  induction width generalizing n with
  | zero => rfl
  | succ width ih => simp [toBe, ih]

@[simp] theorem length_toLe (width n : Nat) : (toLe width n).length = width := by simp [toLe]

theorem fromBe_concat (bytes : List UInt8) (b : UInt8) :
    fromBe (bytes ++ [b]) = fromBe bytes * 256 + b.toNat := by
  simp [fromBe]

theorem fromBe_cons (b : UInt8) (bytes : List UInt8) :
    fromBe (b :: bytes) = b.toNat * 256 ^ bytes.length + fromBe bytes := by
  induction bytes using List.reverseRecOn with
  | nil => simp [fromBe]
  | append_singleton bytes last ih =>
    rw [← List.cons_append, fromBe_concat, ih, fromBe_concat, List.length_append,
      List.length_singleton, Nat.pow_succ]
    ring

theorem fromBe_toBe {width n : Nat} (h : n < 256 ^ width) : fromBe (toBe width n) = n := by
  induction width generalizing n with
  | zero =>
    rw [Nat.pow_zero, Nat.lt_one_iff] at h
    subst h
    rfl
  | succ width ih =>
    have hdiv : n / 256 < 256 ^ width := by
      rw [Nat.pow_succ] at h
      exact Nat.div_lt_of_lt_mul (by omega)
    rw [toBe, fromBe_concat, ih hdiv, UInt8.toNat_ofNat']
    omega

theorem fromLe_toLe {width n : Nat} (h : n < 256 ^ width) : fromLe (toLe width n) = n := by
  rw [fromLe, toLe, List.reverse_reverse, fromBe_toBe h]

theorem fromBe_lt (bytes : List UInt8) : fromBe bytes < 256 ^ bytes.length := by
  induction bytes using List.reverseRecOn with
  | nil => decide
  | append_singleton bytes b ih =>
    have hb := b.toNat_lt
    rw [fromBe_concat, List.length_append, List.length_singleton, Nat.pow_succ]
    omega

/-- Bytes are determined by the number they spell. -/
theorem toBe_fromBe (bytes : List UInt8) : toBe bytes.length (fromBe bytes) = bytes := by
  induction bytes using List.reverseRecOn with
  | nil => rfl
  | append_singleton bytes b ih =>
    have hb := b.toNat_lt
    have hdiv : (fromBe bytes * 256 + b.toNat) / 256 = fromBe bytes := by omega
    rw [List.length_append, List.length_singleton, fromBe_concat, toBe, hdiv, ih]
    congr 2
    apply UInt8.toNat_inj.mp
    rw [UInt8.toNat_ofNat']
    omega

end Rsurl.Library.Endian

/-!
## Signed integers as bytes

Two's complement of any width, the most significant byte first. A leading byte that only repeats the
sign of the next one can be left out, and what has none is the shortest spelling of its number.
-/

namespace Rsurl.Library.Endian

/-- The most significant byte, which has the sign. -/
def high (b : UInt8) : Int := if b.toNat < 128 then b.toNat else b.toNat - 256

def signed : List UInt8 → Int
  | [] => 0
  | first :: rest => high first * 256 ^ rest.length + fromBe rest

/-- The first byte only repeats the sign of the second. -/
def Repeats (first next : UInt8) : Prop :=
  first.toNat = 0 ∧ next.toNat < 128 ∨ first.toNat = 255 ∧ 128 ≤ next.toNat

/-- No byte can be left out. -/
def Shortest : List UInt8 → Prop
  | first :: next :: _ => ¬Repeats first next
  | _ => True

variable {first next : UInt8} {rest bytes : List UInt8}

theorem high_bounds (b : UInt8) : -128 ≤ high b ∧ high b ≤ 127 := by
  have hb := b.toNat_lt
  unfold high
  split <;> omega

theorem signed_bounds (first : UInt8) (rest : List UInt8) :
    -(128 * 256 ^ rest.length) ≤ signed (first :: rest) ∧
      signed (first :: rest) < 128 * 256 ^ rest.length := by
  obtain ⟨hlow, hhigh⟩ := high_bounds first
  have hrest : (fromBe rest : Int) < 256 ^ rest.length := by exact_mod_cast fromBe_lt rest
  have hpos : (0 : Int) ≤ fromBe rest := Int.natCast_nonneg _
  rw [signed]
  constructor <;> nlinarith

theorem signed_repeats (h : Repeats first next) (rest : List UInt8) :
    signed (first :: next :: rest) = signed (next :: rest) := by
  rw [signed, signed, fromBe_cons, List.length_cons, pow_succ]
  push_cast
  rcases h with ⟨h0, hn⟩ | ⟨h0, hn⟩
  · have hfirst : high first = 0 := by simp [high, h0]
    have hnext : high next = next.toNat := if_pos hn
    rw [hfirst, hnext]
    ring
  · have hfirst : high first = -1 := by simp [high, h0]
    have hnext : high next = next.toNat - 256 := if_neg (by omega)
    rw [hfirst, hnext]
    ring

/-- Fewer bytes do not hold the number. -/
theorem signed_long (h : ¬Repeats first next) (rest : List UInt8) :
    signed (first :: next :: rest) < -(128 * 256 ^ rest.length) ∨
      128 * 256 ^ rest.length ≤ signed (first :: next :: rest) := by
  have hrest : (fromBe rest : Int) < 256 ^ rest.length := by exact_mod_cast fromBe_lt rest
  have hpos : (0 : Int) ≤ fromBe rest := Int.natCast_nonneg _
  have hfirst := first.toNat_lt
  have hnext := next.toNat_lt
  rw [signed, fromBe_cons, List.length_cons, pow_succ]
  push_cast
  generalize (256 : Int) ^ rest.length = p at *
  generalize (fromBe rest : Int) = r at *
  obtain ⟨n, hn⟩ : ∃ n : Int, n = next.toNat := ⟨_, rfl⟩
  rw [← hn]
  by_cases hsign : first.toNat < 128
  · right
    have hhigh : high first = first.toNat := if_pos hsign
    by_cases hzero : first.toNat = 0
    · have hbig : 128 ≤ n := by
        have : ¬next.toNat < 128 := fun hlt => h (.inl ⟨hzero, hlt⟩)
        omega
      rw [hhigh, hzero]
      push_cast
      nlinarith
    · have hbig : (1 : Int) ≤ high first := by omega
      have hn0 : 0 ≤ n := by omega
      nlinarith [mul_le_mul_of_nonneg_right hbig (show 0 ≤ p by omega), mul_nonneg hn0 (show 0 ≤ p by omega)]
  · left
    have hhigh : high first = first.toNat - 256 := if_neg hsign
    by_cases hlast : first.toNat = 255
    · have hsmall : n ≤ 127 := by
        have : ¬128 ≤ next.toNat := fun hle => h (.inr ⟨hlast, hle⟩)
        omega
      rw [hhigh, hlast]
      push_cast
      nlinarith
    · have hsmall : high first ≤ -2 := by omega
      have hn255 : n ≤ 255 := by omega
      nlinarith [mul_le_mul_of_nonneg_right hsmall (show 0 ≤ p by omega),
        mul_le_mul_of_nonneg_right hn255 (show 0 ≤ p by omega)]

theorem Shortest.length_le (h : Shortest bytes) {other : List UInt8} (hne : other ≠ [])
    (hsame : signed other = signed bytes) : bytes.length ≤ other.length := by
  obtain ⟨first', rest', rfl⟩ := List.exists_cons_of_ne_nil hne
  match bytes, h with
  | [], _ => exact Nat.zero_le _
  | [b], _ => simp
  | first :: next :: rest, h =>
    by_contra hshort
    have hle : rest'.length ≤ rest.length := by
      simp only [List.length_cons] at hshort
      omega
    have hpow : (256 : Int) ^ rest'.length ≤ 256 ^ rest.length := pow_le_pow_right₀ (by decide) hle
    obtain ⟨hlow, hhigh⟩ := signed_bounds first' rest'
    rw [hsame] at hlow hhigh
    rcases signed_long h rest with hlong | hlong <;> linarith

end Rsurl.Library.Endian
