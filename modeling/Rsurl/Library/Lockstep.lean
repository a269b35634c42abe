import Mathlib

/-!
# Lockstep transfers

Blocks go to a receiver one at a time: the next one is sent when the last one was acknowledged. On
the wire a block is known by its number modulo `m`. Messages may be lost, repeated and reordered,
but none arrives that is `m` or more numbers old. Then what the receiver has are the blocks that
were sent, or all of them but the last.
-/

namespace Rsurl.Library.Lockstep

variable {α β : Type*} {m : Nat}

/-- A number that is not too old is known by its remainder. -/
theorem eq_of_mod_eq {j n : Nat} (hle : j ≤ n) (hage : n < j + m) (hnum : j % m = n % m) :
    j = n := by
  have hdvd : m ∣ n - j := (Nat.modEq_iff_dvd' hle).mp hnum
  have hzero := Nat.eq_zero_of_dvd_of_lt hdvd (by omega)
  omega

/-- How many blocks were sent, and the blocks that were taken. -/
structure Transfer (β : Type*) where
  sent : Nat
  got : List β

def Transfer.start : Transfer β := ⟨0, []⟩

/-- The sender is told the number of a block that was taken, or the receiver is given a block that
was sent; it takes the one with the number it waits for. -/
inductive Step (m : Nat) (blocks : List β) : Transfer β → Transfer β → Prop where
  | send {t : Transfer β} (j : Nat) (hgot : j ≤ t.got.length) (hage : t.sent < j + m)
      (hnum : j % m = t.sent % m) (hmore : t.sent < blocks.length) :
      Step m blocks t { t with sent := t.sent + 1 }
  | take {t : Transfer β} (j : Nat) (b : β) (hsent : j < t.sent) (hage : t.got.length < j + m)
      (hnum : j % m = t.got.length % m) (hb : blocks[j]? = some b) :
      Step m blocks t { t with got := t.got ++ [b] }

abbrev Steps (m : Nat) (blocks : List β) : Transfer β → Transfer β → Prop :=
  Relation.ReflTransGen (Step m blocks)

/-- The receiver has what was sent, or all but the last block of it. -/
structure Aligned (blocks : List β) (t : Transfer β) : Prop where
  got_eq : t.got = blocks.take t.got.length
  behind : t.got.length ≤ t.sent
  ahead : t.sent ≤ t.got.length + 1
  bound : t.sent ≤ blocks.length

variable {blocks : List β} {t t' : Transfer β}

theorem aligned_start : Aligned blocks .start := by
  constructor <;> simp [Transfer.start]

/-- Who is told of the last block that was sent knows that it was taken. -/
theorem Aligned.acked (h : Aligned blocks t) {j : Nat} (hgot : j ≤ t.got.length)
    (hage : t.sent < j + m) (hnum : j % m = t.sent % m) : j = t.sent ∧ t.got.length = t.sent := by
  have hj := eq_of_mod_eq (hgot.trans h.behind) hage hnum
  have hbehind := h.behind
  omega

/-- The block with the number the receiver waits for is the next one. -/
theorem Aligned.called (h : Aligned blocks t) {j : Nat} (hsent : j < t.sent)
    (hage : t.got.length < j + m) (hnum : j % m = t.got.length % m) : j = t.got.length := by
  have hahead := h.ahead
  exact eq_of_mod_eq (by omega) hage hnum

theorem Aligned.step (h : Aligned blocks t) (hstep : Step m blocks t t') : Aligned blocks t' := by
  cases hstep with
  | send j hgot hage hnum hmore =>
    obtain ⟨-, hall⟩ := h.acked hgot hage hnum
    exact ⟨h.got_eq, by grind, by grind, hmore⟩
  | take j b hsent hage hnum hb =>
    obtain rfl := h.called hsent hage hnum
    have hgot := h.got_eq
    refine ⟨?_, ?_, ?_, h.bound⟩
    · rw [List.length_append, List.length_singleton, List.take_add_one, ← hgot, hb]
      rfl
    · simpa using hsent
    · have := h.ahead
      grind

/-- Whatever is lost, repeated or late, a transfer stays aligned. -/
theorem Aligned.steps (h : Aligned blocks t) (hsteps : Steps m blocks t t') :
    Aligned blocks t' := by
  induction hsteps with
  | refl => exact h
  | tail _ hstep ih => exact ih.step hstep

/-! ## The blocks of a text -/

variable {size : Nat} {text : List α}

/-- The `i`-th block. -/
def block (size : Nat) (text : List α) (i : Nat) : List α := (text.drop (i * size)).take size

/-- Full blocks, and a last one that is not full and may be empty. -/
def blocksOf (size : Nat) (text : List α) : List (List α) :=
  (List.range (text.length / size + 1)).map (block size text)

@[simp] theorem length_blocksOf : (blocksOf size text).length = text.length / size + 1 := by
  simp [blocksOf]

theorem blocksOf_getElem? {i : Nat} (h : i < (blocksOf size text).length) :
    (blocksOf size text)[i]? = some (block size text i) := by
  rw [length_blocksOf] at h
  simp [blocksOf, h]

theorem take_add_block (i : Nat) :
    text.take (i * size) ++ block size text i = text.take ((i + 1) * size) := by
  rw [block, Nat.add_mul, Nat.one_mul, List.take_add]

theorem flatten_take_blocksOf {n : Nat} (h : n ≤ (blocksOf size text).length) :
    ((blocksOf size text).take n).flatten = text.take (n * size) := by
  induction n with
  | zero => simp
  | succ n ih =>
    rw [List.take_add_one, blocksOf_getElem? h, List.flatten_append, ih (by omega),
      Option.toList_some,
      List.flatten_singleton, take_add_block]

theorem flatten_blocksOf (hsize : 0 < size) : (blocksOf size text).flatten = text := by
  have h := @flatten_take_blocksOf _ size text _ le_rfl
  rw [List.take_length] at h
  rw [h, List.take_of_length_le]
  have hlt := Nat.lt_mul_div_succ text.length hsize
  rw [length_blocksOf, Nat.mul_comm]
  exact hlt.le

theorem length_block (i : Nat) :
    (block size text i).length = min size (text.length - i * size) := by
  simp [block]

/-- Only the last block is not full. -/
theorem length_block_lt_iff (hsize : 0 < size) {i : Nat} (h : i < (blocksOf size text).length) :
    (block size text i).length < size ↔ i + 1 = (blocksOf size text).length := by
  rw [length_blocksOf] at h ⊢
  have hmul := Nat.div_mul_le_self text.length size
  have hlt := Nat.lt_mul_div_succ text.length hsize
  rw [length_block]
  constructor
  · intro hshort
    by_contra hne
    have hle : (i + 1) * size ≤ text.length / size * size := Nat.mul_le_mul_right _ (by omega)
    rw [Nat.add_mul, Nat.one_mul] at hle
    omega
  · intro heq
    obtain rfl : i = text.length / size := by omega
    rw [Nat.mul_add, Nat.mul_comm] at hlt
    omega

theorem length_block_of_lt (hsize : 0 < size) {i : Nat} (h : i + 1 < (blocksOf size text).length) :
    (block size text i).length = size := by
  have hlt : i < (blocksOf size text).length := by omega
  have hlast := (length_block_lt_iff hsize hlt).not.mpr h.ne
  have hle := @length_block _ size text i
  omega

end Rsurl.Library.Lockstep
