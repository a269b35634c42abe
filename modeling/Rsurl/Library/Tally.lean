import Mathlib

/-!
# Counting marks

How many members of a finite family are marked, and what one change does to the count.
-/

namespace Rsurl.Library

variable {ι : Type*} [Fintype ι] {f g : ι → Bool}

def tally (f : ι → Bool) : Nat := ∑ i, (f i).toNat

theorem tally_none (h : ∀ i, f i = false) : tally f = 0 := by
  simp [tally, h]

theorem tally_mono (h : ∀ i, f i = true → g i = true) : tally f ≤ tally g := by
  refine Finset.sum_le_sum fun i _ => ?_
  cases hf : f i with
  | false => exact Nat.zero_le _
  | true => rw [h i hf]

/-- Two families that differ in one member at most. -/
theorem tally_of_eq_off [DecidableEq ι] (j : ι) (h : ∀ i, i ≠ j → g i = f i) :
    tally g + (f j).toNat = tally f + (g j).toNat := by
  have hf := Finset.add_sum_erase Finset.univ (fun i => (f i).toNat) (Finset.mem_univ j)
  have hg := Finset.add_sum_erase Finset.univ (fun i => (g i).toNat) (Finset.mem_univ j)
  have hrest : ∑ i ∈ Finset.univ.erase j, (g i).toNat = ∑ i ∈ Finset.univ.erase j, (f i).toNat :=
    Finset.sum_congr rfl fun i hi => by rw [h i (Finset.ne_of_mem_erase hi)]
  unfold tally
  omega

/-- One member more. -/
theorem tally_succ [DecidableEq ι] (j : ι) (h : ∀ i, i ≠ j → g i = f i) (hf : f j = false)
    (hg : g j = true) : tally g = tally f + 1 := by
  have := tally_of_eq_off j h
  rw [hf, hg] at this
  exact this

theorem tally_same [DecidableEq ι] (j : ι) (h : ∀ i, i ≠ j → g i = f i) (hj : g j = f j) :
    tally g = tally f := by
  congr 1
  funext i
  by_cases hi : i = j
  · rw [hi, hj]
  · exact h i hi

end Rsurl.Library
