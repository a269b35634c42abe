import Mathlib

/-!
# Retries on a budget

Attempts move a level up or down. An attempt that moves it up refills the budget, any other takes
one from it. Below a bound, attempts that go on for ever move the level down again and again.
-/

namespace Rsurl.Library.Retry

/-- An attempt, on the level and the budget; `full` is the budget after a climb. -/
inductive Move (full : Nat) : Nat × Nat → Nat × Nat → Prop where
  | climbs {level budget level' : Nat} (h : level < level') :
    Move full (level, budget) (level', full)
  | stalls {level budget : Nat} : Move full (level, budget + 1) (level, budget)
  | falls {level budget level' : Nat} (h : level' < level) :
    Move full (level, budget + 1) (level', budget)

variable {full bound : Nat}

/-- How many moves there may still be, when none of them is a fall. -/
def weight (full bound : Nat) (s : Nat × Nat) : Nat := (bound - s.1) * (full + 1) + s.2

theorem Move.weight_lt {s s' : Nat × Nat} (h : Move full s s') (hbound : s'.1 ≤ bound)
    (hle : s.1 ≤ s'.1) : weight full bound s' < weight full bound s := by
  cases h with
  | @climbs level budget level' hlt =>
    have hless : bound - level' + 1 ≤ bound - level := by
      simp only at hbound
      omega
    calc (bound - level') * (full + 1) + full
        < (bound - level' + 1) * (full + 1) := by rw [Nat.succ_mul]; omega
      _ ≤ (bound - level) * (full + 1) := Nat.mul_le_mul_right _ hless
      _ ≤ (bound - level) * (full + 1) + budget := Nat.le_add_right ..
  | stalls => exact Nat.lt_succ_self _
  | falls hlt => exact absurd hle (not_le.mpr hlt)

/-- Moves without end are falls infinitely often. -/
theorem falls_infinite {s : Nat → Nat × Nat} (hmove : ∀ k, Move full (s k) (s (k + 1)))
    (hbound : ∀ k, (s k).1 ≤ bound) : {k | (s (k + 1)).1 < (s k).1}.Infinite := by
  intro hfinite
  obtain ⟨last, hlast⟩ := hfinite.bddAbove
  let first := last + 1
  have hno (k : Nat) : (s (first + k)).1 ≤ (s (first + k + 1)).1 := by
    by_contra hfall
    have := hlast (not_le.mp hfall)
    omega
  -- from there on every move takes something off the weight
  have hsink (k : Nat) :
      weight full bound (s (first + k)) + k ≤ weight full bound (s first) := by
    induction k with
    | zero => exact le_rfl
    | succ k ih =>
      have hlt := (hmove (first + k)).weight_lt (hbound _) (hno k)
      rw [← Nat.add_assoc first k 1]
      omega
  have := hsink (weight full bound (s first) + 1)
  omega

end Rsurl.Library.Retry
