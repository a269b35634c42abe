import Mathlib

/-!
# Tasks claimed from a counter

Workers share a job of `n` tasks. A claim takes the next number off a counter, so a task has one
worker at most, and who leaves a task has settled it or aborted the job. When the counter has passed
the last task, no task is held and the job was not aborted, every task is settled.
-/

namespace Rsurl.Library

/-- `holds` is the task that each worker is on, and `log` who has worked on what. -/
structure Claiming (ω : Type*) where
  next : Nat
  holds : ω → Option Nat
  settled : Set Nat
  aborted : Prop
  log : List (ω × Nat)

namespace Claiming

variable {ω : Type*} {n : Nat} {c c' : Claiming ω}

/-- What does not undo anything that was settled or aborted. -/
structure Grows (c c' : Claiming ω) : Prop where
  settled : c.settled ⊆ c'.settled
  aborted : c.aborted → c'.aborted

theorem Grows.refl (c : Claiming ω) : Grows c c := ⟨subset_rfl, id⟩

/-- Every task has one worker at most, and no task is lost. -/
structure Orderly (n : Nat) (c : Claiming ω) : Prop where
  below : ∀ w i, c.holds w = some i → i < c.next
  one : ∀ w w' i, c.holds w = some i → c.holds w' = some i → w = w'
  logged : ∀ w i, (w, i) ∈ c.log → i < c.next
  owner : ∀ w w' i, c.holds w = some i → (w', i) ∈ c.log → w' = w
  once : ∀ w w' i, (w, i) ∈ c.log → (w', i) ∈ c.log → w = w'
  accounted : ∀ i, i < n → i < c.next → i ∈ c.settled ∨ (∃ w, c.holds w = some i) ∨ c.aborted

/-- Nobody has claimed anything. -/
theorem orderly_start (h : c.next = 0) (hholds : ∀ w, c.holds w = none) (hlog : c.log = []) :
    Orderly n c where
  below w i hw := by rw [hholds w] at hw; cases hw
  one w w' i hw := by rw [hholds w] at hw; cases hw
  logged w i hi := by rw [hlog] at hi; cases hi
  owner w w' i hw := by rw [hholds w] at hw; cases hw
  once w w' i hi := by rw [hlog] at hi; cases hi
  accounted i _ hi := by omega

/-- A job that ended: every task is settled. -/
theorem Orderly.all_settled (hc : Orderly n c) (hnext : n ≤ c.next) (hholds : ∀ w, c.holds w = none)
    (haborted : ¬c.aborted) : ∀ i, i < n → i ∈ c.settled := by
  intro i hi
  rcases hc.accounted i hi (by omega) with h | ⟨w, hw⟩ | h
  · exact h
  · rw [hholds w] at hw
    cases hw
  · exact absurd h haborted

variable [DecidableEq ω]

/-- A step of one worker. -/
inductive Step (n : Nat) (c c' : Claiming ω) : Prop
  | stay (hnext : c'.next = c.next) (hholds : c'.holds = c.holds) (hlog : c'.log = c.log)
    (hgrows : Grows c c')
  | claim (w : ω) (hfree : c.holds w = none) (hnext : c'.next = c.next + 1)
    (hholds : c'.holds = Function.update c.holds w (some c.next)) (hlog : c'.log = c.log)
    (hgrows : Grows c c')
  | pass (hlast : n ≤ c.next) (hnext : c'.next = c.next + 1) (hholds : c'.holds = c.holds)
    (hlog : c'.log = c.log) (hgrows : Grows c c')
  | work (w : ω) (i : Nat) (hon : c.holds w = some i) (hnext : c'.next = c.next)
    (hholds : c'.holds = c.holds) (hlog : c'.log = c.log ++ [(w, i)]) (hgrows : Grows c c')
  | leave (w : ω) (i : Nat) (hon : c.holds w = some i) (hdone : i ∈ c'.settled ∨ c'.aborted)
    (hnext : c'.next = c.next) (hholds : c'.holds = Function.update c.holds w none)
    (hlog : c'.log = c.log) (hgrows : Grows c c')

theorem Orderly.step (hc : Orderly n c) (h : Step n c c') : Orderly n c' := by
  cases h with
  | stay hnext hholds hlog hgrows =>
    refine ⟨?_, ?_, ?_, ?_, ?_, ?_⟩ <;> simp only [hnext, hholds, hlog]
    · exact hc.below
    · exact hc.one
    · exact hc.logged
    · exact hc.owner
    · exact hc.once
    · intro i hi hlt
      exact (hc.accounted i hi hlt).imp (@hgrows.settled i) (Or.imp_right hgrows.aborted)
  | pass hlast hnext hholds hlog hgrows =>
    refine ⟨?_, ?_, ?_, ?_, ?_, ?_⟩ <;> simp only [hnext, hholds, hlog]
    · exact fun w i h => Nat.lt_succ_of_lt (hc.below w i h)
    · exact hc.one
    · exact fun w i h => Nat.lt_succ_of_lt (hc.logged w i h)
    · exact hc.owner
    · exact hc.once
    · intro i hi _
      exact (hc.accounted i hi (by omega)).imp (@hgrows.settled i) (Or.imp_right hgrows.aborted)
  | work w i hon hnext hholds hlog hgrows =>
    have hlogged {w' : ω} {j : Nat} (h : (w', j) ∈ c.log ++ [(w, i)]) :
        (w', j) ∈ c.log ∨ w' = w ∧ j = i := by
      rcases List.mem_append.mp h with h | h
      · exact .inl h
      · exact .inr (Prod.mk.injEq .. ▸ List.mem_singleton.mp h)
    refine ⟨?_, ?_, ?_, ?_, ?_, ?_⟩ <;> simp only [hnext, hholds, hlog]
    · exact hc.below
    · exact hc.one
    · intro w' j hj
      rcases hlogged hj with hj | ⟨-, rfl⟩
      · exact hc.logged w' j hj
      · exact hc.below w j hon
    · intro v w' j hv hj
      rcases hlogged hj with hj | ⟨rfl, rfl⟩
      · exact hc.owner v w' j hv hj
      · exact hc.one w' v j hon hv
    · intro v w' j hv hj
      rcases hlogged hv with hv | ⟨hvw, hvi⟩ <;> rcases hlogged hj with hj | ⟨hjw, hji⟩
      · exact hc.once v w' j hv hj
      · rw [hjw]
        exact hc.owner w v i hon (hji ▸ hv)
      · rw [hvw]
        exact (hc.owner w w' i hon (hvi ▸ hj)).symm
      · rw [hvw, hjw]
    · intro j hj hlt
      exact (hc.accounted j hj hlt).imp (@hgrows.settled j) (Or.imp_right hgrows.aborted)
  | claim w hfree hnext hholds hlog hgrows =>
    have hcases {v : ω} {j : Nat} (h : c'.holds v = some j) :
        v = w ∧ j = c.next ∨ v ≠ w ∧ c.holds v = some j := by
      rw [hholds] at h
      by_cases hv : v = w
      · subst hv
        rw [Function.update_self] at h
        exact .inl ⟨rfl, (Option.some.inj h).symm⟩
      · rw [Function.update_of_ne hv] at h
        exact .inr ⟨hv, h⟩
    refine ⟨?_, ?_, ?_, ?_, ?_, ?_⟩
    · intro v j hv
      rw [hnext]
      rcases hcases hv with ⟨-, rfl⟩ | ⟨-, hv⟩
      · exact Nat.lt_succ_self _
      · exact Nat.lt_succ_of_lt (hc.below v j hv)
    · intro v v' j hv hv'
      rcases hcases hv with ⟨rfl, rfl⟩ | ⟨-, hv⟩ <;> rcases hcases hv' with ⟨rfl, hj⟩ | ⟨-, hv'⟩
      · rfl
      · exact absurd (hc.below v' _ hv') (lt_irrefl _)
      · exact absurd (hc.below v _ hv) (by omega)
      · exact hc.one v v' j hv hv'
    · rw [hlog, hnext]
      exact fun v j hv => Nat.lt_succ_of_lt (hc.logged v j hv)
    · rw [hlog]
      intro v w' j hv hj
      rcases hcases hv with ⟨-, rfl⟩ | ⟨-, hv⟩
      · exact absurd (hc.logged w' _ hj) (lt_irrefl _)
      · exact hc.owner v w' j hv hj
    · rw [hlog]
      exact hc.once
    · rw [hnext]
      intro i hi hlt
      by_cases hlast : i = c.next
      · exact .inr (.inl ⟨w, by rw [hholds, Function.update_self, hlast]⟩)
      · rcases hc.accounted i hi (by omega) with h | ⟨v, hv⟩ | h
        · exact .inl (hgrows.settled h)
        · have hvw : v ≠ w := by
            rintro rfl
            rw [hfree] at hv
            cases hv
          exact .inr (.inl ⟨v, by rw [hholds, Function.update_of_ne hvw, hv]⟩)
        · exact .inr (.inr (hgrows.aborted h))
  | leave w i hon hdone hnext hholds hlog hgrows =>
    have hkept {v : ω} {j : Nat} (h : c'.holds v = some j) : c.holds v = some j := by
      rw [hholds] at h
      by_cases hv : v = w
      · subst hv
        rw [Function.update_self] at h
        cases h
      · rwa [Function.update_of_ne hv] at h
    refine ⟨?_, ?_, ?_, ?_, ?_, ?_⟩
    · rw [hnext]
      exact fun v j hv => hc.below v j (hkept hv)
    · exact fun v v' j hv hv' => hc.one v v' j (hkept hv) (hkept hv')
    · rw [hlog, hnext]
      exact hc.logged
    · rw [hlog]
      exact fun v w' j hv => hc.owner v w' j (hkept hv)
    · rw [hlog]
      exact hc.once
    · rw [hnext]
      intro j hj hlt
      rcases hc.accounted j hj hlt with h | ⟨v, hv⟩ | h
      · exact .inl (hgrows.settled h)
      · by_cases hvw : v = w
        · subst hvw
          obtain rfl : i = j := Option.some.inj (hon.symm.trans hv)
          exact hdone.imp id .inr
        · exact .inr (.inl ⟨v, by rw [hholds, Function.update_of_ne hvw, hv]⟩)
      · exact .inr (.inr (hgrows.aborted h))

end Claiming

end Rsurl.Library
