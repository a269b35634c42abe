import Mathlib

/-!
# Size-bounded first-in first-out tables

A table is a list of entries, newest first, with a running total of their sizes. Entries leave
from the old end until an incoming entry fits under the cap. `Consistent` says that the total is
the sum of the sizes; every operation keeps it, and under it a table always fits its last cap.
-/

namespace Rsurl.Library.Fifo

variable {α : Type*} (size : α → Nat)

/-- Drop entries, oldest first, until the total and the incoming size fit the cap. -/
def evictOldest (cap incoming : Nat) : List α → Nat → List α × Nat
  | [], total => ([], total)
  | e :: newer, total =>
    if cap < total + incoming then evictOldest cap incoming newer (total - size e)
    else (e :: newer, total)

def evict (cap incoming : Nat) (table : List α × Nat) : List α × Nat :=
  let kept := evictOldest size cap incoming table.1.reverse table.2
  (kept.1.reverse, kept.2)

/-- Insert at the new end; an entry larger than the cap empties the table instead. -/
def insert (cap : Nat) (e : α) (table : List α × Nat) : List α × Nat :=
  if cap < size e then ([], 0)
  else
    let kept := evict size cap (size e) table
    (e :: kept.1, kept.2 + size e)

/-- The running total is the sum of the entry sizes. -/
def Consistent (table : List α × Nat) : Prop := table.2 = (table.1.map size).sum

variable {size}

theorem evictOldest_fits {cap incoming : Nat} {entries : List α} {total : Nat}
    (h : total + incoming ≤ cap) : evictOldest size cap incoming entries total =
      (entries, total) := by
  cases entries with
  | nil => rfl
  | cons e newer => rw [evictOldest, if_neg (by omega)]

theorem evict_of_fits {cap incoming : Nat} {table : List α × Nat}
    (h : table.2 + incoming ≤ cap) : evict size cap incoming table = table := by
  simp [evict, evictOldest_fits h]

/-- Evicting for two caps in turn is evicting for the smaller one. -/
theorem evictOldest_twice (a b : Nat) (entries : List α) (total : Nat) :
    evictOldest size b 0 (evictOldest size a 0 entries total).1
      (evictOldest size a 0 entries total).2 =
      evictOldest size (min a b) 0 entries total := by
  induction entries generalizing total with
  | nil => rfl
  | cons e newer ih =>
    by_cases ha : a < total + 0
    · have hmin : min a b < total + 0 := by omega
      rw [evictOldest, evictOldest, if_pos ha, if_pos hmin, ih]
    · rw [show evictOldest size a 0 (e :: newer) total = (e :: newer, total) by
        rw [evictOldest, if_neg ha]]
      by_cases hb : b < total + 0
      · rw [evictOldest, evictOldest, if_pos hb, if_pos (by omega)]
        -- below the first cap only the second one decides
        have hsame : ∀ (l : List α) (t : Nat), t ≤ a →
            evictOldest size b 0 l t = evictOldest size (min a b) 0 l t := by
          intro l
          induction l with
          | nil => intros; rfl
          | cons x xs ihx =>
            intro t ht
            rw [evictOldest, evictOldest]
            by_cases hx : b < t + 0
            · rw [if_pos hx, if_pos (by omega), ihx _ (by omega)]
            · rw [if_neg hx, if_neg (by omega)]
        exact hsame newer _ (by omega)
      · rw [evictOldest, evictOldest, if_neg hb, if_neg (by omega)]

theorem evict_evict (a b : Nat) (table : List α × Nat) :
    evict size b 0 (evict size a 0 table) = evict size (min a b) 0 table := by
  simp only [evict, List.reverse_reverse, evictOldest_twice]

theorem evictOldest_total (cap incoming : Nat) {entries : List α} {total : Nat}
    (h : total = (entries.map size).sum) :
    (evictOldest size cap incoming entries total).2 =
        ((evictOldest size cap incoming entries total).1.map size).sum ∧
      ((evictOldest size cap incoming entries total).2 + incoming ≤ cap ∨
        (evictOldest size cap incoming entries total).1 = []) := by
  induction entries generalizing total with
  | nil => exact ⟨h, .inr rfl⟩
  | cons e newer ih =>
    rw [evictOldest]
    split
    · refine ih ?_
      simp only [List.map_cons, List.sum_cons] at h
      omega
    · exact ⟨h, .inl (by omega)⟩

theorem Consistent.sum_reverse {table : List α × Nat} (h : Consistent size table) :
    table.2 = (table.1.reverse.map size).sum := by
  rw [List.map_reverse, List.sum_reverse]
  exact h

theorem Consistent.evict {table : List α × Nat} (h : Consistent size table) (cap incoming : Nat) :
    Consistent size (evict size cap incoming table) := by
  have := (evictOldest_total cap incoming h.sum_reverse).1
  rw [Consistent, Fifo.evict, List.map_reverse, List.sum_reverse]
  exact this

/-- After eviction the incoming entry fits, if it fits an empty table. -/
theorem Consistent.evict_fits {table : List α × Nat} (h : Consistent size table)
    {cap incoming : Nat} (hin : incoming ≤ cap) :
    (Fifo.evict size cap incoming table).2 + incoming ≤ cap := by
  obtain ⟨htotal, hfit | hempty⟩ :=
    evictOldest_total cap incoming h.sum_reverse
  · exact hfit
  · rw [hempty] at htotal
    simp only [List.map_nil, List.sum_nil] at htotal
    simp only [Fifo.evict, htotal]
    omega

theorem Consistent.insert {table : List α × Nat} (h : Consistent size table) (cap : Nat) (e : α) :
    Consistent size (insert size cap e table) := by
  unfold Fifo.insert
  split
  · rfl
  · have := h.evict cap (size e)
    simp only [Consistent, List.map_cons, List.sum_cons] at this ⊢
    omega

theorem Consistent.insert_fits {table : List α × Nat} (h : Consistent size table) (cap : Nat)
    (e : α) : (Fifo.insert size cap e table).2 ≤ cap := by
  unfold Fifo.insert
  split
  · exact Nat.zero_le _
  · exact h.evict_fits (by omega)

end Rsurl.Library.Fifo
