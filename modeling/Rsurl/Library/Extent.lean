import Mathlib

/-!
# Lists written at an offset

A list that grows when something is written past its end, with a filler in the gap: what a file with
positional writes is. Changing the length is `List.takeD`, which cuts off or fills up.
-/

namespace Rsurl.Library.Extent

variable {α : Type*}

/-- Write `data` from `start` on. -/
def writeAt (filler : α) (start : Nat) (data xs : List α) : List α :=
  xs.takeD start filler ++ data ++ xs.drop (start + data.length)

theorem length_writeAt (filler : α) (start : Nat) (data xs : List α) :
    (writeAt filler start data xs).length = max xs.length (start + data.length) := by
  simp only [writeAt, List.length_append, List.takeD_length, List.length_drop]
  omega

theorem writeAt_zero (filler : α) (data : List α) : writeAt filler 0 data [] = data := by
  simp [writeAt]

theorem getElem?_takeD (filler : α) (n : Nat) (xs : List α) (i : Nat) :
    (xs.takeD n filler)[i]? = if i < n then some (xs[i]?.getD filler) else none := by
  induction n generalizing xs i with
  | zero => simp
  | succ n ih =>
    cases i with
    | zero => cases xs <;> simp
    | succ i => cases xs <;> simp [ih, List.getElem?_replicate]

/-- What was written is read back. -/
theorem getElem?_writeAt_of_mem (filler : α) {start i : Nat} (data xs : List α) (hi : i < data.length) :
    (writeAt filler start data xs)[start + i]? = data[i]? := by
  rw [writeAt, List.append_assoc, List.getElem?_append_right (by rw [List.takeD_length]; omega),
    List.takeD_length, Nat.add_sub_cancel_left, List.getElem?_append_left hi]

theorem getElem?_writeAt_of_lt (filler : α) {start i : Nat} (data xs : List α) (hi : i < start) :
    (writeAt filler start data xs)[i]? = some (xs[i]?.getD filler) := by
  rw [writeAt, List.append_assoc, List.getElem?_append_left (by rwa [List.takeD_length]),
    getElem?_takeD, if_pos hi]

theorem getElem?_writeAt_of_le (filler : α) {start i : Nat} (data xs : List α)
    (hi : start + data.length ≤ i) : (writeAt filler start data xs)[i]? = xs[i]? := by
  rw [writeAt, List.getElem?_append_right (by
    rw [List.length_append, List.takeD_length]
    exact hi), List.length_append, List.takeD_length, List.getElem?_drop,
    Nat.add_sub_cancel' hi]

/-- The list up to the end of the write. -/
theorem take_writeAt (filler : α) (start : Nat) (data xs : List α) :
    (writeAt filler start data xs).take (start + data.length) = xs.takeD start filler ++ data := by
  rw [writeAt, List.take_left' (by rw [List.length_append, List.takeD_length])]

/-- Into a list that is long enough the data is copied. -/
theorem writeAt_of_le (filler : α) {start : Nat} {data xs : List α}
    (h : start + data.length ≤ xs.length) :
    writeAt filler start data xs = xs.take start ++ data ++ xs.drop (start + data.length) := by
  rw [writeAt, List.takeD_eq_take filler (by omega)]

/-- Growing first makes no difference. -/
theorem writeAt_takeD (filler : α) {start n : Nat} {data xs : List α} (hxs : xs.length ≤ n)
    (hn : n ≤ start + data.length) :
    writeAt filler start data (xs.takeD n filler) = writeAt filler start data xs := by
  refine List.ext_getElem? fun i => ?_
  by_cases hlt : i < start
  · rw [getElem?_writeAt_of_lt filler data _ hlt, getElem?_writeAt_of_lt filler data _ hlt,
      getElem?_takeD]
    split
    · rfl
    · rw [List.getElem?_eq_none (by omega)]
  · by_cases hin : i < start + data.length
    · obtain ⟨j, rfl⟩ := Nat.exists_eq_add_of_le (Nat.le_of_not_lt hlt)
      rw [getElem?_writeAt_of_mem filler data _ (by omega),
        getElem?_writeAt_of_mem filler data _ (by omega)]
    · rw [getElem?_writeAt_of_le filler data _ (by omega),
        getElem?_writeAt_of_le filler data _ (by omega), getElem?_takeD, if_neg (by omega),
        List.getElem?_eq_none (by omega)]

end Rsurl.Library.Extent
