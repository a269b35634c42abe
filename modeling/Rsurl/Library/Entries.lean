import Mathlib.Data.List.Sort

/-!
# Maps as sorted entries

A map over ordered keys is the list of its entries, the keys ascending and none twice. Entries in any
other order, still no key twice, are the entries of one map.
-/

namespace Rsurl.Library.Entries

universe u v

/-! ## Keys -/

section Keys

variable {κ : Type u} {α : Type v} {m m' : List (κ × α)} {k : κ} {a : α}

/-- No key twice. -/
def Distinct (m : List (κ × α)) : Prop := (m.map Prod.fst).Nodup

theorem distinct_iff_of_perm (h : m.Perm m') : Distinct m ↔ Distinct m' := (h.map _).nodup_iff

theorem distinct_append_singleton :
    Distinct (m ++ [(k, a)]) ↔ Distinct m ∧ k ∉ m.map Prod.fst := by
  rw [Distinct, List.map_append, List.map_singleton, List.nodup_append_comm, List.singleton_append,
    List.nodup_cons]
  exact and_comm

variable [BEq κ] [LawfulBEq κ]

theorem lookup_eq_some_iff (h : Distinct m) : m.lookup k = some a ↔ (k, a) ∈ m := by
  induction m with
  | nil => simp
  | cons e m ih =>
    obtain ⟨k', a'⟩ := e
    rw [Distinct, List.map_cons, List.nodup_cons] at h
    rw [List.lookup_cons, List.mem_cons, Prod.mk.injEq]
    by_cases hk : k = k'
    · subst hk
      have hnot : (k, a) ∉ m := fun hmem => h.1 (List.mem_map.mpr ⟨_, hmem, rfl⟩)
      simp [hnot, eq_comm]
    · have hbeq : (k == k') = false := by simpa using hk
      simp [hbeq, hk, ih h.2]

end Keys

/-! ## Order -/

section Order

variable {κ : Type u} {α : Type v} [LE κ] {m m' : List (κ × α)} {k : κ} {a : α}

/-- By key. -/
def Before (a b : κ × α) : Prop := a.1 ≤ b.1

instance [DecidableLE κ] : DecidableRel (Before (κ := κ) (α := α)) := fun a b =>
  inferInstanceAs (Decidable (a.1 ≤ b.1))

structure IsMap (m : List (κ × α)) : Prop where
  ascending : m.Pairwise Before
  distinct : Distinct m

/-- There is one order for the entries of a map. -/
theorem IsMap.eq_of_perm [Std.IsLinearOrder κ] (h : IsMap m) (h' : IsMap m') (hperm : m.Perm m') :
    m = m' := by
  refine List.Perm.eq_of_pairwise (fun a b ha hb hab hba => ?_) h.ascending h'.ascending hperm
  exact List.inj_on_of_nodup_map h.distinct ha (hperm.mem_iff.mpr hb) (Std.le_antisymm hab hba)

variable [DecidableLE κ]

def sort (m : List (κ × α)) : List (κ × α) := m.insertionSort Before

theorem sort_perm (m : List (κ × α)) : (sort m).Perm m := List.perm_insertionSort _ m

/-- Another entry, whose key is not there yet. -/
def insert [BEq κ] [LawfulBEq κ] (m : List (κ × α)) (k : κ) (a : α) : Option (List (κ × α)) :=
  if k ∈ m.map Prod.fst then none else some (m.orderedInsert Before (k, a))

theorem insert_eq_none [BEq κ] [LawfulBEq κ] : insert m k a = none ↔ k ∈ m.map Prod.fst := by
  unfold insert
  split <;> simp_all

theorem mem_keys_insert [BEq κ] [LawfulBEq κ] (h : insert m k a = some m') (x : κ) :
    x ∈ m'.map Prod.fst ↔ x = k ∨ x ∈ m.map Prod.fst := by
  unfold insert at h
  split at h
  · cases h
  · cases h
    rw [((List.perm_orderedInsert Before (k, a) m).map Prod.fst).mem_iff, List.map_cons,
      List.mem_cons]

variable [Std.IsLinearOrder κ]

instance : Std.Total (Before (κ := κ) (α := α)) where
  total a b := Std.le_total (a := a.1) (b := b.1)

instance : IsTrans (κ × α) Before where
  trans _ _ _ := Std.le_trans

theorem isMap_sort (h : Distinct m) : IsMap (sort m) :=
  ⟨List.pairwise_insertionSort _ m, (distinct_iff_of_perm (sort_perm m)).mpr h⟩

/-- Entry by entry comes to the same as all at once. -/
theorem insert_sort [BEq κ] [LawfulBEq κ] (h : Distinct m) : insert (sort m) k a =
    if k ∈ m.map Prod.fst then none else some (sort (m ++ [(k, a)])) := by
  rw [insert]
  simp only [((sort_perm m).map Prod.fst).mem_iff]
  split
  · rfl
  rename_i hk
  have hdistinct : Distinct (m ++ [(k, a)]) := distinct_append_singleton.mpr ⟨h, hk⟩
  have hperm : ((sort m).orderedInsert Before (k, a)).Perm (m ++ [(k, a)]) :=
    (List.perm_orderedInsert _ _ _).trans
      (((sort_perm m).cons _).trans (List.perm_append_singleton _ _).symm)
  congr 1
  refine IsMap.eq_of_perm ⟨?_, (distinct_iff_of_perm hperm).mpr hdistinct⟩ (isMap_sort hdistinct)
    (hperm.trans (sort_perm _).symm)
  exact (List.pairwise_insertionSort _ m).orderedInsert _ _

end Order

end Rsurl.Library.Entries
