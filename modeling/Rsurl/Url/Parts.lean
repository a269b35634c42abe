import Rsurl.Url
import Rsurl.Library.DotSegments

/-!
# The parts of a URL

What the searches of the parser find, and what an accepted URL is made of.
-/

namespace Rsurl.Text

/-! ## Searches -/

theorem drop_takeWhile (p : Char → Bool) (s : List Char) :
    s.drop (s.takeWhile p).length = s.dropWhile p := by
  have h : (s.takeWhile p ++ s.dropWhile p).drop (s.takeWhile p).length = s.dropWhile p :=
    List.drop_left
  rwa [List.takeWhile_append_dropWhile] at h

variable {sep : List Char} {c : Char} {s before after : List Char}

theorem eq_of_splitOnceAt (h : splitOnceAt sep s = some (before, after)) :
    s = before ++ sep ++ after := by
  induction s generalizing before with
  | nil => cases h
  | cons d rest ih =>
    rw [splitOnceAt] at h
    split at h
    · rename_i hpre
      cases h
      rw [List.isPrefixOf_iff_prefix] at hpre
      exact (List.prefix_iff_eq_append.mp hpre).symm
    · obtain ⟨⟨b, a⟩, hrest, heq⟩ := Option.map_eq_some_iff.mp h
      cases heq
      rw [ih hrest]
      rfl

/-- The first separator is found where nothing before it holds its first character. -/
theorem splitOnceAt_append {tail : List Char} (h : c ∉ before) (after : List Char) :
    splitOnceAt (c :: tail) (before ++ c :: tail ++ after) = some (before, after) := by
  induction before with
  | nil =>
    have hpre : (c :: tail).isPrefixOf (c :: (tail ++ after)) = true :=
      List.isPrefixOf_iff_prefix.mpr (List.prefix_append (c :: tail) after)
    rw [List.nil_append, List.cons_append, splitOnceAt, if_pos hpre]
    simp
  | cons d rest ih =>
    obtain ⟨hd, hrest⟩ := List.ne_and_not_mem_of_not_mem_cons h
    have hpre : ¬(c :: tail).isPrefixOf (d :: (rest ++ c :: tail ++ after)) = true := by
      simp [hd]
    rw [List.cons_append, List.cons_append, splitOnceAt, if_neg hpre, ih hrest]
    rfl

theorem splitOnceAt_eq_none : splitOnceAt [c] s = none ↔ c ∉ s := by
  induction s with
  | nil => simp [splitOnceAt]
  | cons d rest ih =>
    rw [splitOnceAt]
    by_cases hd : c = d
    · simp [hd]
    · simp [hd, ih]

theorem splitOnceAt_eq_some :
    splitOnceAt [c] s = some (before, after) ↔ s = before ++ c :: after ∧ c ∉ before := by
  constructor
  · intro h
    refine ⟨by simpa using eq_of_splitOnceAt h, ?_⟩
    induction s generalizing before with
    | nil => cases h
    | cons d rest ih =>
      rw [splitOnceAt] at h
      split at h
      · cases h
        exact List.not_mem_nil
      · rename_i hne
        obtain ⟨⟨b, a⟩, hrest, heq⟩ := Option.map_eq_some_iff.mp h
        cases heq
        have hd : c ≠ d := by simpa using hne
        exact List.not_mem_cons_of_ne_of_not_mem hd (ih hrest)
  · rintro ⟨rfl, h⟩
    simpa using (@splitOnceAt_append c before [] h after)

theorem rtakeWhile_append (h : c ∉ after) :
    (before ++ c :: after).rtakeWhile (· ≠ c) = after := by
  have hall : ∀ d ∈ after.reverse, decide (d ≠ c) = true := fun d hd =>
    decide_eq_true fun heq => h (heq ▸ List.mem_reverse.mp hd)
  rw [List.rtakeWhile, List.reverse_append, List.reverse_cons, List.append_assoc,
    List.takeWhile_append_of_pos hall]
  simp

theorem rsplitOnce_append (h : c ∉ after) :
    rsplitOnce c (before ++ c :: after) = some (before, after) := by
  have hlen : (before ++ c :: after).length - after.length - 1 = before.length := by
    rw [List.length_append, List.length_cons]
    omega
  unfold rsplitOnce
  rw [rtakeWhile_append h]
  dsimp only
  rw [if_neg (by rw [List.length_append, List.length_cons]; omega), hlen, List.take_left]

theorem rsplitOnce_eq_none : rsplitOnce c s = none ↔ c ∉ s := by
  constructor
  · intro h hmem
    obtain ⟨front, back, heq, hfront⟩ := List.eq_append_cons_of_mem (List.mem_reverse.mpr hmem)
    have hs := congrArg List.reverse heq
    rw [List.reverse_reverse, List.reverse_append, List.reverse_cons, List.append_assoc] at hs
    rw [hs, List.singleton_append, rsplitOnce_append (by simpa using hfront)] at h
    cases h
  · intro h
    have hall : s.rtakeWhile (· ≠ c) = s :=
      List.rtakeWhile_eq_self_iff.mpr fun d hd => decide_eq_true fun heq => h (heq ▸ hd)
    unfold rsplitOnce
    rw [hall]
    simp

theorem rsplitOnce_eq_some :
    rsplitOnce c s = some (before, after) ↔ s = before ++ c :: after ∧ c ∉ after := by
  constructor
  · intro h
    have hmem : c ∈ s := by
      by_contra hnot
      rw [rsplitOnce_eq_none.mpr hnot] at h
      cases h
    obtain ⟨front, back, heq, hfront⟩ := List.eq_append_cons_of_mem (List.mem_reverse.mpr hmem)
    have hs := congrArg List.reverse heq
    rw [List.reverse_reverse, List.reverse_append, List.reverse_cons, List.append_assoc,
      List.singleton_append] at hs
    have hback : c ∉ front.reverse := by simpa using hfront
    rw [hs, rsplitOnce_append hback] at h
    cases h
    exact ⟨hs, hback⟩
  · rintro ⟨rfl, h⟩
    exact rsplitOnce_append h

end Rsurl.Text
