import Mathlib

/-!
# Delimited fields

A field that ends at the first occurrence of its delimiter is read back whole exactly if it does not
contain the delimiter.
-/

namespace Rsurl.Library.Delimited

variable {α : Type*} [DecidableEq α] {d : α} {l x rest : List α}

/-- What comes before the first delimiter, and what comes after it. -/
def upTo (d : α) : List α → Option (List α × List α)
  | [] => none
  | c :: rest => if c = d then some ([], rest) else (upTo d rest).map fun (x, r) => (c :: x, r)

theorem upTo_eq_some : upTo d l = some (x, rest) ↔ l = x ++ d :: rest ∧ d ∉ x := by
  induction l generalizing x with
  | nil => simp [upTo]
  | cons c l ih =>
    rw [upTo]
    by_cases hc : c = d
    · rw [if_pos hc]
      constructor
      · rintro ⟨⟩
        exact ⟨by rw [hc]; rfl, List.not_mem_nil⟩
      · rintro ⟨heq, hd⟩
        cases x with
        | nil => cases heq; rfl
        | cons y x =>
          cases heq
          exact absurd (hc ▸ List.mem_cons_self) hd
    · rw [if_neg hc]
      constructor
      · intro h
        obtain ⟨⟨y, r⟩, hy, heq⟩ := Option.map_eq_some_iff.mp h
        cases heq
        obtain ⟨rfl, hd⟩ := ih.mp hy
        exact ⟨rfl, fun hin => (List.mem_cons.mp hin).elim (fun h => hc h.symm) hd⟩
      · rintro ⟨heq, hd⟩
        cases x with
        | nil => exact absurd (List.cons.inj heq).1 hc
        | cons y x =>
          obtain ⟨rfl, rfl⟩ := List.cons.inj heq
          rw [ih.mpr ⟨rfl, fun hin => hd (.tail _ hin)⟩]
          rfl

theorem upTo_append (h : d ∉ x) (rest : List α) : upTo d (x ++ d :: rest) = some (x, rest) :=
  upTo_eq_some.mpr ⟨rfl, h⟩

/-- A list has one first delimiter. -/
theorem append_inj {y t : List α} (hx : d ∉ x) (hy : d ∉ y) (h : x ++ d :: rest = y ++ d :: t) :
    x = y ∧ rest = t := by
  have hcut := upTo_append hx rest
  rw [h, upTo_append hy t] at hcut
  cases hcut
  exact ⟨rfl, rfl⟩

/-! ## Delimiters of several symbols -/

/-- What comes before the first occurrence of `sep`, and what comes after it. -/
def cutAt (sep : List α) : List α → Option (List α × List α)
  | [] => none
  | c :: rest =>
    if sep <+: c :: rest then some ([], (c :: rest).drop sep.length)
    else (cutAt sep rest).map fun (x, r) => (c :: x, r)

theorem cutAt_append {sep : List α} (hsep : sep ≠ []) (rest : List α) :
    cutAt sep (sep ++ rest) = some ([], rest) := by
  obtain ⟨c, tail, rfl⟩ := List.exists_cons_of_ne_nil hsep
  have hpre : c :: tail <+: c :: (tail ++ rest) := List.prefix_append (c :: tail) rest
  rw [List.cons_append, cutAt, if_pos hpre, ← List.cons_append, List.drop_left]

/-- What does not hold the first symbol of the delimiter is passed over. -/
theorem cutAt_skip {sep : List α} (h : d ∉ x) (l : List α) :
    cutAt (d :: sep) (x ++ l) = (cutAt (d :: sep) l).map fun (y, r) => (x ++ y, r) := by
  induction x with
  | nil => simp
  | cons c x ih =>
    obtain ⟨hc, hx⟩ := List.ne_and_not_mem_of_not_mem_cons h
    have hpre : ¬(d :: sep) <+: c :: (x ++ l) := fun hpre => hc (List.cons_prefix_cons.mp hpre).1
    rw [List.cons_append, cutAt, if_neg hpre, ih hx, Option.map_map]
    rfl

/-- A text in which the delimiter does not occur is what comes before it. -/
theorem cutAt_of_not_infix {sep : List α} (hd : d ∉ sep) (h : ¬d :: sep <:+: x) (rest : List α) :
    cutAt (d :: sep) (x ++ (d :: sep ++ rest)) = some (x, rest) := by
  induction x with
  | nil => exact cutAt_append (List.cons_ne_nil d sep) rest
  | cons c x ih =>
    have hpre : ¬d :: sep <+: c :: x ++ (d :: sep ++ rest) := by
      intro hpre
      have hfront : c :: x <+: c :: x ++ (d :: sep ++ rest) := List.prefix_append _ _
      rcases Nat.le_total (d :: sep).length (c :: x).length with hle | hle
      · exact h (List.prefix_of_prefix_length_le hpre hfront hle).isInfix
      · -- the delimiter would begin again inside itself
        obtain ⟨u, hu⟩ := List.prefix_of_prefix_length_le hfront hpre hle
        rw [← hu, List.prefix_append_right_inj] at hpre
        obtain ⟨hc, hsep⟩ := List.cons.inj hu
        cases u with
        | nil =>
          rw [List.append_nil] at hu
          exact h (hu ▸ List.infix_rfl)
        | cons a u =>
          obtain ⟨had, -⟩ := List.cons_prefix_cons.mp hpre
          rw [had, hc] at hsep
          rw [← hsep] at hd
          exact hd (List.mem_append_right x List.mem_cons_self)
    rw [List.cons_append] at hpre ⊢
    rw [cutAt, if_neg hpre, ih fun hin => h (hin.trans (List.suffix_cons c x).isInfix)]
    rfl

theorem eq_of_cutAt {sep : List α} (h : cutAt sep l = some (x, rest)) : l = x ++ (sep ++ rest) := by
  induction l generalizing x with
  | nil => cases h
  | cons c l ih =>
    rw [cutAt] at h
    split at h
    · rename_i hpre
      cases h
      obtain ⟨r, hr⟩ := hpre
      rw [← hr, List.drop_left]
      rfl
    · obtain ⟨⟨y, r⟩, hy, heq⟩ := Option.map_eq_some_iff.mp h
      cases heq
      rw [ih hy]
      rfl

theorem not_infix_of_cutAt {sep : List α} (hsep : sep ≠ []) (h : cutAt sep l = none) :
    ¬sep <:+: l := by
  induction l with
  | nil => exact fun hin => hsep (List.infix_nil.mp hin)
  | cons c l ih =>
    rw [cutAt] at h
    split at h
    · cases h
    · rename_i hpre
      rw [List.infix_cons_iff]
      exact not_or.mpr ⟨hpre, ih (Option.map_eq_none_iff.mp h)⟩

/-- The first occurrence stays the first, whatever comes behind. -/
theorem cutAt_append_of_some {sep : List α} (h : cutAt sep l = some (x, rest)) (more : List α) :
    cutAt sep (l ++ more) = some (x, rest ++ more) := by
  induction l generalizing x with
  | nil => cases h
  | cons c l ih =>
    have hlen := congrArg List.length (eq_of_cutAt h)
    simp only [List.length_append] at hlen
    rw [List.cons_append, cutAt]
    rw [cutAt] at h
    split at h
    · rename_i hpre
      cases h
      have hlong : sep <+: c :: (l ++ more) := hpre.trans (List.prefix_append (c :: l) more)
      rw [if_pos hlong, ← List.cons_append, List.drop_append_of_le_length hpre.length_le]
    · rename_i hpre
      obtain ⟨⟨y, r⟩, hy, heq⟩ := Option.map_eq_some_iff.mp h
      cases heq
      have hpre' : ¬sep <+: c :: (l ++ more) := fun hpre' =>
        hpre (List.prefix_of_prefix_length_le hpre' (List.prefix_append (c :: l) more) (by omega))
      rw [if_neg hpre', ih hy]
      rfl

theorem length_cutAt {sep : List α} (hsep : sep ≠ []) (h : cutAt sep l = some (x, rest)) :
    rest.length < l.length := by
  have hpos := List.length_pos_iff.mpr hsep
  rw [eq_of_cutAt h, List.length_append, List.length_append]
  omega

/-! ## Escaped delimiters -/

/-- The delimiter and the escape symbol `e` have the escape symbol before them. -/
def escape (d e : α) (l : List α) : List α :=
  l.flatMap fun a => if a = d ∨ a = e then [e, a] else [a]

/-- What comes before the first delimiter that is not escaped, and what comes after it. -/
def unescapeTo (d e : α) : List α → Option (List α × List α)
  | [] => none
  | a :: l =>
    if a = d then some ([], l)
    else if a = e then match l with
      | [] => none
      | b :: l => (unescapeTo d e l).map fun (x, r) => (b :: x, r)
    else (unescapeTo d e l).map fun (x, r) => (a :: x, r)

variable {a b e : α}

theorem unescapeTo_delimiter (e : α) (l : List α) : unescapeTo d e (d :: l) = some ([], l) := by
  rw [unescapeTo.eq_def]
  exact if_pos rfl

theorem unescapeTo_escaped (hne : d ≠ e) (b : α) (l : List α) :
    unescapeTo d e (e :: b :: l) = (unescapeTo d e l).map fun (x, r) => (b :: x, r) := by
  rw [unescapeTo.eq_def]
  dsimp only
  rw [if_neg hne.symm, if_pos rfl]

theorem unescapeTo_plain (had : a ≠ d) (hae : a ≠ e) (l : List α) :
    unescapeTo d e (a :: l) = (unescapeTo d e l).map fun (x, r) => (a :: x, r) := by
  rw [unescapeTo.eq_def]
  dsimp only
  rw [if_neg had, if_neg hae]

theorem unescapeTo_escape (hne : d ≠ e) (x rest : List α) :
    unescapeTo d e (escape d e x ++ d :: rest) = some (x, rest) := by
  induction x with
  | nil => exact unescapeTo_delimiter e rest
  | cons a x ih =>
    have hcons : escape d e (a :: x) =
        (if a = d ∨ a = e then [e, a] else [a]) ++ escape d e x := List.flatMap_cons
    rw [hcons]
    by_cases ha : a = d ∨ a = e
    · rw [if_pos ha, List.append_assoc, List.cons_append, List.singleton_append,
        unescapeTo_escaped hne, ih]
      rfl
    · obtain ⟨had, hae⟩ := not_or.mp ha
      rw [if_neg ha, List.append_assoc, List.singleton_append, unescapeTo_plain had hae, ih]
      rfl

/-! ## Texts of fields -/

theorem length_upTo (h : upTo d l = some (x, rest)) : rest.length < l.length := by
  rw [(upTo_eq_some.mp h).1, List.length_append, List.length_cons]
  omega

/-- The fields of a text, if the last one has its delimiter too. -/
def fields (d : α) (l : List α) : Option (List (List α)) :=
  match h : upTo d l with
  | some (x, rest) => (fields d rest).map (x :: ·)
  | none => if l = [] then some [] else none
termination_by l.length
decreasing_by exact length_upTo h

theorem fields_flatMap {xs : List (List α)} (h : ∀ x ∈ xs, d ∉ x) :
    fields d (xs.flatMap (· ++ [d])) = some xs := by
  induction xs with
  | nil =>
    rw [fields]
    rfl
  | cons x xs ih =>
    obtain ⟨hx, hxs⟩ := List.forall_mem_cons.mp h
    have hcut : upTo d ((x :: xs).flatMap (· ++ [d])) = some (x, xs.flatMap (· ++ [d])) := by
      rw [List.flatMap_cons, List.append_assoc]
      exact upTo_append hx _
    rw [fields]
    split
    · rename_i y rest hy
      rw [hcut] at hy
      cases hy
      rw [ih hxs]
      rfl
    · rename_i hnone
      rw [hcut] at hnone
      cases hnone

end Rsurl.Library.Delimited
