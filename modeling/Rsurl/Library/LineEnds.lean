import Rsurl.Library.Delimited

/-!
# Lines that end in two symbols

A block of lines, each with its end, and an empty line: it is cut off at the first empty line, and
falls apart into its lines, if none of them is empty, exactly if none holds an end.
-/

namespace Rsurl.Library.LineEnds

variable {α : Type*} [DecidableEq α] {cr lf : α} {line : List α} {lines : List (List α)}

/-- The lines of a text, cut at every line end. -/
def splitLines (cr lf : α) : List α → List (List α)
  | [] => [[]]
  | [c] => [[c]]
  | c :: d :: rest =>
    if c = cr ∧ d = lf then [] :: splitLines cr lf rest
    else (splitLines cr lf (d :: rest)).modifyHead (c :: ·)

theorem splitLines_cons_cons (cr lf c d : α) (rest : List α) : splitLines cr lf (c :: d :: rest) =
    if c = cr ∧ d = lf then [] :: splitLines cr lf rest
    else (splitLines cr lf (d :: rest)).modifyHead (c :: ·) := rfl

/-- The lines, each with its end. -/
def joinLines (cr lf : α) (lines : List (List α)) : List α := lines.flatMap (· ++ [cr, lf])

omit [DecidableEq α] in
theorem not_infix_of_not_mem (h : cr ∉ line) : ¬[cr, lf] <:+: line :=
  fun hin => h (hin.subset List.mem_cons_self)

omit [DecidableEq α] in
/-- No line end begins in front of the one behind the line. -/
theorem not_prefix_of_not_infix (hends : cr ≠ lf) {c : α} (h : ¬[cr, lf] <:+: c :: line)
    (rest : List α) : ¬[cr, lf] <+: c :: (line ++ cr :: rest) := by
  intro hpre
  cases line with
  | nil =>
    obtain ⟨-, hpre⟩ := List.cons_prefix_cons.mp hpre
    exact hends (List.cons_prefix_cons.mp hpre).1.symm
  | cons d line =>
    obtain ⟨hc, hpre⟩ := List.cons_prefix_cons.mp hpre
    obtain ⟨hd, -⟩ := List.cons_prefix_cons.mp hpre
    rw [← hc, ← hd] at h
    exact h (List.prefix_append [cr, lf] line).isInfix

omit [DecidableEq α] in
theorem not_infix_tail {c : α} (h : ¬[cr, lf] <:+: c :: line) : ¬[cr, lf] <:+: line :=
  fun hin => h (hin.trans (List.suffix_cons c line).isInfix)

omit [DecidableEq α] in
/-- What is no part of a line end keeps two lines apart. -/
theorem infix_append_cons {c : α} (hcr : cr ≠ c) (hlf : lf ≠ c) (a b : List α) :
    [cr, lf] <:+: a ++ c :: b ↔ [cr, lf] <:+: a ∨ [cr, lf] <:+: b := by
  induction a with
  | nil =>
    have hpre : ¬[cr, lf] <+: c :: b := fun hpre => hcr (List.cons_prefix_cons.mp hpre).1
    rw [List.nil_append, List.infix_cons_iff, or_iff_right hpre, List.infix_nil,
      or_iff_right (List.cons_ne_nil _ _)]
  | cons x a ih =>
    have hpre : [cr, lf] <+: x :: (a ++ c :: b) ↔ [cr, lf] <+: x :: a := by
      cases a with
      | nil => simp [hlf]
      | cons y a => simp
    rw [List.cons_append, List.infix_cons_iff, hpre, ih, List.infix_cons_iff, or_assoc]

theorem splitLines_plain (h : ¬[cr, lf] <:+: line) : splitLines cr lf line = [line] := by
  induction line with
  | nil => rfl
  | cons c rest ih =>
    cases rest with
    | nil => rfl
    | cons d rest =>
      have hhere : ¬(c = cr ∧ d = lf) := by
        rintro ⟨rfl, rfl⟩
        exact h (List.prefix_append [c, d] rest).isInfix
      rw [splitLines_cons_cons, if_neg hhere, ih (not_infix_tail h)]
      rfl

theorem splitLines_append (hends : cr ≠ lf) (h : ¬[cr, lf] <:+: line) (rest : List α) :
    splitLines cr lf (line ++ cr :: lf :: rest) = line :: splitLines cr lf rest := by
  induction line with
  | nil => rw [List.nil_append, splitLines_cons_cons, if_pos ⟨rfl, rfl⟩]
  | cons c line ih =>
    have hpre := not_prefix_of_not_infix hends h (lf :: rest)
    obtain ⟨d, tail, htail⟩ : ∃ d tail, line ++ cr :: lf :: rest = d :: tail := by
      cases line <;> exact ⟨_, _, rfl⟩
    have hstep := ih (not_infix_tail h)
    rw [htail] at hpre hstep
    have hhere : ¬(c = cr ∧ d = lf) := by
      rintro ⟨rfl, rfl⟩
      exact hpre (List.prefix_append [c, d] tail)
    rw [List.cons_append, htail, splitLines_cons_cons, if_neg hhere, hstep]
    rfl

/-- The text between the lines is their ends. -/
theorem splitLines_intercalate (hends : cr ≠ lf) (h : ∀ line ∈ lines, ¬[cr, lf] <:+: line)
    (hne : lines ≠ []) : splitLines cr lf (List.intercalate [cr, lf] lines) = lines := by
  induction lines with
  | nil => exact absurd rfl hne
  | cons line rest ih =>
    have hline := h line List.mem_cons_self
    cases rest with
    | nil => simpa [List.intercalate] using splitLines_plain hline
    | cons next rest =>
      have hrest := ih (fun l hl => h l (List.mem_cons_of_mem line hl)) (List.cons_ne_nil _ _)
      have hjoin : List.intercalate [cr, lf] (line :: next :: rest) =
          line ++ cr :: lf :: List.intercalate [cr, lf] (next :: rest) := by
        simp [List.intercalate]
      rw [hjoin, splitLines_append hends hline, hrest]

theorem head_splitLines {c : α} {rest first : List α} {more : List (List α)}
    (h : splitLines cr lf (c :: rest) = first :: more) : first = [] ∨ first.head? = some c := by
  cases rest with
  | nil =>
    cases h
    exact .inr rfl
  | cons d rest =>
    rw [splitLines_cons_cons] at h
    split at h
    · exact .inl (List.cons.inj h).1.symm
    · cases hrest : splitLines cr lf (d :: rest) with
      | nil => rw [hrest] at h; cases h
      | cons next rest' =>
        rw [hrest] at h
        exact .inr (by rw [← (List.cons.inj h).1]; rfl)

/-- A line does not hold a line end. -/
theorem not_infix_of_mem_splitLines {l : List α} (h : line ∈ splitLines cr lf l) :
    ¬[cr, lf] <:+: line := by
  fun_induction splitLines cr lf l generalizing line with
  | case1 =>
    rw [List.mem_singleton.mp h]
    exact fun hin => absurd (List.infix_nil.mp hin) (List.cons_ne_nil _ _)
  | case2 c =>
    rw [List.mem_singleton.mp h]
    exact fun hin => absurd hin.length_le (by simp)
  | case3 c d rest hends ih =>
    rcases List.mem_cons.mp h with rfl | h
    · exact fun hin => absurd (List.infix_nil.mp hin) (List.cons_ne_nil _ _)
    · exact ih h
  | case4 c d rest hends ih =>
    cases hrest : splitLines cr lf (d :: rest) with
    | nil =>
      rw [hrest] at h
      cases h
    | cons first more =>
      rw [hrest] at h
      rcases List.mem_cons.mp h with rfl | h
      · have hfirst := ih (hrest ▸ List.mem_cons_self)
        rw [List.infix_cons_iff]
        rintro (hpre | hin)
        · obtain ⟨rfl, hlf, rfl⟩ := List.cons_prefix_cons.mp hpre
          rcases head_splitLines hrest with hnil | hhead
          · cases hnil
          · exact hends ⟨rfl, (Option.some.inj hhead).symm⟩
        · exact hfirst hin
      · exact ih (hrest ▸ List.mem_cons_of_mem _ h)

/-- What is before the line end is passed over. -/
theorem cutAt_line (hends : cr ≠ lf) (h : ¬[cr, lf] <:+: line) (sep rest : List α) :
    Delimited.cutAt (cr :: lf :: sep) (line ++ cr :: rest) =
      (Delimited.cutAt (cr :: lf :: sep) (cr :: rest)).map fun (x, r) => (line ++ x, r) := by
  induction line with
  | nil => simp
  | cons c line ih =>
    have hpre : ¬cr :: lf :: sep <+: c :: (line ++ cr :: rest) := fun hpre =>
      not_prefix_of_not_infix hends h rest ((List.prefix_append [cr, lf] sep).trans hpre)
    rw [List.cons_append, Delimited.cutAt, if_neg hpre, ih (not_infix_tail h), Option.map_map]
    rfl

/-- The block ends at the first empty line. -/
theorem cutAt_joinLines (hends : cr ≠ lf) (h : ∀ line ∈ lines, ¬[cr, lf] <:+: line)
    (hnil : [] ∉ lines) (hne : lines ≠ []) (rest : List α) :
    Delimited.cutAt [cr, lf, cr, lf] (joinLines cr lf lines ++ [cr, lf] ++ rest) =
      some (List.intercalate [cr, lf] lines, rest) := by
  induction lines with
  | nil => exact absurd rfl hne
  | cons line more ih =>
    have hline := h line List.mem_cons_self
    cases more with
    | nil =>
      have hwhole : joinLines cr lf [line] ++ [cr, lf] ++ rest =
          line ++ cr :: ([lf, cr, lf] ++ rest) := by
        simp [joinLines]
      have hend := Delimited.cutAt_append (List.cons_ne_nil cr [lf, cr, lf]) rest
      rw [List.cons_append] at hend
      rw [hwhole, cutAt_line hends hline, hend]
      simp [List.intercalate]
    | cons next more =>
      have hmore := ih (fun l hl => h l (List.mem_cons_of_mem line hl))
        (fun hmem => hnil (List.mem_cons_of_mem line hmem)) (List.cons_ne_nil _ _)
      have hwhole : joinLines cr lf (line :: next :: more) ++ [cr, lf] ++ rest =
          line ++ cr :: lf :: (joinLines cr lf (next :: more) ++ [cr, lf] ++ rest) := by
        simp [joinLines]
      have hjoin : List.intercalate [cr, lf] (line :: next :: more) =
          line ++ cr :: lf :: List.intercalate [cr, lf] (next :: more) := by
        simp [List.intercalate]
      -- the next line does not begin with another end
      have hnext : ¬[cr, lf] <+: joinLines cr lf (next :: more) ++ [cr, lf] ++ rest := by
        obtain ⟨c, tail, rfl⟩ : ∃ c tail, next = c :: tail :=
          List.exists_cons_of_ne_nil fun heq => hnil (heq ▸ by simp)
        have hafter : joinLines cr lf ((c :: tail) :: more) ++ [cr, lf] ++ rest =
            c :: (tail ++ cr :: lf :: (joinLines cr lf more ++ [cr, lf] ++ rest)) := by
          simp [joinLines]
        rw [hafter]
        exact not_prefix_of_not_infix hends (h (c :: tail) (by simp)) _
      generalize joinLines cr lf (next :: more) ++ [cr, lf] ++ rest = after at hmore hnext hwhole
      have hhere : ¬[cr, lf, cr, lf] <+: cr :: lf :: after := by simpa using hnext
      have hthere : ¬[cr, lf, cr, lf] <+: lf :: after := by simp [hends]
      rw [hwhole, cutAt_line hends hline, Delimited.cutAt, if_neg hhere, Delimited.cutAt,
        if_neg hthere, hmore, hjoin]
      rfl

/-- The block falls apart into the lines it was made of exactly if none holds an end. -/
theorem block_iff (hends : cr ≠ lf) (hnil : [] ∉ lines) (hne : lines ≠ []) (rest : List α) :
    (∃ block, Delimited.cutAt [cr, lf, cr, lf] (joinLines cr lf lines ++ [cr, lf] ++ rest) =
        some (block, rest) ∧ splitLines cr lf block = lines) ↔
      ∀ line ∈ lines, ¬[cr, lf] <:+: line := by
  constructor
  · rintro ⟨block, -, rfl⟩
    exact fun line => not_infix_of_mem_splitLines
  · intro h
    exact ⟨_, cutAt_joinLines hends h hnil hne rest, splitLines_intercalate hends h hne⟩

end Rsurl.Library.LineEnds

/-!
## Stuffed lines

A text of lines that is ended by a line of a single dot, so that a line that begins with a dot gets
another one. The receiver cuts at the line ends, stops at the single dot, and takes a leading dot
off every other line.
-/

namespace Rsurl.Library.Stuffing

open Delimited

variable {α : Type*} [DecidableEq α] {cr lf dot : α} {line x rest : List α}

def stuff (dot : α) (line : List α) : List α := if line.head? = some dot then dot :: line else line

def unstuff (dot : α) (line : List α) : List α := if line.head? = some dot then line.tail else line

theorem unstuff_stuff (dot : α) (line : List α) : unstuff dot (stuff dot line) = line := by
  unfold stuff
  by_cases h : line.head? = some dot
  · rw [if_pos h]
    exact if_pos rfl
  · rw [if_neg h]
    exact if_neg h

theorem stuff_ne_dot (dot : α) (line : List α) : stuff dot line ≠ [dot] := by
  intro h
  have hline := unstuff_stuff dot line
  rw [h] at hline
  have hnil : line = [] := hline.symm.trans (by simp [unstuff])
  rw [hnil] at h
  cases h

theorem length_cutAt {sep : List α} (hsep : sep ≠ []) {l : List α}
    (h : cutAt sep l = some (x, rest)) : rest.length < l.length := by
  induction l generalizing x with
  | nil => cases h
  | cons c l ih =>
    rw [cutAt] at h
    split at h
    · cases h
      have hpos := List.length_pos_iff.mpr hsep
      rw [List.length_drop, List.length_cons]
      omega
    · obtain ⟨⟨y, r⟩, hy, heq⟩ := Option.map_eq_some_iff.mp h
      cases heq
      exact Nat.lt_succ_of_lt (ih hy)

/-- The text up to the single dot, without the stuffing, and what follows. -/
def receive (cr lf dot : α) (l : List α) : Option (List α × List α) :=
  match h : cutAt [cr, lf] l with
  | none => none
  | some (line, rest) =>
    if line = [dot] then some ([], rest)
    else (receive cr lf dot rest).map fun (text, rest) =>
      (unstuff dot line ++ [cr, lf] ++ text, rest)
termination_by l.length
decreasing_by exact length_cutAt (List.cons_ne_nil _ _) h

/-- A line without the second symbol of an end is cut off whole, also after another first symbol. -/
theorem cutAt_line (hends : cr ≠ lf) (h : lf ∉ line) (rest : List α) :
    cutAt [cr, lf] (line ++ cr :: lf :: rest) = some (line, rest) := by
  induction line with
  | nil => exact cutAt_append (List.cons_ne_nil cr [lf]) rest
  | cons c line ih =>
    obtain ⟨hc, hline⟩ := List.ne_and_not_mem_of_not_mem_cons h
    have hpre : ¬[cr, lf] <+: c :: (line ++ cr :: lf :: rest) := by
      rintro ⟨tail, htail⟩
      cases line with
      | nil => exact hends (List.cons.inj (List.cons.inj htail).2).1.symm
      | cons d line =>
        exact hline ((List.cons.inj (List.cons.inj htail).2).1 ▸ List.mem_cons_self)
    rw [List.cons_append, cutAt, if_neg hpre, ih hline]
    rfl

theorem receive_of_cut {l : List α} (h : cutAt [cr, lf] l = some (line, rest)) :
    receive cr lf dot l = if line = [dot] then some ([], rest)
      else (receive cr lf dot rest).map fun (text, rest) =>
        (unstuff dot line ++ [cr, lf] ++ text, rest) := by
  rw [receive]
  split
  · rename_i hcut
    rw [h] at hcut
    cases hcut
  · rename_i line' rest' hcut
    rw [h] at hcut
    cases hcut
    rfl

theorem receive_line (hends : cr ≠ lf) (hdot : dot ≠ lf) (h : lf ∉ line) (rest : List α) :
    receive cr lf dot (stuff dot line ++ cr :: lf :: rest) =
      (receive cr lf dot rest).map fun (text, rest) => (line ++ [cr, lf] ++ text, rest) := by
  have hstuff : lf ∉ stuff dot line := by
    unfold stuff
    split
    · rw [List.mem_cons, not_or]
      exact ⟨hdot.symm, h⟩
    · exact h
  rw [receive_of_cut (cutAt_line hends hstuff rest), if_neg (stuff_ne_dot dot line),
    unstuff_stuff]

theorem receive_dot (hends : cr ≠ lf) (hdot : dot ≠ lf) (rest : List α) :
    receive cr lf dot (dot :: cr :: lf :: rest) = some ([], rest) := by
  have hline : lf ∉ [dot] := fun h => hdot (List.mem_singleton.mp h).symm
  exact (receive_of_cut (cutAt_line hends hline rest)).trans (if_pos rfl)

end Rsurl.Library.Stuffing
