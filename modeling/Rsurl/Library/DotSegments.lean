import Mathlib

/-!
# Dot segments

How `.` and `..` are removed from a path (RFC 3986, section 5.2.4): by a loop over an input and an
output buffer, and, for an absolute path, on the list of its segments. The two agree.
-/

namespace Rsurl.Library.DotSegments

def dot : List Char := ['.']
def dotDot : List Char := ['.', '.']

/-- The absolute path with these segments. -/
def join (segments : List (List Char)) : List Char := segments.flatMap ('/' :: ·)

/-- The output buffer without its last segment and the slash before it. -/
def dropSegment (out : List Char) : List Char := (out.rdropWhile (· ≠ '/')).dropLast

/-- The first segment of the input buffer, with the slash before it. -/
def firstSegment (input : List Char) : List Char :=
  input.take 1 ++ (input.drop 1).takeWhile (· ≠ '/')

/-- The loop over the buffers, by its steps A to E. -/
def removeDots (input out : List Char) : List Char :=
  if input = [] then out
  else if "../".toList <+: input then removeDots (input.drop 3) out
  else if "./".toList <+: input then removeDots (input.drop 2) out
  else if "/./".toList <+: input then removeDots (input.drop 2) out
  else if input = "/.".toList then removeDots ['/'] out
  else if "/../".toList <+: input then removeDots (input.drop 3) (dropSegment out)
  else if input = "/..".toList then removeDots ['/'] (dropSegment out)
  else if input = dot ∨ input = dotDot then removeDots [] out
  else removeDots (input.drop (firstSegment input).length) (out ++ firstSegment input)
termination_by input.length
decreasing_by
  all_goals
    have hpos := List.length_pos_iff.mpr ‹¬input = []›
    simp_all [firstSegment]
    try omega

/-- What is left of the segments kept so far and those to come. A dot segment at the end leaves the
directory it stands for. -/
def resolve : List (List Char) → List (List Char) → List (List Char)
  | out, [] => out
  | out, [seg] =>
    if seg = dot then out ++ [[]] else if seg = dotDot then out.dropLast ++ [[]] else out ++ [seg]
  | out, seg :: rest =>
    resolve (if seg = dot then out else if seg = dotDot then out.dropLast else out ++ [seg]) rest

theorem resolve_nil (out : List (List Char)) : resolve out [] = out := rfl

theorem resolve_singleton (out : List (List Char)) (seg : List Char) : resolve out [seg] =
    if seg = dot then out ++ [[]]
    else if seg = dotDot then out.dropLast ++ [[]] else out ++ [seg] := rfl

theorem resolve_cons (out : List (List Char)) (seg next : List Char) (rest : List (List Char)) :
    resolve out (seg :: next :: rest) =
      resolve (if seg = dot then out else if seg = dotDot then out.dropLast else out ++ [seg])
        (next :: rest) := rfl

/-- A reference in the directory of the base (section 5.2.3). -/
def merge (base path : List Char) : List Char := base.rdropWhile (· ≠ '/') ++ path

/-- The target of a reference without scheme and authority (section 5.2.2). A query carries its
question mark, and is empty where there is none. -/
def target (base baseQuery path query : List Char) : List Char :=
  if path = [] then base ++ if query = [] then baseQuery else query
  else if path.head? = some '/' then removeDots path [] ++ query
  else removeDots (merge base path) [] ++ query

/-! ## Joined segments -/

@[simp] theorem join_nil : join [] = [] := rfl

@[simp] theorem join_cons (seg : List Char) (rest : List (List Char)) :
    join (seg :: rest) = '/' :: seg ++ join rest := rfl

@[simp] theorem join_append (front back : List (List Char)) :
    join (front ++ back) = join front ++ join back := List.flatMap_append

theorem join_eq_intercalate {segments : List (List Char)} (h : segments ≠ []) :
    join segments = '/' :: List.intercalate ['/'] segments := by
  induction segments with
  | nil => exact absurd rfl h
  | cons seg rest ih =>
    cases rest with
    | nil => simp [List.intercalate]
    | cons next rest =>
      rw [join_cons, ih (List.cons_ne_nil _ _)]
      simp [List.intercalate, List.intersperse]

/-- A segment ends where the next one begins. -/
theorem takeWhile_join {seg : List Char} (h : '/' ∉ seg) (rest : List (List Char)) :
    (seg ++ join rest).takeWhile (· ≠ '/') = seg := by
  have hall : ∀ c ∈ seg, decide (c ≠ '/') = true := fun c hc =>
    decide_eq_true fun heq => h (heq ▸ hc)
  rw [List.takeWhile_append_of_pos hall]
  cases rest <;> simp

theorem firstSegment_join {seg : List Char} (h : '/' ∉ seg) (rest : List (List Char)) :
    firstSegment (join (seg :: rest)) = '/' :: seg := by
  rw [join_cons, firstSegment]
  exact congrArg ('/' :: ·) (takeWhile_join h rest)

/-- Only the segment itself can begin the path and end at a slash. -/
theorem eq_of_isPrefix {seg front : List Char} (h : '/' ∉ seg) (hfront : '/' ∉ front)
    {rest : List (List Char)} (hpre : '/' :: front ++ ['/'] <+: join (seg :: rest)) : seg = front := by
  obtain ⟨tail, htail⟩ := hpre
  rw [join_cons, List.cons_append, List.cons_append, List.cons_append, List.cons.injEq] at htail
  have hcut := congrArg (List.takeWhile (· ≠ '/')) htail.2
  have hall : ∀ c ∈ front, decide (c ≠ '/') = true := fun c hc =>
    decide_eq_true fun heq => hfront (heq ▸ hc)
  rw [takeWhile_join h, List.append_assoc, List.takeWhile_append_of_pos hall] at hcut
  simpa using hcut.symm

theorem eq_of_join {seg front : List Char} (h : '/' ∉ seg) (hfront : '/' ∉ front)
    {rest : List (List Char)} (heq : join (seg :: rest) = '/' :: front) :
    seg = front ∧ rest = [] := by
  rw [join_cons, List.cons_append, List.cons.injEq] at heq
  have hcut := congrArg (List.takeWhile (· ≠ '/')) heq.2
  have hwhole := takeWhile_join hfront []
  rw [join_nil, List.append_nil] at hwhole
  rw [takeWhile_join h, hwhole] at hcut
  subst hcut
  cases rest with
  | nil => exact ⟨rfl, rfl⟩
  | cons next rest => simp at heq

theorem dropSegment_join {out : List (List Char)} (h : ∀ seg ∈ out, '/' ∉ seg) :
    dropSegment (join out) = join out.dropLast := by
  induction out using List.reverseRecOn with
  | nil => rfl
  | append_singleton out seg _ =>
    have hseg : '/' ∉ seg := h seg (by simp)
    have hlast : (join out ++ '/' :: seg).rdropWhile (· ≠ '/') = join out ++ ['/'] := by
      have hall : ∀ c ∈ seg.reverse, decide (c ≠ '/') = true := fun c hc =>
        decide_eq_true fun heq => hseg (heq ▸ List.mem_reverse.mp hc)
      rw [List.rdropWhile, List.reverse_append, List.reverse_cons, List.append_assoc,
        List.dropWhile_append_of_pos hall]
      simp
    rw [List.dropLast_concat, join_append, join_cons, join_nil, List.append_nil, dropSegment, hlast,
      List.dropLast_concat]

/-- Segments are made of the path's characters, slashes apart. -/
theorem forall_splitOn {P : Char → Prop} {path : List Char} (h : ∀ c ∈ path, c ≠ '/' → P c) :
    ∀ s ∈ path.splitOn '/', ∀ c ∈ s, P c := by
  induction path with
  | nil => simp
  | cons d rest ih =>
    have hrest := ih fun c hc => h c (List.mem_cons_of_mem d hc)
    rw [List.splitOn_cons_eq_if_modifyHead]
    split
    · intro s hs
      rcases List.mem_cons.mp hs with rfl | hs
      · simp
      · exact hrest s hs
    · rename_i hd
      obtain ⟨first, more, heq⟩ := List.exists_cons_of_ne_nil (List.splitOn_ne_nil '/' rest)
      rw [heq, List.modifyHead_cons]
      rw [heq] at hrest
      intro s hs c hc
      rcases List.mem_cons.mp hs with rfl | hs
      · rcases List.mem_cons.mp hc with rfl | hc
        · exact h c List.mem_cons_self (by simpa using hd)
        · exact hrest first List.mem_cons_self c hc
      · exact hrest s (List.mem_cons_of_mem first hs) c hc

theorem slash_not_mem_splitOn (path : List Char) : ∀ s ∈ path.splitOn '/', '/' ∉ s :=
  fun s hs hmem => forall_splitOn (P := (· ≠ '/')) (fun _ _ hc => hc) s hs '/' hmem rfl

theorem join_splitOn (path : List Char) : join (path.splitOn '/') = '/' :: path := by
  rw [join_eq_intercalate (List.splitOn_ne_nil _ _), List.intercalate_splitOn]

theorem splitOn_slash_cons (path : List Char) :
    ('/' :: path).splitOn '/' = [] :: path.splitOn '/' := by
  rw [List.splitOn_cons_eq_if_modifyHead, if_pos (by decide)]

theorem splitOn_join {segments : List (List Char)} (h : ∀ s ∈ segments, '/' ∉ s)
    (hne : segments ≠ []) : (join segments).splitOn '/' = [] :: segments := by
  rw [join_eq_intercalate hne, splitOn_slash_cons, List.splitOn_intercalate '/' h hne]

/-! ## The steps on an absolute path -/

variable {seg : List Char} {rest out : List (List Char)}

theorem removeDots_nil (out : List Char) : removeDots [] out = out := by
  rw [removeDots, if_pos rfl]

theorem removeDots_root (out : List Char) : removeDots ['/'] out = out ++ ['/'] := by
  rw [removeDots, if_neg (by simp), if_neg (by decide), if_neg (by decide), if_neg (by decide),
    if_neg (by decide), if_neg (by decide), if_neg (by decide), if_neg (by decide)]
  exact removeDots_nil _

/-- An absolute path takes neither step A nor step D. -/
theorem removeDots_absolute (path out : List Char) :
    removeDots ('/' :: path) out =
      if "/./".toList <+: '/' :: path then removeDots (('/' :: path).drop 2) out
      else if '/' :: path = "/.".toList then removeDots ['/'] out
      else if "/../".toList <+: '/' :: path then
        removeDots (('/' :: path).drop 3) (dropSegment out)
      else if '/' :: path = "/..".toList then removeDots ['/'] (dropSegment out)
      else removeDots (('/' :: path).drop (firstSegment ('/' :: path)).length)
        (out ++ firstSegment ('/' :: path)) := by
  have hup : ¬"../".toList <+: '/' :: path := by simp
  have hhere : ¬"./".toList <+: '/' :: path := by simp
  have hlone : ¬('/' :: path = dot ∨ '/' :: path = dotDot) := by simp [dot, dotDot]
  rw [removeDots, if_neg (List.cons_ne_nil _ _), if_neg hup, if_neg hhere, if_neg hlone]

theorem removeDots_dot (out : List Char) :
    removeDots (join (dot :: rest)) out =
      if rest = [] then out ++ ['/'] else removeDots (join rest) out := by
  cases rest with
  | nil =>
    rw [if_pos rfl, join_cons, List.cons_append, removeDots_absolute, if_neg (by decide),
      if_pos (by decide), removeDots_root]
  | cons next rest =>
    rw [if_neg (List.cons_ne_nil _ _), join_cons, List.cons_append, removeDots_absolute,
      if_pos (by simp [dot])]
    rfl

theorem removeDots_dotDot (out : List Char) :
    removeDots (join (dotDot :: rest)) out =
      if rest = [] then dropSegment out ++ ['/'] else removeDots (join rest) (dropSegment out) := by
  cases rest with
  | nil =>
    rw [if_pos rfl, join_cons, List.cons_append, removeDots_absolute, if_neg (by decide),
      if_neg (by decide), if_neg (by decide), if_pos (by decide), removeDots_root]
  | cons next rest =>
    rw [if_neg (List.cons_ne_nil _ _), join_cons, List.cons_append, removeDots_absolute,
      if_neg (by simp [dotDot]), if_neg (by simp [dotDot]), if_pos (by simp [dotDot])]
    rfl

theorem removeDots_plain (h : '/' ∉ seg) (hdot : seg ≠ dot) (hdotDot : seg ≠ dotDot)
    (out : List Char) :
    removeDots (join (seg :: rest)) out = removeDots (join rest) (out ++ '/' :: seg) := by
  have hstep := removeDots_absolute (seg ++ join rest) out
  have hpath : '/' :: (seg ++ join rest) = join (seg :: rest) := rfl
  rw [hpath, firstSegment_join h] at hstep
  have hhere : ¬"/./".toList <+: join (seg :: rest) := fun hpre =>
    hdot (eq_of_isPrefix h (by decide) hpre)
  have hhere' : ¬join (seg :: rest) = "/.".toList := fun heq => hdot (eq_of_join h (by decide) heq).1
  have hup : ¬"/../".toList <+: join (seg :: rest) := fun hpre =>
    hdotDot (eq_of_isPrefix h (by decide) hpre)
  have hup' : ¬join (seg :: rest) = "/..".toList := fun heq =>
    hdotDot (eq_of_join h (by decide) heq).1
  rw [hstep, if_neg hhere, if_neg hhere', if_neg hup, if_neg hup', join_cons, List.drop_left]

/-- The loop over the buffers leaves the segments that are left of the list. -/
theorem removeDots_join (hout : ∀ s ∈ out, '/' ∉ s) {segments : List (List Char)}
    (h : ∀ s ∈ segments, '/' ∉ s) :
    removeDots (join segments) (join out) = join (resolve out segments) := by
  induction segments generalizing out with
  | nil => exact removeDots_nil _
  | cons seg rest ih =>
    have hrest : ∀ s ∈ rest, '/' ∉ s := fun s hs => h s (List.mem_cons_of_mem seg hs)
    have hdrop : ∀ s ∈ out.dropLast, '/' ∉ s := fun s hs => hout s (List.mem_of_mem_dropLast hs)
    by_cases hdot : seg = dot
    · subst hdot
      rw [removeDots_dot]
      cases rest with
      | nil => simp [resolve_singleton]
      | cons next rest =>
        rw [if_neg (List.cons_ne_nil _ _), ih hout hrest, resolve_cons, if_pos rfl]
    · by_cases hdotDot : seg = dotDot
      · subst hdotDot
        rw [removeDots_dotDot, dropSegment_join hout]
        cases rest with
        | nil => simp [resolve_singleton, hdot]
        | cons next rest =>
          rw [if_neg (List.cons_ne_nil _ _), ih hdrop hrest, resolve_cons, if_neg hdot, if_pos rfl]
      · have hseg : '/' ∉ seg := h seg List.mem_cons_self
        have hkept : ∀ s ∈ out ++ [seg], '/' ∉ s := by
          intro s hs
          rcases List.mem_append.mp hs with hs | hs
          · exact hout s hs
          · rwa [List.mem_singleton.mp hs]
        have hjoin : join out ++ '/' :: seg = join (out ++ [seg]) := by simp
        rw [removeDots_plain hseg hdot hdotDot, hjoin, ih hkept hrest]
        cases rest with
        | nil => simp [resolve_nil, resolve_singleton, hdot, hdotDot]
        | cons next rest =>
          rw [resolve_cons, if_neg hdot, if_neg hdotDot]

/-- What is left are segments that were there, and the directory at the end. -/
theorem forall_resolve {P : List Char → Prop} (hnil : P []) {segments : List (List Char)}
    (hout : ∀ s ∈ out, P s) (h : ∀ s ∈ segments, s ≠ dot → s ≠ dotDot → P s) :
    ∀ s ∈ resolve out segments, P s := by
  induction segments generalizing out with
  | nil => exact hout
  | cons seg rest ih =>
    cases rest with
    | nil =>
      intro s hs
      rw [resolve_singleton] at hs
      split at hs
      · rcases List.mem_append.mp hs with hs | hs
        · exact hout s hs
        · rwa [List.mem_singleton.mp hs]
      · split at hs
        · rcases List.mem_append.mp hs with hs | hs
          · exact hout s (List.mem_of_mem_dropLast hs)
          · rwa [List.mem_singleton.mp hs]
        · rcases List.mem_append.mp hs with hs | hs
          · exact hout s hs
          · rw [List.mem_singleton.mp hs]
            exact h seg List.mem_cons_self ‹_› ‹_›
    | cons next rest =>
      rw [resolve_cons]
      refine ih ?_ fun s hs => h s (List.mem_cons_of_mem seg hs)
      intro s hs
      split at hs
      · exact hout s hs
      · split at hs
        · exact hout s (List.mem_of_mem_dropLast hs)
        · rcases List.mem_append.mp hs with hs | hs
          · exact hout s hs
          · rw [List.mem_singleton.mp hs]
            exact h seg List.mem_cons_self ‹_› ‹_›

/-- No dot segment is left. -/
theorem not_dot_of_mem_resolve {segments : List (List Char)} {s : List Char}
    (hs : s ∈ resolve [] segments) : s ≠ dot ∧ s ≠ dotDot := by
  have hnil : ([] : List Char) ≠ dot ∧ ([] : List Char) ≠ dotDot := by decide
  apply @forall_resolve [] (fun s => s ≠ dot ∧ s ≠ dotDot) hnil segments (by simp) _ s hs
  intro s _ hdot hdotDot
  exact ⟨hdot, hdotDot⟩

theorem resolve_ne_nil {segments : List (List Char)} (h : segments ≠ []) :
    resolve out segments ≠ [] := by
  induction segments generalizing out with
  | nil => exact absurd rfl h
  | cons seg rest ih =>
    cases rest with
    | nil =>
      rw [resolve_singleton]
      split
      · simp
      · split <;> simp
    | cons next rest => exact ih (List.cons_ne_nil _ _)

/-- Without dot segments all are left. -/
theorem resolve_of_plain {segments : List (List Char)}
    (h : ∀ s ∈ segments, s ≠ dot ∧ s ≠ dotDot) : resolve out segments = out ++ segments := by
  induction segments generalizing out with
  | nil => simp [resolve_nil]
  | cons seg rest ih =>
    obtain ⟨hdot, hdotDot⟩ := h seg List.mem_cons_self
    cases rest with
    | nil => simp [resolve_singleton, hdot, hdotDot]
    | cons next rest =>
      rw [resolve_cons, if_neg hdot, if_neg hdotDot,
        ih fun s hs => h s (List.mem_cons_of_mem seg hs)]
      simp

/-- An absolute path, by its segments. -/
theorem removeDots_path (path : List Char) :
    removeDots ('/' :: path) [] = join (resolve [] (path.splitOn '/')) := by
  rw [← join_splitOn]
  exact @removeDots_join [] (by simp) _ (slash_not_mem_splitOn path)

end Rsurl.Library.DotSegments
