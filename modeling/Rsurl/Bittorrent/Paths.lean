import Rsurl.Bittorrent.Metainfo
import Rsurl.Ascii
import Rsurl.Split

/-!
# Paths from components

A path that is pushed together from safe components has these and no others, and its directories are
those of its leading components. Checked paths keep out of each other's way.
-/

namespace Rsurl.Bittorrent

open Library Text
open Library.Checked (except_bind_eq_ok)

variable {cs ds : List String} {c s : String} {paths : List String} {files : List FileEntry}

def components (p : String) : List String := split '/' p

/-- Names an entry of the directory it is looked up in, and nothing else. -/
structure Safe (c : String) : Prop where
  ne_empty : c ≠ ""
  ne_dot : c ≠ "."
  ne_dotdot : c ≠ ".."
  no_slash : '/' ∉ c.toList
  no_backslash : '\\' ∉ c.toList
  no_drive : ':' ∉ c.toList

theorem sanitizeComponent_ok (h : sanitizeComponent s = .ok ()) : Safe s := by
  unfold sanitizeComponent at h
  extract_lets cs at h
  split at h
  · cases h
  rename_i hgood
  simp only [not_or] at hgood
  obtain ⟨h1, h2, h3, h4, h5, -, h6, -⟩ := hgood
  exact ⟨h1, h2, h3, h4, h5, h6⟩

/-! ## Joining -/

def joined (cs : List String) : String := String.ofList (['/'].intercalate (cs.map String.toList))

theorem toList_joined (cs : List String) :
    (joined cs).toList = ['/'].intercalate (cs.map String.toList) := String.toList_ofList

theorem joined_singleton (c : String) : joined [c] = c := by simp [joined]

theorem joined_cons (c : String) (h : cs ≠ []) : joined (c :: cs) = c ++ "/" ++ joined cs := by
  rw [← String.toList_inj, toList_joined, List.map_cons,
    List.intercalate_cons_of_ne_nil (by simpa using h), String.toList_append, String.toList_append,
    toList_joined]
  simp

theorem joined_append (hcs : cs ≠ []) (hds : ds ≠ []) :
    joined (cs ++ ds) = joined cs ++ "/" ++ joined ds := by
  induction cs with
  | nil => exact (hcs rfl).elim
  | cons c cs ih =>
    cases cs with
    | nil => rw [List.singleton_append, joined_cons c hds, joined_singleton]
    | cons d cs =>
      rw [List.cons_append, joined_cons c (by simp), ih (List.cons_ne_nil _ _),
        joined_cons c (List.cons_ne_nil _ _)]
      simp only [String.append_assoc]

theorem components_joined (hne : cs ≠ []) (h : ∀ c ∈ cs, '/' ∉ c.toList) :
    components (joined cs) = cs := by
  rw [components, split, toList_joined, List.splitOn_intercalate _ (by simpa using h) (by simpa using hne),
    List.map_map]
  simp [Function.comp_def]

theorem joined_ne_empty (hne : cs ≠ []) (h : ∀ c ∈ cs, Safe c) : joined cs ≠ "" := by
  intro heq
  have hcs := components_joined hne fun c hc => (h c hc).no_slash
  rw [heq] at hcs
  have hempty : components "" = [""] := by simp [components, split]
  exact (h "" (by rw [← hcs, hempty]; simp)).ne_empty rfl

theorem not_startsWith_slash (hne : cs ≠ []) (h : ∀ c ∈ cs, Safe c) :
    startsWith "/" (joined cs) = false := by
  obtain ⟨c, cs, rfl⟩ := List.exists_cons_of_ne_nil hne
  have hc := h c List.mem_cons_self
  obtain ⟨x, rest, hx⟩ := List.exists_cons_of_ne_nil (l := c.toList) (by simpa using hc.ne_empty)
  have hhead : ∃ more, (joined (c :: cs)).toList = x :: more := by
    cases cs with
    | nil => exact ⟨rest, by rw [joined_singleton, hx]⟩
    | cons d cs =>
      rw [joined_cons c (List.cons_ne_nil _ _), String.toList_append, String.toList_append, hx]
      exact ⟨_, rfl⟩
  obtain ⟨more, hmore⟩ := hhead
  have hslash : '/' ≠ x := fun heq => hc.no_slash (hx ▸ heq ▸ List.mem_cons_self)
  rw [startsWith, hmore]
  simpa [List.isPrefixOf] using hslash

theorem getLast_ne_slash (hne : cs ≠ []) (h : ∀ c ∈ cs, Safe c) :
    (joined cs).toList.getLast? ≠ some '/' := by
  obtain ⟨front, c, rfl⟩ : ∃ front c, cs = front ++ [c] :=
    ⟨_, _, (List.dropLast_append_getLast hne).symm⟩
  have hc := h c (by simp)
  have hlast : (joined (front ++ [c])).toList.getLast? = c.toList.getLast? := by
    by_cases hfront : front = []
    · rw [hfront, List.nil_append, joined_singleton]
    · rw [joined_append hfront (List.cons_ne_nil _ _), String.toList_append, joined_singleton,
        List.getLast?_append_of_ne_nil _ (by simpa using hc.ne_empty)]
  rw [hlast]
  exact fun heq => hc.no_slash (List.mem_of_getLast? heq)

theorem push_joined (hcs : ∀ c ∈ cs, Safe c) (hne : ds ≠ []) (hds : ∀ d ∈ ds, Safe d) :
    push (joined cs) (joined ds) = joined (cs ++ ds) := by
  rw [push, not_startsWith_slash hne hds, if_neg Bool.false_ne_true]
  by_cases hempty : cs = []
  · rw [hempty, if_pos (.inl rfl)]
    exact String.empty_append
  · rw [if_neg (not_or.mpr ⟨joined_ne_empty hempty hcs, getLast_ne_slash hempty hcs⟩),
      joined_append hempty hne]

/-! ## Directories -/

theorem parent_joined (hcs : ∀ c ∈ cs, Safe c) (hs : Safe s) :
    parent (joined (cs ++ [s])) = some (joined cs) := by
  have hall : ∀ c ∈ cs ++ [s], Safe c := by
    simpa [List.forall_mem_append] using fun c hc => hc.elim (hcs c) (· ▸ hs)
  rw [parent, if_neg (joined_ne_empty (by simp) hall)]
  by_cases hempty : cs = []
  · rw [hempty, List.nil_append, joined_singleton, rsplitOnce_eq_none.mpr hs.no_slash]
    rfl
  · have hsplit : rsplitOnce '/' (joined (cs ++ [s])).toList =
        some ((joined cs).toList, s.toList) := by
      refine rsplitOnce_eq_some.mpr ⟨?_, hs.no_slash⟩
      rw [joined_append hempty (List.cons_ne_nil _ _), joined_singleton, String.toList_append,
        String.toList_append, List.append_assoc]
      rfl
    rw [hsplit]
    exact congrArg some String.ofList_toList

/-- Neither the directory nor one above it is a path. -/
theorem checkDirs_ok (hcs : ∀ c ∈ cs, Safe c) (h : checkDirs paths (some (joined cs)) = .ok ())
    (hne : ds ≠ []) (hpre : ds <+: cs) : pathKey (joined ds) ∉ paths := by
  induction cs using List.reverseRecOn with
  | nil => exact (hne (List.prefix_nil.mp hpre)).elim
  | append_singleton cs c ih =>
    rw [checkDirs] at h
    split at h
    · cases h
    rename_i hfree
    have hnonempty := joined_ne_empty (by simp) hcs
    rcases List.prefix_concat_iff.mp hpre with rfl | hpre
    · exact fun hmem => hfree ⟨hnonempty, hmem⟩
    · have hcs' : ∀ d ∈ cs, Safe d := fun d hd => hcs d (by simp [hd])
      rw [parent_joined hcs' (hcs c (by simp))] at h
      exact ih hcs' h hpre

theorem checkAll_ok (h : checkAll paths files = .ok ()) {f : FileEntry} (hf : f ∈ files) :
    checkDirs paths (parent f.path) = .ok () := by
  induction files with
  | nil => cases hf
  | cons g files ih =>
    obtain ⟨_, hg, h⟩ := except_bind_eq_ok.mp h
    rcases List.mem_cons.mp hf with rfl | hf
    · exact hg
    · exact ih h hf

theorem insertPaths_ok {paths' : List String} (h : insertPaths files paths = .ok paths') :
    (files.Pairwise fun f g => pathKey f.path ≠ pathKey g.path) ∧
      (∀ f ∈ files, pathKey f.path ∉ paths) ∧ (∀ k ∈ paths, k ∈ paths') ∧
      ∀ f ∈ files, pathKey f.path ∈ paths' := by
  induction files generalizing paths with
  | nil =>
    cases h
    simp
  | cons f files ih =>
    rw [insertPaths] at h
    split at h
    · cases h
    rename_i hfresh
    obtain ⟨hpairs, hnew, hkeep, hin⟩ := ih h
    have hf := hkeep _ List.mem_cons_self
    refine ⟨.cons (fun g hg heq => hnew g hg (heq ▸ List.mem_cons_self)) hpairs,
      List.forall_mem_cons.mpr ⟨hfresh, fun g hg hmem => hnew g hg (.tail _ hmem)⟩,
      fun k hk => hkeep k (.tail _ hk), List.forall_mem_cons.mpr ⟨hf, hin⟩⟩

/-! ## Letter case -/

theorem toAsciiLowercase_append (s t : String) :
    toAsciiLowercase (s ++ t) = toAsciiLowercase s ++ toAsciiLowercase t := by
  rw [← String.toList_inj, String.toList_append, toList_toAsciiLowercase, toList_toAsciiLowercase,
    toList_toAsciiLowercase, String.toList_append, List.map_append]

theorem pathKey_joined (cs : List String) : pathKey (joined cs) = joined (cs.map toAsciiLowercase) := by
  induction cs with
  | nil => rfl
  | cons c cs ih =>
    by_cases hempty : cs = []
    · rw [hempty, List.map_singleton, joined_singleton, joined_singleton, pathKey]
    · rw [joined_cons c hempty, List.map_cons, joined_cons _ (by simpa using hempty), ← ih, pathKey,
        toAsciiLowercase_append, toAsciiLowercase_append, pathKey]
      rfl

theorem components_pathKey (hne : cs ≠ []) (hcs : ∀ c ∈ cs, Safe c) :
    components (pathKey (joined cs)) = cs.map toAsciiLowercase := by
  rw [pathKey_joined, components_joined (by simpa using hne)]
  intro c hc
  obtain ⟨d, hd, rfl⟩ := List.mem_map.mp hc
  rw [toList_toAsciiLowercase]
  intro hmem
  obtain ⟨x, hx, hslash⟩ := List.mem_map.mp hmem
  exact (hcs d hd).no_slash ((toLower_eq_iff (by decide)).mp hslash ▸ hx)

/-! ## Files apart -/

/-- Neither path is the other one, or a directory above it, whatever the case of letters. -/
def PathsApart (f g : FileEntry) : Prop :=
  ¬components (pathKey f.path) <+: components (pathKey g.path) ∧
    ¬components (pathKey g.path) <+: components (pathKey f.path)

/-- A path of safe components. -/
def SafePath (p : String) (cs : List String) : Prop := p = joined cs ∧ cs ≠ [] ∧ ∀ c ∈ cs, Safe c

theorem not_prefix_of_checked {f g : FileEntry} (hf : SafePath f.path cs) (hg : SafePath g.path ds)
    (hin : pathKey f.path ∈ paths) (hne : pathKey f.path ≠ pathKey g.path)
    (hdirs : checkDirs paths (parent g.path) = .ok ()) :
    ¬components (pathKey f.path) <+: components (pathKey g.path) := by
  obtain ⟨hfpath, hcs, hfsafe⟩ := hf
  obtain ⟨hgpath, hds, hgsafe⟩ := hg
  rw [hfpath] at hin hne ⊢
  rw [hgpath] at hne hdirs ⊢
  rw [components_pathKey hcs hfsafe, components_pathKey hds hgsafe]
  intro hpre
  -- The leading components of the other path are the key of this one.
  have hkey : pathKey (joined (ds.take cs.length)) = pathKey (joined cs) := by
    rw [pathKey_joined, pathKey_joined, List.map_take, List.prefix_iff_eq_take.mp hpre,
      List.length_map]
  obtain ⟨front, d, rfl⟩ : ∃ front d, ds = front ++ [d] :=
    ⟨_, _, (List.dropLast_append_getLast hds).symm⟩
  have hfront : ∀ c ∈ front, Safe c := fun c hc => hgsafe c (by simp [hc])
  rw [parent_joined hfront (hgsafe d (by simp))] at hdirs
  have hpos : 0 < cs.length := List.length_pos_of_ne_nil hcs
  by_cases hlen : cs.length ≤ front.length
  · rw [List.take_append_of_le_length hlen] at hkey
    rw [← hkey] at hin
    refine checkDirs_ok hfront hdirs ?_ (List.take_prefix cs.length front) hin
    intro hnil
    have := congrArg List.length hnil
    rw [List.length_take_of_le hlen, List.length_nil] at this
    omega
  · rw [List.take_of_length_le (by rw [List.length_append, List.length_singleton]; omega)] at hkey
    exact hne hkey.symm

theorem checkPathConflicts_ok (hsafe : ∀ f ∈ files, ∃ cs, SafePath f.path cs)
    (h : checkPathConflicts files = .ok ()) :
    (files.filter fun f => !f.padding).Pairwise PathsApart := by
  unfold checkPathConflicts at h
  dsimp only at h
  obtain ⟨paths, hpaths, h⟩ := except_bind_eq_ok.mp h
  obtain ⟨hpairs, -, -, hin⟩ := insertPaths_ok hpaths
  refine hpairs.imp_of_mem fun {f g} hf hg hne => ?_
  obtain ⟨cs, hcs⟩ := hsafe f (List.mem_of_mem_filter hf)
  obtain ⟨ds, hds⟩ := hsafe g (List.mem_of_mem_filter hg)
  exact ⟨not_prefix_of_checked hcs hds (hin f hf) hne (checkAll_ok h hg),
    not_prefix_of_checked hds hcs (hin g hg) hne.symm (checkAll_ok h hf)⟩

end Rsurl.Bittorrent
