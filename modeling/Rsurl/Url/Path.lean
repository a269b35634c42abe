import Rsurl.Url.Parts

/-!
# Paths

The path of an accepted URL: what `remove_dot_segments` leaves of it is what RFC 3986 leaves.
-/

namespace Rsurl.Url

open Text Library
open Http2 (Url)

/-- The path before its query. -/
def beforeQuery (path : List Char) : List Char := path.takeWhile (· ≠ '?')

/-- The query, with its question mark. -/
def queryOf (path : List Char) : List Char := path.dropWhile (· ≠ '?')

theorem beforeQuery_append_queryOf (path : List Char) : beforeQuery path ++ queryOf path = path :=
  List.takeWhile_append_dropWhile

theorem drop_beforeQuery (path : List Char) : path.drop (beforeQuery path).length = queryOf path :=
  drop_takeWhile _ path

theorem question_not_mem_beforeQuery (path : List Char) : '?' ∉ beforeQuery path := by
  intro hmem
  simpa using List.mem_takeWhile_imp hmem

theorem head_queryOf (path : List Char) : queryOf path = [] ∨ (queryOf path).head? = some '?' := by
  rw [queryOf]
  cases h : path.dropWhile (· ≠ '?') with
  | nil => exact .inl rfl
  | cons c rest =>
    have hc := List.head?_dropWhile_not (fun c => decide (c ≠ '?')) path
    rw [h] at hc
    have heq : c = '?' := by simpa using hc
    exact .inr (by rw [heq]; rfl)

/-- A path and a query, put together. -/
theorem beforeQuery_append {path query : List Char} (hpath : '?' ∉ path)
    (hquery : query = [] ∨ query.head? = some '?') :
    beforeQuery (path ++ query) = path ∧ queryOf (path ++ query) = query := by
  have hall : ∀ c ∈ path, decide (c ≠ '?') = true := fun c hc =>
    decide_eq_true fun heq => hpath (heq ▸ hc)
  have hbefore : beforeQuery (path ++ query) = path := by
    rw [beforeQuery, List.takeWhile_append_of_pos hall]
    rcases hquery with rfl | hquery
    · simp
    · cases query with
      | nil => simp
      | cons c rest =>
        cases hquery
        simp
  exact ⟨hbefore, by rw [← drop_beforeQuery, hbefore, List.drop_left]⟩

/-! ## Dot segments -/

theorem pushSegments_eq (out segments : List (List Char)) :
    pushSegments out segments = DotSegments.resolve out segments := by
  induction segments generalizing out with
  | nil => rfl
  | cons seg rest ih =>
    have hdot : (seg == ['.']) = decide (seg = DotSegments.dot) := beq_eq_decide seg _
    have hdotDot : (seg == ['.', '.']) = decide (seg = DotSegments.dotDot) := beq_eq_decide seg _
    cases rest with
    | nil =>
      rw [pushSegments, DotSegments.resolve, pushSegment, hdot, hdotDot]
      by_cases h : seg = DotSegments.dot
      · subst h
        rfl
      · by_cases h' : seg = DotSegments.dotDot
        · subst h'
          rfl
        · simp [h, h']
    | cons next rest =>
      rw [pushSegments, DotSegments.resolve_cons, ← ih, pushSegment, hdot, hdotDot]
      · by_cases h : seg = DotSegments.dot
        · subst h
          rfl
        · by_cases h' : seg = DotSegments.dotDot
          · subst h'
            rfl
          · simp [h, h']
      · exact List.cons_ne_nil _ _

/-- The source removes what the loop of the RFC removes, and leaves the query. -/
theorem removeDotSegments_eq {path : List Char} (h : path.head? = some '/') :
    removeDotSegments path = DotSegments.removeDots (beforeQuery path) [] ++ queryOf path := by
  obtain ⟨rest, rfl⟩ : ∃ rest, path = '/' :: rest := by
    cases path with
    | nil => cases h
    | cons c rest =>
      cases h
      exact ⟨rest, rfl⟩
  obtain ⟨tail, htail⟩ : ∃ tail, beforeQuery ('/' :: rest) = '/' :: tail := ⟨_, rfl⟩
  have hwhole := beforeQuery_append_queryOf ('/' :: rest)
  have hquery : ('/' :: rest).drop ('/' :: tail).length = queryOf ('/' :: rest) := by
    rw [← htail, drop_beforeQuery]
  have hsegments := DotSegments.splitOn_slash_cons tail
  rw [htail] at hwhole
  unfold removeDotSegments
  change (if !(((beforeQuery ('/' :: rest)).splitOn '/').any
      fun seg => seg == ['.'] || seg == ['.', '.']) then '/' :: rest
    else '/' :: List.intercalate ['/'] (pushSegments []
      (((beforeQuery ('/' :: rest)).splitOn '/').drop 1)) ++
        ('/' :: rest).drop (beforeQuery ('/' :: rest)).length) = _
  rw [htail, hquery, hsegments, DotSegments.removeDots_path]
  split
  · rename_i hplain
    have hplain' : ∀ s ∈ tail.splitOn '/', s ≠ DotSegments.dot ∧ s ≠ DotSegments.dotDot := by
      simpa [DotSegments.dot, DotSegments.dotDot] using hplain
    rw [DotSegments.resolve_of_plain hplain', List.nil_append, DotSegments.join_splitOn]
    exact hwhole.symm
  · have hne : DotSegments.resolve [] (tail.splitOn '/') ≠ [] :=
      DotSegments.resolve_ne_nil (List.splitOn_ne_nil '/' tail)
    rw [List.drop_one, List.tail_cons, pushSegments_eq, DotSegments.join_eq_intercalate hne]

/-- No segment before the query goes nowhere or up. -/
def NoDotSegments (path : List Char) : Prop :=
  ∀ seg ∈ (beforeQuery path).splitOn '/', seg ≠ ['.'] ∧ seg ≠ ['.', '.']

theorem removeDotSegments_of_plain {path : List Char} (h : NoDotSegments path) :
    removeDotSegments path = path := by
  unfold removeDotSegments
  refine if_pos ?_
  simpa [NoDotSegments, beforeQuery] using h

/-- The path that is left starts at the root, is made of what was there, and has no dot segments. -/
theorem removeDotSegments_spec {path : List Char} (h : path.head? = some '/') :
    (removeDotSegments path).head? = some '/' ∧
      (∀ c ∈ removeDotSegments path, c = '/' ∨ c ∈ path) ∧ NoDotSegments (removeDotSegments path) := by
  rw [removeDotSegments_eq h]
  have hwhole := beforeQuery_append_queryOf path
  have hquestion := question_not_mem_beforeQuery path
  have hquery := head_queryOf path
  have hsub : ∀ c ∈ beforeQuery path, c ∈ path := fun c hc =>
    (List.takeWhile_prefix _).subset hc
  have hsubQuery : ∀ c ∈ queryOf path, c ∈ path := fun c hc => (List.dropWhile_suffix _).subset hc
  obtain ⟨tail, htail⟩ : ∃ tail, beforeQuery path = '/' :: tail := by
    cases path with
    | nil => cases h
    | cons c rest =>
      cases h
      exact ⟨_, rfl⟩
  rw [htail] at hquestion hsub ⊢
  rw [DotSegments.removeDots_path]
  set kept := DotSegments.resolve [] (tail.splitOn '/') with hkept
  have hne : kept ≠ [] := DotSegments.resolve_ne_nil (List.splitOn_ne_nil '/' tail)
  have hchars {P : Char → Prop} (htailP : ∀ c ∈ tail, c ≠ '/' → P c) : ∀ s ∈ kept, ∀ c ∈ s, P c := by
    have hsplit := DotSegments.forall_splitOn htailP
    exact @DotSegments.forall_resolve [] (fun s => ∀ c ∈ s, P c) (by simp) _ (by simp)
      fun s hs _ _ => hsplit s hs
  have hslash : ∀ s ∈ kept, '/' ∉ s := fun s hs hmem =>
    hchars (P := (· ≠ '/')) (fun _ _ hc => hc) s hs '/' hmem rfl
  have hjoin : ∀ c ∈ DotSegments.join kept, c = '/' ∨ c ∈ tail := by
    intro c hc
    obtain ⟨s, hs, hc⟩ := List.mem_flatMap.mp hc
    rcases List.mem_cons.mp hc with rfl | hc
    · exact .inl rfl
    · exact .inr (hchars (P := (· ∈ tail)) (fun _ hc _ => hc) s hs c hc)
  have hfree : '?' ∉ DotSegments.join kept := by
    intro hmem
    rcases hjoin _ hmem with hc | hc
    · exact absurd hc (by decide)
    · exact hquestion (List.mem_cons_of_mem _ hc)
  obtain ⟨hbefore, -⟩ := beforeQuery_append hfree hquery
  refine ⟨?_, fun c hc => ?_, ?_⟩
  · obtain ⟨first, more, heq⟩ := List.exists_cons_of_ne_nil hne
    rw [heq]
    rfl
  · rcases List.mem_append.mp hc with hc | hc
    · exact (hjoin c hc).imp id fun hc => hsub c (List.mem_cons_of_mem _ hc)
    · exact .inr (hsubQuery c hc)
  · rw [NoDotSegments, hbefore, DotSegments.splitOn_join hslash hne]
    intro seg hseg
    rcases List.mem_cons.mp hseg with rfl | hseg
    · decide
    · exact DotSegments.not_dot_of_mem_resolve hseg

/-- What is removed is what the loop of RFC 3986 removes from the part before the query. A path that
is left stays as it is. -/
theorem removeDotSegments_canonical (path : List Char) (h : path.head? = some '/') :
    removeDotSegments path = DotSegments.removeDots (beforeQuery path) [] ++ queryOf path ∧
      (removeDotSegments path).head? = some '/' ∧ NoDotSegments (removeDotSegments path) ∧
      removeDotSegments (removeDotSegments path) = removeDotSegments path := by
  obtain ⟨hroot, -, hplain⟩ := removeDotSegments_spec h
  exact ⟨removeDotSegments_eq h, hroot, hplain, removeDotSegments_of_plain hplain⟩

theorem removeDotSegments_canonical_climbing :
    removeDotSegments "/a/../../b//./c/..?q=/../d".toList = "/b//?q=/../d".toList ∧
      removeDotSegments "/b//?q=/../d".toList = "/b//?q=/../d".toList := by
  have hremoved : removeDotSegments "/a/../../b//./c/..?q=/../d".toList = "/b//?q=/../d".toList := by
    decide
  have hagain := (removeDotSegments_canonical "/a/../../b//./c/..?q=/../d".toList (by decide)).2.2.2
  rw [hremoved] at hagain
  exact ⟨hremoved, hagain⟩

/-- Without a path before it, the query is one of the root. -/
def rooted (path : List Char) : List Char :=
  if path.head? = some '/' then removeDotSegments path else '/' :: path

theorem rooted_spec {path : List Char}
    (h : path = [] ∨ path.head? = some '?' ∨ path.head? = some '/') :
    (rooted path).head? = some '/' ∧ (∀ c ∈ rooted path, c = '/' ∨ c ∈ path) ∧
      NoDotSegments (rooted path) := by
  unfold rooted
  split
  · exact removeDotSegments_spec ‹_›
  · rename_i hslash
    have hquery : path = [] ∨ path.head? = some '?' := by
      rcases h with h | h | h
      · exact .inl h
      · exact .inr h
      · exact absurd h hslash
    obtain ⟨hbefore, -⟩ := @beforeQuery_append ['/'] _ (by decide) hquery
    refine ⟨rfl, fun c hc => List.mem_cons.mp hc, ?_⟩
    rw [NoDotSegments, ← List.singleton_append, hbefore]
    decide

/-! ## An accepted URL -/

/-- The text behind `://`. -/
def restOf (s : String) : List Char := (splitOnceAt "://".toList s.toList).elim [] Prod.snd

/-- The authority ends at the first `/`, `?` or `#`. -/
def authorityOf (s : String) : List Char := (restOf s).takeWhile fun c => !isDelimiter c

def pathText (s : String) : List Char := dropFragment ((restOf s).drop (authorityOf s).length)

def userinfoOf (authority : List Char) : Option (List Char) := (rsplitOnce '@' authority).map Prod.fst

/-- What is behind the last `@`. -/
def hostportOf (authority : List Char) : List Char := (rsplitOnce '@' authority).elim authority Prod.snd

/-- What an accepted URL is made of, `file` URLs apart. -/
structure Accepted (s : String) (u : Url) (dflt : Nat) (bracketed : Bool) : Prop where
  scheme : ∃ scheme, splitOnceAt "://".toList s.toList = some (scheme, restOf s) ∧ scheme ≠ [] ∧
    u.scheme = toAsciiLowercase (String.ofList scheme)
  known : defaultPort u.scheme = some dflt
  userinfo : u.userinfo = (userinfoOf (authorityOf s)).map String.ofList
  hostport : splitHostPort (hostportOf (authorityOf s)) dflt = some (u.host.toList, u.port, bracketed)
  checked : authorityOk (userinfoOf (authorityOf s)) u.host.toList u.port bracketed = true
  path : u.path.toList = rooted (pathText s)
  clean : hasForbidden u.path.toList = false

theorem parseRest_eq (s scheme : String) (rest : List Char) :
    parseRest s scheme rest =
      let authority := rest.takeWhile fun c => !isDelimiter c
      let path := rooted (dropFragment (rest.drop authority.length))
      if authority.isEmpty then .error (.invalidUrl s)
      else match defaultPort scheme with
        | none => .error (.unsupportedScheme scheme)
        | some dflt => match splitHostPort (hostportOf authority) dflt with
          | none => .error (.invalidUrl s)
          | some (host, port, bracketed) =>
            if authorityOk (userinfoOf authority) host port bracketed && !hasForbidden path then
              .ok ⟨scheme, (userinfoOf authority).map String.ofList, String.ofList host, port,
                String.ofList path⟩
            else .error (.invalidUrl s) := by
  unfold parseRest hostportOf userinfoOf
  dsimp only
  cases rsplitOnce '@' (rest.takeWhile fun c => !isDelimiter c) <;> rfl

theorem parseFile_ok {s : String} {rest : List Char} {u : Url} (h : parseFile s rest = .ok u) :
    u.scheme = "file" := by
  unfold parseFile at h
  extract_lets path at h
  split at h
  · cases h
    rfl
  · cases h

theorem parse_ok {s : String} {u : Url} (h : parse s = .ok u) (hfile : u.scheme ≠ "file") :
    ∃ dflt bracketed, Accepted s u dflt bracketed := by
  unfold parse at h
  split at h
  · cases h
  · rename_i scheme rest hsplit
    have hrest : restOf s = rest := by rw [restOf, hsplit]; rfl
    split at h
    · cases h
    · rename_i hscheme
      extract_lets lower at h
      split at h
      · exact absurd (parseFile_ok h) hfile
      · rw [parseRest_eq, ← hrest] at h
        extract_lets authority path at h
        have hauthority : authorityOf s = authority := rfl
        split at h
        · cases h
        · split at h
          · cases h
          · rename_i dflt hknown
            split at h
            · cases h
            · rename_i host port bracketed hhost
              split at h
              · rename_i hok
                cases h
                rw [Bool.and_eq_true, Bool.not_eq_true'] at hok
                have hscheme' : scheme ≠ [] := fun heq => hscheme (by rw [heq]; rfl)
                refine ⟨dflt, bracketed, ⟨scheme, by rw [hrest]; exact hsplit, hscheme', rfl⟩,
                  hknown, ?_, ?_, ?_, ?_, ?_⟩
                · rw [hauthority]
                · rw [String.toList_ofList, hauthority]
                  exact hhost
                · rw [String.toList_ofList, hauthority]
                  exact hok.1
                · exact String.toList_ofList
                · rw [String.toList_ofList]
                  exact hok.2
              · cases h

/-- A URL that a reference leads to was parsed from some text. -/
theorem exists_parse_of_resolve {base u : Url} {location : String}
    (h : resolve base location = .ok u) : ∃ text, parse text = .ok u := by
  have hrelative {loc : List Char} (h : resolveRelative base loc = .ok u) :
      ∃ text, parse text = .ok u := by
    unfold resolveRelative at h
    split at h
    · exact ⟨_, h⟩
    · exact ⟨_, h⟩
  unfold resolve at h
  extract_lets loc at h
  split at h
  · cases h
  · split at h
    · split at h
      · exact ⟨_, h⟩
      · exact hrelative h
    · exact hrelative h

end Rsurl.Url
