import Rsurl.Url.Authority
import Rsurl.Ascii

/-!
# References

A redirect target without a scheme or an authority of its own is written behind the base's and
parsed again. Nothing of it gets in front of its path.
-/

namespace Rsurl.Url

open Text Library
open Http2 (Url)

/-- A scheme (RFC 3986, section 3.1). -/
def IsScheme (s : List Char) : Prop :=
  ∃ c rest, s = c :: rest ∧ c.isAlpha = true ∧ rest.all isSchemeChar = true

/-! ## Encoding -/

theorem hash_not_mem_upperHex (b : UInt8) : '#' ∉ upperHex b := by
  have hdigit : ∀ n < 16, '#' ≠ (Nat.digitChar n).toUpper := by decide
  have hhigh : b.toNat / 16 < 16 := by
    have hb := b.toNat_lt
    omega
  have hlow : b.toNat % 16 < 16 := Nat.mod_lt _ (by decide)
  unfold upperHex
  simp only [List.mem_cons, List.not_mem_nil, or_false, not_or]
  exact ⟨by decide, hdigit _ hhigh, hdigit _ hlow⟩

/-- A `#` is neither encoded nor made. -/
theorem hash_not_mem_encodeLoose {s : List Char} (h : '#' ∉ s) : '#' ∉ encodeLoose s := by
  intro hmem
  obtain ⟨b, hb, hc⟩ := List.mem_flatMap.mp hmem
  split at hc
  · exact hash_not_mem_upperHex b hc
  · have hhash : '#' = Char.ofNat b.toNat := List.mem_singleton.mp hc
    have heq : b = UInt8.ofNat '#'.toNat := by
      have hb := b.toNat_lt
      have hvalue : (Char.ofNat b.toNat).toNat = b.toNat := by
        rw [Char.toNat_ofNat, if_pos (.inl (by omega))]
      rw [hhash, hvalue, UInt8.ofNat_toNat]
    rw [heq, mem_asBytes (by decide), String.toList_ofList] at hb
    exact h hb

theorem hash_not_mem_dropFragment (s : List Char) : '#' ∉ dropFragment s := by
  intro hmem
  simpa using List.mem_takeWhile_imp hmem

theorem dropFragment_of_plain {s : List Char} (h : '#' ∉ s) : dropFragment s = s :=
  List.takeWhile_eq_self_iff.mpr fun _ hc => decide_eq_true fun heq => h (heq ▸ hc)

/-! ## Schemes -/

/-- Every known scheme begins with a letter. -/
theorem isAlpha_of_defaultPort {scheme : String} {dflt : Nat} (h : defaultPort scheme = some dflt) :
    ∃ c rest, scheme.toList = c :: rest ∧ c.isAlpha = true := by
  unfold defaultPort at h
  split at h <;> first | exact ⟨_, _, rfl, rfl⟩ | cases h

/-- The scheme is in front of the first `://`. -/
theorem scheme_of_parse {s : String} {u : Url} (h : parse s = .ok u) :
    ∃ scheme rest, splitOnceAt "://".toList s.toList = some (scheme, rest) ∧
      u.scheme = toAsciiLowercase (String.ofList scheme) := by
  by_cases hfile : u.scheme = "file"
  · unfold parse at h
    split at h
    · cases h
    · rename_i scheme rest hsplit
      refine ⟨scheme, rest, hsplit, ?_⟩
      split at h
      · cases h
      · extract_lets lower at h
        split at h
        · rename_i hlower
          rw [hfile]
          exact hlower.symm
        · rw [parseRest_eq] at h
          extract_lets authority path at h
          split_ifs at h
          split at h
          · cases h
          · split at h
            · cases h
            · split_ifs at h
              cases h
              rfl
  · obtain ⟨dflt, bracketed, hu⟩ := parse_ok h hfile
    obtain ⟨scheme, hsplit, -, hlower⟩ := hu.scheme
    exact ⟨scheme, _, hsplit, hlower⟩

variable {s location : String} {base u : Url} {dflt : Nat} {bracketed : Bool}

theorem splitOnceAt_scheme {scheme : List Char} (h : ':' ∉ scheme) (rest : List Char) :
    splitOnceAt "://".toList (String.ofList (scheme ++ "://".toList ++ rest)).toList =
      some (scheme, rest) :=
  (congrArg _ String.toList_ofList).trans (splitOnceAt_append h rest)

/-- Only a scheme leads to a URL. -/
theorem isAlpha_of_parse {scheme rest : List Char} (hcolon : ':' ∉ scheme)
    (h : parse (String.ofList (scheme ++ "://".toList ++ rest)) = .ok u) :
    ∃ c more, scheme = c :: more ∧ c.isAlpha = true := by
  obtain ⟨scheme', rest', hsplit, hlower⟩ := scheme_of_parse h
  rw [splitOnceAt_scheme hcolon] at hsplit
  cases hsplit
  have hfirst : ∃ d more, u.scheme.toList = d :: more ∧ d.isAlpha = true := by
    by_cases hfile : u.scheme = "file"
    · exact ⟨'f', ['i', 'l', 'e'], by rw [hfile]; rfl, rfl⟩
    · obtain ⟨dflt, bracketed, hu⟩ := parse_ok h hfile
      exact isAlpha_of_defaultPort hu.known
  obtain ⟨d, more, heq, hd⟩ := hfirst
  rw [hlower, toList_toAsciiLowercase, String.toList_ofList] at heq
  obtain ⟨c, rest, rfl, rfl, -⟩ := List.map_eq_cons_iff.mp heq
  exact ⟨c, rest, rfl, by rwa [Char.isAlpha_toLower_eq_isAlpha] at hd⟩

/-! ## Behind the base's authority -/

/-- The port behind the host of a target: none where it is the scheme's own. -/
def portSuffix (base : Url) : List Char :=
  if base.port = (defaultPort base.scheme).getD 0 then [] else ':' :: Nat.toDigits 10 base.port

theorem portText_portSuffix (h : Accepted s base dflt bracketed) :
    PortText dflt (portSuffix base) base.port := by
  unfold portSuffix
  rw [h.known, Option.getD_some]
  split
  · rename_i heq
    rw [heq]
    exact .absent
  · have hvalue : Nat.ofDigitChars 10 (Nat.toDigits 10 base.port) 0 = base.port :=
      Nat.ofDigitChars_ten_toDigits
    have hnumber := @PortText.number dflt (Nat.toDigits 10 base.port) Nat.toDigits_ne_nil
      (fun c hc => Nat.isDigit_of_mem_toDigits (by decide) (by decide) hc)
    rw [hvalue] at hnumber
    obtain ⟨suffix, -, hport⟩ := written_of_hostPort (hostPort_of_splitHostPort h.hostport)
    exact hnumber (port_le_of_portText (defaultPort_le h.known).2 hport)

/-- A host that is in brackets or has no colon is read again from whatever port is behind it. -/
theorem hostPort_again {suffix : List Char} (h : Accepted s base dflt bracketed)
    (hhost : base.host.toList.head? = some '[' ∨ ':' ∉ base.host.toList)
    (hsuffix : PortText dflt suffix base.port) :
    HostPort dflt (base.host.toList ++ suffix) base.host.toList base.port bracketed := by
  have hsplit := hostPort_of_splitHostPort h.hostport
  generalize base.host.toList = host at hsplit hhost
  generalize base.port = port at hsplit hsuffix
  generalize hostportOf (authorityOf s) = hostport at hsplit
  cases hsplit with
  | literal hinner hliteral _ => exact .literal hinner hliteral hsuffix
  | name hclose hopen _ _ =>
    exact .name hclose hopen (fun _ => hhost.resolve_left hopen) hsuffix

theorem host_plain (h : Accepted s base dflt bracketed) :
    ∀ c ∈ base.host.toList, isDelimiter c = false ∧ c ≠ '@' := by
  obtain ⟨suffix, hwritten, -⟩ := written_of_hostPort (hostPort_of_splitHostPort h.hostport)
  intro c hc
  exact hostport_plain s c (hwritten ▸ List.mem_append_left suffix hc)

theorem portSuffix_plain (base : Url) :
    ∀ c ∈ portSuffix base, isDelimiter c = false ∧ c ≠ '@' := by
  intro c hc
  unfold portSuffix at hc
  split at hc
  · cases hc
  · rcases List.mem_cons.mp hc with rfl | hc
    · decide
    · have hdigit := Nat.isDigit_of_mem_toDigits (by decide) (by decide) hc
      constructor
      · cases hd : isDelimiter c with
        | false => rfl
        | true =>
          have hcases : (c = '/' ∨ c = '?') ∨ c = '#' := by simpa [isDelimiter] using hd
          rcases hcases with (rfl | rfl) | rfl <;> cases hdigit
      · rintro rfl
        cases hdigit

/-- Behind the scheme and the authority of the base, what is parsed as the path is what was put
there. -/
theorem parse_behind {path : List Char} (hbase : parse s = .ok base)
    (hscheme : base.scheme = "http" ∨ base.scheme = "https")
    (hhost : base.host.toList.head? = some '[' ∨ ':' ∉ base.host.toList)
    (hroot : path.head? = some '/') (hhash : '#' ∉ path)
    (h : parse (String.ofList (base.scheme.toList ++ "://".toList ++
      (base.host.toList ++ portSuffix base ++ path))) = .ok u) :
    u.scheme = base.scheme ∧ u.host = base.host ∧ u.port = base.port ∧ u.userinfo = none ∧
      u.path.toList = removeDotSegments path := by
  have hknown : base.scheme ≠ "file" ∧ ':' ∉ base.scheme.toList ∧
      toAsciiLowercase base.scheme = base.scheme := by
    rcases hscheme with heq | heq <;> rw [heq] <;> decide
  obtain ⟨hfile, hcolon, hlower⟩ := hknown
  obtain ⟨dflt, bracketed, hb⟩ := parse_ok hbase hfile
  set authority := base.host.toList ++ portSuffix base with hauthority
  set composed := String.ofList (base.scheme.toList ++ "://".toList ++ (authority ++ path))
  have hsplit : splitOnceAt "://".toList composed.toList =
      some (base.scheme.toList, authority ++ path) := splitOnceAt_scheme hcolon _
  have hplain : ∀ c ∈ authority, isDelimiter c = false ∧ c ≠ '@' := by
    intro c hc
    rcases List.mem_append.mp hc with hc | hc
    · exact host_plain hb c hc
    · exact portSuffix_plain base c hc
  -- the composed text falls apart where it was put together
  have hrest : restOf composed = authority ++ path := by rw [restOf, hsplit]; rfl
  have hcut : authorityOf composed = authority := by
    rw [authorityOf, hrest, List.takeWhile_append_of_pos fun c hc => by simp [(hplain c hc).1]]
    obtain ⟨rest, rfl⟩ : ∃ rest, path = '/' :: rest := List.head?_eq_some_iff.mp hroot
    simp [isDelimiter]
  have hpath : pathText composed = path := by
    rw [pathText, hrest, hcut, List.drop_left, dropFragment_of_plain hhash]
  have hat : rsplitOnce '@' authority = none :=
    rsplitOnce_eq_none.mpr fun hmem => (hplain _ hmem).2 rfl
  have hscheme' : u.scheme = base.scheme := by
    obtain ⟨scheme, rest, hsplit', heq⟩ := scheme_of_parse h
    rw [hsplit] at hsplit'
    cases hsplit'
    rw [heq, String.ofList_toList, hlower]
  obtain ⟨dflt', bracketed', hu⟩ := parse_ok h (hscheme' ▸ hfile)
  have hdflt : dflt' = dflt := by
    have hknown := hu.known
    rw [hscheme', hb.known] at hknown
    exact (Option.some.inj hknown).symm
  have hagain := splitHostPort_of_hostPort (hostPort_again hb hhost (portText_portSuffix hb))
  have hread := hu.hostport
  rw [hcut, hostportOf, hat, Option.elim_none, hauthority, hdflt, hagain] at hread
  have hpair := Option.some.inj hread
  refine ⟨hscheme', ?_, ?_, ?_, ?_⟩
  · exact (String.toList_inj.mp (congrArg Prod.fst hpair)).symm
  · exact (congrArg (fun t => t.2.1) hpair).symm
  · rw [hu.userinfo, hcut, userinfoOf, hat]
    rfl
  · rw [hu.path, hpath, rooted, if_pos hroot]

/-! ## The path of a target -/

/-- The reference, encoded, without its fragment. -/
def referenceOf (loc : List Char) : List Char := encodeLoose (dropFragment loc)

/-- The path of the target by RFC 3986. -/
def targetPath (basePath reference : List Char) : List Char :=
  DotSegments.target (beforeQuery basePath) (queryOf basePath) (beforeQuery reference)
    (queryOf reference)

theorem hash_not_mem_referenceOf (loc : List Char) : '#' ∉ referenceOf loc :=
  hash_not_mem_encodeLoose (hash_not_mem_dropFragment loc)

/-- The directory of an absolute path begins and ends with a slash. -/
theorem directory_of_rooted {path : List Char} (hroot : path.head? = some '/') :
    ∃ dir last, rsplitOnce '/' path = some (dir, last) ∧
      dir ++ ['/'] = path.rdropWhile (· ≠ '/') ∧ (dir ++ ['/']).head? = some '/' := by
  obtain ⟨⟨dir, last⟩, hsplit⟩ : ∃ parts, rsplitOnce '/' path = some parts := by
    cases h : rsplitOnce '/' path with
    | none => exact absurd (List.mem_of_head? hroot) (rsplitOnce_eq_none.mp h)
    | some parts => exact ⟨parts, rfl⟩
  obtain ⟨rfl, hlast⟩ := rsplitOnce_eq_some.mp hsplit
  refine ⟨dir, last, hsplit, ?_, ?_⟩
  · have hall : ∀ c ∈ last.reverse, decide (c ≠ '/') = true := fun c hc =>
      decide_eq_true fun heq => hlast (heq ▸ List.mem_reverse.mp hc)
    rw [List.rdropWhile, List.reverse_append, List.reverse_cons, List.append_assoc,
      List.dropWhile_append_of_pos hall]
    simp
  · cases dir with
    | nil => rfl
    | cons c rest => exact hroot

theorem head_beforeQuery {path : List Char} (hroot : path.head? = some '/') :
    (beforeQuery path).head? = some '/' := by
  obtain ⟨rest, rfl⟩ := List.head?_eq_some_iff.mp hroot
  rfl

/-- What is written behind the authority. -/
def written (basePath reference : List Char) : List Char :=
  if reference = [] then basePath
  else if reference.head? = some '?' then beforeQuery basePath ++ reference
  else if reference.head? = some '/' then reference
  else DotSegments.merge (beforeQuery basePath) reference

theorem resolvePath_eq (loc : List Char) (hroot : base.path.toList.head? = some '/') :
    resolvePath base loc = written base.path.toList (referenceOf loc) := by
  unfold resolvePath written
  obtain ⟨dir, last, hsplit, hdir, -⟩ := directory_of_rooted (head_beforeQuery hroot)
  have href : encodeLoose (dropFragment loc) = referenceOf loc := rfl
  have hbefore : base.path.toList.takeWhile (· ≠ '?') = beforeQuery base.path.toList := rfl
  simp only [href, hbefore]
  split
  · rename_i hnil
    rw [if_pos hnil]
  · rename_i rest hquery
    rw [hquery, if_neg (List.cons_ne_nil _ _), if_pos List.head?_cons]
  · rename_i rest hslash
    rw [hslash, if_neg (List.cons_ne_nil _ _), if_neg (by simp), if_pos List.head?_cons]
  · rename_i hnil hquery hslash
    have hhead {c : Char} (hc : ∀ rest, referenceOf loc = c :: rest → False) :
        (referenceOf loc).head? ≠ some c := by
      intro heq
      obtain ⟨rest, hrest⟩ := List.head?_eq_some_iff.mp heq
      exact hc rest hrest
    rw [if_neg hnil, if_neg (hhead hquery), if_neg (hhead hslash), hsplit, DotSegments.merge, ← hdir]

/-- Parsed again, that is the path of the target. -/
theorem written_spec {path reference : List Char} (hroot : path.head? = some '/')
    (hpath : '#' ∉ path) (hreference : '#' ∉ reference) (hsegments : NoDotSegments path) :
    (written path reference).head? = some '/' ∧ '#' ∉ written path reference ∧
      removeDotSegments (written path reference) = targetPath path reference := by
  have hwhole := beforeQuery_append_queryOf reference
  have hquestion := question_not_mem_beforeQuery path
  have hdocument := head_beforeQuery hroot
  have hsub : '#' ∉ beforeQuery path := fun hmem => hpath ((List.takeWhile_prefix _).subset hmem)
  unfold written targetPath DotSegments.target
  split
  · -- the base document itself
    rename_i hnil
    subst hnil
    exact ⟨hroot, hpath, by
      rw [removeDotSegments_of_plain hsegments]
      exact (beforeQuery_append_queryOf path).symm⟩
  · split
    · rename_i hne hquery
      obtain ⟨rest, rfl⟩ := List.head?_eq_some_iff.mp hquery
      obtain ⟨hbefore, -⟩ := beforeQuery_append hquestion (.inr hquery)
      have hplain : NoDotSegments (beforeQuery path ++ '?' :: rest) := by
        rw [NoDotSegments, hbefore]
        exact hsegments
      have hempty : beforeQuery ('?' :: rest) = [] := rfl
      have hall : queryOf ('?' :: rest) = '?' :: rest := rfl
      refine ⟨?_, ?_, ?_⟩
      · rw [List.head?_append, hdocument]
        rfl
      · exact fun hmem => (List.mem_append.mp hmem).elim hsub hreference
      · rw [removeDotSegments_of_plain hplain, if_pos hempty, hall, if_neg hne]
    · rename_i hne hquery
      have hpart : beforeQuery reference ≠ [] := by
        intro hnil
        rw [hnil, List.nil_append] at hwhole
        rcases head_queryOf reference with hq | hq
        · exact hne (hwhole ▸ hq)
        · exact hquery (hwhole ▸ hq)
      rw [if_neg hpart]
      split
      · rename_i hslash
        exact ⟨hslash, hreference, by
          rw [if_pos (head_beforeQuery hslash), removeDotSegments_eq hslash]⟩
      · rename_i hslash
        -- the reference in the directory of the base
        have hrelative : (beforeQuery reference).head? ≠ some '/' := fun heq => hslash (by
          rw [← hwhole, List.head?_append, heq]
          rfl)
        obtain ⟨dir, last, -, hdir, hhead⟩ := directory_of_rooted hdocument
        have hmerge : DotSegments.merge (beforeQuery path) reference =
            DotSegments.merge (beforeQuery path) (beforeQuery reference) ++ queryOf reference := by
          rw [DotSegments.merge, DotSegments.merge, List.append_assoc, hwhole]
        have hfree : '?' ∉ DotSegments.merge (beforeQuery path) (beforeQuery reference) := by
          intro hmem
          rcases List.mem_append.mp hmem with hmem | hmem
          · exact hquestion ((List.rdropWhile_prefix _ _).subset hmem)
          · exact question_not_mem_beforeQuery reference hmem
        obtain ⟨hbefore, hafter⟩ := beforeQuery_append hfree (head_queryOf reference)
        have hroot' : (DotSegments.merge (beforeQuery path) reference).head? = some '/' := by
          rw [DotSegments.merge, ← hdir, List.head?_append, hhead]
          rfl
        refine ⟨hroot', ?_, ?_⟩
        · intro hmem
          rcases List.mem_append.mp hmem with hmem | hmem
          · exact hsub ((List.rdropWhile_prefix _ _).subset hmem)
          · exact hreference hmem
        · rw [if_neg hrelative, removeDotSegments_eq hroot', hmerge, hbefore, hafter]

/-! ## Redirects -/

theorem resolveRelative_eq {loc : List Char} (hnetwork : ¬['/', '/'] <+: loc)
    (hroot : base.path.toList.head? = some '/') :
    resolveRelative base loc = parse (String.ofList (base.scheme.toList ++ "://".toList ++
      (base.host.toList ++ portSuffix base ++ written base.path.toList (referenceOf loc)))) := by
  unfold resolveRelative
  split
  · exact absurd ⟨_, rfl⟩ hnetwork
  · extract_lets authority
    have hauthority : authority.toList = base.host.toList ++ portSuffix base := by
      unfold authority portSuffix
      split
      · rw [List.append_nil]
      · simp [ToString.toString, Nat.repr_eq_ofList_toDigits]
    refine congrArg parse ?_
    rw [← String.toList_inj, String.toList_ofList, ← resolvePath_eq loc hroot, ← hauthority]
    simp [ToString.toString]

/-- A reference that does not name an authority stays with that of the base. -/
theorem resolve_stays (hbase : parse s = .ok base)
    (hscheme : base.scheme = "http" ∨ base.scheme = "https")
    (hhost : base.host.toList.head? = some '[' ∨ ':' ∉ base.host.toList)
    (hnetwork : ¬['/', '/'] <+: (trim location).toList)
    (habsolute : ¬∃ scheme rest, IsScheme scheme ∧
      (trim location).toList = scheme ++ "://".toList ++ rest)
    (h : resolve base location = .ok u) :
    u.scheme = base.scheme ∧ u.host = base.host ∧ u.port = base.port ∧ u.userinfo = none ∧
      u.path.toList = targetPath base.path.toList (referenceOf (trim location).toList) := by
  have hfile : base.scheme ≠ "file" := by
    rcases hscheme with heq | heq <;> rw [heq] <;> decide
  obtain ⟨dflt, bracketed, hb⟩ := parse_ok hbase hfile
  obtain ⟨hroot, hchars, hsegments⟩ := path_of_accepted hb
  have hrelative (hrel : resolveRelative base (trim location).toList = .ok u) :
      u.scheme = base.scheme ∧ u.host = base.host ∧ u.port = base.port ∧ u.userinfo = none ∧
        u.path.toList = targetPath base.path.toList (referenceOf (trim location).toList) := by
    obtain ⟨hhead, hhash, hpath⟩ := written_spec hroot (fun hmem => (hchars _ hmem).1 rfl)
      (hash_not_mem_referenceOf (trim location).toList) hsegments
    rw [← hpath]
    refine parse_behind hbase hscheme hhost hhead hhash ?_
    rw [← resolveRelative_eq hnetwork hroot]
    exact hrel
  unfold resolve at h
  extract_lets loc at h
  split at h
  · cases h
  · split at h
    · rename_i scheme rest hsplit
      split at h
      · rename_i hok
        rw [Bool.and_eq_true] at hok
        have hcolon : ':' ∉ scheme := fun hmem =>
          absurd (List.all_eq_true.mp hok.2 ':' hmem) (by decide)
        obtain ⟨c, more, rfl, hc⟩ := isAlpha_of_parse hcolon h
        refine absurd ⟨c :: more, rest, ⟨c, more, rfl, hc, ?_⟩, eq_of_splitOnceAt hsplit⟩ habsolute
        rw [List.all_cons, Bool.and_eq_true] at hok
        exact hok.2.2
      · exact hrelative h
    · exact hrelative h

theorem resolve_stays_sibling :
    ∃ base u, parse "http://a:8080/b/c/d;p?q" = .ok base ∧ resolve base " ../g@h#i" = .ok u ∧
      u.host = base.host ∧ u.path.toList = targetPath base.path.toList "../g@h".toList := by
  have hbase : parse "http://a:8080/b/c/d;p?q" = .ok ⟨"http", none, "a", 8080, "/b/c/d;p?q"⟩ := by
    decide +kernel
  have hresolve : resolve ⟨"http", none, "a", 8080, "/b/c/d;p?q"⟩ " ../g@h#i" =
      .ok ⟨"http", none, "a", 8080, "/b/g@h"⟩ := by decide +kernel
  have htrim : (trim " ../g@h#i").toList = "../g@h#i".toList := by decide +kernel
  have hnetwork : ¬['/', '/'] <+: (trim " ../g@h#i").toList := by
    rw [htrim]
    decide +kernel
  have habsolute : ¬∃ scheme rest, IsScheme scheme ∧
      (trim " ../g@h#i").toList = scheme ++ "://".toList ++ rest := by
    rintro ⟨scheme, rest, -, heq⟩
    have hmem : ':' ∈ (trim " ../g@h#i").toList := by simp [heq]
    rw [htrim] at hmem
    exact absurd hmem (by decide)
  have hstays := resolve_stays hbase (.inl rfl) (.inr (by decide)) hnetwork habsolute hresolve
  have hreference : referenceOf (trim " ../g@h#i").toList = "../g@h".toList := by decide
  rw [hreference] at hstays
  exact ⟨_, _, hbase, hresolve, hstays.2.1, hstays.2.2.2.2⟩

end Rsurl.Url
