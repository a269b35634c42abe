import Rsurl.Cookie.Netscape
import Rsurl.Cookie.Scope
import Rsurl.Ascii

/-!
# Saving a jar and reading it back

A cookie that a response stored is read back from its line as it was, `SameSite` and partitions
aside, unless its line means something else to the reader: no host, a host that begins with a dot,
an expiry beyond a signed number, or an address as the domain of a cookie for many hosts.
-/

namespace Rsurl.Cookies

open Text
open Http2 (Url)

/-! ## URLs -/

/-- Neither a comment sign nor a control character. -/
def PlainHostChar (c : Char) : Prop := c ≠ '#' ∧ 0x20 ≤ c.toNat

def NoControls (s : List Char) : Prop := ∀ c ∈ s, 0x20 ≤ c.toNat

theorem noControls_of_hasForbidden {s : List Char} (h : Url.hasForbidden s = false) :
    NoControls s := by
  intro c hc
  simp only [Url.hasForbidden, List.any_eq_false, Bool.or_eq_true, decide_eq_true_eq, not_or,
    not_lt] at h
  exact (h c hc).1.1

theorem mem_of_splitOnceAt {sep s before after : List Char}
    (h : splitOnceAt sep s = some (before, after)) {c : Char} (hc : c ∈ before) : c ∈ s := by
  induction s generalizing before with
  | nil => cases h
  | cons d rest ih =>
    unfold splitOnceAt at h
    split at h
    · cases h
      cases hc
    · obtain ⟨⟨b, a⟩, hrest, heq⟩ := Option.map_eq_some_iff.mp h
      cases heq
      rcases List.mem_cons.mp hc with rfl | hc
      · exact List.mem_cons_self
      · exact List.mem_cons_of_mem d (ih hrest hc)

theorem mem_of_rsplitOnce {sep : Char} {s before after : List Char}
    (h : rsplitOnce sep s = some (before, after)) {c : Char} :
    (c ∈ before → c ∈ s) ∧ (c ∈ after → c ∈ s) := by
  unfold rsplitOnce at h
  obtain ⟨-, h⟩ := Option.ite_none_left_eq_some.mp h
  cases h
  exact ⟨List.mem_of_mem_take, fun hc => (List.rtakeWhile_suffix _ s).mem hc⟩

/-- The host is cut out of the authority. -/
theorem mem_of_splitHostPort {hostport host : List Char} {dflt port : Nat} {bracketed : Bool}
    (h : Url.splitHostPort hostport dflt = some (host, port, bracketed)) {c : Char}
    (hc : c ∈ host) : c ∈ hostport ∨ c = ']' := by
  unfold Url.splitHostPort at h
  split at h
  · rename_i before after hsplit
    split at h
    · rename_i inner
      obtain ⟨p, -, h⟩ := Option.bind_eq_some_iff.mp h
      obtain ⟨-, h⟩ := Option.ite_none_right_eq_some.mp h
      cases h
      rcases List.mem_append.mp hc with hc | hc
      · exact .inl (mem_of_splitOnceAt hsplit hc)
      · exact .inr (List.mem_singleton.mp hc)
    · cases h
  · obtain ⟨-, h⟩ := Option.ite_none_left_eq_some.mp h
    split at h
    · rename_i before after hsplit
      obtain ⟨p, -, heq⟩ := Option.map_eq_some_iff.mp h
      cases heq
      exact .inl ((mem_of_rsplitOnce hsplit).1 hc)
    · cases h
      exact .inl hc

theorem parseRest_ok {s scheme : String} {rest : List Char} {url : Url}
    (h : Url.parseRest s scheme rest = .ok url) :
    (∀ c ∈ url.host.toList, PlainHostChar c) ∧ NoControls url.path.toList := by
  unfold Url.parseRest at h
  extract_lets authority path path' at h
  split at h
  · cases h
  · split at h
    · cases h
    · split at h
      rename_i userinfo hostport hauth
      have hsub : ∀ c ∈ hostport, c ∈ authority := by
        intro c hc
        split at hauth
        · rename_i info hp hsplit
          cases hauth
          exact (mem_of_rsplitOnce hsplit).2 hc
        · cases hauth
          exact hc
      split at h
      · cases h
      · rename_i host port bracketed hsplit
        split at h
        · rename_i hok
          cases h
          simp only [Url.authorityOk, Bool.and_eq_true, Bool.not_eq_true'] at hok
          simp only [String.toList_ofList]
          refine ⟨?_, noControls_of_hasForbidden hok.2⟩
          intro c hc
          refine ⟨?_, noControls_of_hasForbidden hok.1.1.1.2 c hc⟩
          rintro rfl
          rcases mem_of_splitHostPort hsplit hc with hmem | hmem
          · exact absurd (List.mem_takeWhile_imp (hsub _ hmem)) (by decide)
          · exact absurd hmem (by decide)
        · cases h

/-- What a parsed URL leaves out of its host and, if it has one, of its path. -/
theorem parse_plain {s : String} {url : Url} (h : Url.parse s = .ok url) :
    (∀ c ∈ url.host.toList, PlainHostChar c) ∧ (url.host ≠ "" → NoControls url.path.toList) := by
  unfold Url.parse at h
  split at h
  · cases h
  · split at h
    · cases h
    · extract_lets scheme at h
      split at h
      · unfold Url.parseFile at h
        extract_lets path at h
        split at h
        · cases h
          exact ⟨by simp, fun hne => absurd rfl hne⟩
        · cases h
      · obtain ⟨hhost, hpath⟩ := parseRest_ok h
        exact ⟨hhost, fun _ => hpath⟩

/-! ## Stored cookies -/

theorem noControls_of_hasForbiddenCookieChar {s : String} (h : hasForbiddenCookieChar s = false) :
    NoControls s.toList := by
  intro c hc
  simp only [hasForbiddenCookieChar, isAsciiControl, List.any_eq_false, Bool.or_eq_true,
    decide_eq_true_eq, not_or, not_lt] at h
  exact (h c hc).1

theorem noControls_defaultPath {uriPath : String} (h : NoControls uriPath.toList) :
    NoControls (defaultPath uriPath).toList := by
  have hroot : NoControls "/".toList := by
    intro c hc
    cases List.mem_singleton.mp hc
    decide
  unfold defaultPath
  split
  · exact hroot
  · split
    · rename_i c dir last hsplit
      intro ch hch
      rw [String.toList_ofList] at hch
      exact h ch ((mem_of_rsplitOnce hsplit).1 hch)
    · exact hroot

theorem noControls_requestPath {path : String} (h : NoControls path.toList) :
    NoControls (requestPath path).toList := by
  intro c hc
  rw [requestPath, String.toList_ofList] at hc
  exact h c ((List.takeWhile_prefix _).mem hc)

theorem Attributes.push_noControls {psl : SuffixList} {host attr : String} {a b : Attributes}
    (ha : NoControls a.path.toList) (h : a.push psl host attr = some b) :
    NoControls b.path.toList := by
  unfold push at h
  generalize splitAttribute (trim attr) = kv at h
  obtain ⟨k, v⟩ := kv
  obtain ⟨c, hc, rfl⟩ := Option.map_eq_some_iff.mp h
  obtain ⟨-, -, hp⟩ := c.setFlag_same k v
  rw [hp]
  cases v with
  | none =>
    cases hc
    exact ha
  | some v =>
    rcases setValue_cases hc with hdom | hpath | ⟨-, -, hp⟩
    · rw [setDomain_path hdom]
      exact ha
    · obtain ⟨-, -, hp | ⟨hp, hv⟩⟩ := setPath_ok hpath
      · rw [hp]
        exact ha
      · rw [hp]
        exact noControls_of_hasForbiddenCookieChar hv
    · rw [hp]
      exact ha

theorem parseAttributes_noControls {psl : SuffixList} {url : Url} {attrs : List String}
    {a : Attributes} (hurl : NoControls url.path.toList)
    (h : parseAttributes psl url attrs = some a) : NoControls a.path.toList :=
  Library.Outcome.optionFold_rule (I := fun a => NoControls a.path.toList)
    (fun _ _ _ _ hs hp => Attributes.push_noControls hs hp)
    (noControls_defaultPath (noControls_requestPath hurl)) h

/-- A name that is not empty after trimming has a character that is no space. -/
theorem exists_of_trim_ne {s : String} (h : trim s ≠ "") :
    ∃ c ∈ (trim s).toList, isWhitespace c = false := by
  by_contra hall
  simp only [not_exists, not_and, Bool.not_eq_false] at hall
  refine h ?_
  have hsub : ∀ c ∈ (s.toList.dropWhile isWhitespace).reverse.dropWhile isWhitespace,
      isWhitespace c = true := by
    intro c hc
    exact hall c (by simpa [trim] using hc)
  have hnil : (s.toList.dropWhile isWhitespace).reverse.dropWhile isWhitespace = [] := by
    generalize (s.toList.dropWhile isWhitespace).reverse = r at hsub
    cases hr : r.dropWhile isWhitespace with
    | nil => rfl
    | cons c rest =>
      have hhead := List.head?_dropWhile_not isWhitespace r
      rw [hr] at hhead hsub
      simp [hsub c List.mem_cons_self] at hhead
  rw [trim, hnil]
  rfl

/-- What is true of a stored cookie, beyond its scope. -/
structure Plain (c : Cookie) : Prop where
  name : ∃ ch ∈ c.name.toList, isWhitespace ch = false
  nameControls : hasForbiddenCookieChar c.name = false
  valueControls : hasForbiddenCookieChar c.value = false
  domain : ∀ ch ∈ c.domain.toList, ch ≠ '#' ∧ ch ≠ '\t' ∧ ch ≠ '\r' ∧ ch ≠ '\n'
  path : c.domain ≠ "" → NoControls c.path.toList
  expires : c.expires ≠ some 0

/-- A character of a domain, in lower case, is one of the host, in lower case. -/
theorem toLower_mem_of_within {host domain : String} (h : Within host domain) {c : Char}
    (hc : c ∈ domain.toList) : ∃ d ∈ host.toList, d.toLower = c.toLower := by
  have hmem : c.toLower ∈ (toAsciiLowercase domain).toList := by
    rw [toList_toAsciiLowercase]
    exact List.mem_map_of_mem hc
  have hhost : c.toLower ∈ (toAsciiLowercase host).toList := by
    rcases h with heq | hunder
    · rwa [eqIgnoreAsciiCase_iff.mp heq]
    · exact (List.isSuffixOf_iff_suffix.mp hunder).mem (List.mem_cons_of_mem _ hmem)
  rw [toList_toAsciiLowercase] at hhost
  exact List.mem_map.mp hhost

theorem Stored.within {psl : SuffixList} {url : Url} {c : Cookie} (h : Stored psl url c) :
    Within url.host c.domain := by
  cases ho : c.hostOnly with
  | true =>
    refine .inl (eqIgnoreAsciiCase_iff.mpr ?_)
    rw [h.hostOnly ho, toAsciiLowercase_idem]
  | false => exact within_toAsciiLowercase (within_of_domainMatch (h.under ho).2.2)

theorem Call.Stores.plain {psl : SuffixList} {call : Call} {c : Cookie} (h : call.Stores psl c)
    (hexp : c.expired call.now = false) {s : String} (hurl : Url.parse s = .ok call.url) :
    Plain c := by
  have hstored := h.stored
  obtain ⟨hhost, hpath⟩ := parse_plain hurl
  unfold Stores at h
  obtain ⟨name, value, attrs, a, hsplit, hne, hname, hvalue, ha, -, rfl⟩ := parseSetCookie_ok h
  have hchars : ∀ ch ∈ (a.cookie name value (toAsciiLowercase call.url.host) call.now).domain.toList,
      ∀ d : Char, d.isAlpha = false → d = '#' ∨ d.toNat < 0x20 → ch ≠ d := by
    rintro ch hch d hd hbad rfl
    obtain ⟨e, he, hlow⟩ := toLower_mem_of_within hstored.within hch
    rw [(toLower_eq_iff hd).mpr rfl, toLower_eq_iff hd] at hlow
    subst hlow
    obtain ⟨hcomment, hcontrol⟩ := hhost _ he
    exact hbad.elim hcomment (by omega)
  refine ⟨?_, hname, hvalue, ?_, ?_, ?_⟩
  · unfold splitCookie at hsplit
    split at hsplit
    · cases hsplit
    · obtain ⟨⟨n, v⟩, -, heq⟩ := Option.map_eq_some_iff.mp hsplit
      obtain rfl := (Prod.mk.inj heq).1
      exact exists_of_trim_ne hne
  · intro ch hch
    exact ⟨hchars ch hch '#' (by decide) (by decide), hchars ch hch '\t' (by decide) (by decide),
      hchars ch hch '\r' (by decide) (by decide), hchars ch hch '\n' (by decide) (by decide)⟩
  · intro hdom
    refine parseAttributes_noControls (hpath ?_) ha
    intro hempty
    refine hdom (String.toList_eq_nil_iff.mp (List.eq_nil_iff_forall_not_mem.mpr ?_))
    intro ch hch
    obtain ⟨e, he, -⟩ := toLower_mem_of_within hstored.within hch
    rw [hempty] at he
    cases he
  · intro hzero
    simp [Cookie.expired, hzero] at hexp

/-! ## One line -/

/-- What a line says of a cookie. -/
def Cookie.erased (c : Cookie) : Cookie :=
  { c with sameSite := .unspecified, «partitioned» := false, partitionKey := none }

/-- Its line means the same to the reader. -/
structure Cookie.Portable (c : Cookie) : Prop where
  host : c.domain ≠ ""
  dot : c.domain.toList.head? ≠ some '.'
  expires : ∀ e, c.expires = some e → e < 2 ^ 63
  address : c.hostOnly = true ∨ isIpLiteral c.domain = false

theorem hasJarSeparator_eq_false_iff {s : String} :
    hasJarSeparator s = false ↔ '\t' ∉ s.toList ∧ '\r' ∉ s.toList ∧ '\n' ∉ s.toList := by
  simp only [hasJarSeparator, List.any_eq_false, Bool.or_eq_true, beq_iff_eq, not_or]
  grind

theorem hasJarSeparator_flag (b : Bool) : hasJarSeparator (flag b) = false := by
  cases b <;> decide

theorem hasJarSeparator_repr (n : Nat) : hasJarSeparator n.repr = false := by
  rw [hasJarSeparator, Nat.toList_repr, List.any_eq_false]
  intro c hc
  have hdigit := isDigit_bounds (Nat.isDigit_of_mem_toDigits (by decide) (by decide) hc)
  simp only [Bool.or_eq_true, beq_iff_eq, not_or]
  refine ⟨⟨?_, ?_⟩, ?_⟩
  all_goals
    rintro rfl
    exact absurd hdigit (by decide)

theorem hasJarSeparator_of_noControls {s : String} (h : NoControls s.toList) :
    hasJarSeparator s = false := by
  refine hasJarSeparator_eq_false_iff.mpr ⟨?_, ?_, ?_⟩
  all_goals exact fun hmem => absurd (h _ hmem) (by decide)

/-- No field of its line has a separator in it. -/
def Separable (c : Cookie) : Prop := ∀ field ∈ netscapeFields c, hasJarSeparator field = false

theorem toList_netscapeLine (c : Cookie) :
    (netscapeLine c).toList = (if c.httpOnly then httpOnlyPrefix.toList else []) ++
      ['\t'].intercalate ((netscapeFields c).map String.toList) := by
  unfold netscapeLine
  split <;> simp

theorem mem_netscapeLine_name {c : Cookie} {ch : Char} (h : ch ∈ c.name.toList) :
    ch ∈ (netscapeLine c).toList := by
  rw [toList_netscapeLine]
  simp [netscapeFields, List.intercalate, List.intersperse, h]

theorem split_fields {c : Cookie} (h : Separable c) :
    split '\t' (String.ofList (['\t'].intercalate ((netscapeFields c).map String.toList))) =
      netscapeFields c := by
  unfold split
  rw [String.toList_ofList, List.splitOn_intercalate '\t' ?_ (by simp [netscapeFields])]
  · simp [Function.comp_def]
  · intro field hfield
    obtain ⟨f, hf, rfl⟩ := List.mem_map.mp hfield
    exact (hasJarSeparator_eq_false_iff.mp (h f hf)).1

theorem head?_netscapeLine {c : Cookie} (hc : Plain c) (hh : c.httpOnly = false) :
    (netscapeLine c).toList.head? ≠ some '#' := by
  rw [toList_netscapeLine, hh]
  cases hd : c.domain.toList with
  | nil => simp [netscapeFields, List.intercalate, List.intersperse, hd]
  | cons ch rest =>
    have := (hc.domain ch (by simp [hd])).1
    simpa [netscapeFields, List.intercalate, List.intersperse, hd] using this

theorem trim_netscapeLine {c : Cookie} (hc : Plain c) : trim (netscapeLine c) ≠ "" := by
  obtain ⟨ch, hch, hspace⟩ := hc.name
  have hmem := mem_netscapeLine_name hch
  intro h
  have hnil : ((netscapeLine c).toList.dropWhile isWhitespace).reverse.dropWhile isWhitespace =
      [] := by
    simpa [trim] using h
  simp only [List.dropWhile_eq_nil_iff, List.mem_reverse] at hnil
  have hdrop : (netscapeLine c).toList.dropWhile isWhitespace = [] := by
    cases hd : (netscapeLine c).toList.dropWhile isWhitespace with
    | nil => rfl
    | cons d rest =>
      have hhead := List.head?_dropWhile_not isWhitespace (netscapeLine c).toList
      rw [hd] at hhead hnil
      simp [hnil d List.mem_cons_self] at hhead
  rw [List.dropWhile_eq_nil_iff.mp hdrop ch hmem] at hspace
  cases hspace

theorem lineFields_netscapeLine {c : Cookie} (hc : Plain c) (hs : Separable c) :
    lineFields (netscapeLine c) = some (c.httpOnly, netscapeFields c) := by
  unfold lineFields
  cases hh : c.httpOnly with
  | true =>
    have hpre : startsWith httpOnlyPrefix (netscapeLine c) = true := by
      simp [startsWith, toList_netscapeLine, hh]
    rw [if_pos hpre, toList_netscapeLine, hh, if_pos rfl, List.drop_left, split_fields hs]
  | false =>
    have hhead := head?_netscapeLine hc hh
    have hpre : startsWith httpOnlyPrefix (netscapeLine c) ≠ true := by
      intro h
      obtain ⟨rest, hrest⟩ := List.isPrefixOf_iff_prefix.mp h
      rw [← hrest] at hhead
      exact hhead rfl
    have hline : netscapeLine c =
        String.ofList (['\t'].intercalate ((netscapeFields c).map String.toList)) := by
      rw [← @String.ofList_toList (netscapeLine c), toList_netscapeLine, hh]
      rfl
    rw [if_neg hpre, if_neg (by simp [hhead, trim_netscapeLine hc]), hline, split_fields hs]

theorem parseI64_repr (n : Nat) :
    parseI64 n.repr = if n < 2 ^ 63 then some (n : Int) else none := by
  unfold parseI64
  split
  · rename_i digits h
    exact absurd h (asBytes_repr_ne_cons n (by decide) digits)
  · rw [parseUnsigned_repr]
    split <;> split <;> first | rfl | omega

theorem eqIgnoreAsciiCase_flag (b : Bool) : eqIgnoreAsciiCase (flag b) "TRUE" = b := by
  cases b <;> decide

/-- The line of a stored cookie gives the cookie back exactly when it is portable. -/
theorem parseNetscapeLine_iff {psl : SuffixList} {c : Cookie} (hc : Plain c) (hs : Separable c)
    (hpsl : c.hostOnly = false → isScopableCookieDomain psl c.domain = true) :
    parseNetscapeLine psl (netscapeLine c) = .cookie c.erased ↔ c.Portable := by
  have hname : c.name ≠ "" := by
    rintro hempty
    obtain ⟨ch, hch, -⟩ := hc.name
    rw [hempty] at hch
    cases hch
  have hline : parseNetscapeLine psl (netscapeLine c) = parseFields psl c.httpOnly c.domain
      (flag (!c.hostOnly)) c.path (flag c.secure) (c.expires.getD 0).repr c.name c.value := by
    rw [parseNetscapeLine, lineFields_netscapeLine hc hs]
    rfl
  rw [hline]
  unfold parseFields
  simp only [parseI64_repr, hname, if_false, hc.nameControls, hc.valueControls, Bool.or_self,
    Bool.false_eq_true, eqIgnoreAsciiCase_flag, Bool.not_not]
  constructor
  · intro h
    split at h
    · cases h
    · rename_i hdomain
      split at h
      · cases h
      · rename_i raw hraw
        obtain ⟨hlt, -⟩ := Option.ite_none_right_eq_some.mp hraw
        split at h
        · cases h
        · injection h with h
          have hdom : String.ofList (c.domain.toList.dropWhile (· == '.')) = c.domain :=
            congrArg Cookie.domain h
          have hhost : (c.hostOnly || isIpLiteral _) = c.hostOnly := congrArg Cookie.hostOnly h
          rw [hdom] at hhost
          refine ⟨hdomain, ?_, ?_, ?_⟩
          · intro hdot
            have hlist := congrArg String.toList hdom
            rw [String.toList_ofList, List.dropWhile_eq_self_iff] at hlist
            cases hd : c.domain.toList with
            | nil => simp [hd] at hdot
            | cons ch rest => simp_all
          · intro e he
            simpa [he] using hlt
          · cases ho : c.hostOnly with
            | true => exact .inl rfl
            | false => simpa [ho] using hhost
  · intro hp
    have hlt : c.expires.getD 0 < 2 ^ 63 := by
      cases he : c.expires with
      | none => decide
      | some e => exact hp.expires e he
    have hdom : c.domain.toList.dropWhile (· == '.') = c.domain.toList := by
      cases hd : c.domain.toList with
      | nil => rfl
      | cons ch rest =>
        have := hp.dot
        simp_all
    have hhost : (c.hostOnly || isIpLiteral c.domain) = c.hostOnly := by
      rcases hp.address with h | h <;> simp [h]
    have hscope : (!c.hostOnly && !isScopableCookieDomain psl c.domain) = false := by
      cases ho : c.hostOnly with
      | true => rfl
      | false => simp [hpsl ho]
    have hexp : (if ((c.expires.getD 0 : Nat) : Int) ≤ 0 then none
        else some ((c.expires.getD 0 : Nat) : Int).toNat) = c.expires := by
      cases he : c.expires with
      | none => rfl
      | some e =>
        have : e ≠ 0 := fun h0 => hc.expires (by rw [he, h0])
        simp [this]
    simp only [hp.host, if_false, hlt, if_true, hdom, String.ofList_toList, hhost, hscope,
      Bool.false_eq_true, hexp]
    rfl

/-! ## The file -/

theorem LineOutcome.cookie?_eq_some {o : LineOutcome} {c : Cookie} :
    o.cookie? = some c ↔ o = .cookie c := by
  cases o <;> simp [cookie?]

theorem separable_of_isSaved {jar : CookieJar} {c : Cookie} (h : jar.isSaved c = true) :
    Separable c := by
  simp only [CookieJar.isSaved, Bool.and_eq_true, Bool.not_eq_true', Bool.or_eq_false_iff] at h
  obtain ⟨-, ⟨⟨hname, hvalue⟩, hdomain⟩, hpath⟩ := h
  intro field hf
  simp only [netscapeFields, List.mem_cons, List.not_mem_nil, or_false] at hf
  rcases hf with rfl | rfl | rfl | rfl | rfl | rfl | rfl
  · exact hdomain
  · exact hasJarSeparator_flag _
  · exact hpath
  · exact hasJarSeparator_flag _
  · exact hasJarSeparator_repr _
  · exact hname
  · exact hvalue

/-- The line of a cookie is one line. -/
theorem not_mem_netscapeLine {c : Cookie} (hs : Separable c) {ch : Char}
    (hch : ch = '\n' ∨ ch = '\r') : ch ∉ (netscapeLine c).toList := by
  have hfields : ∀ field ∈ (netscapeFields c).map String.toList, ch ∉ field := by
    intro field hfield
    obtain ⟨f, hf, rfl⟩ := List.mem_map.mp hfield
    have := hasJarSeparator_eq_false_iff.mp (hs f hf)
    rcases hch with rfl | rfl
    · exact this.2.2
    · exact this.2.1
  have hbegins : ch ∉ (if c.httpOnly then httpOnlyPrefix.toList else []) := by
    rcases hch with rfl | rfl <;> cases c.httpOnly <;> decide
  have htab : ch ≠ '\t' := by
    rcases hch with rfl | rfl <;> decide
  rw [toList_netscapeLine, List.mem_append, not_or]
  refine ⟨hbegins, ?_⟩
  generalize (netscapeFields c).map String.toList = fields at hfields
  induction fields with
  | nil => simp
  | cons field rest ih =>
    cases rest with
    | nil => simpa using hfields
    | cons next rest =>
      rw [List.intercalate_cons_cons]
      simp only [List.mem_append, List.mem_singleton, not_or]
      exact ⟨⟨hfields field List.mem_cons_self, htab⟩,
        ih fun f hf => hfields f (List.mem_cons_of_mem field hf)⟩

/-- A cookie of a jar, saved and read back. -/
def CookieJar.reload (psl : SuffixList) (jar : CookieJar) (c : Cookie) : Option Cookie :=
  if jar.isSaved c then (parseNetscapeLine psl (netscapeLine c)).cookie? else none

theorem CookieJar.loadNetscape_saveNetscape (psl : SuffixList) (jar : CookieJar) :
    loadNetscape psl jar.saveNetscape = .ok { cookies := jar.cookies.filterMap (jar.reload psl) } := by
  have hlines : ∀ line ∈ netscapeHeader ++ (jar.cookies.filter jar.isSaved).map netscapeLine,
      ∀ ch, ch = '\n' ∨ ch = '\r' → ch ∉ line.toList := by
    intro line hline ch hch
    rcases List.mem_append.mp hline with hline | hline
    · have hhead : ∀ line ∈ netscapeHeader, '\n' ∉ line.toList ∧ '\r' ∉ line.toList := by decide +kernel
      rcases hch with rfl | rfl
      · exact (hhead line hline).1
      · exact (hhead line hline).2
    · obtain ⟨c, hc, rfl⟩ := List.mem_map.mp hline
      exact not_mem_netscapeLine (separable_of_isSaved (List.mem_filter.mp hc).2) hch
  have hheader : netscapeHeader.filterMap (fun line => (parseNetscapeLine psl line).cookie?) =
      [] := by
    have hskip : ∀ line ∈ netscapeHeader, lineFields line = none := by decide +kernel
    refine List.filterMap_eq_nil_iff.mpr ?_
    intro line hline
    simp [parseNetscapeLine, hskip line hline, LineOutcome.cookie?]
  unfold loadNetscape saveNetscape
  rw [fromUtf8_asBytes]
  simp only [fileLines_join (fun line hl => hlines line hl '\n' (.inl rfl))
    (fun line hl => hlines line hl '\r' (.inr rfl)), List.filterMap_append, hheader,
    List.nil_append, List.filterMap_map, List.filterMap_filter]
  rfl

theorem explicit_afterCalls (psl : SuffixList) (calls : List Call) :
    (afterCalls psl calls).explicit = [] := by
  induction calls using List.reverseRecOn with
  | nil => rfl
  | append_singleton calls call ih =>
    rw [afterCalls, List.foldl_append]
    change ((afterCalls psl calls).addSetCookie psl call.url call.line call.now).explicit = []
    unfold CookieJar.addSetCookie
    split
    · exact ih
    · split
      · exact ih
      · split <;> simp [CookieJar.insert, CookieJar.removeMatching, CookieJar.removeKey, ih]

theorem reload_iff {psl : SuffixList} {jar : CookieJar} {c : Cookie} (hjar : jar.explicit = [])
    (hc : Plain c) (hpsl : c.hostOnly = false → isScopableCookieDomain psl c.domain = true) :
    jar.reload psl c = some c.erased ↔ c.Portable := by
  unfold CookieJar.reload
  cases hs : jar.isSaved c with
  | true =>
    rw [if_pos rfl, LineOutcome.cookie?_eq_some,
      parseNetscapeLine_iff hc (separable_of_isSaved hs) hpsl]
  | false =>
    simp only [Bool.false_eq_true, if_false, reduceCtorEq, false_iff]
    intro hp
    have hdomain : hasJarSeparator c.domain = false := by
      refine hasJarSeparator_eq_false_iff.mpr ⟨?_, ?_, ?_⟩
      · exact fun h => (hc.domain _ h).2.1 rfl
      · exact fun h => (hc.domain _ h).2.2.1 rfl
      · exact fun h => (hc.domain _ h).2.2.2 rfl
    have hname := hasJarSeparator_of_noControls (noControls_of_hasForbiddenCookieChar hc.nameControls)
    have hvalue :=
      hasJarSeparator_of_noControls (noControls_of_hasForbiddenCookieChar hc.valueControls)
    have hpath := hasJarSeparator_of_noControls (hc.path hp.host)
    simp [CookieJar.isSaved, CookieJar.isExplicit, hjar, hdomain, hname, hvalue, hpath] at hs

/-- A jar that responses to parsed URLs filled is read back as it was, up to what a line cannot
say, exactly when each of its cookies is portable. -/
theorem netscape_round_trip (psl : SuffixList) (calls : List Call)
    (hurls : ∀ call ∈ calls, ∃ s, Url.parse s = .ok call.url) :
    CookieJar.loadNetscape psl (afterCalls psl calls).saveNetscape =
        .ok { cookies := (afterCalls psl calls).cookies.map Cookie.erased } ↔
      ∀ c ∈ (afterCalls psl calls).cookies, c.Portable := by
  have hreload : ∀ c ∈ (afterCalls psl calls).cookies,
      ((afterCalls psl calls).reload psl c = some c.erased ↔ c.Portable) := by
    intro c hc
    obtain ⟨call, hmem, hstores, hexp⟩ := mem_afterCalls hc
    obtain ⟨s, hurl⟩ := hurls call hmem
    exact reload_iff (explicit_afterCalls psl calls) (hstores.plain hexp hurl)
      fun ho => (hstores.stored.under ho).2.1
  rw [CookieJar.loadNetscape_saveNetscape]
  simp only [Except.ok.injEq, CookieJar.mk.injEq, and_true]
  rw [List.filterMap_eq_map_iff_forall_eq_some]
  exact forall₂_congr hreload

def localhost : Url := ⟨"http", none, "localhost", 80, "/"⟩

theorem netscape_round_trip_one :
    CookieJar.loadNetscape defaultSuffixes
        (afterCalls defaultSuffixes [⟨localhost, "a=1; HttpOnly; Max-Age=60", 1000⟩]).saveNetscape =
      .ok { cookies :=
        [⟨"a", "1", "localhost", "/", some 1060, false, true, true, .unspecified, false, none⟩] } := by
  have hjar : (afterCalls defaultSuffixes [⟨localhost, "a=1; HttpOnly; Max-Age=60", 1000⟩]).cookies =
      [⟨"a", "1", "localhost", "/", some 1060, false, true, true, .unspecified, false, none⟩] := by
    decide +kernel
  have hparse : (Url.parse "http://localhost/").toOption = some localhost := by decide +kernel
  have h := netscape_round_trip defaultSuffixes [⟨localhost, "a=1; HttpOnly; Max-Age=60", 1000⟩] ?_
  · rw [hjar] at h
    refine h.mpr ?_
    rintro c (- | ⟨-, ⟨⟩⟩)
    exact ⟨by decide, by decide, by simp, .inl rfl⟩
  · rintro call (- | ⟨-, ⟨⟩⟩)
    refine ⟨"http://localhost/", ?_⟩
    cases hp : Url.parse "http://localhost/" with
    | ok url =>
      rw [hp] at hparse
      cases hparse
      rfl
    | error e =>
      rw [hp] at hparse
      cases hparse

/-- A `Max-Age` up to the largest signed number is stored, and lost when the file is read. -/
theorem far_expiry_lost :
    (Url.parse "http://localhost/").toOption = some localhost ∧
      (afterCalls defaultSuffixes
        [⟨localhost, "a=1; Max-Age=9223372036854775807", 1⟩]).cookies.length = 1 ∧
      CookieJar.loadNetscape defaultSuffixes (afterCalls defaultSuffixes
        [⟨localhost, "a=1; Max-Age=9223372036854775807", 1⟩]).saveNetscape ≠
        .ok { cookies := (afterCalls defaultSuffixes
          [⟨localhost, "a=1; Max-Age=9223372036854775807", 1⟩]).cookies.map Cookie.erased } := by
  have hjar : afterCalls defaultSuffixes [⟨localhost, "a=1; Max-Age=9223372036854775807", 1⟩] =
      { cookies := [⟨"a", "1", "localhost", "/", some 9223372036854775808, false, false, true,
        .unspecified, false, none⟩] } := by
    decide +kernel
  rw [hjar, CookieJar.loadNetscape_saveNetscape]
  refine ⟨by decide, rfl, fun h => ?_⟩
  have hcookies := congrArg CookieJar.cookies (Except.ok.inj h)
  revert hcookies
  decide +kernel

end Rsurl.Cookies
