import Rsurl.Cookie.Jar
import Rsurl.Ascii
import Rsurl.Library.Outcome

/-!
# Which hosts a cookie reaches

A cookie is stored with a domain that is the host it came from or a registrable domain above it, and
it is sent to hosts that match the domain. The one gap: a host that is no address may end in one,
and name it as the domain of its cookie.
-/

namespace Rsurl.Cookies

open Text Library
open Http2 (Url)

/-! ## Addresses in either case -/

theorem not_isAlpha_of_isDigit {c : Char} (h : c.isDigit = true) : c.isAlpha = false := by
  have h0 : '0'.val.toNat = 48 := rfl
  have h9 : '9'.val.toNat = 57 := rfl
  simp only [Char.isDigit, Bool.and_eq_true, decide_eq_true_eq, ge_iff_le,
    UInt32.le_iff_toNat_le] at h
  have hA : 'A'.val.toNat = 65 := rfl
  have ha : 'a'.val.toNat = 97 := rfl
  simp only [Char.isAlpha, Char.isUpper, Char.isLower, Bool.or_eq_false_iff, Bool.and_eq_false_iff,
    decide_eq_false_iff_not, ge_iff_le, UInt32.le_iff_toNat_le]
  omega

theorem toLower_of_isDigit {c : Char} (h : c.isDigit = true) : c.toLower = c :=
  (toLower_eq_iff (not_isAlpha_of_isDigit h)).mpr rfl

theorem isDigit_toLower (c : Char) : c.toLower.isDigit = c.isDigit := by
  rw [Bool.eq_iff_iff]
  constructor
  · intro h
    have halpha : c.isAlpha = false := by
      rw [← Char.isAlpha_toLower_eq_isAlpha, not_isAlpha_of_isDigit h]
    rwa [(toLower_eq_iff halpha).mpr rfl] at h
  · intro h
    rwa [toLower_of_isDigit h]

theorem splitOn_map_toLower {sep : Char} (hsep : sep.isAlpha = false) (s : List Char) :
    (s.map Char.toLower).splitOn sep = (s.splitOn sep).map (List.map Char.toLower) := by
  induction s with
  | nil => rfl
  | cons c rest ih =>
    rw [List.map_cons, List.splitOn_cons_eq_if_modifyHead, List.splitOn_cons_eq_if_modifyHead, ih]
    have hbeq : (c.toLower == sep) = (c == sep) := by
      rw [Bool.eq_iff_iff, beq_iff_eq, beq_iff_eq, toLower_eq_iff hsep]
    rw [hbeq]
    split
    · rfl
    · cases rest.splitOn sep <;> rfl

/-- The digits of a number, after a plus sign. -/
def u8Digits (part : List Char) : List Char :=
  match part with
  | '+' :: rest => rest
  | _ => part

theorem u8Digits_map_toLower (part : List Char) :
    u8Digits (part.map Char.toLower) = (u8Digits part).map Char.toLower := by
  cases part with
  | nil => rfl
  | cons c rest =>
    have hplus : c.toLower = '+' ↔ c = '+' := toLower_eq_iff (by decide)
    simp only [u8Digits, List.map_cons]
    grind

theorem isU8_map_toLower (part : List Char) : isU8 (part.map Char.toLower) = isU8 part := by
  have hdigits : isU8 part = (!(u8Digits part).isEmpty && (u8Digits part).all Char.isDigit &&
      decide ((u8Digits part).foldl (fun acc c => acc * 10 + (c.toNat - '0'.toNat)) 0 ≤ 255)) := rfl
  have hlower : isU8 (part.map Char.toLower) = (!((u8Digits part).map Char.toLower).isEmpty &&
      ((u8Digits part).map Char.toLower).all Char.isDigit &&
      decide (((u8Digits part).map Char.toLower).foldl
        (fun acc c => acc * 10 + (c.toNat - '0'.toNat)) 0 ≤ 255)) := by
    rw [← u8Digits_map_toLower]
    rfl
  have hall : ((u8Digits part).map Char.toLower).all Char.isDigit =
      (u8Digits part).all Char.isDigit := by
    simp [Function.comp_def, isDigit_toLower]
  rw [hdigits, hlower, hall]
  cases hd : (u8Digits part).all Char.isDigit with
  | false => simp
  | true =>
    have hid : (u8Digits part).map Char.toLower = u8Digits part := by
      rw [List.map_congr_left (g := id), List.map_id]
      intro c hc
      exact toLower_of_isDigit (List.all_eq_true.mp hd c hc)
    rw [hid]

@[simp] theorem isIpLiteral_toAsciiLowercase (host : String) :
    isIpLiteral (toAsciiLowercase host) = isIpLiteral host := by
  have hhead : ((host.toList.map Char.toLower).head? == some '[') =
      (host.toList.head? == some '[') := by
    cases host.toList with
    | nil => rfl
    | cons c rest =>
      have : c.toLower = '[' ↔ c = '[' := toLower_eq_iff (by decide)
      rw [Bool.eq_iff_iff]
      simpa using this
  have hcolon : (host.toList.map Char.toLower).contains ':' = host.toList.contains ':' := by
    have : ∀ c : Char, c.toLower = ':' ↔ c = ':' := fun c => toLower_eq_iff (by decide)
    rw [Bool.eq_iff_iff]
    simp [this]
  have hparts : ((host.toList.splitOn '.').map (List.map Char.toLower)).all isU8 =
      (host.toList.splitOn '.').all isU8 := by
    simp [Function.comp_def, isU8_map_toLower]
  unfold isIpLiteral
  rw [toList_toAsciiLowercase, hhead, hcolon, splitOn_map_toLower (by decide), hparts,
    List.length_map]

theorem isIpLiteral_congr {s t : String} (h : eqIgnoreAsciiCase s t = true) :
    isIpLiteral s = isIpLiteral t := by
  rw [← isIpLiteral_toAsciiLowercase s, eqIgnoreAsciiCase_iff.mp h, isIpLiteral_toAsciiLowercase]

/-! ## What is stored -/

/-- What the attributes read so far scope the cookie to. -/
structure Attributes.Scoped (psl : SuffixList) (host : String) (a : Attributes) : Prop where
  hostOnly : a.hostOnly = true → a.domain = none ∨ a.domain = some host
  under : a.hostOnly = false → isIpLiteral host = false ∧ ∃ v, a.domain = some v ∧
    isScopableCookieDomain psl v = true ∧ domainMatch host v false = true

theorem Attributes.Scoped.congr {psl : SuffixList} {host : String} {a b : Attributes}
    (h : a.Scoped psl host) (hd : b.domain = a.domain) (ho : b.hostOnly = a.hostOnly) :
    b.Scoped psl host where
  hostOnly := by
    rw [hd, ho]
    exact h.hostOnly
  under := by
    rw [hd, ho]
    exact h.under

theorem Attributes.setDomain_scoped {psl : SuffixList} {host v : String} {a b : Attributes}
    (ha : a.Scoped psl host) (h : a.setDomain psl host v = some b) : b.Scoped psl host := by
  unfold setDomain at h
  simp only at h
  split at h
  · cases h
    exact ha
  · split at h
    · cases h
      exact ha.congr rfl rfl
    · rename_i hip
      split at h
      · split at h
        · rename_i hv
          cases h
          exact ⟨fun _ => .inr (congrArg some hv), by simp⟩
        · cases h
      · rename_i hpsl
        split at h
        · rename_i hmatch
          cases h
          refine ⟨by simp, fun _ => ⟨by simpa using hip, _, rfl, by simpa using hpsl, hmatch⟩⟩
        · cases h

theorem Attributes.setFlag_same (a : Attributes) (k : String) (v : Option String) :
    (a.setFlag k v).domain = a.domain ∧ (a.setFlag k v).hostOnly = a.hostOnly ∧
      (a.setFlag k v).path = a.path := by
  unfold setFlag
  repeat' split
  all_goals simp

theorem Attributes.setDomain_path {psl : SuffixList} {host v : String} {a b : Attributes}
    (h : a.setDomain psl host v = some b) : b.path = a.path := by
  unfold setDomain at h
  grind

/-- What an attribute with a value changes. -/
theorem Attributes.setValue_cases {psl : SuffixList} {host k v : String} {a b : Attributes}
    (h : a.setValue psl host k v = some b) :
    a.setDomain psl host v = some b ∨ a.setPath v = some b ∨
      (b.domain = a.domain ∧ b.hostOnly = a.hostOnly ∧ b.path = a.path) := by
  unfold setValue at h
  split at h
  · exact .inl h
  · split at h
    · exact .inr (.inl h)
    · refine .inr (.inr ?_)
      split at h
      · cases h
        simp
      · split at h
        · split at h <;> cases h <;> simp
        · cases h
          simp

theorem Attributes.setPath_ok {v : String} {a b : Attributes} (h : a.setPath v = some b) :
    b.domain = a.domain ∧ b.hostOnly = a.hostOnly ∧
      (b.path = a.path ∨ (b.path = v ∧ hasForbiddenCookieChar v = false)) := by
  unfold setPath at h
  split at h
  · cases h
  · rename_i hv
    split at h
    · cases h
      exact ⟨rfl, rfl, .inr ⟨rfl, by simpa using hv⟩⟩
    · cases h
      exact ⟨rfl, rfl, .inl rfl⟩

theorem Attributes.push_scoped {psl : SuffixList} {host attr : String} {a b : Attributes}
    (ha : a.Scoped psl host) (h : a.push psl host attr = some b) : b.Scoped psl host := by
  unfold push at h
  generalize splitAttribute (trim attr) = kv at h
  obtain ⟨k, v⟩ := kv
  obtain ⟨c, hc, rfl⟩ := Option.map_eq_some_iff.mp h
  obtain ⟨hd, ho, -⟩ := c.setFlag_same k v
  refine Scoped.congr ?_ hd ho
  cases v with
  | none =>
    cases hc
    exact ha
  | some v =>
    rcases setValue_cases hc with hdom | hpath | ⟨hd, ho, -⟩
    · exact setDomain_scoped ha hdom
    · obtain ⟨hd, ho, -⟩ := setPath_ok hpath
      exact ha.congr hd ho
    · exact ha.congr hd ho

theorem parseAttributes_scoped {psl : SuffixList} {url : Url} {attrs : List String}
    {a : Attributes} (h : parseAttributes psl url attrs = some a) :
    a.Scoped psl (toAsciiLowercase url.host) := by
  refine Outcome.optionFold_rule (I := Attributes.Scoped psl (toAsciiLowercase url.host))
    (fun _ _ _ _ hs hp => Attributes.push_scoped hs hp) ⟨fun _ => .inl rfl, by simp⟩ h

/-- What a stored cookie says of the host it came from. -/
structure Stored (psl : SuffixList) (url : Url) (c : Cookie) : Prop where
  name : hasForbiddenCookieChar c.name = false
  value : hasForbiddenCookieChar c.value = false
  hostOnly : c.hostOnly = true → c.domain = toAsciiLowercase url.host
  under : c.hostOnly = false → isIpLiteral url.host = false ∧
    isScopableCookieDomain psl c.domain = true ∧
    domainMatch (toAsciiLowercase url.host) c.domain false = true

theorem parseSetCookie_stored {psl : SuffixList} {line : String} {url : Url} {now : Nat}
    {c : Cookie} (h : parseSetCookie psl line url now = some c) : Stored psl url c := by
  obtain ⟨name, value, attrs, a, -, -, hname, hvalue, ha, -, rfl⟩ := parseSetCookie_ok h
  have hscoped := parseAttributes_scoped ha
  refine ⟨hname, hvalue, ?_, ?_⟩
  · intro ho
    rcases hscoped.hostOnly ho with hd | hd <;> simp [Attributes.cookie, hd]
  · intro ho
    obtain ⟨hip, v, hd, hpsl, hmatch⟩ := hscoped.under ho
    simp only [Attributes.cookie, hd, Option.getD_some]
    exact ⟨by simpa using hip, hpsl, hmatch⟩

/-! ## The cookies of a run -/

structure Call where
  url : Url
  line : String
  now : Nat

/-- The jar after these calls. -/
def afterCalls (psl : SuffixList) (calls : List Call) : CookieJar :=
  calls.foldl (fun jar call => jar.addSetCookie psl call.url call.line call.now) {}

/-- The call stores this cookie. -/
def Call.Stores (psl : SuffixList) (call : Call) (c : Cookie) : Prop :=
  parseSetCookie psl call.line call.url call.now = some c

theorem Call.Stores.stored {psl : SuffixList} {call : Call} {c : Cookie} (h : call.Stores psl c) :
    Stored psl call.url c := by
  unfold Stores at h
  exact parseSetCookie_stored h

theorem CookieJar.mem_addSetCookie {psl : SuffixList} {jar : CookieJar} {url : Url} {line : String}
    {now : Nat} {c : Cookie} (h : c ∈ (jar.addSetCookie psl url line now).cookies) :
    c ∈ jar.cookies ∨ (parseSetCookie psl line url now = some c ∧ c.expired now = false) := by
  unfold addSetCookie at h
  split at h
  · exact .inl h
  · rename_i new hnew
    split at h
    · exact .inl h
    · split at h
      · exact .inl (List.mem_of_mem_filter h)
      · rename_i hexp
        rcases List.mem_append.mp h with h | h
        · exact .inl (List.mem_of_mem_filter h)
        · cases List.mem_singleton.mp h
          exact .inr ⟨hnew, by simpa using hexp⟩

/-- Every cookie in the jar was stored by a call, and had not passed then. -/
theorem mem_afterCalls {psl : SuffixList} {calls : List Call} {c : Cookie}
    (h : c ∈ (afterCalls psl calls).cookies) :
    ∃ call ∈ calls, call.Stores psl c ∧ c.expired call.now = false := by
  induction calls using List.reverseRecOn with
  | nil => cases h
  | append_singleton calls call ih =>
    rw [afterCalls, List.foldl_append] at h
    rcases CookieJar.mem_addSetCookie h with h | h
    · obtain ⟨call', hmem, hstores⟩ := ih h
      exact ⟨call', List.mem_append_left _ hmem, hstores⟩
    · exact ⟨call, by simp, h⟩

/-! ## Confinement -/

/-- The host is the domain, or ends in a dot and the domain. -/
def Within (host domain : String) : Prop :=
  eqIgnoreAsciiCase host domain = true ∨ isUnder host domain = true

/-- A cookie from one host may go to the other: they are the same host, or names under one domain
that is no public suffix. -/
def Confined (psl : SuffixList) (host target : String) : Prop :=
  eqIgnoreAsciiCase target host = true ∨
    ∃ domain, isScopableCookieDomain psl domain = true ∧ Within host domain ∧
      Within target domain ∧ isIpLiteral host = false ∧ isIpLiteral target = false

/-- The domain of the cookie is not an address that hosts under it may be asked about. -/
def Cookie.NamesNoAddress (c : Cookie) : Prop :=
  c.hostOnly = true ∨ isIpLiteral c.domain = false ∨ requestPath c.path ≠ c.path

theorem within_of_domainMatch {host domain : String} {hostOnly : Bool}
    (h : domainMatch host domain hostOnly = true) : Within host domain := by
  simp only [domainMatch, Bool.or_eq_true, Bool.and_eq_true] at h
  exact h.imp id fun h => h.2

theorem within_toAsciiLowercase {host domain : String} (h : Within (toAsciiLowercase host) domain) :
    Within host domain := by
  simpa [Within, eqIgnoreAsciiCase, isUnder] using h

theorem CookieJar.mem_emitted {jar : CookieJar} {url : Url} {now : Nat} {c : Cookie} :
    c ∈ jar.emitted url now ↔ c ∈ jar.cookies ∧ matchesRequest c url now = true ∧
      hasForbiddenCookieChar c.name = false ∧ hasForbiddenCookieChar c.value = false := by
  simp [emitted, and_assoc]

/-- A cookie that is sent has a path with no query in it. -/
theorem requestPath_of_matches {c : Cookie} {url : Url} {now : Nat}
    (h : CookieJar.matchesRequest c url now = true) : requestPath c.path = c.path := by
  have hp : c.path.toList <+: (requestPath url.path).toList := by
    simp only [CookieJar.matchesRequest, pathMatch, Bool.and_eq_true, Bool.or_eq_true,
      beq_iff_eq, List.isPrefixOf_iff_prefix] at h
    rcases h.2 with heq | ⟨hpre, -⟩
    · rw [heq]
    · exact hpre
  have hclean : ∀ ch ∈ c.path.toList, (decide (ch ≠ '?') && decide (ch ≠ '#')) = true := by
    intro ch hch
    have := hp.subset hch
    rw [requestPath, String.toList_ofList] at this
    simpa using List.mem_takeWhile_imp this
  rw [requestPath, List.takeWhile_eq_self_iff.mpr hclean, String.ofList_toList]

theorem confined_of_matches {psl : SuffixList} {url target : Url} {now : Nat} {c : Cookie}
    (hs : Stored psl url c) (hm : CookieJar.matchesRequest c target now = true)
    (hn : c.hostOnly = true ∨ isIpLiteral c.domain = false) :
    Confined psl url.host target.host := by
  simp only [CookieJar.matchesRequest, Bool.and_eq_true] at hm
  obtain ⟨⟨-, hdom⟩, -⟩ := hm
  cases ho : c.hostOnly with
  | true =>
    rw [ho, hs.hostOnly ho] at hdom
    refine .inl ?_
    simpa [domainMatch, eqIgnoreAsciiCase] using hdom
  | false =>
    obtain ⟨hip, hpsl, hmatch⟩ := hs.under ho
    have hdomip : isIpLiteral c.domain = false := by simpa [ho] using hn
    refine .inr ⟨c.domain, hpsl, within_toAsciiLowercase (within_of_domainMatch hmatch),
      within_of_domainMatch hdom, hip, ?_⟩
    simp only [domainMatch, Bool.or_eq_true, Bool.and_eq_true, Bool.not_eq_true'] at hdom
    rcases hdom with heq | hunder
    · rw [isIpLiteral_congr heq, hdomip]
    · exact hunder.1.2

/-- A cookie whose domain is an address goes to that address, whatever name it came from. -/
theorem not_confined_of_address {psl : SuffixList} {url : Url} {c : Cookie} (hs : Stored psl url c)
    (hexp : c.expired 0 = false) (hn : ¬c.NamesNoAddress) :
    CookieJar.matchesRequest c ⟨"https", none, c.domain, 443, c.path⟩ 0 = true ∧
      ¬Confined psl url.host c.domain := by
  simp only [Cookie.NamesNoAddress, not_or, Bool.not_eq_true, Bool.not_eq_false,
    Decidable.not_not] at hn
  obtain ⟨ho, hip, hpath⟩ := hn
  obtain ⟨hhost, -, -⟩ := hs.under ho
  constructor
  · simp [CookieJar.matchesRequest, hexp, isSecureContext, isTls, domainMatch, eqIgnoreAsciiCase,
      pathMatch, hpath]
  · rintro (heq | ⟨-, -, -, -, -, htarget⟩)
    · rw [isIpLiteral_congr heq, hhost] at hip
      cases hip
    · rw [hip] at htarget
      cases htarget

theorem expired_zero {c : Cookie} {now : Nat} (h : c.expired now = false) : c.expired 0 = false := by
  unfold Cookie.expired at *
  cases he : c.expires with
  | none => rfl
  | some exp =>
    rw [he] at h
    simp only [Option.any_some, decide_eq_false_iff_not] at h ⊢
    omega

/-- Whatever calls filled the jar: every cookie in it was stored by one of them; the cookies go only
where the hosts they came from allow exactly when none is scoped to an address; and a secure cookie
goes to secure contexts only. -/
theorem cookies_confined (psl : SuffixList) (calls : List Call) :
    (∀ c ∈ (afterCalls psl calls).cookies, ∃ call ∈ calls, call.Stores psl c) ∧
      ((∀ c ∈ (afterCalls psl calls).cookies, ∀ call ∈ calls, call.Stores psl c →
          ∀ url now, c ∈ (afterCalls psl calls).emitted url now →
            Confined psl call.url.host url.host) ↔
        ∀ c ∈ (afterCalls psl calls).cookies, c.NamesNoAddress) ∧
      ∀ url now, ∀ c ∈ (afterCalls psl calls).emitted url now, c.secure = true →
        isSecureContext url = true := by
  refine ⟨?_, ⟨?_, ?_⟩, ?_⟩
  · intro c hc
    obtain ⟨call, hmem, hstores, -⟩ := mem_afterCalls hc
    exact ⟨call, hmem, hstores⟩
  · intro hconf c hc
    by_contra hn
    obtain ⟨call, hmem, hstores, hexp⟩ := mem_afterCalls hc
    have hstored := hstores.stored
    obtain ⟨hmatch, hnot⟩ := not_confined_of_address hstored (expired_zero hexp) hn
    exact hnot (hconf c hc call hmem hstores ⟨"https", none, c.domain, 443, c.path⟩ 0
      (CookieJar.mem_emitted.mpr ⟨hc, hmatch, hstored.name, hstored.value⟩))
  · intro hn c hc call hmem hstores url now he
    obtain ⟨-, hmatch, -, -⟩ := CookieJar.mem_emitted.mp he
    refine confined_of_matches hstores.stored hmatch ?_
    rcases hn c hc with ho | hip | hpath
    · exact .inl ho
    · exact .inr hip
    · exact absurd (requestPath_of_matches hmatch) hpath
  · intro url now c he hsec
    obtain ⟨-, hmatch, -, -⟩ := CookieJar.mem_emitted.mp he
    simp only [CookieJar.matchesRequest, hsec, Bool.and_eq_true, Bool.not_true,
      Bool.false_or] at hmatch
    exact hmatch.1.1.2

/-- A list without rules: every name of several labels is registrable. -/
def defaultSuffixes : SuffixList := fun name => some (!name.toList.contains '.')

def underAddress : Url := ⟨"http", none, "x.10.0.0.1", 80, "/"⟩

/-- The host `x.10.0.0.1` is no address, and its cookie goes to the address `10.0.0.1`. -/
theorem cookie_reaches_address :
    (Url.parse "http://x.10.0.0.1/").toOption = some underAddress ∧
      ∃ c ∈ (afterCalls defaultSuffixes [⟨underAddress, "sid=1; Domain=10.0.0.1", 0⟩]).emitted
          ⟨"http", none, "10.0.0.1", 80, "/"⟩ 0,
        Call.Stores defaultSuffixes ⟨underAddress, "sid=1; Domain=10.0.0.1", 0⟩ c ∧
          ¬Confined defaultSuffixes underAddress.host "10.0.0.1" := by
  refine ⟨by decide +kernel, ⟨"sid", "1", "10.0.0.1", "/", none, false, false, false, .unspecified,
    false, none⟩, by decide +kernel, by unfold Call.Stores; decide +kernel, ?_⟩
  rintro (heq | ⟨-, -, -, -, -, htarget⟩)
  · exact absurd heq (by decide)
  · exact absurd htarget (by decide +kernel)

end Rsurl.Cookies
