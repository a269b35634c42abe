import Rsurl.Cookie.Netscape
import Rsurl.Cookie.Scope

/-!
# One cookie for each key

Every operation of the jar puts a cookie in the place of the one with its key, and takes the entry
of the explicit list with it. Reading a file does not: a file that names a key twice gives a jar
with two cookies for it.
-/

namespace Rsurl.Cookies

open Text
open Http2 (Url)

/-! ## Keys -/

theorem sameKey_iff {a b : CookieKey} :
    sameKey a b = true ↔
      a.1 = b.1 ∧ toAsciiLowercase a.2.1 = toAsciiLowercase b.2.1 ∧ a.2.2 = b.2.2 := by
  simp [sameKey, eqIgnoreAsciiCase, and_assoc]

@[simp] theorem sameKey_self (a : CookieKey) : sameKey a a = true := sameKey_iff.mpr ⟨rfl, rfl, rfl⟩

/-- Keys that are the same are told apart from the same keys. -/
theorem sameKey_congr {a b : CookieKey} (h : sameKey a b = true) (k : CookieKey) :
    sameKey a k = sameKey b k := by
  obtain ⟨hn, hd, hp⟩ := sameKey_iff.mp h
  rw [Bool.eq_iff_iff, sameKey_iff, sameKey_iff, hn, hd, hp]

/-! ## The invariant -/

def Distinct (cookies : List Cookie) : Prop :=
  cookies.Pairwise fun a b => sameKey a.key b.key = false

/-- A key is there for a cookie that never passes. -/
def Held (cookies : List Cookie) (k : CookieKey) : Prop :=
  ∃ c ∈ cookies, sameKey c.key k = true ∧ c.expires = none

/-- No two cookies have the same key, and every explicit key is that of a cookie. -/
structure CookieJar.Identified (jar : CookieJar) : Prop where
  distinct : Distinct jar.cookies
  explicit : ∀ k ∈ jar.explicit, ∃ c ∈ jar.cookies, sameKey c.key k = true

/-- The invariant that carries it: purging leaves the explicit list alone, so its cookies must not
pass. -/
structure CookieJar.Wf (jar : CookieJar) : Prop where
  distinct : Distinct jar.cookies
  held : ∀ k ∈ jar.explicit, Held jar.cookies k

namespace CookieJar

theorem Wf.identified {jar : CookieJar} (h : jar.Wf) : jar.Identified where
  distinct := h.distinct
  explicit := by
    intro k hk
    obtain ⟨c, hc, hkey, -⟩ := h.held k hk
    exact ⟨c, hc, hkey⟩

theorem wf_empty : ({} : CookieJar).Wf := ⟨.nil, by simp⟩

theorem Wf.removeKey {jar : CookieJar} (h : jar.Wf) (key : CookieKey) : (jar.removeKey key).Wf where
  distinct := h.distinct.filter _
  held := by
    intro k hk
    obtain ⟨hmem, hother⟩ := List.mem_filter.mp hk
    obtain ⟨c, hc, hkey, hexp⟩ := h.held k hmem
    refine ⟨c, List.mem_filter.mpr ⟨hc, ?_⟩, hkey, hexp⟩
    rwa [sameKey_congr hkey]

/-- What is left after a removal has other keys. -/
theorem not_sameKey_of_mem_removeKey {jar : CookieJar} {key : CookieKey} {c : Cookie}
    (h : c ∈ (jar.removeKey key).cookies) : sameKey c.key key = false := by
  simpa using (List.mem_filter.mp h).2

theorem distinct_concat {jar : CookieJar} (h : jar.Wf) (c : Cookie) :
    Distinct ((jar.removeMatching c).cookies ++ [c]) := by
  refine List.pairwise_append.mpr ⟨(h.removeKey c.key).distinct, List.pairwise_singleton _ _, ?_⟩
  intro a ha b hb
  cases List.mem_singleton.mp hb
  exact not_sameKey_of_mem_removeKey ha

theorem Wf.insert {jar : CookieJar} (h : jar.Wf) (c : Cookie) : (jar.insert c).Wf where
  distinct := distinct_concat h c
  held := by
    intro k hk
    obtain ⟨d, hd, hkey⟩ := (h.removeKey c.key).held k hk
    exact ⟨d, List.mem_append_left _ hd, hkey⟩

theorem Wf.addExplicit {jar : CookieJar} (h : jar.Wf) (name value : String) (url : Url) :
    (jar.addExplicit name value url).Wf where
  distinct := distinct_concat h _
  held := by
    intro k hk
    rcases List.mem_append.mp hk with hk | hk
    · obtain ⟨d, hd, hkey⟩ := (h.removeKey _).held k hk
      exact ⟨d, List.mem_append_left _ hd, hkey⟩
    · cases List.mem_singleton.mp hk
      exact ⟨_, List.mem_append_right _ List.mem_cons_self, sameKey_self _, rfl⟩

theorem Wf.purgeExpired {jar : CookieJar} (h : jar.Wf) (now : Nat) : (jar.purgeExpired now).Wf where
  distinct := h.distinct.filter _
  held := by
    intro k hk
    obtain ⟨c, hc, hkey, hexp⟩ := h.held k hk
    exact ⟨c, List.mem_filter.mpr ⟨hc, by simp [Cookie.expired, hexp]⟩, hkey, hexp⟩

theorem Wf.addSetCookie {jar : CookieJar} (h : jar.Wf) (psl : SuffixList) (url : Url)
    (line : String) (now : Nat) : (jar.addSetCookie psl url line now).Wf := by
  unfold CookieJar.addSetCookie
  split
  · exact h
  · split
    · exact h
    · split
      · exact h.removeKey _
      · exact h.insert _

theorem Wf.ingestResponse {jar : CookieJar} (h : jar.Wf) (psl : SuffixList) (url : Url)
    (headers : List Hpack.Header) (now : Nat) : (jar.ingestResponse psl url headers now).Wf := by
  unfold CookieJar.ingestResponse
  generalize headers.filter _ = lines
  induction lines generalizing jar with
  | nil => exact h
  | cons line rest ih => exact ih (h.addSetCookie psl url line.2 now)

/-! ## Loading -/

theorem loadNetscape_cookies {psl : SuffixList} {contents : Bytes} {jar : CookieJar}
    (h : loadNetscape psl contents = .ok jar) :
    ∃ text, fromUtf8 contents = some text ∧ jar.explicit = [] ∧
      jar.cookies = (fileLines text).filterMap fun line => (parseNetscapeLine psl line).cookie? := by
  unfold loadNetscape at h
  split at h
  · cases h
  · rename_i text htext
    cases h
    exact ⟨text, htext, rfl, rfl⟩

end CookieJar

/-- No two lines of the file give cookies with the same key. -/
def LinesDiffer (psl : SuffixList) (contents : Bytes) : Prop :=
  ∀ text, fromUtf8 contents = some text → (fileLines text).Pairwise fun line line' =>
    ∀ c, (parseNetscapeLine psl line).cookie? = some c →
      ∀ c', (parseNetscapeLine psl line').cookie? = some c' → sameKey c.key c'.key = false

theorem distinct_loadNetscape_iff {psl : SuffixList} {contents : Bytes} {jar : CookieJar}
    (h : CookieJar.loadNetscape psl contents = .ok jar) :
    Distinct jar.cookies ↔ LinesDiffer psl contents := by
  obtain ⟨text, htext, -, hcookies⟩ := CookieJar.loadNetscape_cookies h
  rw [Distinct, hcookies, List.pairwise_filterMap]
  constructor
  · intro hd text' htext'
    cases htext.symm.trans htext'
    exact hd
  · intro hd
    exact hd text htext

/-! ## Runs -/

/-- The calls that change a jar. A file that cannot be read leaves the jar that was there. -/
inductive Op where
  | load (contents : Bytes)
  | addSetCookie (url : Url) (line : String) (now : Nat)
  | ingestResponse (url : Url) (headers : List Hpack.Header) (now : Nat)
  | addExplicit (name value : String) (url : Url)
  | insert (c : Cookie)
  | remove (name domain path : String)
  | purgeExpired (now : Nat)
  | clear

def Op.apply (psl : SuffixList) (jar : CookieJar) : Op → CookieJar
  | load contents => ((CookieJar.loadNetscape psl contents).toOption).getD jar
  | addSetCookie url line now => jar.addSetCookie psl url line now
  | ingestResponse url headers now => jar.ingestResponse psl url headers now
  | addExplicit name value url => jar.addExplicit name value url
  | insert c => jar.insert c
  | remove name domain path => (jar.remove name domain path).2
  | purgeExpired now => jar.purgeExpired now
  | clear => jar.clear

def Op.LinesDiffer (psl : SuffixList) : Op → Prop
  | load contents => Cookies.LinesDiffer psl contents
  | _ => True

def afterOps (psl : SuffixList) (ops : List Op) : CookieJar := ops.foldl (Op.apply psl) {}

theorem CookieJar.Wf.apply {psl : SuffixList} {jar : CookieJar} (h : jar.Wf) {op : Op}
    (hop : op.LinesDiffer psl) : (op.apply psl jar).Wf := by
  cases op with
  | load contents =>
    cases hload : CookieJar.loadNetscape psl contents with
    | error e =>
      simp only [Op.apply, hload]
      exact h
    | ok loaded =>
      obtain ⟨-, -, hexplicit, -⟩ := CookieJar.loadNetscape_cookies hload
      simp only [Op.apply, hload]
      exact ⟨(distinct_loadNetscape_iff hload).mpr hop, by simp [Except.toOption, hexplicit]⟩
  | addSetCookie url line now => exact h.addSetCookie psl url line now
  | ingestResponse url headers now => exact h.ingestResponse psl url headers now
  | addExplicit name value url => exact h.addExplicit name value url
  | insert c => exact h.insert c
  | remove name domain path => exact h.removeKey _
  | purgeExpired now => exact h.purgeExpired now
  | clear => exact CookieJar.wf_empty

/-- After an operation that leaves one cookie for each key, a loaded file had one for each. -/
theorem linesDiffer_of_distinct {psl : SuffixList} {jar : CookieJar} {op : Op}
    (h : Distinct (op.apply psl jar).cookies) : op.LinesDiffer psl := by
  cases op with
  | load contents =>
    cases hload : CookieJar.loadNetscape psl contents with
    | error e =>
      intro text htext
      simp [CookieJar.loadNetscape, htext] at hload
    | ok loaded =>
      simp only [Op.apply, hload] at h
      exact (distinct_loadNetscape_iff hload).mp h
  | _ => trivial

theorem wf_afterOps {psl : SuffixList} {ops : List Op} (h : ∀ op ∈ ops, op.LinesDiffer psl) :
    (afterOps psl ops).Wf := by
  induction ops using List.reverseRecOn with
  | nil => exact CookieJar.wf_empty
  | append_singleton ops op ih =>
    rw [afterOps, List.foldl_append]
    exact (ih fun o ho => h o (List.mem_append_left _ ho)).apply (h op (by simp))

/-- Along a run, every key has one cookie and every explicit key has one at all, exactly when no
file that was read names a key twice. -/
theorem jar_identified_iff (psl : SuffixList) (ops : List Op) :
    (∀ k, (afterOps psl (ops.take k)).Identified) ↔ ∀ op ∈ ops, op.LinesDiffer psl := by
  constructor
  · intro h op hop
    obtain ⟨i, hi, rfl⟩ := List.mem_iff_getElem.mp hop
    have hnext := (h (i + 1)).distinct
    rw [List.take_succ_eq_append_getElem hi, afterOps, List.foldl_append] at hnext
    exact linesDiffer_of_distinct hnext
  · intro h k
    exact (wf_afterOps fun op hop => h op (List.mem_of_mem_take hop)).identified

/-- A file with two lines for one key. -/
def twice : Bytes :=
  asBytes "h\tFALSE\t/\tFALSE\t0\tsid\ta\nh\tFALSE\t/\tFALSE\t0\tsid\tb\n"

/-- Both lines are kept. -/
theorem loaded_twice : ¬(afterOps defaultSuffixes [.load twice]).Identified := by
  intro h
  have hcookies : (afterOps defaultSuffixes [.load twice]).cookies =
      [⟨"sid", "a", "h", "/", none, false, false, true, .unspecified, false, none⟩,
        ⟨"sid", "b", "h", "/", none, false, false, true, .unspecified, false, none⟩] := by
    decide +kernel
  have hd := h.distinct
  rw [hcookies] at hd
  simp [Distinct, Cookie.key] at hd

end Rsurl.Cookies

/-!
## Secure cookies are left alone

What a response does to the Secure cookies of a jar when it did not come over a secure channel. A
cookie with the key of a stored one overlaps it, so that neither the removal of a passed cookie nor
the replacement of an equal one reaches a Secure cookie that the shadow test let by.
-/

namespace Rsurl.Cookies

open Text
open Http2 (Url)

/-- A request that carries one may carry the other: the name is the same, one domain is at or above
the other, and the new path is at or under the old. -/
def Cookie.Overlaps (new old : Cookie) : Prop :=
  new.name = old.name ∧
    (domainMatch old.domain new.domain false = true ∨
      domainMatch new.domain old.domain false = true) ∧
    pathMatch new.path old.path = true

theorem overlaps_of_sameKey {new old : Cookie} (h : sameKey old.key new.key = true) :
    new.Overlaps old := by
  obtain ⟨hname, hdomain, hpath⟩ := sameKey_iff.mp h
  refine ⟨hname.symm, .inl ?_, ?_⟩
  · simp only [domainMatch, Bool.or_eq_true]
    exact .inl (beq_iff_eq.mpr hdomain)
  · simp only [pathMatch, Bool.or_eq_true]
    exact .inl (beq_iff_eq.mpr hpath.symm)

namespace CookieJar

/-- The Secure cookies, in the order of the jar. -/
def secureCookies (jar : CookieJar) : List Cookie := jar.cookies.filter (·.secure)

theorem shadowsSecureCookie_iff {jar : CookieJar} {new : Cookie} :
    jar.shadowsSecureCookie new = true ↔ ∃ old ∈ jar.secureCookies, new.Overlaps old := by
  simp only [shadowsSecureCookie, secureCookies, Cookie.Overlaps, List.any_eq_true,
    Bool.and_eq_true, Bool.or_eq_true, beq_iff_eq, List.mem_filter]
  constructor
  · rintro ⟨old, hmem, ⟨⟨hsecure, hname⟩, hdomain⟩, hpath⟩
    exact ⟨old, ⟨hmem, hsecure⟩, hname.symm, hdomain, hpath⟩
  · rintro ⟨old, ⟨hmem, hsecure⟩, hname, hdomain, hpath⟩
    exact ⟨old, hmem, ⟨⟨hsecure, hname.symm⟩, hdomain⟩, hpath⟩

/-- What has the key of a cookie that shadows no Secure one is not Secure. -/
theorem secureCookies_removeMatching {jar : CookieJar} {new : Cookie}
    (h : jar.shadowsSecureCookie new = false) :
    (jar.removeMatching new).secureCookies = jar.secureCookies := by
  rw [secureCookies, removeMatching, removeKey, List.filter_comm]
  refine List.filter_eq_self.mpr fun old hold => ?_
  have hoverlaps : ¬new.Overlaps old := fun hover => by
    rw [shadowsSecureCookie_iff.mpr ⟨old, hold, hover⟩] at h
    cases h
  rw [Bool.not_eq_true', Bool.eq_false_iff]
  exact fun hkey => hoverlaps (overlaps_of_sameKey hkey)

theorem secureCookies_insert {jar : CookieJar} {new : Cookie} (hsecure : new.secure = false)
    (h : jar.shadowsSecureCookie new = false) :
    (jar.insert new).secureCookies = jar.secureCookies := by
  rw [← secureCookies_removeMatching h, secureCookies, insert, List.filter_append]
  simp [hsecure, secureCookies]

variable {psl : SuffixList} {url : Url}

theorem addSetCookie_of_shadows {jar : CookieJar} {line : String} {now : Nat} {new : Cookie}
    (hurl : isSecureContext url = false) (hnew : parseSetCookie psl line url now = some new)
    (h : jar.shadowsSecureCookie new = true) : jar.addSetCookie psl url line now = jar := by
  unfold addSetCookie
  rw [hnew]
  simp [hurl, h]

/-- One line. -/
theorem secureCookies_addSetCookie (hurl : isSecureContext url = false) (jar : CookieJar)
    (line : String) (now : Nat) :
    (jar.addSetCookie psl url line now).secureCookies = jar.secureCookies := by
  cases hnew : parseSetCookie psl line url now with
  | none => rw [addSetCookie, hnew]
  | some new =>
    cases hshadow : jar.shadowsSecureCookie new with
    | true => rw [addSetCookie_of_shadows hurl hnew hshadow]
    | false =>
      have hsecure : new.secure = false := by
        obtain ⟨_, _, _, a, -, -, -, -, -, hctx, rfl⟩ := parseSetCookie_ok hnew
        rw [Bool.eq_false_iff]
        intro ha
        rw [hctx ha] at hurl
        cases hurl
      rw [addSetCookie, hnew]
      simp only [hshadow, Bool.and_false, Bool.false_eq_true, if_false]
      split
      · exact secureCookies_removeMatching hshadow
      · exact secureCookies_insert hsecure hshadow

/-- A response over an insecure channel changes no Secure cookie, and puts no cookie where a
request would carry it in the place of one. -/
theorem secure_cookies_left_alone (psl : SuffixList) (jar : CookieJar) (url : Url) (line : String)
    (now : Nat) (hurl : isSecureContext url = false) :
    (jar.addSetCookie psl url line now).secureCookies = jar.secureCookies ∧
      (∀ new, parseSetCookie psl line url now = some new →
        (∃ old ∈ jar.secureCookies, new.Overlaps old) →
          jar.addSetCookie psl url line now = jar) ∧
      ∀ new ∈ (jar.addSetCookie psl url line now).cookies, new ∉ jar.cookies →
        parseSetCookie psl line url now = some new ∧
          ∀ old ∈ jar.secureCookies, ¬new.Overlaps old := by
  refine ⟨secureCookies_addSetCookie hurl jar line now, fun new hnew hover => ?_,
    fun new hmem hfresh => ?_⟩
  · exact addSetCookie_of_shadows hurl hnew (shadowsSecureCookie_iff.mpr hover)
  · obtain ⟨hnew, -⟩ := (mem_addSetCookie hmem).resolve_left hfresh
    refine ⟨hnew, fun old hold hover => ?_⟩
    rw [addSetCookie_of_shadows hurl hnew (shadowsSecureCookie_iff.mpr ⟨old, hold, hover⟩)] at hmem
    exact hfresh hmem

/-- The session of the whole site, held for https. -/
def sessionJar : CookieJar where
  cookies := [⟨"sid", "1", "example.com", "/", none, true, true, false, .lax, false, none⟩]

theorem secure_cookies_left_alone_session :
    sessionJar.addSetCookie defaultSuffixes ⟨"http", none, "www.example.com", 80, "/"⟩
      "sid=2; Path=/login" 0 = sessionJar := by
  have hnew : parseSetCookie defaultSuffixes "sid=2; Path=/login"
      ⟨"http", none, "www.example.com", 80, "/"⟩ 0 = some ⟨"sid", "2", "www.example.com", "/login",
        none, false, false, true, .unspecified, false, none⟩ := by
    decide +kernel
  refine (secure_cookies_left_alone _ _ _ _ _ (by decide)).2.1 _ hnew ?_
  exact ⟨_, List.mem_cons_self, rfl, .inr (by decide), by decide +kernel⟩

end CookieJar

end Rsurl.Cookies
