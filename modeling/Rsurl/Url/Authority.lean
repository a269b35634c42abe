import Rsurl.Url.Path
import Rsurl.Ascii

/-!
# Authorities

Host and port are cut at the last colon behind the last `@`. A host without brackets keeps every
colon before that one, so what is written decides whether the URL says one thing only.
-/

namespace Rsurl.Url

open Text
open Http2 (Url)

/-! ## Host and port -/

/-- What stands behind a host: nothing, a colon, or a colon and a number of sixteen bits. -/
inductive PortText (dflt : Nat) : List Char → Nat → Prop
  | absent : PortText dflt [] dflt
  | empty : PortText dflt [':'] dflt
  | number {p : List Char} : p ≠ [] → (∀ c ∈ p, c.isDigit = true) →
      Nat.ofDigitChars 10 p 0 ≤ 65535 → PortText dflt (':' :: p) (Nat.ofDigitChars 10 p 0)

variable {dflt port : Nat} {p host hostport suffix : List Char} {bracketed : Bool}

theorem parseUnsigned_digits {limit : Nat} (hne : p ≠ []) (h : ∀ c ∈ p, c.isDigit = true) :
    parseUnsigned limit (String.ofList p) =
      if Nat.ofDigitChars 10 p 0 ≤ limit then some (Nat.ofDigitChars 10 p 0) else none := by
  have hall : (p.map fun c => UInt8.ofNat c.toNat).all isAsciiDigit = true := by
    rw [List.all_map, List.all_eq_true]
    exact fun c hc => isAsciiDigit_of_isDigit (h c hc)
  have hplus (rest : Bytes) : p.map (fun c => UInt8.ofNat c.toNat) ≠ 0x2b :: rest := by
    intro heq
    rw [heq] at hall
    simp [show isAsciiDigit 0x2b = false from rfl] at hall
  unfold parseUnsigned
  extract_lets digits n
  have hdigits : digits = p.map fun c => UInt8.ofNat c.toNat := by
    unfold digits
    rw [asBytes_digits h]
    split
    · exact absurd ‹_› (hplus _)
    · rfl
  have hn : n = Nat.ofDigitChars 10 p 0 := by
    unfold n
    rw [hdigits, foldl_digits h]
  rw [hdigits, hn, hall]
  simp [hne]

theorem portText_of_parsePort (h : parsePort p dflt = some port) :
    PortText dflt (':' :: p) port := by
  unfold parsePort at h
  split at h
  · rename_i hempty
    cases h
    rw [List.isEmpty_iff.mp hempty]
    exact .empty
  · rename_i hempty
    split at h
    · cases h
    · rename_i hdigits
      have hne : p ≠ [] := fun heq => hempty (by rw [heq]; rfl)
      have hall : ∀ c ∈ p, c.isDigit = true := by simpa using hdigits
      rw [parseUnsigned_digits hne hall] at h
      obtain ⟨hle, heq⟩ := Option.ite_none_right_eq_some.mp h
      cases heq
      exact .number hne hall hle

theorem parsePort_of_portText (h : PortText dflt (':' :: p) port) :
    parsePort p dflt = some port := by
  unfold parsePort
  cases h with
  | empty => rfl
  | number hne hall hle =>
    rw [if_neg (by simpa using hne), if_neg (by simpa using hall), parseUnsigned_digits hne hall,
      if_pos hle]

theorem isDigit_of_portText (h : PortText dflt suffix port) :
    suffix = [] ∨ ∃ p, suffix = ':' :: p ∧ ∀ c ∈ p, c.isDigit = true := by
  cases h with
  | absent => exact .inl rfl
  | empty => exact .inr ⟨[], rfl, by simp⟩
  | number _ hall _ => exact .inr ⟨_, rfl, hall⟩

theorem not_mem_of_portText {c : Char} (hc : c.isDigit = false) (hcolon : c ≠ ':')
    (h : PortText dflt suffix port) : c ∉ suffix := by
  rcases isDigit_of_portText h with rfl | ⟨p, rfl, hdigits⟩
  · exact List.not_mem_nil
  · intro hmem
    rcases List.mem_cons.mp hmem with heq | hmem
    · exact hcolon heq
    · rw [hdigits c hmem] at hc
      cases hc

/-- What follows a name does not open a bracket in front of it. -/
theorem head_append_ne (hopen : host.head? ≠ some '[') (h : PortText dflt suffix port) :
    (host ++ suffix).head? ≠ some '[' := by
  cases host with
  | nil => exact fun hhead => not_mem_of_portText rfl (by decide) h (List.mem_of_head? hhead)
  | cons c rest => exact hopen

theorem port_le_of_portText (hdflt : dflt ≤ 65535) (h : PortText dflt suffix port) :
    port ≤ 65535 := by
  cases h with
  | absent => exact hdflt
  | empty => exact hdflt
  | number _ _ hle => exact hle

/-- What is split off when the split succeeds. -/
inductive HostPort (dflt : Nat) : List Char → List Char → Nat → Bool → Prop
  | literal {inner suffix : List Char} {port : Nat} : ']' ∉ inner → isIpv6Literal inner = true →
      PortText dflt suffix port →
      HostPort dflt ('[' :: inner ++ [']'] ++ suffix) ('[' :: inner ++ [']']) port true
  | name {host suffix : List Char} {port : Nat} : ']' ∉ host → host.head? ≠ some '[' →
      (suffix = [] → ':' ∉ host) → PortText dflt suffix port →
      HostPort dflt (host ++ suffix) host port false

theorem hostPort_of_splitHostPort
    (h : splitHostPort hostport dflt = some (host, port, bracketed)) :
    HostPort dflt hostport host port bracketed := by
  unfold splitHostPort at h
  split at h
  · rename_i before after hclose
    obtain ⟨rfl, hinner⟩ := splitOnceAt_eq_some.mp hclose
    split at h
    · rename_i inner _
      obtain ⟨n, hn, h⟩ := Option.bind_eq_some_iff.mp h
      obtain ⟨hliteral, h⟩ := Option.ite_none_right_eq_some.mp h
      cases h
      rw [List.append_cons]
      refine .literal (fun hmem => hinner (List.mem_cons_of_mem _ hmem)) hliteral ?_
      split at hn
      · cases hn
        exact .absent
      · exact portText_of_parsePort hn
      · cases hn
    · cases h
  · rename_i hclose
    have hclose' : ']' ∉ hostport := splitOnceAt_eq_none.mp hclose
    obtain ⟨hopen, h⟩ := Option.ite_none_left_eq_some.mp h
    split at h
    · rename_i before after hcolon
      obtain ⟨n, hn, heq⟩ := Option.map_eq_some_iff.mp h
      cases heq
      obtain ⟨rfl, -⟩ := rsplitOnce_eq_some.mp hcolon
      refine .name (fun hmem => hclose' (List.mem_append_left _ hmem)) (fun hhead => hopen ?_)
        (fun hnil => absurd hnil (List.cons_ne_nil _ _)) (portText_of_parsePort hn)
      rw [List.head?_append, hhead]
      rfl
    · rename_i hcolon
      cases h
      have hwhole : HostPort dflt (host ++ []) host dflt false :=
        .name hclose' hopen (fun _ => rsplitOnce_eq_none.mp hcolon) .absent
      rwa [List.append_nil] at hwhole

theorem splitHostPort_of_hostPort (h : HostPort dflt hostport host port bracketed) :
    splitHostPort hostport dflt = some (host, port, bracketed) := by
  unfold splitHostPort
  cases h with
  | @literal inner suffix _ hinner hliteral hport =>
    have hclose : splitOnceAt [']'] ('[' :: inner ++ [']'] ++ suffix) = some ('[' :: inner, suffix) :=
      splitOnceAt_eq_some.mpr ⟨by simp, List.not_mem_cons_of_ne_of_not_mem (by decide) hinner⟩
    rw [hclose]
    rcases isDigit_of_portText hport with rfl | ⟨p, rfl, -⟩
    · cases hport
      simp [hliteral]
    · simp [parsePort_of_portText hport, hliteral]
  | @name _ suffix _ hclose hopen hsuffix hport =>
    have hnone : splitOnceAt [']'] (host ++ suffix) = none := splitOnceAt_eq_none.mpr fun hmem => by
      rcases List.mem_append.mp hmem with hmem | hmem
      · exact hclose hmem
      · exact not_mem_of_portText rfl (by decide) hport hmem
    rw [hnone]
    dsimp only
    rw [if_neg (head_append_ne hopen hport)]
    rcases isDigit_of_portText hport with rfl | ⟨p, rfl, hdigits⟩
    · cases hport
      rw [List.append_nil, rsplitOnce_eq_none.mpr (hsuffix rfl)]
    · have hcolon : ':' ∉ p := fun hmem => absurd (hdigits ':' hmem) (by decide)
      rw [rsplitOnce_append hcolon]
      simp [parsePort_of_portText hport]

theorem defaultPort_le {scheme : String} (h : defaultPort scheme = some dflt) :
    1 ≤ dflt ∧ dflt ≤ 65535 := by
  unfold defaultPort at h
  split at h <;> cases h <;> decide

theorem forall_of_hasForbidden {field : List Char} (h : hasForbidden field = false) :
    ∀ c ∈ field, c ≠ ' ' ∧ 0x20 ≤ c.toNat ∧ c.toNat ≠ 0x7f := by
  intro c hc
  have hnot := List.any_eq_false.mp h c hc
  simp only [Bool.or_eq_true, decide_eq_true_eq, not_or, Nat.not_lt] at hnot
  exact ⟨hnot.2, hnot.1.1, hnot.1.2⟩

/-! ## One reading -/

/-- Characters that some reader takes for the end of a host, or for something else than themselves. -/
def ambiguousChars : List Char := [':', '[', ']', '@', '/', '?', '#', '\\', '%', ' ']

def IsControl (c : Char) : Prop := c.toNat < 0x20 ∨ c.toNat = 0x7f

def IsLiteral (host : List Char) : Prop :=
  ∃ inner, host = '[' :: inner ++ [']'] ∧ isIpv6Literal inner = true

def IsName (host : List Char) : Prop := ∀ c ∈ host, c ∉ ambiguousChars ∧ ¬IsControl c

/-- The text `s` says one host, one port and one path, and these are the URL's. -/
structure Unambiguous (s : String) (u : Url) : Prop where
  host_ne : u.host ≠ ""
  host : IsLiteral u.host.toList ∨ IsName u.host.toList
  port : 1 ≤ u.port ∧ u.port ≤ 65535
  written : ∃ dflt suffix, defaultPort u.scheme = some dflt ∧
    hostportOf (authorityOf s) = u.host.toList ++ suffix ∧ PortText dflt suffix u.port
  path_rooted : u.path.toList.head? = some '/'
  path : ∀ c ∈ u.path.toList, c ≠ '#' ∧ c ≠ ' ' ∧ ¬IsControl c
  segments : NoDotSegments u.path.toList

/-- The host is in brackets, or there is no bracket and at most one colon. -/
def PlainlyWritten (s : String) : Prop :=
  (hostportOf (authorityOf s)).head? = some '[' ∨
    ((hostportOf (authorityOf s)).count ':' ≤ 1 ∧ '[' ∉ hostportOf (authorityOf s))

instance (s : String) : Decidable (PlainlyWritten s) := inferInstanceAs (Decidable (_ ∨ _))

theorem not_isLiteral (h : ']' ∉ host) : ¬IsLiteral host := by
  rintro ⟨inner, rfl, -⟩
  exact h (List.mem_append_right _ (List.mem_singleton_self _))

/-- Behind a name there is at most one colon, and no bracket. -/
theorem plain_append_iff (hsuffix : suffix = [] → ':' ∉ host) (h : PortText dflt suffix port) :
    (host ++ suffix).count ':' ≤ 1 ∧ '[' ∉ host ++ suffix ↔ ':' ∉ host ∧ '[' ∉ host := by
  rcases isDigit_of_portText h with rfl | ⟨p, rfl, hdigits⟩
  · have hcolon := hsuffix rfl
    simp [List.count_eq_zero.mpr hcolon, hcolon]
  · have hcolon : p.count ':' = 0 :=
      List.count_eq_zero.mpr fun hmem => absurd (hdigits ':' hmem) (by decide)
    have hopen : '[' ∉ ':' :: p := not_mem_of_portText rfl (by decide) h
    have hcount : (host ++ ':' :: p).count ':' = host.count ':' + 1 := by
      rw [List.count_append, List.count_cons_self, hcolon]
    have hcolons : host.count ':' + 1 ≤ 1 ↔ ':' ∉ host := by
      rw [← List.count_eq_zero]
      omega
    have hbracket : '[' ∉ host ++ ':' :: p ↔ '[' ∉ host := by
      rw [List.mem_append, not_or]
      exact and_iff_left hopen
    rw [hcount, hcolons, hbracket]

/-- What is found of a name: nothing of it ends an authority. -/
theorem isName_iff {userinfo : Option (List Char)}
    (hok : authorityOk userinfo host port false = true) (hclose : ']' ∉ host)
    (hplain : ∀ c ∈ host, isDelimiter c = false ∧ c ≠ '@') :
    IsName host ↔ ':' ∉ host ∧ '[' ∉ host := by
  simp only [authorityOk, Bool.and_eq_true, Bool.not_eq_true', Bool.false_or] at hok
  obtain ⟨⟨⟨-, hforbidden⟩, hescape⟩, -⟩ := hok
  constructor
  · intro h
    exact ⟨fun hmem => (h _ hmem).1 (by decide), fun hmem => (h _ hmem).1 (by decide)⟩
  · rintro ⟨hcolon, hopen⟩ c hc
    obtain ⟨hspace, hlow, hdel⟩ := forall_of_hasForbidden hforbidden c hc
    obtain ⟨hdelimiter, hat⟩ := hplain c hc
    have hescape' := List.any_eq_false.mp hescape c hc
    refine ⟨fun hmem => ?_, by unfold IsControl; omega⟩
    have hcases : c = ':' ∨ c = '[' ∨ c = ']' ∨ c = '@' ∨ c = '/' ∨ c = '?' ∨ c = '#' ∨
        c = '\\' ∨ c = '%' ∨ c = ' ' := by
      simpa [ambiguousChars] using hmem
    rcases hcases with rfl | rfl | rfl | rfl | rfl | rfl | rfl | rfl | rfl | rfl
    · exact hcolon hc
    · exact hopen hc
    · exact hclose hc
    · exact hat rfl
    · cases hdelimiter
    · cases hdelimiter
    · cases hdelimiter
    · exact hescape' rfl
    · exact hescape' rfl
    · exact hspace rfl

theorem host_iff {userinfo : Option (List Char)} (h : HostPort dflt hostport host port bracketed)
    (hok : authorityOk userinfo host port bracketed = true)
    (hplain : ∀ c ∈ hostport, isDelimiter c = false ∧ c ≠ '@') :
    IsLiteral host ∨ IsName host ↔
      hostport.head? = some '[' ∨ (hostport.count ':' ≤ 1 ∧ '[' ∉ hostport) := by
  cases h with
  | literal _ hliteral _ => exact iff_of_true (.inl ⟨_, rfl, hliteral⟩) (.inl rfl)
  | @name _ suffix _ hclose hopen hsuffix hport =>
    have hname := isName_iff hok hclose fun c hc => hplain c (List.mem_append_left _ hc)
    rw [or_iff_right (not_isLiteral hclose), hname, plain_append_iff hsuffix hport,
      or_iff_right (head_append_ne hopen hport)]

/-! ## Accepted URLs -/

/-- What is behind the last `@` holds no other, and no delimiter. -/
theorem hostport_plain (s : String) :
    ∀ c ∈ hostportOf (authorityOf s), isDelimiter c = false ∧ c ≠ '@' := by
  have hauthority : ∀ c ∈ authorityOf s, isDelimiter c = false := fun c hc => by
    simpa using List.mem_takeWhile_imp hc
  intro c hc
  unfold hostportOf at hc
  cases hsplit : rsplitOnce '@' (authorityOf s) with
  | none =>
    rw [hsplit] at hc
    refine ⟨hauthority c hc, fun heq => rsplitOnce_eq_none.mp hsplit (heq ▸ hc)⟩
  | some parts =>
    obtain ⟨info, rest⟩ := parts
    rw [hsplit] at hc
    obtain ⟨heq, hat⟩ := rsplitOnce_eq_some.mp hsplit
    refine ⟨hauthority c ?_, fun heq => hat (heq ▸ hc)⟩
    rw [heq]
    exact List.mem_append_right _ (List.mem_cons_of_mem _ hc)

/-- The path begins where the authority ends. -/
theorem head_pathText (s : String) :
    pathText s = [] ∨ (pathText s).head? = some '?' ∨ (pathText s).head? = some '/' := by
  have hhead := List.head?_dropWhile_not (fun c => !isDelimiter c) (restOf s)
  rw [pathText, authorityOf, drop_takeWhile]
  cases hdrop : (restOf s).dropWhile fun c => !isDelimiter c with
  | nil => exact .inl rfl
  | cons c rest =>
    rw [hdrop] at hhead
    have hc : (c = '/' ∨ c = '?') ∨ c = '#' := by
      simpa [isDelimiter, or_iff_not_imp_left] using hhead
    rcases hc with (rfl | rfl) | rfl
    · exact .inr (.inr rfl)
    · exact .inr (.inl rfl)
    · exact .inl rfl

theorem path_of_accepted {s : String} {u : Url} (h : Accepted s u dflt bracketed) :
    u.path.toList.head? = some '/' ∧
      (∀ c ∈ u.path.toList, c ≠ '#' ∧ c ≠ ' ' ∧ ¬IsControl c) ∧ NoDotSegments u.path.toList := by
  obtain ⟨hhead, hchars, hsegments⟩ := rooted_spec (head_pathText s)
  rw [← h.path] at hhead hchars hsegments
  refine ⟨hhead, fun c hc => ?_, hsegments⟩
  obtain ⟨hspace, hlow, hdel⟩ := forall_of_hasForbidden h.clean c hc
  refine ⟨?_, hspace, by unfold IsControl; omega⟩
  rintro rfl
  rcases hchars _ hc with heq | hmem
  · exact absurd heq (by decide)
  · exact absurd (List.mem_takeWhile_imp hmem) (by decide)

theorem written_of_hostPort (h : HostPort dflt hostport host port bracketed) :
    ∃ suffix, hostport = host ++ suffix ∧ PortText dflt suffix port := by
  cases h with
  | literal _ _ hport => exact ⟨_, rfl, hport⟩
  | name _ _ _ hport => exact ⟨_, rfl, hport⟩

/-- A URL that is accepted says one thing only if it is plainly written. -/
theorem unambiguous_iff {s : String} {u : Url} (h : parse s = .ok u) (hfile : u.scheme ≠ "file") :
    Unambiguous s u ↔ PlainlyWritten s := by
  obtain ⟨dflt, bracketed, hu⟩ := parse_ok h hfile
  have hsplit := hostPort_of_splitHostPort hu.hostport
  have hhost := host_iff hsplit hu.checked (hostport_plain s)
  constructor
  · intro hone
    exact hhost.mp hone.host
  · intro hplain
    obtain ⟨hrooted, hpath, hsegments⟩ := path_of_accepted hu
    obtain ⟨suffix, hwritten, hport⟩ := written_of_hostPort hsplit
    obtain ⟨hone, hmax⟩ := defaultPort_le hu.known
    have hchecked := hu.checked
    simp only [authorityOk, Bool.and_eq_true, Bool.not_eq_true', List.isEmpty_eq_false_iff,
      decide_eq_true_eq] at hchecked
    obtain ⟨⟨⟨⟨hne, hzero⟩, -⟩, -⟩, -⟩ := hchecked
    exact {
      host_ne := fun heq => hne (by rw [heq]; rfl)
      host := hhost.mpr hplain
      port := ⟨Nat.pos_of_ne_zero hzero, port_le_of_portText hmax hport⟩
      written := ⟨dflt, suffix, hu.known, hwritten, hport⟩
      path_rooted := hrooted
      path := hpath
      segments := hsegments }

theorem unambiguous_literal :
    PlainlyWritten "http://u@[::1]:8080/a/../b?q" ∧
      ∃ u, parse "http://u@[::1]:8080/a/../b?q" = .ok u ∧
        Unambiguous "http://u@[::1]:8080/a/../b?q" u := by
  have hparse : parse "http://u@[::1]:8080/a/../b?q" =
      .ok ⟨"http", some "u", "[::1]", 8080, "/b?q"⟩ := by decide
  have hplain : PlainlyWritten "http://u@[::1]:8080/a/../b?q" := by decide
  exact ⟨hplain, _, hparse, (unambiguous_iff hparse (by decide)).mpr hplain⟩

/-- Two colons and no brackets: everything before the last one is the host. -/
theorem colon_in_host :
    ∃ u, parse "http://a:b:80/" = .ok u ∧ u.scheme ≠ "file" ∧ u.host = "a:b" ∧
      ¬Unambiguous "http://a:b:80/" u := by
  have hparse : parse "http://a:b:80/" = .ok ⟨"http", none, "a:b", 80, "/"⟩ := by decide
  refine ⟨_, hparse, by decide, rfl, fun h => ?_⟩
  rcases h.host with ⟨inner, hinner, -⟩ | hname
  · have hhead : 'a' = '[' := congrArg (fun l => l.headD 'a') hinner
    exact absurd hhead (by decide)
  · exact (hname ':' (by decide)).1 (by decide)

end Rsurl.Url
