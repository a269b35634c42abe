import Rsurl.Ascii
import Rsurl.Net.Proxy
import Rsurl.Numeral

/-!
# The proxy of a request

The HTTP layer reads proxy URLs for itself, the way the connectors do. The two readings part where a
port is there but empty, and where it has a plus sign.
-/

namespace Rsurl.Net

open Text

/-- The proxy as the HTTP layer knows it. -/
structure ProxyConfig where
  host : String
  port : UInt16
  auth : Option (String × String)
  deriving DecidableEq, Repr

def percentDecodeLossy (s : String) : String := fromUtf8Lossy (percentDecodeBytes (asBytes s))

namespace ProxyConfig

def bad (s what : String) : Error := .invalidUrl s!"proxy: {what} in {dbgStr s}"

/-- `s` is the proxy URL, for the error. -/
def parsePort (s : String) (p : List Char) : Except Error UInt16 :=
  if p.isEmpty then .ok defaultProxyPort
  else if p.all Char.isDigit then match parseUnsigned 65535 (String.ofList p) with
    | some n => .ok (UInt16.ofNat n)
    | none => .error (bad s "bad port")
  else .error (bad s "bad port")

def hostPort (s : String) (hostport : List Char) : Except Error (String × UInt16) :=
  match hostport with
  | '[' :: after => match splitOnceAt [']'] after with
    | none => .error (bad s "unterminated IPv6")
    | some (host, ':' :: p) => (parsePort s p).map fun port => (String.ofList host, port)
    | some (host, []) => .ok (String.ofList host, defaultProxyPort)
    | some _ => .error (bad s "junk after IPv6 host")
  | _ => match rsplitOnce ':' hostport with
    | some (h, p) => (parsePort s p).map fun port => (String.ofList h, port)
    | none => .ok (String.ofList hostport, defaultProxyPort)

/-- What follows the scheme. -/
def parseRest (s : String) (rest : List Char) : Except Error ProxyConfig := do
  let authority := rest.takeWhile fun c => !Url.isDelimiter c
  let (userinfo, hostport) := match rsplitOnce '@' authority with
    | some (info, hp) => (some info, hp)
    | none => (none, authority)
  let auth := userinfo.map fun info =>
    let (u, p) := (splitOnceAt [':'] info).getD (info, [])
    (percentDecodeLossy (String.ofList u), percentDecodeLossy (String.ofList p))
  let (host, port) ← hostPort s hostport
  if host.isEmpty then .error (bad s "empty host") else .ok ⟨host, port, auth⟩

def parse (s : String) : Except Error ProxyConfig :=
  match splitOnceAt "://".toList s.toList with
  | some (sch, r) =>
    if !eqIgnoreAsciiCase (String.ofList sch) "http" then
      let scheme := toAsciiLowercase (String.ofList sch)
      .error (.unsupportedScheme (s!"proxy scheme {dbgStr scheme} not supported " ++
        "(only http:// at this milestone)"))
    else parseRest s r
  | none => parseRest s s.toList

end ProxyConfig

/-- `ProxySpec::http_config`. -/
def ProxySpec.httpConfig (p : ProxySpec) : Option ProxyConfig :=
  if p.scheme = "http" then some ⟨p.host, p.port, p.auth⟩ else none

/-! ## Ports -/

variable {s : String} {p : List Char}

/-- The host and the text of the port behind a colon, if there is one. -/
def portText : List Char → Option (List Char × List Char)
  | '[' :: after => match splitOnceAt [']'] after with
    | some (host, ':' :: p) => some (host, p)
    | _ => none
  | hostport => rsplitOnce ':' hostport

/-- A port the two read differently: none behind the colon, or a plus sign and a number. -/
def OddPort (p : List Char) : Prop :=
  p = [] ∨ (p.head? = some '+' ∧ (parseUnsigned 65535 (String.ofList p)).isSome = true)

theorem isDigit_of_parseUnsigned {limit n : Nat} (hp : p.head? ≠ some '+')
    (h : parseUnsigned limit (String.ofList p) = some n) : p.all Char.isDigit = true := by
  have hplus (rest : Bytes) : asBytes (String.ofList p) ≠ 0x2b :: rest := by
    intro heq
    have hc : '+'.toNat < 0x80 := by decide
    obtain ⟨t, ht, -⟩ := head_asBytes hc heq
    rw [String.toList_ofList] at ht
    exact hp (by rw [ht]; rfl)
  unfold parseUnsigned at h
  extract_lets digits n' at h
  have hdigits : digits = asBytes (String.ofList p) := by
    unfold digits
    split
    · exact absurd ‹_› (hplus _)
    · rfl
  split at h
  · cases h
  · rename_i hall
    rw [hdigits, Bool.or_eq_true, not_or, Bool.not_eq_true', Bool.not_eq_false] at hall
    rw [List.all_eq_true]
    simpa using allDigits_iff.mp hall.2

theorem parsePort_eq_iff (p : List Char) : (ProxyConfig.parsePort s p).toOption =
    (parseUnsigned 65535 (String.ofList p)).map UInt16.ofNat ↔ ¬OddPort p := by
  unfold ProxyConfig.parsePort OddPort
  by_cases hnil : p = []
  · subst hnil
    have hnone : parseUnsigned 65535 (String.ofList []) = none := rfl
    rw [hnone]
    exact iff_of_false nofun fun h => h (.inl rfl)
  have hempty : ¬p.isEmpty = true := by simpa using hnil
  rw [if_neg hempty]
  cases hn : parseUnsigned 65535 (String.ofList p) with
  | none =>
    refine iff_of_true ?_ (by simp [hnil])
    split <;> rfl
  | some n =>
    by_cases hplus : p.head? = some '+'
    · have hall : ¬p.all Char.isDigit = true := by
        obtain ⟨rest, rfl⟩ := List.head?_eq_some_iff.mp hplus
        exact fun h => absurd (List.all_eq_true.mp h '+' List.mem_cons_self) (by decide)
      rw [if_neg hall]
      exact iff_of_false nofun fun h => h (.inr ⟨hplus, rfl⟩)
    · rw [if_pos (isDigit_of_parseUnsigned hplus hn)]
      exact iff_of_true rfl (by simp [hnil, hplus])

/-! ## Hosts -/

/-- A host with its port, if there is a host. -/
def named (host : List Char) (port : Option UInt16) : Option (String × UInt16) :=
  if host = [] then none else port.map (String.ofList host, ·)

/-- The host and the port, if the text of a port is read this way. -/
def hostPortWith (port : List Char → Option UInt16) (hostport : List Char) :
    Option (String × UInt16) :=
  match hostport with
  | '[' :: after => match splitOnceAt [']'] after with
    | some (host, []) => named host (some defaultProxyPort)
    | some (host, ':' :: p) => named host (port p)
    | _ => none
  | _ => match rsplitOnce ':' hostport with
    | some (host, p) => named host (port p)
    | none => named hostport (some defaultProxyPort)

theorem hostPortWith_bracket (port : List Char → Option UInt16) (after : List Char) :
    hostPortWith port ('[' :: after) = match splitOnceAt [']'] after with
      | some (host, []) => named host (some defaultProxyPort)
      | some (host, ':' :: p) => named host (port p)
      | _ => none := rfl

/-- Two ways to read ports matter only where there is a port behind a host. -/
theorem hostPortWith_eq_iff (f g : List Char → Option UInt16) (hostport : List Char) :
    hostPortWith f hostport = hostPortWith g hostport ↔
      ∀ host p, portText hostport = some (host, p) → host ≠ [] → f p = g p := by
  have hnamed (host p : List Char) :
      named host (f p) = named host (g p) ↔ (host ≠ [] → f p = g p) := by
    unfold named
    by_cases hhost : host = []
    · simp [hhost]
    · simp only [hhost, if_false, ne_eq, not_false_eq_true, true_imp_iff]
      refine (Option.map_injective ?_).eq_iff
      exact fun a b h => (Prod.mk.inj h).2
  unfold hostPortWith portText
  split
  · split
    · rename_i hcut
      simp [hcut]
    · rename_i hcut
      simpa [hcut] using hnamed _ _
    · rename_i hnil hcolon
      refine iff_of_true rfl fun host p h => ?_
      split at h
      · exact absurd ‹_› (hcolon _ _)
      · cases h
  · split
    · rename_i hcut
      simpa [hcut] using hnamed _ _
    · rename_i hnone
      simp [hnone]

/-- The host and the port of a request's proxy, whose host may not be empty. -/
def ProxyConfig.checked (s : String) (hostport : List Char) : Except Error (String × UInt16) := do
  let (host, port) ← hostPort s hostport
  if host.isEmpty then .error (bad s "empty host") else .ok (host, port)

theorem ProxyConfig.checked_eq (s : String) (hostport : List Char) :
    (ProxyConfig.checked s hostport).toOption =
      hostPortWith (fun p => (ProxyConfig.parsePort s p).toOption) hostport := by
  have hport (host p : List Char) :
      (((parsePort s p).map fun port => (String.ofList host, port)).bind fun (h, port) =>
        if h.isEmpty then .error (bad s "empty host") else .ok (h, port)).toOption =
      named host (parsePort s p).toOption := by
    cases parsePort s p <;> cases host <;> simp [Except.map, Except.bind, Except.toOption, named]
  have hplain (host : List Char) :
      ((Except.ok (String.ofList host, defaultProxyPort)).bind fun (h, port) =>
        if h.isEmpty then .error (bad s "empty host") else .ok (h, port)).toOption =
      named host (some defaultProxyPort) := by
    cases host <;> simp [Except.bind, Except.toOption, named]
  unfold checked hostPort hostPortWith
  split
  · rename_i after
    dsimp only
    rcases splitOnceAt [']'] after with _ | ⟨host, _ | ⟨c, p⟩⟩
    · rfl
    · exact hplain host
    · by_cases hc : c = ':'
      · subst hc
        exact hport host p
      · simp [hc, bad, Except.toOption]
        rfl
  · cases rsplitOnce ':' hostport with
    | none => exact hplain hostport
    | some cut => exact hport _ _

theorem parseHostport_eq (hostport : List Char) : (parseHostport hostport).toOption =
    hostPortWith (fun p => (parseUnsigned 65535 (String.ofList p)).map UInt16.ofNat) hostport := by
  have hport (host p : List Char) (e e' : Error) :
      ((match parseUnsigned 65535 (String.ofList p) with
          | some n => Except.ok (UInt16.ofNat n)
          | none => Except.error e).bind fun port =>
        if host.isEmpty then .error e' else .ok (String.ofList host, port)).toOption =
      named host ((parseUnsigned 65535 (String.ofList p)).map UInt16.ofNat) := by
    cases parseUnsigned 65535 (String.ofList p) <;> cases host <;> rfl
  have hplain (host : List Char) (e : Error) :
      (if host.isEmpty then .error e else .ok (String.ofList host, defaultProxyPort) :
        Except Error (String × UInt16)).toOption = named host (some defaultProxyPort) := by
    cases host <;> rfl
  unfold parseHostport
  extract_lets bad port name
  split
  · rename_i after
    rw [hostPortWith_bracket]
    rcases splitOnceAt [']'] after with _ | ⟨host, _ | ⟨c, p⟩⟩
    · rfl
    · exact hplain host _
    · by_cases hc : c = ':'
      · subst hc
        exact hport host p _ _
      · simp [hc, Except.toOption]
  · rw [hostPortWith]
    · cases rsplitOnce ':' hostport with
      | none => exact hplain hostport _
      | some cut => exact hport _ _ _ _
    · assumption

/-! ## Proxy URLs -/

/-- No scheme, or `http` in letters of any case. -/
def IsHttp (s : String) : Prop :=
  ∀ scheme rest, splitOnceAt "://".toList s.toList = some (scheme, rest) →
    eqIgnoreAsciiCase (String.ofList scheme) "http" = true

/-- The authority before a path, cut at the last `@`. -/
def cutAuthority (rest : List Char) : Option (List Char) × List Char :=
  let authority := rest.takeWhile fun c => !Url.isDelimiter c
  match rsplitOnce '@' authority with
  | some (info, hostport) => (some info, hostport)
  | none => (none, authority)

def authorityOf (s : String) : Option (List Char) × List Char :=
  cutAuthority (match splitOnceAt "://".toList s.toList with
    | some (_, rest) => rest
    | none => s.toList)

/-- User and password of an authority. -/
def authOf (userinfo : Option (List Char)) : Option (String × String) :=
  userinfo.map fun info => match splitOnceAt [':'] info with
    | some (u, p) => (percentDecode (String.ofList u), percentDecode (String.ofList p))
    | none => (percentDecode (String.ofList info), "")

/-- Both readings succeed with the same proxy, or neither does. -/
def Agree (s : String) : Prop :=
  match ProxyConfig.parse s, ProxySpec.parse s with
  | .ok c, .ok p => p.httpConfig = some c
  | .error _, .error _ => True
  | _, _ => False

theorem ProxyConfig.parseRest_eq (s : String) (rest : List Char) :
    (parseRest s rest).toOption = (checked s (cutAuthority rest).2).toOption.map
      fun (host, port) => ⟨host, port, authOf (cutAuthority rest).1⟩ := by
  have hauth (info : List Char) :
      (percentDecodeLossy (String.ofList ((splitOnceAt [':'] info).getD (info, [])).1),
        percentDecodeLossy (String.ofList ((splitOnceAt [':'] info).getD (info, [])).2)) =
      match splitOnceAt [':'] info with
        | some (u, p) => (percentDecode (String.ofList u), percentDecode (String.ofList p))
        | none => (percentDecode (String.ofList info), "") := by
    cases splitOnceAt [':'] info <;> rfl
  have hhost (hostport : List Char) (auth : Option (String × String)) :
      (hostPort s hostport >>= fun (host, port) =>
        if host.isEmpty then .error (bad s "empty host")
        else .ok (⟨host, port, auth⟩ : ProxyConfig)).toOption =
      (checked s hostport).toOption.map fun (host, port) => ⟨host, port, auth⟩ := by
    unfold checked
    cases hostPort s hostport with
    | error e => rfl
    | ok found =>
      obtain ⟨host, port⟩ := found
      by_cases hempty : host.isEmpty = true <;> simp [hempty, Except.toOption, Except.bind, bind]
  unfold parseRest cutAuthority
  dsimp only
  cases rsplitOnce '@' (rest.takeWhile fun c => !Url.isDelimiter c) with
  | none => exact hhost _ _
  | some cut =>
    dsimp only
    rw [← show _ = authOf (some cut.1) from congrArg some (hauth cut.1)]
    exact hhost _ _

theorem ProxyConfig.parse_eq (h : IsHttp s) : (ProxyConfig.parse s).toOption =
    (checked s (authorityOf s).2).toOption.map fun (host, port) =>
      ⟨host, port, authOf (authorityOf s).1⟩ := by
  unfold parse authorityOf
  cases hcut : splitOnceAt "://".toList s.toList with
  | none => exact parseRest_eq s s.toList
  | some cut =>
    obtain ⟨scheme, rest⟩ := cut
    dsimp only
    rw [h scheme rest hcut]
    exact parseRest_eq s rest

theorem ProxySpec.parse_eq (h : IsHttp s) : (ProxySpec.parse s).toOption =
    (parseHostport (authorityOf s).2).toOption.map fun (host, port) =>
      ⟨"http", authOf (authorityOf s).1, host, port⟩ := by
  have hspec : parseProxySpec s = (parseHostport (authorityOf s).2).map fun (host, port) =>
      ⟨"http", authOf (authorityOf s).1, host, port⟩ := by
    unfold parseProxySpec authorityOf
    cases hcut : splitOnceAt "://".toList s.toList with
    | none => rfl
    | some cut =>
      obtain ⟨scheme, rest⟩ := cut
      have hscheme : toAsciiLowercase (String.ofList scheme) = "http" :=
        eqIgnoreAsciiCase_iff.mp (h scheme rest hcut)
      dsimp only
      rw [hscheme]
      rfl
  rw [ProxySpec.parse, hspec]
  cases parseHostport (authorityOf s).2 with
  | error e => rfl
  | ok found =>
    simp [Except.map, Except.toOption]

theorem agree_iff (h : IsHttp s) : Agree s ↔ ∀ host p,
    portText (authorityOf s).2 = some (host, p) → host ≠ [] → ¬OddPort p := by
  have hconfig := ProxyConfig.parse_eq h
  have hspec := ProxySpec.parse_eq h
  have hports := hostPortWith_eq_iff (fun p => (ProxyConfig.parsePort s p).toOption)
    (fun p => (parseUnsigned 65535 (String.ofList p)).map UInt16.ofNat) (authorityOf s).2
  simp only [parsePort_eq_iff] at hports
  rw [← ProxyConfig.checked_eq, ← parseHostport_eq] at hports
  rw [← hports, Agree]
  generalize (ProxyConfig.checked s (authorityOf s).2).toOption = c at hconfig ⊢
  generalize (parseHostport (authorityOf s).2).toOption = p at hspec ⊢
  cases hc : ProxyConfig.parse s <;> cases hp : ProxySpec.parse s <;> rw [hc] at hconfig <;>
    rw [hp] at hspec <;> cases c <;> cases p <;> simp [Except.toOption] at hconfig hspec ⊢
  subst hconfig hspec
  simp [ProxySpec.httpConfig, Prod.ext_iff, eq_comm]

/-- The two readings of a proxy URL part exactly where there is a host with an odd port. -/
theorem proxies_agree (h : IsHttp s) : Agree s ↔ ∀ host p,
    portText (authorityOf s).2 = some (host, p) → host ≠ [] → ¬OddPort p := agree_iff h

theorem isHttp_of_none (h : splitOnceAt "://".toList s.toList = none) : IsHttp s := by
  intro scheme rest hcut
  rw [h] at hcut
  cases hcut

theorem proxies_agree_bare : Agree "u:p@proxy:3128/" ↔ ∀ host p,
    portText (authorityOf "u:p@proxy:3128/").2 = some (host, p) → host ≠ [] → ¬OddPort p :=
  proxies_agree (isHttp_of_none (by decide))

/-- A colon without a port, and a port with a plus sign. -/
theorem not_agree_odd :
    IsHttp "proxy:" ∧ ¬Agree "proxy:" ∧ IsHttp "proxy:+80" ∧ ¬Agree "proxy:+80" := by
  have hempty : IsHttp "proxy:" := isHttp_of_none (by decide)
  have hplus : IsHttp "proxy:+80" := isHttp_of_none (by decide)
  refine ⟨hempty, fun h => ?_, hplus, fun h => ?_⟩
  · exact (agree_iff hempty).mp h "proxy".toList [] (by decide) (by decide) (.inl rfl)
  · exact (agree_iff hplus).mp h "proxy".toList "+80".toList (by decide) (by decide)
      (.inr ⟨rfl, by decide⟩)

end Rsurl.Net
