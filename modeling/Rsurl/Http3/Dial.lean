import Rsurl.Ascii
import Rsurl.Net.Proxy

/-!
# The endpoint of a request

Where a request without a proxy is dialled: `--connect-to` may send it to another host and port,
`--resolve` may pin an address for it, and otherwise a resolver is asked. TCP and QUIC each have
their own copy of this. QUIC takes the brackets and the zone off the host before, TCP after.
-/

namespace Rsurl.Net

open Text

structure SocketAddr where
  ip : IpAddr
  port : UInt16
  flowinfo : UInt32 := 0
  scopeId : UInt32 := 0
  deriving DecidableEq, Repr

inductive IpFamily where
  | v4
  | v6
  deriving DecidableEq, Repr

/-- From-host, from-port, to-host and to-port. -/
abbrev ConnectTo := String × UInt16 × String × UInt16

/-- The fields of a request that say where it is dialled. -/
structure Endpoint where
  host : String
  port : UInt16
  connectTo : List ConnectTo := []
  resolve : List (String × UInt16 × IpAddr) := []
  resolver : String → UInt16 → Except Error (List SocketAddr)
  ipFamily : Option IpFamily := none

def SocketAddr.isIpv4 (a : SocketAddr) : Bool := a.ip.isV4

def SocketAddr.isIpv6 (a : SocketAddr) : Bool := !a.ip.isV4

/-! ## TCP -/

def applyConnectTo (rules : List ConnectTo) (host : String) (port : UInt16) : String × UInt16 :=
  match rules with
  | [] => (host, port)
  | (fh, fp, th, tp) :: rules =>
    let hostOk := fh = "" ∨ eqIgnoreAsciiCase fh host = true
    let portOk := fp = 0 ∨ fp = port
    if hostOk ∧ portOk then (if th = "" then host else th, if tp = 0 then port else tp)
    else applyConnectTo rules host port

/-- The pin for a host and a port. -/
def Endpoint.pin (req : Endpoint) (host : String) (port : UInt16) :
    Option (String × UInt16 × IpAddr) :=
  req.resolve.find? fun (h, p, _) => p = port && eqIgnoreAsciiCase h host

/-- The addresses of the wanted family. -/
def wanted (family : Option IpFamily) (addrs : List SocketAddr) : List SocketAddr :=
  match family with
  | some .v4 => addrs.filter SocketAddr.isIpv4
  | some .v6 => addrs.filter SocketAddr.isIpv6
  | none => addrs

/-- The candidates, in the order of the resolver. -/
def resolveTarget (host : String) (port : UInt16) (req : Endpoint) :
    Except Error (List SocketAddr) :=
  match req.pin host port with
  | some (_, _, ip) => .ok [{ ip, port }]
  | none => do
    let addrs ← req.resolver (unbracket host) port
    let chosen := wanted req.ipFamily addrs
    if chosen.isEmpty then
      .error (.invalidUrl (match req.ipFamily with
        | some .v4 => s!"{host}: no IPv4 address"
        | some .v6 => s!"{host}: no IPv6 address"
        | none => host))
    else .ok chosen

/-- What TCP tries to connect to. -/
def tcpCandidates (req : Endpoint) : Except Error (List SocketAddr) :=
  let (host, port) := applyConnectTo req.connectTo req.host req.port
  resolveTarget host port req

end Rsurl.Net

namespace Rsurl.Http3

open Text Net

/-! ## QUIC -/

/-- A bracketed host without brackets and zone. -/
def tlsHost (host : String) : String :=
  match host.toList with
  | '[' :: rest =>
    if rest.getLast? = some ']' then String.ofList (rest.dropLast.takeWhile (· ≠ '%')) else host
  | _ => host

/-- The loop over the rules, which leaves at the first that fits. -/
def remap : List ConnectTo → String × UInt16 → String × UInt16
  | [], target => target
  | (fh, fp, th, tp) :: rules, (host, port) =>
    let hostOk := fh = "" ∨ eqIgnoreAsciiCase fh host = true
    let portOk := fp = 0 ∨ fp = port
    if hostOk ∧ portOk then
      let host := if th ≠ "" then th else host
      let port := if tp ≠ 0 then tp else port
      (host, port)
    else remap rules (host, port)

def preferred (family : Option IpFamily) (addrs : List SocketAddr) : Option SocketAddr :=
  match family with
  | some .v4 => addrs.find? SocketAddr.isIpv4
  | some .v6 => addrs.find? SocketAddr.isIpv6
  | none => addrs.head?

def dialAddr (req : Endpoint) : Except Error SocketAddr :=
  let (host, port) := remap req.connectTo (tlsHost req.host, req.port)
  match req.pin host port with
  | some (_, _, ip) => .ok { ip, port }
  | none => do
    let addrs ← req.resolver host port
    match preferred req.ipFamily addrs with
    | some a => .ok a
    | none => .error (.invalidUrl host)

/-! ## The two compared -/

theorem remap_eq (rules : List ConnectTo) (host : String) (port : UInt16) :
    remap rules (host, port) = applyConnectTo rules host port := by
  induction rules with
  | nil => rfl
  | cons rule rules ih =>
    obtain ⟨fh, fp, th, tp⟩ := rule
    rw [remap, applyConnectTo]
    dsimp only
    by_cases hfits : (fh = "" ∨ eqIgnoreAsciiCase fh host = true) ∧ (fp = 0 ∨ fp = port)
    · rw [if_pos hfits, if_pos hfits]
      by_cases hhost : th = "" <;> by_cases hport : tp = 0 <;> simp [hhost, hport]
    · rw [if_neg hfits, if_neg hfits, ih]

/-- QUIC dials the first that TCP tries, and has none exactly if TCP has none. -/
def SameEndpoint (req : Endpoint) : Prop :=
  (∀ first rest, tcpCandidates req = .ok (first :: rest) → dialAddr req = .ok first) ∧
    ((∃ e, dialAddr req = .error e) ↔ ∃ e, tcpCandidates req = .error e)

/-- A rule is for this host and port. -/
def Fits (host : String) (port : UInt16) (rule : ConnectTo) : Prop :=
  (rule.1 = "" ∨ eqIgnoreAsciiCase rule.1 host = true) ∧ (rule.2.1 = 0 ∨ rule.2.1 = port)

instance (host : String) (port : UInt16) : DecidablePred (Fits host port) :=
  fun _ => inferInstanceAs (Decidable (_ ∧ _))

/-- Where the first rule that fits sends a host. -/
def sent (rules : List ConnectTo) (host : String) (port : UInt16) : String × UInt16 :=
  match rules.find? (Fits host port ·) with
  | some (_, _, th, tp) => (if th = "" then host else th, if tp = 0 then port else tp)
  | none => (host, port)

/-- The address of the first pin for where a host is sent. -/
def pinned (req : Endpoint) (host : String) : Option IpAddr :=
  (req.pin (sent req.connectTo host req.port).1 (sent req.connectTo host req.port).2).map (·.2.2)

/-- The rules and the pins treat the host of the URL and its bare spelling alike. -/
structure SpelledAlike (req : Endpoint) : Prop where
  port : (sent req.connectTo req.host req.port).2 =
    (sent req.connectTo (tlsHost req.host) req.port).2
  pin : pinned req req.host = pinned req (tlsHost req.host)
  name : pinned req req.host = none → unbracket (sent req.connectTo req.host req.port).1 =
    (sent req.connectTo (tlsHost req.host) req.port).1

theorem applyConnectTo_eq (rules : List ConnectTo) (host : String) (port : UInt16) :
    applyConnectTo rules host port = sent rules host port := by
  induction rules with
  | nil => rfl
  | cons rule rules ih =>
    obtain ⟨fh, fp, th, tp⟩ := rule
    rw [applyConnectTo, sent, List.find?_cons]
    by_cases hfits : Fits host port (fh, fp, th, tp)
    · rw [decide_eq_true hfits]
      exact if_pos hfits
    · rw [decide_eq_false hfits]
      exact (if_neg hfits).trans ih

variable {req : Endpoint} {ip : IpAddr}

theorem tcpCandidates_eq (req : Endpoint) : tcpCandidates req =
    resolveTarget (sent req.connectTo req.host req.port).1
      (sent req.connectTo req.host req.port).2 req := by
  rw [tcpCandidates, applyConnectTo_eq]

theorem tcpCandidates_pinned (h : pinned req req.host = some ip) :
    tcpCandidates req = .ok [⟨ip, (sent req.connectTo req.host req.port).2, 0, 0⟩] := by
  obtain ⟨⟨_, _, _⟩, hpin, rfl⟩ := Option.map_eq_some_iff.mp h
  rw [tcpCandidates_eq, resolveTarget, hpin]

theorem dialAddr_pinned (h : pinned req (tlsHost req.host) = some ip) :
    dialAddr req = .ok ⟨ip, (sent req.connectTo (tlsHost req.host) req.port).2, 0, 0⟩ := by
  obtain ⟨⟨_, _, _⟩, hpin, rfl⟩ := Option.map_eq_some_iff.mp h
  rw [dialAddr, remap_eq, applyConnectTo_eq]
  dsimp only
  rw [hpin]

/-- The first address of the wanted family that a resolver knows of a name. -/
def Known (req : Endpoint) (name : String) (port : UInt16) (a : SocketAddr) : Prop :=
  ∃ addrs, req.resolver name port = .ok addrs ∧ (wanted req.ipFamily addrs).head? = some a

theorem tcpCandidates_unpinned (h : pinned req req.host = none) (a : SocketAddr) :
    (∃ rest, tcpCandidates req = .ok (a :: rest)) ↔
      Known req (unbracket (sent req.connectTo req.host req.port).1)
        (sent req.connectTo req.host req.port).2 a := by
  have hpin := Option.map_eq_none_iff.mp h
  rw [tcpCandidates_eq, resolveTarget, hpin]
  unfold Known
  dsimp only
  cases req.resolver (unbracket (sent req.connectTo req.host req.port).1)
      (sent req.connectTo req.host req.port).2 with
  | error e => simp [Bind.bind, Except.bind]
  | ok addrs =>
    change (∃ rest, (if (wanted req.ipFamily addrs).isEmpty then _ else _) = _) ↔ _
    simp only [Except.ok.injEq, exists_eq_left']
    cases wanted req.ipFamily addrs <;> simp

theorem preferred_eq (family : Option IpFamily) (addrs : List SocketAddr) :
    preferred family addrs = (wanted family addrs).head? := by
  cases family with
  | none => rfl
  | some family => cases family <;> exact List.head?_filter.symm

theorem dialAddr_unpinned (h : pinned req (tlsHost req.host) = none) (a : SocketAddr) :
    dialAddr req = .ok a ↔ Known req (sent req.connectTo (tlsHost req.host) req.port).1
      (sent req.connectTo (tlsHost req.host) req.port).2 a := by
  have hpin := Option.map_eq_none_iff.mp h
  unfold dialAddr
  rw [remap_eq, applyConnectTo_eq]
  dsimp only
  unfold Known
  rw [hpin]
  dsimp only
  cases req.resolver (sent req.connectTo (tlsHost req.host) req.port).1
      (sent req.connectTo (tlsHost req.host) req.port).2 with
  | error e => simp [Bind.bind, Except.bind]
  | ok addrs =>
    change (match preferred req.ipFamily addrs with | some a => _ | none => _) = _ ↔ _
    rw [preferred_eq]
    simp only [Except.ok.injEq, exists_eq_left']
    cases (wanted req.ipFamily addrs).head? <;> simp

theorem tcpCandidates_ne_nil (req : Endpoint) : tcpCandidates req ≠ .ok [] := by
  rw [tcpCandidates_eq, resolveTarget]
  split
  · nofun
  · cases req.resolver (unbracket (sent req.connectTo req.host req.port).1)
      (sent req.connectTo req.host req.port).2 with
    | error e => nofun
    | ok addrs =>
      change (if (wanted req.ipFamily addrs).isEmpty then _ else _) ≠ _
      split_ifs with hempty
      · nofun
      · intro h
        rw [Except.ok.inj h] at hempty
        exact hempty rfl

theorem sameEndpoint_iff_first : SameEndpoint req ↔
    ∀ a, dialAddr req = .ok a ↔ ∃ rest, tcpCandidates req = .ok (a :: rest) := by
  have hne := tcpCandidates_ne_nil req
  constructor
  · rintro ⟨hfirst, hfails⟩ a
    constructor
    · intro hdial
      cases htcp : tcpCandidates req with
      | error e =>
        obtain ⟨e, he⟩ := hfails.mpr ⟨e, htcp⟩
        rw [hdial] at he
        cases he
      | ok addrs =>
        cases addrs with
        | nil => exact (hne htcp).elim
        | cons b rest =>
          rw [hfirst b rest htcp] at hdial
          cases hdial
          exact ⟨rest, rfl⟩
    · rintro ⟨rest, htcp⟩
      exact hfirst a rest htcp
  · intro h
    refine ⟨fun first rest htcp => (h first).mpr ⟨rest, htcp⟩, ?_⟩
    constructor
    · rintro ⟨e, hdial⟩
      cases htcp : tcpCandidates req with
      | error e => exact ⟨e, rfl⟩
      | ok addrs =>
        cases addrs with
        | nil => exact (hne htcp).elim
        | cons a rest =>
          rw [(h a).mpr ⟨rest, htcp⟩] at hdial
          cases hdial
    · rintro ⟨e, htcp⟩
      cases hdial : dialAddr req with
      | error e => exact ⟨e, rfl⟩
      | ok a =>
        obtain ⟨rest, hok⟩ := (h a).mp hdial
        rw [hok] at htcp
        cases htcp

/-- Where both spellings are treated alike, the two endpoints are the same. -/
theorem sameEndpoint_of_alike (h : SpelledAlike req) : SameEndpoint req := by
  rw [sameEndpoint_iff_first]
  intro a
  cases hpin : pinned req req.host with
  | some ip =>
    rw [tcpCandidates_pinned hpin, dialAddr_pinned (h.pin ▸ hpin), ← h.port]
    simp
  | none =>
    rw [tcpCandidates_unpinned hpin, dialAddr_unpinned (h.pin ▸ hpin), ← h.port, h.name hpin]

/-- Whatever a resolver answers and whatever family is preferred, the two dial the same endpoint,
exactly if the rules and the pins treat both spellings of the host alike. -/
theorem sameEndpoint_iff (req : Endpoint) :
    (∀ resolver ipFamily, SameEndpoint { req with resolver, ipFamily }) ↔ SpelledAlike req := by
  constructor
  · intro h
    -- one resolver knows nothing, and one knows what TCP asks for
    let silent : Endpoint := { req with resolver := fun _ _ => .error .cancelled, ipFamily := none }
    let known : SocketAddr := ⟨.unspecified, 0, 0, 0⟩
    let knowing : Endpoint :=
      { req with
        resolver := fun name port =>
          if name = unbracket (sent req.connectTo req.host req.port).1 ∧
            port = (sent req.connectTo req.host req.port).2 then .ok [known]
          else .error .cancelled
        ipFamily := none }
    have hsilent := sameEndpoint_iff_first.mp (h silent.resolver none : SameEndpoint silent)
    have hknowing := sameEndpoint_iff_first.mp (h knowing.resolver none : SameEndpoint knowing)
    have hunknown (name : String) (port : UInt16) (a : SocketAddr) : ¬Known silent name port a := by
      rintro ⟨_, heq, _⟩
      cases heq
    cases htcp : pinned req req.host with
    | some ip =>
      have hdial : dialAddr silent = .ok _ :=
        (hsilent _).mpr ⟨[], @tcpCandidates_pinned silent ip htcp⟩
      cases hquic : pinned req (tlsHost req.host) with
      | some ip' =>
        rw [@dialAddr_pinned silent ip' hquic] at hdial
        obtain ⟨hip, hport, -, -⟩ := SocketAddr.mk.inj (Except.ok.inj hdial)
        exact ⟨hport.symm, by rw [htcp, hquic, hip], fun hnone => nomatch htcp.symm.trans hnone⟩
      | none => exact (hunknown _ _ _ ((@dialAddr_unpinned silent hquic _).mp hdial)).elim
    | none =>
      cases hquic : pinned req (tlsHost req.host) with
      | some ip' =>
        have htried := (hsilent _).mp (@dialAddr_pinned silent ip' hquic)
        exact (hunknown _ _ _ ((@tcpCandidates_unpinned silent htcp _).mp htried)).elim
      | none =>
        have hasked : Known knowing (unbracket (sent req.connectTo req.host req.port).1)
            (sent req.connectTo req.host req.port).2 known := ⟨[known], if_pos ⟨rfl, rfl⟩, rfl⟩
        have hdial := (hknowing known).mpr ((@tcpCandidates_unpinned knowing htcp known).mpr hasked)
        obtain ⟨addrs, hok, -⟩ := (@dialAddr_unpinned knowing hquic known).mp hdial
        by_cases hsame : (sent req.connectTo (tlsHost req.host) req.port).1 =
            unbracket (sent req.connectTo req.host req.port).1 ∧
          (sent req.connectTo (tlsHost req.host) req.port).2 =
            (sent req.connectTo req.host req.port).2
        · exact ⟨hsame.2.symm, by rw [htcp, hquic], fun _ => hsame.1.symm⟩
        · cases (if_neg hsame).symm.trans hok
  · intro h resolver ipFamily
    exact sameEndpoint_of_alike ⟨h.port, h.pin, h.name⟩

/-- A pin for `[::1]`, as the URL spells it, is found by TCP only. -/
theorem not_sameEndpoint : ¬SameEndpoint
    { host := "[::1]", port := 443
      resolve := [("[::1]", 443, .v4 10 0 0 1)]
      resolver := fun _ port => .ok [⟨.v4 127 0 0 1, port, 0, 0⟩] } := by
  intro h
  have hdial := h.1 ⟨.v4 10 0 0 1, 443, 0, 0⟩ [] (by decide)
  revert hdial
  decide

end Rsurl.Http3
