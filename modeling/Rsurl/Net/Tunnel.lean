import Rsurl.Ascii
import Rsurl.Net.Grammar

/-!
# What a proxy is told

A handshake that succeeds has taken the reply of the proxy off the stream, to its last byte and no
further, and has told the proxy the host, port and credentials that it was given. Where a string is
sent up to a delimiter this holds only of strings without the delimiter: the length-prefixed strings
of SOCKS5 carry anything.
-/

namespace Rsurl.Net

open Library Text
open Library.Delimited (upTo upTo_append upTo_eq_some)
open Library.Endian (toBe fromBe fromBe_toBe)

/-- What a host may be to a proxy: itself, or an address of it. -/
inductive Means (dns : Dns) (host : String) (port : UInt16) : Target → Prop
  | literal (ip : IpAddr) (h : ipLiteralAddr host = some ip) : Means dns host port (.address ip.octets)
  | name : Means dns host port (.name (asBytes host))
  | lookup (name : String) (hname : name = host ∨ name = unbracket host) (addrs : List IpAddr)
    (hdns : toSocketAddrs dns name port = .ok addrs) (ip : IpAddr) (hip : ip ∈ addrs) :
    Means dns host port (.address ip.octets)

/-- A handshake that succeeds has taken a reply and no more, and has written what is asked of it. -/
def Tunnels (t : Session Unit) (reply : Bytes → List Bytes → Prop) : Prop :=
  ∀ w w' : Wire, t.exec Wire.answer w = .ok () w' →
    ∃ consumed, unread w.side.reads = consumed ++ unread w'.side.reads ∧
      reply consumed (written (t.events Wire.answer w))

/-- It is enough to look at the runs. -/
theorem tunnels_of_run {t : Session Unit} {reply : Bytes → List Bytes → Prop}
    (hraw : ∀ evs, t.Run evs (.ok ()) → ∀ ev ∈ evs, Raw ev)
    (h : ∀ evs, t.Run evs (.ok ()) → (∀ ev ∈ evs, Sized ev) → reply (taken evs) (written evs)) :
    Tunnels t reply := by
  intro w w' hok
  have hrun := Talk.run_events Wire.answer t w
  rw [hok] at hrun
  obtain ⟨hsized, hunread⟩ := events_raw t w (hraw _ hrun)
  rw [hok] at hunread
  exact ⟨_, hunread, h _ hrun hsized⟩

theorem fromBe_port (port : UInt16) : fromBe (toBe 2 port.toNat) = port.toNat :=
  fromBe_toBe (by simpa using port.toNat_lt)

/-! ## SOCKS4 -/

theorem run_socks4Connect {dns : Dns} {host : String} {port : UInt16} {user : String}
    {remoteDns : Bool} {evs : List Event} :
    (socks4Connect dns host port user remoteDns).Run evs (.ok ()) ↔
      ∃ target reply, socks4Target dns host port remoteDns = .ok target ∧
        evs = [⟨.send (socks4Request port user target), .ok ()⟩, ⟨.exact 8, .ok reply⟩] ∧
        socks4Reply reply = .ok () := by
  unfold socks4Connect
  simp only [Talk.run_bind_ok, Talk.run_ofExcept, Session.run_send, Session.run_exact]
  constructor
  · rintro ⟨target, _, _, rfl, ⟨rfl, htarget⟩, _, _, _, rfl, rfl, reply, _, _, rfl, rfl, rfl, hreply⟩
    exact ⟨target, reply, htarget, rfl, hreply⟩
  · rintro ⟨target, reply, htarget, rfl, hreply⟩
    exact ⟨target, [], _, rfl, ⟨rfl, htarget⟩, (), _, _, rfl, rfl, reply, [_], [], rfl, rfl, rfl,
      hreply⟩

/-- A SOCKS4 address is an IPv4 address of the host, or stands for its name. -/
theorem socks4Target_means {dns : Dns} {host : String} {port : UInt16} {remoteDns : Bool}
    {target : Bytes × Option String} (h : socks4Target dns host port remoteDns = .ok target) :
    target = (nameFollows, some host) ∨
      ∃ a b c d, target = ([a, b, c, d], none) ∧ Means dns host port (.address [a, b, c, d]) := by
  have hresolve {address : Bytes} (haddr : resolveIpv4 dns host port = .ok address) :
      ∃ a b c d, address = [a, b, c, d] ∧ Means dns host port (.address [a, b, c, d]) := by
    unfold resolveIpv4 at haddr
    dsimp only at haddr
    cases hdns : toSocketAddrs dns (unbracket host) port with
    | error e =>
      rw [hdns] at haddr
      cases haddr
    | ok addrs =>
      rw [hdns] at haddr
      dsimp only at haddr
      cases hfind : addrs.find? IpAddr.isV4 with
      | none =>
        rw [hfind] at haddr
        cases haddr
      | some ip =>
        rw [hfind] at haddr
        cases haddr
        have hmeans := Means.lookup (unbracket host) (.inr rfl) addrs hdns ip
          (List.mem_of_find?_eq_some hfind)
        cases ip with
        | v4 a b c d => exact ⟨a, b, c, d, rfl, hmeans⟩
        | v6 addr => exact absurd (List.find?_some hfind) (by simp [IpAddr.isV4])
  unfold socks4Target at h
  cases hlit : socks4Literal host with
  | error e =>
    rw [hlit] at h
    cases h
  | ok literal =>
    rw [hlit] at h
    change (if remoteDns && literal.isNone then _ else _) = _ at h
    split at h
    · cases h
      exact .inl rfl
    · cases haddr : resolveIpv4 dns host port with
      | error e =>
        rw [haddr] at h
        cases h
      | ok address =>
        rw [haddr] at h
        cases h
        obtain ⟨a, b, c, d, rfl, hmeans⟩ := hresolve haddr
        exact .inr ⟨a, b, c, d, rfl, hmeans⟩

theorem socks4Request_eq (port : UInt16) (user : String) (a b c d : UInt8) (name : Option String) :
    ∃ p₁ p₂, fromBe [p₁, p₂] = port.toNat ∧ socks4Request port user ([a, b, c, d], name) =
      0x04 :: 0x01 :: p₁ :: p₂ :: a :: b :: c :: d ::
        (asBytes user ++ 0 :: (name.map terminated).getD []) := by
  refine ⟨UInt8.ofNat (port.toNat / 256), UInt8.ofNat port.toNat, fromBe_port port, ?_⟩
  simp [socks4Request, terminated, toBe]

/-- The request of a SOCKS4 client, as the proxy reads it. -/
structure Socks4Told (dns : Dns) (host : String) (port : UInt16) (user : String) (request : Bytes) :
    Prop where
  read : ∃ address hostname,
    readSocks4 request = some (⟨0x01, port.toNat, address, asBytes user, hostname⟩, []) ∧
      Means dns host port (match hostname with
        | some name => .name name
        | none => .address address)

/-- No string contains the byte that ends it, and no address stands for a name. -/
def Socks4Plain (user : String) (target : Bytes × Option String) : Prop :=
  0 ∉ asBytes user ∧ match target.2 with
    | some name => 0 ∉ asBytes name
    | none => announcesName target.1 = false

theorem socks4Told_iff {dns : Dns} {host : String} {port : UInt16} {user : String} {remoteDns : Bool}
    {target : Bytes × Option String} (h : socks4Target dns host port remoteDns = .ok target) :
    Socks4Told dns host port user (socks4Request port user target) ↔ Socks4Plain user target := by
  rcases socks4Target_means h with rfl | ⟨a, b, c, d, rfl, hmeans⟩
  · obtain ⟨p₁, p₂, hport, hreq⟩ := socks4Request_eq port user 0 0 0 1 (some host)
    rw [nameFollows, hreq]
    constructor
    · rintro ⟨address, hostname, hread, hmeans⟩
      rw [readSocks4] at hread
      cases huser : upTo 0 (asBytes user ++ 0 :: terminated host) with
      | none => simp [huser] at hread
      | some read =>
        obtain ⟨userid, rest⟩ := read
        obtain ⟨heq, hnot⟩ := upTo_eq_some.mp huser
        cases hname : upTo 0 rest with
        | none => simp [huser, hname, announcesName] at hread
        | some read' =>
          obtain ⟨name, rest'⟩ := read'
          simp [huser, hname, announcesName] at hread
          obtain ⟨⟨-, rfl, rfl, rfl⟩, rfl⟩ := hread
          refine ⟨hnot, ?_⟩
          cases hmeans
          exact (upTo_eq_some.mp hname).2
    · rintro ⟨huser, hhost⟩
      refine ⟨[0, 0, 0, 1], some (asBytes host), ?_, .name⟩
      have hname := upTo_append hhost []
      simp [readSocks4, upTo_append huser, announcesName, terminated, hport, hname]
  · obtain ⟨p₁, p₂, hport, hreq⟩ := socks4Request_eq port user a b c d none
    rw [hreq]
    constructor
    · rintro ⟨address, hostname, hread, -⟩
      rw [readSocks4] at hread
      cases huser : upTo 0 (asBytes user ++ [0]) with
      | none => simp [huser] at hread
      | some read =>
        obtain ⟨userid, rest⟩ := read
        obtain ⟨heq, hnot⟩ := upTo_eq_some.mp huser
        by_cases hannounce : announcesName [a, b, c, d] = true
        · cases hname : upTo 0 rest with
          | none => simp [huser, hname, hannounce] at hread
          | some read' =>
            obtain ⟨name, rest'⟩ := read'
            simp [huser, hname, hannounce] at hread
            obtain ⟨⟨-, rfl, rfl, rfl⟩, rfl⟩ := hread
            obtain ⟨rfl, -⟩ := upTo_eq_some.mp hname
            simp at heq
        · simp [huser, hannounce] at hread
          obtain ⟨⟨-, rfl, rfl, rfl⟩, rfl⟩ := hread
          exact ⟨hnot, Bool.eq_false_iff.mpr hannounce⟩
    · rintro ⟨huser, hannounce⟩
      refine ⟨[a, b, c, d], none, ?_, hmeans⟩
      have hannounce' : announcesName [a, b, c, d] = false := hannounce
      simp [readSocks4, upTo_append huser, hannounce', hport]

/-- SOCKS4 takes the eight bytes of the reply, and says where to go. -/
def Socks4Faithful (dns : Dns) (host : String) (port : UInt16) (user : String) (remoteDns : Bool) :
    Prop :=
  Tunnels (socks4Connect dns host port user remoteDns) fun consumed asks =>
    consumed.length = 8 ∧ Socks4Told dns host port user asks.flatten

theorem socks4Faithful_iff (dns : Dns) (host : String) (port : UInt16) (user : String)
    (remoteDns : Bool) : Socks4Faithful dns host port user remoteDns ↔
      ∀ target, socks4Target dns host port remoteDns = .ok target → Socks4Plain user target := by
  constructor
  · intro h target htarget
    -- a proxy that grants the request
    set w := Wire.delivering [.data 0x00 [0x5a, 0, 0, 0, 0, 0, 0]] with hw
    have hrun : (socks4Connect dns host port user remoteDns).exec Wire.answer w =
        .ok () (Wire.delivering []) := by
      unfold socks4Connect
      rw [htarget]
      rfl
    have hwritten : written ((socks4Connect dns host port user remoteDns).events Wire.answer w) =
        [socks4Request port user target] := by
      unfold socks4Connect
      rw [htarget]
      rfl
    obtain ⟨consumed, -, -, htold⟩ := h w _ hrun
    rw [hwritten, List.flatten_singleton] at htold
    exact (socks4Told_iff htarget).mp htold
  · intro h
    refine tunnels_of_run (fun evs hrun => ?_) fun evs hrun hsized => ?_
    · obtain ⟨target, reply, -, rfl, -⟩ := run_socks4Connect.mp hrun
      simp [Raw]
    · obtain ⟨target, reply, htarget, rfl, -⟩ := run_socks4Connect.mp hrun
      have hlen : reply.length = 8 := hsized _ (.tail _ (.head _))
      have htold := (socks4Told_iff htarget).mpr (h target htarget)
      simpa [taken, written, hlen] using htold

/-! ## SOCKS5 -/

theorem takeExact_append {n : Nat} {a : Bytes} (h : a.length = n) (rest : Bytes) :
    takeExact n (a ++ rest) = some (a, rest) := by
  subst h
  simp [takeExact]

theorem readCounted_append {s : String} (h : len s ≤ 255) (rest : Bytes) :
    readCounted (counted s ++ rest) = some (asBytes s, rest) := by
  have hlen : (UInt8.ofNat (len s)).toNat = len s := by
    rw [UInt8.toNat_ofNat']
    omega
  rw [counted, List.cons_append, readCounted, hlen]
  exact takeExact_append rfl rest

theorem readAuth_authRequest {user pass : String} {request : Bytes}
    (h : authRequest user pass = .ok request) :
    readAuth request = some ((asBytes user, asBytes pass), []) := by
  unfold authRequest at h
  split at h
  · cases h
  · rename_i hlen
    cases h
    obtain ⟨huser, hpass⟩ := not_or.mp hlen
    have hread := readCounted_append (Nat.le_of_not_lt hpass) []
    rw [List.append_nil] at hread
    simp [readAuth, readCounted_append (Nat.le_of_not_lt huser), hread]

theorem readTarget_pushIp (ip : IpAddr) (rest : Bytes) :
    readTarget (pushIp ip ++ rest) = some (.address ip.octets, rest) := by
  cases ip with
  | v4 a b c d =>
    have hread := takeExact_append (n := 4) (a := [a, b, c, d]) rfl rest
    simp only [List.cons_append, List.nil_append] at hread
    simp [pushIp, readTarget, hread, IpAddr.octets]
  | v6 addr => simp [pushIp, readTarget, takeExact_append addr.sized, IpAddr.octets]

/-- What a SOCKS5 request says of its destination. -/
theorem readTarget_destination {dns : Dns} {host : String} {port : UInt16} {remoteDns : Bool}
    {destination : Bytes} (h : socks5Destination dns host port remoteDns = .ok destination) :
    ∃ target, Means dns host port target ∧
      ∀ rest, readTarget (destination ++ rest) = some (target, rest) := by
  unfold socks5Destination at h
  cases hlit : ipLiteralAddr host with
  | some ip =>
    rw [hlit] at h
    cases h
    exact ⟨_, .literal ip hlit, readTarget_pushIp ip⟩
  | none =>
    rw [hlit] at h
    dsimp only at h
    split at h
    · split at h
      · cases h
      · rename_i hlen
        cases h
        refine ⟨_, .name, fun rest => ?_⟩
        have hread := readCounted_append (Nat.le_of_not_lt hlen) rest
        simp [readTarget, hread]
    · cases hdns : toSocketAddrs dns host port with
      | error e =>
        rw [hdns] at h
        cases h
      | ok addrs =>
        rw [hdns] at h
        cases addrs with
        | nil => cases h
        | cons ip addrs =>
          cases h
          exact ⟨_, .lookup host (.inl rfl) _ hdns ip List.mem_cons_self, readTarget_pushIp ip⟩

/-- What is said and read until a method is settled. -/
inductive Negotiated (auth : Option (String × String)) : Bytes → List Bytes → Prop
  | without (methods : Bytes) (hread : readGreeting (greeting auth) = some (methods, []))
    (hmethod : 0x00 ∈ methods) : Negotiated auth [0x05, 0x00] [greeting auth]
  | withPassword (methods : Bytes) (hread : readGreeting (greeting auth) = some (methods, []))
    (hmethod : 0x02 ∈ methods) (user pass : String) (hauth : auth = some (user, pass))
    (request : Bytes) (hrequest : readAuth request = some ((asBytes user, asBytes pass), []))
    (version : UInt8) : Negotiated auth [0x05, 0x02, version, 0x00] [greeting auth, request]

theorem eq_pair {bytes : Bytes} (h : bytes.length = 2) : bytes = [bytes.getD 0 0, bytes.getD 1 0] := by
  match bytes, h with
  | [a, b], _ => rfl

theorem run_authenticate {auth : Option (String × String)} {evs : List Event}
    (h : (authenticate auth).Run evs (.ok ())) : ∃ user pass request ar,
      auth = some (user, pass) ∧ authRequest user pass = .ok request ∧
      evs = [⟨.send request, .ok ()⟩, ⟨.exact 2, .ok ar⟩] ∧ ar.getD 1 0 = 0 := by
  cases auth with
  | none => exact absurd h Talk.run_fail
  | some creds =>
    obtain ⟨user, pass⟩ := creds
    simp only [authenticate, Talk.run_bind_ok, Talk.run_ofExcept, Session.run_send,
      Session.run_exact] at h
    obtain ⟨request, _, _, rfl, ⟨rfl, hreq⟩, _, _, _, rfl, rfl, ar, _, _, rfl, rfl, h⟩ := h
    split at h
    · exact absurd h Talk.run_fail
    · rename_i hstatus
      obtain ⟨rfl, -⟩ := h
      exact ⟨user, pass, request, ar, rfl, hreq, rfl, not_not.mp hstatus⟩

theorem run_socks5Negotiate {auth : Option (String × String)} {evs : List Event}
    (h : (socks5Negotiate auth).Run evs (.ok ())) : (∀ ev ∈ evs, Raw ev) ∧
      ((∀ ev ∈ evs, Sized ev) → Negotiated auth (taken evs) (written evs)) := by
  simp only [socks5Negotiate, Talk.run_bind_ok, Session.run_send, Session.run_exact] at h
  obtain ⟨_, _, _, rfl, rfl, sel, _, after, rfl, rfl, h⟩ := h
  split at h
  · exact absurd h Talk.run_fail
  rename_i hversion
  have hgreeting : ∃ methods, readGreeting (greeting auth) = some (methods, []) ∧
      0x00 ∈ methods ∧ (auth.isSome = true → 0x02 ∈ methods) := by
    cases auth with
    | none => exact ⟨[0x00], rfl, List.mem_cons_self, nofun⟩
    | some creds => exact ⟨[0x00, 0x02], rfl, by decide, fun _ => by decide⟩
  obtain ⟨methods, hread, hopen, hpassword⟩ := hgreeting
  split at h
  · -- no authentication
    rename_i hmethod
    obtain ⟨rfl, -⟩ := h
    refine ⟨by simp [Raw], fun hsized => ?_⟩
    have hsel := eq_pair (hsized ⟨.exact 2, .ok sel⟩ (by simp))
    rw [not_not.mp hversion, hmethod] at hsel
    subst hsel
    exact .without methods hread hopen
  · split at h
    · rename_i hmethod
      obtain ⟨user, pass, request, ar, hauth, hreq, rfl, hstatus⟩ := run_authenticate h
      refine ⟨by simp [Raw], fun hsized => ?_⟩
      have hsel := eq_pair (hsized ⟨.exact 2, .ok sel⟩ (by simp))
      have har := eq_pair (hsized ⟨.exact 2, .ok ar⟩ (by simp))
      rw [not_not.mp hversion, hmethod] at hsel
      rw [hstatus] at har
      subst hsel
      rw [har]
      exact .withPassword methods hread (hpassword (by rw [hauth]; rfl)) user pass hauth request
        (readAuth_authRequest hreq) _
    · split at h
      · exact absurd h Talk.run_fail
      · exact absurd h Talk.run_fail

/-- The request that is granted, and the reply that grants it. -/
structure Granted (dns : Dns) (host : String) (port : UInt16) (reply request : Bytes) : Prop where
  read : ∃ target, readMessage request = some (⟨0x01, target, port.toNat⟩, []) ∧
    Means dns host port target
  reply : ∃ bound boundPort, readMessage reply = some (⟨0x00, bound, boundPort⟩, [])

theorem run_readPort {evs : List Event} {port : UInt16} (h : readPort.Run evs (.ok port)) :
    ∃ p, evs = [⟨.exact 2, .ok p⟩] := by
  simp only [readPort, Talk.run_bind_ok, Session.run_exact] at h
  obtain ⟨p, _, _, rfl, rfl, rfl, -⟩ := h
  exact ⟨p, rfl⟩

/-- The rest of a reply, from the address on. -/
theorem run_socks5Bound {dns : Dns} {atyp : UInt8} {evs : List Event} {bound : IpAddr × UInt16}
    (h : (socks5Bound dns atyp).Run evs (.ok bound)) : (∀ ev ∈ evs, Raw ev) ∧ written evs = [] ∧
      ((∀ ev ∈ evs, Sized ev) → ∃ target p, readTarget (atyp :: taken evs) = some (target, p) ∧
        p.length = 2) := by
  unfold socks5Bound at h
  split at h
  · rename_i hatyp
    subst hatyp
    simp only [Talk.run_bind_ok, Session.run_exact] at h
    obtain ⟨a, _, after, rfl, rfl, h⟩ := h
    split at h
    · rename_i b c d e
      obtain ⟨port, _, _, rfl, hport, rfl, -⟩ := Talk.run_bind_ok.mp h
      obtain ⟨p, rfl⟩ := run_readPort hport
      refine ⟨by simp [Raw], rfl, fun hsized =>
        ⟨.address [b, c, d, e], p, ?_, hsized ⟨.exact 2, .ok p⟩ (by simp)⟩⟩
      have hread := takeExact_append (n := 4) (a := [b, c, d, e]) rfl p
      simpa [taken, readTarget] using hread
    · exact absurd h Talk.run_fail
  · split at h
    · rename_i hatyp
      subst hatyp
      simp only [Talk.run_bind_ok, Session.run_exact] at h
      obtain ⟨a, _, after, rfl, rfl, h⟩ := h
      split at h
      · obtain ⟨port, _, _, rfl, hport, rfl, -⟩ := Talk.run_bind_ok.mp h
        obtain ⟨p, rfl⟩ := run_readPort hport
        refine ⟨by simp [Raw], rfl, fun hsized =>
          ⟨.address a, p, ?_, hsized ⟨.exact 2, .ok p⟩ (by simp)⟩⟩
        have hlen : a.length = 16 := hsized ⟨.exact 16, .ok a⟩ (by simp)
        simp [taken, readTarget, takeExact_append hlen]
      · exact absurd h Talk.run_fail
    · split at h
      · rename_i hatyp
        subst hatyp
        simp only [Talk.run_bind_ok, Session.run_exact] at h
        obtain ⟨count, _, _, rfl, rfl, name, _, _, rfl, rfl, port, _, _, rfl, hport, h⟩ := h
        obtain ⟨p, rfl⟩ := run_readPort hport
        have hafter {t : Session (IpAddr × UInt16)} {evs : List Event}
            (ht : ∃ x, t = pure x) (h : t.Run evs (.ok bound)) : evs = [] := by
          obtain ⟨x, rfl⟩ := ht
          exact h.1
        obtain rfl := hafter (by split <;> exact ⟨_, rfl⟩) h
        refine ⟨by simp [Raw], rfl, fun hsized =>
          ⟨.name name, p, ?_, hsized ⟨.exact 2, .ok p⟩ (by simp)⟩⟩
        have hcount : count.length = 1 := hsized ⟨.exact 1, .ok count⟩ (by simp)
        have hname : name.length = (count.getD 0 0).toNat := hsized ⟨.exact _, .ok name⟩ (by simp)
        obtain ⟨n, rfl⟩ := List.length_eq_one_iff.mp hcount
        have hname' : name.length = n.toNat := hname
        simp [taken, readTarget, readCounted, takeExact_append hname']
      · exact absurd h Talk.run_fail

theorem run_socks5Request {dns : Dns} {host : String} {port : UInt16} {remoteDns : Bool}
    {evs : List Event} {bound : IpAddr × UInt16}
    (h : (socks5Request dns 0x01 host port remoteDns).Run evs (.ok bound)) :
    (∀ ev ∈ evs, Raw ev) ∧ ((∀ ev ∈ evs, Sized ev) → ∃ request, written evs = [request] ∧
      Granted dns host port (taken evs) request) := by
  simp only [socks5Request, Talk.run_bind_ok, Talk.run_ofExcept, Session.run_send,
    Session.run_exact] at h
  obtain ⟨destination, _, _, rfl, ⟨rfl, hdest⟩, _, _, _, rfl, rfl, head, _, after, rfl, rfl, h⟩ := h
  split at h
  · exact absurd h Talk.run_fail
  rename_i hversion
  split at h
  · exact absurd h Talk.run_fail
  rename_i hcode
  obtain ⟨hraw, hwritten, htaken⟩ := run_socks5Bound h
  set request := [0x05, 0x01, 0x00] ++ destination ++ toBe 2 port.toNat with hrequest
  have hwrote := congrArg (request :: ·) hwritten
  refine ⟨by simpa [Raw] using hraw, fun hsized => ⟨request, hwrote, ?_, ?_⟩⟩
  · obtain ⟨target, hmeans, hread⟩ := readTarget_destination hdest
    refine ⟨target, ?_, hmeans⟩
    have hport := takeExact_append (Endian.length_toBe 2 port.toNat) []
    rw [List.append_nil] at hport
    simp [hrequest, readMessage, hread, hport, fromBe_port]
  · obtain ⟨target, p, hread, hp⟩ := htaken fun ev hev => hsized ev (by simp [hev])
    have hlen : head.length = 4 := hsized ⟨.exact 4, .ok head⟩ (by simp)
    match head, hlen with
    | [version, code, reserved, atyp], _ =>
      obtain rfl : version = 0x05 := not_not.mp hversion
      obtain rfl : code = 0x00 := not_not.mp hcode
      have hport := takeExact_append hp []
      rw [List.append_nil] at hport
      refine ⟨target, fromBe p, ?_⟩
      have hread' : readTarget (atyp :: taken after) = some (target, p) := hread
      have htaken' : taken ([⟨.send request, .ok ()⟩] ++
          ([⟨.exact 4, .ok [0x05, 0x00, reserved, atyp]⟩] ++ after)) =
          0x05 :: 0x00 :: reserved :: atyp :: taken after := by simp [taken]
      rw [List.nil_append, htaken']
      simp [readMessage, hread', hport]

/-- SOCKS5 takes the two replies, and says who we are, if it is asked, and where to go. -/
inductive Socks5Told (dns : Dns) (host : String) (port : UInt16) (auth : Option (String × String)) :
    Bytes → List Bytes → Prop
  | told (selection reply : Bytes) (asks : List Bytes) (request : Bytes)
    (hauth : Negotiated auth selection asks) (hgranted : Granted dns host port reply request) :
    Socks5Told dns host port auth (selection ++ reply) (asks ++ [request])

def Socks5Faithful (dns : Dns) (host : String) (port : UInt16) (auth : Option (String × String))
    (remoteDns : Bool) : Prop :=
  Tunnels (socks5Connect dns host port auth remoteDns) (Socks5Told dns host port auth)

theorem socks5Faithful (dns : Dns) (host : String) (port : UInt16) (auth : Option (String × String))
    (remoteDns : Bool) : Socks5Faithful dns host port auth remoteDns := by
  have hsplit {evs : List Event} (h : (socks5Connect dns host port auth remoteDns).Run evs (.ok ())) :
      ∃ before after bound, evs = before ++ after ∧ (socks5Negotiate auth).Run before (.ok ()) ∧
        (socks5Request dns 0x01 host port remoteDns).Run after (.ok bound) := by
    obtain ⟨_, before, rest, rfl, hbefore, h⟩ := Talk.run_bind_ok.mp h
    obtain ⟨bound, after, _, rfl, hafter, rfl, -⟩ := Talk.run_bind_ok.mp h
    exact ⟨before, after ++ [], bound, rfl, hbefore, by rwa [List.append_nil]⟩
  refine tunnels_of_run (fun evs h ev hev => ?_) fun evs h hsized => ?_
  · obtain ⟨before, after, bound, rfl, hbefore, hafter⟩ := hsplit h
    rcases List.mem_append.mp hev with hev | hev
    · exact (run_socks5Negotiate hbefore).1 ev hev
    · exact (run_socks5Request hafter).1 ev hev
  · obtain ⟨before, after, bound, rfl, hbefore, hafter⟩ := hsplit h
    have hnegotiated := (run_socks5Negotiate hbefore).2 fun ev hev =>
      hsized ev (List.mem_append_left _ hev)
    obtain ⟨request, hrequest, hgranted⟩ := (run_socks5Request hafter).2 fun ev hev =>
      hsized ev (List.mem_append_right _ hev)
    have htaken : taken (before ++ after) = taken before ++ taken after := List.flatMap_append
    have hwritten : written (before ++ after) = written before ++ [request] := by
      rw [← hrequest]
      exact List.filterMap_append
    rw [htaken, hwritten]
    exact .told _ _ _ _ hnegotiated hgranted

end Rsurl.Net
