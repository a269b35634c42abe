import Rsurl.Library.Lockstep
import Rsurl.Tftp.Client

/-!
# Downloads

A download against a server that follows RFC 1350, over a network that loses, repeats, delays and
reorders datagrams. A request that was sent again may open several sessions, each with a port of its
own. Datagrams carry the number of the block they are about, which is not on the wire: none arrives
that is 65536 or more blocks old.
-/

namespace Rsurl.Tftp

open Library Lockstep Text
open Library.Loop (Turn)
open Net (SocketAddr)

/-- A datagram between the client and a port of the server, and the block it is about. -/
structure Flight where
  port : SocketAddr
  bytes : Bytes
  number : Nat
  deriving DecidableEq, Repr

/-- Block numbers on the wire are 16 bits. -/
abbrev wire (n : Nat) : UInt16 := UInt16.ofNat n

abbrev numbers : Nat := 65536

theorem wire_eq_iff {j n : Nat} : wire j = wire n ↔ j % numbers = n % numbers := by
  rw [← UInt16.toNat_inj]
  simp

theorem wire_succ (n : Nat) : wire n + 1 = wire (n + 1) := by
  simp [wire, UInt16.ofNat_add]

end Rsurl.Tftp

namespace Rsurl.Tftp.Download

open Library Lockstep Text
open Library.Loop (Turn)
open Net (SocketAddr)

/-- The client, the block that every session sent last, and all datagrams ever sent. -/
structure System where
  client : Turn Fetch (Except Error Bytes)
  session : SocketAddr → Nat
  toClient : List Flight
  toServer : List Flight

/-- How many blocks the client took. -/
def taken : Turn Fetch (Except Error Bytes) → Nat
  | .next s => s.out.length / blockSize
  | .done (.ok out) => out.length / blockSize + 1
  | .done (.error _) => 0

def System.start (server : SocketAddr) (filename : String) : System where
  client := .next (Fetch.start server filename)
  session := fun _ => 0
  toClient := []
  toServer := [⟨server, buildRrq filename, 0⟩]

/-- The client's turn; what it sends is about the block it took last. -/
def System.turn (sys : System) (server : SocketAddr) (s : Fetch) (p : Poll) : System :=
  let (client, sent) := s.turn server p
  { sys with
    client
    toServer := sys.toServer ++ sent.map fun packet => ⟨packet.dest, packet.bytes, taken client⟩ }

/-- The `n`-th block of the file, in a datagram. -/
def dataFlight (file : Bytes) (port : SocketAddr) (n : Nat) : Flight :=
  ⟨port, writeData (wire n) (block blockSize file (n - 1)), n⟩

/-- A session sends its `n`-th block. -/
def System.serve (sys : System) (file : Bytes) (port : SocketAddr) (n : Nat) : System :=
  { sys with
    session := Function.update sys.session port n
    toClient := sys.toClient ++ [dataFlight file port n] }

/-- What can happen to the client besides the server's datagrams: the clock and the socket,
strangers that it does not hear, and an ERROR or anything else that is no DATA. -/
def Apart (server : SocketAddr) (s : Fetch) : Poll → Prop
  | .received datagram source _ =>
    s.link.hears server source = false ∨ parseOpcode (datagram.take bufferSize) ≠ some opData
  | _ => True

inductive Step (server : SocketAddr) (file : Bytes) (sys : System) : System → Prop where
  /-- A request opens a session. -/
  | request (f : Flight) (hf : f ∈ sys.toServer) (hop : parseOpcode f.bytes = some opRrq)
      (port : SocketAddr) (hport : port.ip = server.ip) (hnew : sys.session port = 0) :
      Step server file sys (sys.serve file port 1)
  /-- A session sends its last block again. -/
  | again (port : SocketAddr) (hopen : 0 < sys.session port) :
      Step server file sys (sys.serve file port (sys.session port))
  /-- A session is given an acknowledgement of its last block. -/
  | acknowledged (f : Flight) (hf : f ∈ sys.toServer)
      (hack : parseAck f.bytes = .ok (wire (sys.session f.port))) (hopen : 0 < sys.session f.port)
      (hage : sys.session f.port < f.number + numbers)
      (hmore : sys.session f.port < (blocksOf blockSize file).length) :
      Step server file sys (sys.serve file f.port (sys.session f.port + 1))
  /-- The client is given a datagram of a session. -/
  | deliver (s : Fetch) (hs : sys.client = .next s) (f : Flight) (hf : f ∈ sys.toClient)
      (hage : taken sys.client + 1 < f.number + numbers) (send : Except Error Unit) :
      Step server file sys (sys.turn server s (.received f.bytes f.port send))
  | apart (s : Fetch) (hs : sys.client = .next s) (p : Poll) (hp : Apart server s p) :
      Step server file sys (sys.turn server s p)

abbrev Steps (server : SocketAddr) (file : Bytes) : System → System → Prop :=
  Relation.ReflTransGen (Step server file)

/-! ## The turns of the client -/

variable {server : SocketAddr} {file : Bytes} {filename : String} {s : Fetch} {sys sys' : System}

/-- Short enough for the receive buffer. -/
theorem take_dataFlight (port : SocketAddr) (n : Nat) :
    (dataFlight file port n).bytes.take bufferSize = (dataFlight file port n).bytes := by
  apply List.take_of_length_le
  have hlen := @length_block _ blockSize file (n - 1)
  simp only [dataFlight, writeData, List.length_append, length_toBeBytes, bufferSize]
  omega

theorem turn_unheard {datagram : Bytes} {source : SocketAddr} (send : Except Error Unit)
    (h : s.link.hears server source = false) :
    s.turn server (.received datagram source send) = ignore s := by
  simp [Fetch.turn, poll, h]

theorem turn_dataFlight {port : SocketAddr} (n : Nat) (send : Except Error Unit)
    (h : s.link.hears server port = true) :
    s.turn server (.received (dataFlight file port n).bytes port send) =
      if wire n ≠ s.expectedBlock then s.repeated (wire n) send
      else s.accept ⟨wire n, block blockSize file (n - 1)⟩ port send := by
  simp only [Fetch.turn, poll, h, if_true, take_dataFlight]
  simp only [dataFlight, dispatch, Fetch.onData, parseOpcode_writeData, parseData_writeData,
    if_true]

/-- A packet that is no DATA ends the download. -/
theorem dispatch_other {pkt : Bytes} {op : UInt16} {σ α : Type} (k : Progress σ α)
    (h : parseOpcode pkt ≠ some op) : ∃ e, dispatch op pkt k = stop (.error e) := by
  unfold dispatch
  split
  · split_ifs with hop
    · grind
    · split <;> exact ⟨_, rfl⟩
    · exact ⟨_, rfl⟩
  · exact ⟨_, rfl⟩

/-! ## What every run keeps -/

/-- If it is an acknowledgement, then one of a block that was taken, to the port the client heard.
-/
def Good (peer : Option SocketAddr) (got : List Bytes) (f : Flight) : Prop :=
  ∀ b, parseAck f.bytes = .ok b → peer = some f.port ∧ b = wire f.number ∧ f.number ≤ got.length

/-- The client goes on, after the blocks `got`: the session that it heard first and the client are
in lockstep, and no other session has had an acknowledgement. -/
structure Running (file : Bytes) (sys : System) (s : Fetch) (got : List Bytes) : Prop where
  out_eq : s.out = got.flatten
  expected : s.expectedBlock = wire (got.length + 1)
  more : got.length < (blocksOf blockSize file).length
  last : Good s.link.peer got ⟨s.link.lastDest, s.link.lastPacket, got.length⟩
  acks : ∀ f ∈ sys.toServer, Good s.link.peer got f
  others : ∀ port, s.link.peer ≠ some port → sys.session port ≤ 1
  fresh : s.link.peer = none → got = []
  held : ∀ port, s.link.peer = some port → got ≠ [] ∧
    Lockstep.Steps numbers (blocksOf blockSize file) .start ⟨sys.session port, got⟩ ∧
    ⟨port, buildAck (wire got.length), got.length⟩ ∈ sys.toServer

structure Inv (server : SocketAddr) (file : Bytes) (sys : System) : Prop where
  data : ∀ f ∈ sys.toClient, 0 < f.number ∧ f.number ≤ sys.session f.port ∧
    f = dataFlight file f.port f.number ∧ f.port.ip = server.ip
  opened : ∀ port, 0 < sys.session port → port.ip = server.ip
  bound : ∀ port, sys.session port ≤ (blocksOf blockSize file).length
  request : ∃ f ∈ sys.toServer, parseOpcode f.bytes = some opRrq
  running : ∀ s, sys.client = .next s → ∃ got, Running file sys s got
  done : ∀ out, sys.client = .done (.ok out) → out = file

variable {got : List Bytes} {peer : Option SocketAddr}

theorem Good.mono {port : SocketAddr} {got' : List Bytes} {f : Flight} (h : Good peer got f)
    (hpeer : peer ≠ some port → peer = none) (hle : got.length ≤ got'.length) :
    Good (some port) got' f := by
  intro b hb
  obtain ⟨hport, heq, hnum⟩ := h b hb
  refine ⟨?_, heq, hnum.trans hle⟩
  grind

theorem good_buildRrq (port : SocketAddr) (n : Nat) :
    Good peer got ⟨port, buildRrq filename, n⟩ := by
  intro b hb
  obtain ⟨rest, hrest⟩ := parseAck_eq_ok.mp hb
  have hop := parseOpcode_buildRequest opRrq filename
  simp only at hrest
  rw [← buildRrq, hrest, buildAck, List.append_assoc, parseOpcode_append] at hop
  exact absurd hop (by decide)

theorem good_buildAck (port : SocketAddr) :
    Good (some port) got ⟨port, buildAck (wire got.length), got.length⟩ := by
  intro b hb
  rw [parseAck_buildAck] at hb
  exact ⟨rfl, (Except.ok.inj hb).symm, le_rfl⟩

theorem inv_start : Inv server file (.start server filename) where
  data := by simp [System.start]
  opened := by simp [System.start]
  bound := by simp [System.start]
  request := ⟨_, List.mem_singleton_self _, parseOpcode_buildRequest _ _⟩
  running := by
    rintro s ⟨⟩
    refine ⟨[], rfl, rfl, by simp, good_buildRrq _ _, ?_, ?_, fun _ => rfl, ?_⟩
    · simp only [System.start, List.mem_singleton]
      rintro f rfl
      exact good_buildRrq _ _
    · simp [System.start]
    · simp [Fetch.start]
  done := by simp [System.start]

theorem Running.got_eq (h : Running file sys s got) :
    got = (blocksOf blockSize file).take got.length := by
  cases hpeer : s.link.peer with
  | none => rw [h.fresh hpeer, List.length_nil, List.take_zero]
  | some port => exact (aligned_start.steps (h.held port hpeer).2.1).got_eq

/-- What the client has is a front of the file. -/
theorem Running.out_eq_take (h : Running file sys s got) :
    s.out = file.take (got.length * blockSize) := by
  rw [← flatten_take_blocksOf h.more.le, ← h.got_eq, h.out_eq]

theorem Running.length_out (h : Running file sys s got) :
    s.out.length = got.length * blockSize := by
  have hmore := h.more
  have hmul := Nat.div_mul_le_self file.length blockSize
  rw [length_blocksOf] at hmore
  have hle : got.length * blockSize ≤ file.length / blockSize * blockSize :=
    Nat.mul_le_mul_right _ (by omega)
  rw [h.out_eq_take, List.length_take]
  omega

theorem Running.taken_eq (h : Running file sys s got) : taken (.next s) = got.length := by
  rw [taken, h.length_out]
  exact Nat.mul_div_cancel _ (by decide)

theorem Inv.serve (h : Inv server file sys) {port : SocketAddr} {n : Nat} (hpos : 0 < n)
    (hport : port.ip = server.ip) (hle : sys.session port ≤ n)
    (hbound : n ≤ (blocksOf blockSize file).length)
    (hother : ∀ s, sys.client = .next s → s.link.peer ≠ some port → n ≤ 1)
    (hheld : ∀ s got, sys.client = .next s → Running file sys s got → s.link.peer = some port →
      Lockstep.Steps numbers (blocksOf blockSize file) .start ⟨n, got⟩) :
    Inv server file (sys.serve file port n) := by
  have hgrow : ∀ p, sys.session p ≤ (sys.serve file port n).session p := by
    intro p
    by_cases hp : p = port
    · subst hp
      simpa [System.serve] using hle
    · simp [System.serve, hp]
  refine ⟨?_, ?_, ?_, h.request, ?_, h.done⟩
  · intro f hf
    simp only [System.serve, List.mem_append, List.mem_singleton] at hf
    rcases hf with hf | rfl
    · obtain ⟨hnum, hsent, heq, hip⟩ := h.data f hf
      exact ⟨hnum, hsent.trans (hgrow _), heq, hip⟩
    · exact ⟨hpos, by simp [System.serve, dataFlight], rfl, hport⟩
  · intro p hp
    by_cases hpp : p = port
    · rw [hpp, hport]
    · exact h.opened p (by simpa [System.serve, hpp] using hp)
  · intro p
    by_cases hpp : p = port
    · simpa [System.serve, hpp] using hbound
    · simpa [System.serve, hpp] using h.bound p
  · intro s hs
    obtain ⟨got, hrun⟩ := h.running s hs
    refine ⟨got, hrun.out_eq, hrun.expected, hrun.more, hrun.last, hrun.acks, ?_, hrun.fresh, ?_⟩
    · intro p hp
      by_cases hpp : p = port
      · subst hpp
        simpa [System.serve] using hother s hs hp
      · simpa [System.serve, hpp] using hrun.others p hp
    · intro p hp
      obtain ⟨hne, hsteps, hack⟩ := hrun.held p hp
      refine ⟨hne, ?_, hack⟩
      by_cases hpp : p = port
      · subst hpp
        simpa [System.serve] using hheld s got hs hrun hp
      · simpa [System.serve, hpp] using hsteps

theorem Inv.turn (h : Inv server file sys) {p : Poll}
    (hrun : ∀ s', (s.turn server p).1 = .next s' → ∃ got, Running file (sys.turn server s p) s' got)
    (hdone : ∀ out, (s.turn server p).1 = .done (.ok out) → out = file) :
    Inv server file (sys.turn server s p) where
  data := h.data
  opened := h.opened
  bound := h.bound
  request := by
    obtain ⟨f, hf, hop⟩ := h.request
    exact ⟨f, List.mem_append_left _ hf, hop⟩
  running := hrun
  done := hdone

/-- A turn that takes no block: all that it may send is an acknowledgement of the last one, or the
request. -/
theorem Running.idle (h : Running file sys s got) {p : Poll} {s' : Fetch} {sent : List Packet}
    (hturn : s.turn server p = (.next s', sent)) (hout : s'.out = s.out)
    (hexp : s'.expectedBlock = s.expectedBlock) (hpeer : s'.link.peer = s.link.peer)
    (hpacket : s'.link.lastPacket = s.link.lastPacket) (hdest : s'.link.lastDest = s.link.lastDest)
    (hsent : ∀ q ∈ sent, Good s.link.peer got ⟨q.dest, q.bytes, got.length⟩) :
    Running file (sys.turn server s p) s' got := by
  have htaken : taken (.next s') = got.length := by rw [← h.taken_eq, taken, taken, hout]
  refine ⟨hout.trans h.out_eq, hexp.trans h.expected, h.more, ?_, ?_, ?_, ?_, ?_⟩
  · rw [hpacket, hdest, hpeer]
    exact h.last
  · intro f hf
    rw [hpeer]
    simp only [System.turn, hturn, List.mem_append, List.mem_map, htaken] at hf
    rcases hf with hf | ⟨q, hq, rfl⟩
    · exact h.acks f hf
    · exact hsent q hq
  · rw [hpeer]
    exact h.others
  · rw [hpeer]
    exact h.fresh
  · intro port hport
    obtain ⟨hne, hsteps, hack⟩ := h.held port (hpeer ▸ hport)
    exact ⟨hne, hsteps, List.mem_append_left _ hack⟩

theorem Inv.turn_ignored (h : Inv server file sys) (hs : sys.client = .next s) {p : Poll}
    (hturn : s.turn server p = ignore s) : Inv server file (sys.turn server s p) := by
  obtain ⟨got, hrun⟩ := h.running s hs
  refine h.turn ?_ (by simp [hturn, ignore])
  rw [hturn]
  rintro s' ⟨⟩
  exact ⟨got, hrun.idle hturn rfl rfl rfl rfl rfl (by simp)⟩

theorem Inv.turn_failed (h : Inv server file sys) {p : Poll} {e : Error}
    (hturn : s.turn server p = stop (.error e)) : Inv server file (sys.turn server s p) :=
  h.turn (by simp [hturn, stop]) (by simp [hturn, stop])

theorem Inv.apart (h : Inv server file sys) (hs : sys.client = .next s) {p : Poll}
    (hp : Apart server s p) : Inv server file (sys.turn server s p) := by
  cases p with
  | expired => exact h.turn_failed rfl
  | refused e => exact h.turn_failed rfl
  | failed e => exact h.turn_failed rfl
  | timedOut send =>
    by_cases hretries : maxRetries ≤ s.link.retries
    · exact h.turn_failed (if_pos hretries)
    cases send with
    | error e => exact h.turn_failed (if_neg hretries)
    | ok u =>
      obtain ⟨got, hrun⟩ := h.running s hs
      have hturn : s.turn server (.timedOut (.ok u)) =
          (.next { s with link := { s.link with retries := s.link.retries + 1 } },
            [⟨s.link.lastDest, s.link.lastPacket⟩]) := if_neg hretries
      refine h.turn ?_ (by simp [hturn])
      rw [hturn]
      rintro s' ⟨⟩
      refine ⟨got, hrun.idle hturn rfl rfl rfl rfl rfl ?_⟩
      simpa using hrun.last
  | received datagram source send =>
    cases hheard : s.link.hears server source with
    | false => exact h.turn_ignored hs (turn_unheard send hheard)
    | true =>
      obtain ⟨e, he⟩ := dispatch_other (s.onData (datagram.take bufferSize) source send)
        (hp.resolve_left (by simp [hheard]))
      exact h.turn_failed (by simpa [Fetch.turn, poll, hheard] using he)

/-! ## A block for the client -/

/-- The block of a session that the client takes is the next one of the file, and the session is in
lockstep with the client from then on. -/
theorem Running.called (h : Running file sys s got) {port : SocketAddr} {n : Nat} (hpos : 0 < n)
    (hsent : n ≤ sys.session port) (hage : got.length + 1 < n + numbers)
    (hheard : s.link.hears server port = true) (hexp : wire n = s.expectedBlock) :
    n = got.length + 1 ∧ s.link.peer.getD port = port ∧
      (s.link.peer ≠ some port → s.link.peer = none) ∧
      Lockstep.Steps numbers (blocksOf blockSize file) .start
        ⟨sys.session port, got ++ [block blockSize file got.length]⟩ := by
  rw [h.expected, wire_eq_iff] at hexp
  have hblock := blocksOf_getElem? h.more
  cases hpeer : s.link.peer with
  | none =>
    obtain rfl := h.fresh hpeer
    have hone := h.others port (by simp [hpeer])
    obtain rfl : n = 1 := by omega
    have hsess : sys.session port = 1 := by omega
    refine ⟨rfl, rfl, fun _ => rfl, ?_⟩
    rw [hsess]
    refine .tail (.single (.send 0 le_rfl (by decide) rfl (by simp [Transfer.start]))) ?_
    exact .take 0 _ (by decide) (by decide) rfl hblock
  | some peer =>
    obtain rfl : port = peer := by simpa [Link.hears, hpeer] using hheard
    obtain ⟨-, hsteps, -⟩ := h.held port hpeer
    have hnum : (n - 1) % numbers = got.length % numbers := by
      have hmod : (n - 1 + 1) % numbers = (got.length + 1) % numbers := by
        rwa [Nat.sub_add_cancel hpos]
      exact Nat.ModEq.add_right_cancel' 1 hmod
    have hcall := (aligned_start.steps hsteps).called (j := n - 1) (m := numbers)
      (by simp only; omega) (by simp only; omega) hnum
    simp only at hcall
    refine ⟨by omega, rfl, fun hne => absurd rfl hne, hsteps.tail ?_⟩
    exact .take got.length _ (by simp only; omega) (by simp [numbers]) rfl hblock

theorem Inv.accepted (h : Inv server file sys) (hrun : Running file sys s got)
    {port : SocketAddr} {send : Except Error Unit} {p : Poll}
    (hpeer : s.link.peer.getD port = port) (hother : s.link.peer ≠ some port → s.link.peer = none)
    (hsteps : Lockstep.Steps numbers (blocksOf blockSize file) .start
      ⟨sys.session port, got ++ [block blockSize file got.length]⟩)
    (hturn : s.turn server p =
      s.accept ⟨wire (got.length + 1), block blockSize file got.length⟩ port send) :
    Inv server file (sys.turn server s p) := by
  have hout : s.out ++ block blockSize file got.length =
      ((blocksOf blockSize file).take (got.length + 1)).flatten := by
    rw [hrun.out_eq_take, take_add_block, flatten_take_blocksOf hrun.more]
  unfold Fetch.accept at hturn
  simp only at hturn
  split_ifs at hturn with hcap hshort
  · exact h.turn_failed hturn
  · have hlast := (length_block_lt_iff (by decide) hrun.more).mp hshort
    have hfile : s.out ++ block blockSize file got.length = file := by
      rw [hout, hlast, List.take_length, flatten_blocksOf (by decide)]
    cases send with
    | error e => exact h.turn_failed hturn
    | ok u =>
      refine h.turn (by simp [hturn, sendTo]) ?_
      rw [hturn, hfile]
      rintro out ⟨⟩
      rfl
  · cases send with
    | error e => exact h.turn_failed hturn
    | ok u =>
      have hlast := (length_block_lt_iff (by decide) hrun.more).not.mp hshort
      have hmore := hrun.more
      have hlength : (got ++ [block blockSize file got.length]).length = got.length + 1 := by simp
      refine h.turn ?_ (by simp [hturn, sendTo])
      rw [hturn, hpeer]
      rintro s' ⟨⟩
      have htaken : taken (sys.turn server s p).client = got.length + 1 := by
        have hle := Nat.mul_le_mul_right blockSize (show got.length + 1 ≤ file.length / blockSize by
          rw [length_blocksOf] at hmore hlast
          omega)
        have hdiv := Nat.div_mul_le_self file.length blockSize
        have hlen : (s.out ++ block blockSize file got.length).length =
            (got.length + 1) * blockSize := by
          rw [hrun.out_eq_take, take_add_block, List.length_take]
          omega
        simp only [System.turn, hturn, sendTo, taken, hlen]
        exact Nat.mul_div_cancel _ (by decide)
      have htoServer : (sys.turn server s p).toServer = sys.toServer ++
          [⟨port, buildAck (wire (got.length + 1)), taken (sys.turn server s p).client⟩] := by
        simp only [System.turn, hturn, sendTo, List.map_cons, List.map_nil]
      rw [htaken] at htoServer
      refine ⟨got ++ [block blockSize file got.length], ?_, ?_, ?_, ?_, ?_, ?_, ?_, ?_⟩
      · simp [hrun.out_eq]
      · rw [hlength, hrun.expected, wire_succ]
      · rw [hlength]
        omega
      · rw [← hlength]
        exact good_buildAck port
      · intro f hf
        rw [htoServer, List.mem_append, List.mem_singleton] at hf
        rcases hf with hf | rfl
        · exact (hrun.acks f hf).mono hother (by omega)
        · rw [← hlength]
          exact good_buildAck port
      · intro q hq
        refine hrun.others q fun hpq => ?_
        have hnone := hother (by grind)
        grind
      · simp
      · intro q hq
        obtain rfl := Option.some.inj hq
        refine ⟨by simp, hsteps, ?_⟩
        rw [htoServer, hlength]
        exact List.mem_append_right _ (List.mem_singleton_self _)

theorem Inv.deliver (h : Inv server file sys) (hs : sys.client = .next s) {f : Flight}
    (hf : f ∈ sys.toClient) (hage : taken sys.client + 1 < f.number + numbers)
    (send : Except Error Unit) :
    Inv server file (sys.turn server s (.received f.bytes f.port send)) := by
  obtain ⟨hpos, hsent, heq, -⟩ := h.data f hf
  obtain ⟨got, hrun⟩ := h.running s hs
  rw [hs, hrun.taken_eq] at hage
  have hbytes : f.bytes = (dataFlight file f.port f.number).bytes := congrArg Flight.bytes heq
  rw [hbytes]
  cases hheard : s.link.hears server f.port with
  | false => exact h.turn_ignored hs (turn_unheard send hheard)
  | true =>
    have hturn := @turn_dataFlight server file s f.port f.number send hheard
    by_cases hexp : wire f.number = s.expectedBlock
    · rw [if_neg (not_not.mpr hexp)] at hturn
      obtain ⟨hnum, hpeer, hother, hsteps⟩ := hrun.called hpos hsent hage hheard hexp
      have hprev : f.number - 1 = got.length := by omega
      rw [hprev] at hturn
      exact @Inv.accepted _ _ _ _ _ h hrun _ send _ hpeer hother hsteps
        (by rw [← hnum]; exact hturn)
    · rw [if_pos hexp] at hturn
      unfold Fetch.repeated at hturn
      split at hturn
      · rename_i peer hpeer
        split_ifs at hturn with hprev
        · cases send with
          | error e => exact h.turn_failed hturn
          | ok u =>
            refine h.turn ?_ (by simp [hturn, sendTo])
            rw [hturn]
            rintro s' ⟨⟩
            refine ⟨got, hrun.idle hturn rfl rfl rfl rfl rfl ?_⟩
            rw [hrun.expected, ← wire_succ] at hprev
            simp only [List.mem_singleton, forall_eq, add_right_cancel hprev, hpeer]
            exact good_buildAck peer
        · exact h.turn_ignored hs hturn
      · exact h.turn_ignored hs hturn

theorem Inv.step (h : Inv server file sys) (hstep : Step server file sys sys') :
    Inv server file sys' := by
  cases hstep with
  | request f hf hop port hport hnew =>
    refine h.serve Nat.one_pos hport (by omega) (by simp) (fun _ _ _ => le_rfl) ?_
    intro s got hs hrun hpeer
    obtain ⟨hne, hsteps, -⟩ := hrun.held port hpeer
    have hbehind := (aligned_start.steps hsteps).behind
    have hpos := List.length_pos_iff.mpr hne
    simp only at hbehind
    omega
  | again port hopen =>
    refine h.serve hopen (h.opened port hopen) le_rfl (h.bound port) ?_ ?_
    · intro s hs hpeer
      obtain ⟨got, hrun⟩ := h.running s hs
      exact hrun.others port hpeer
    · intro s got hs hrun hpeer
      exact (hrun.held port hpeer).2.1
  | acknowledged f hf hack hopen hage hmore =>
    refine h.serve (Nat.succ_pos _) (h.opened _ hopen) (Nat.le_succ _) hmore ?_ ?_
    · intro s hs hpeer
      obtain ⟨got, hrun⟩ := h.running s hs
      exact absurd (hrun.acks f hf _ hack).1 hpeer
    · intro s got hs hrun hpeer
      obtain ⟨-, hnum, hle⟩ := hrun.acks f hf _ hack
      have hsteps := (hrun.held f.port hpeer).2.1
      exact hsteps.tail (.send f.number hle hage (wire_eq_iff.mp hnum).symm hmore)
  | deliver s hs f hf hage send => exact h.deliver hs hf hage send
  | apart s hs p hp => exact h.apart hs hp

theorem Inv.steps (h : Inv server file sys) (hsteps : Steps server file sys sys') :
    Inv server file sys' := by
  induction hsteps with
  | refl => exact h
  | tail _ hstep ih => exact ih.step hstep

/-! ## No dead ends -/

/-- A session that the client hears can send the next block. -/
theorem Running.served (h : Inv server file sys) (hs : sys.client = .next s)
    (hrun : Running file sys s got) :
    ∃ port, s.link.hears server port = true ∧
      Step server file sys (sys.serve file port (got.length + 1)) := by
  cases hpeer : s.link.peer with
  | none =>
    obtain rfl := hrun.fresh hpeer
    refine ⟨server, by simp [Link.hears, hpeer], ?_⟩
    have hone := hrun.others server (by simp [hpeer])
    by_cases hnew : sys.session server = 0
    · obtain ⟨f, hf, hop⟩ := h.request
      exact .request f hf hop server rfl hnew
    · have hsess : sys.session server = 1 := by omega
      have hstep := @Step.again server file sys server (by omega)
      rwa [hsess] at hstep
  | some port =>
    obtain ⟨hne, hsteps, hack⟩ := hrun.held port hpeer
    have hpos := List.length_pos_iff.mpr hne
    have haligned := aligned_start.steps hsteps
    have hbehind := haligned.behind
    have hahead := haligned.ahead
    simp only at hbehind hahead
    refine ⟨port, by simp [Link.hears, hpeer], ?_⟩
    by_cases hsess : sys.session port = got.length
    · have hstep := @Step.acknowledged server file sys _ hack
      rw [parseAck_buildAck] at hstep
      simp only [hsess] at hstep
      exact hstep trivial hpos (Nat.lt_add_of_pos_right (by decide)) hrun.more
    · have hsess : sys.session port = got.length + 1 := by omega
      have hstep := @Step.again server file sys port (by omega)
      rwa [hsess] at hstep

theorem Inv.completes (h : Inv server file sys) (hs : sys.client = .next s)
    (hfit : file.length ≤ maxTotalBytes) :
    ∃ sys', Steps server file sys sys' ∧ sys'.client = .done (.ok file) := by
  induction hleft : (blocksOf blockSize file).length - taken sys.client using Nat.strongRecOn
    generalizing sys s with
  | ind left ih =>
    obtain ⟨got, hrun⟩ := h.running s hs
    obtain ⟨port, hheard, hserve⟩ := hrun.served h hs
    have h' := h.step hserve
    have htaken : taken sys.client = got.length := by rw [hs, hrun.taken_eq]
    have hdeliver := @Step.deliver server file (sys.serve file port (got.length + 1)) s hs
      (dataFlight file port (got.length + 1))
      (List.mem_append_right _ (List.mem_singleton_self _))
      (by
        show taken sys.client + 1 < got.length + 1 + numbers
        rw [htaken]
        exact Nat.lt_add_of_pos_right (by decide)) (.ok ())
    have h'' := h'.step hdeliver
    have hmore := hrun.more
    have hout : s.out ++ block blockSize file got.length =
        file.take ((got.length + 1) * blockSize) := by
      rw [hrun.out_eq_take, take_add_block]
    have hcap : ¬maxTotalBytes < s.out.length + (block blockSize file got.length).length := by
      rw [← List.length_append, hout, List.length_take]
      omega
    have hturn := @turn_dataFlight server file s port (got.length + 1) (.ok ()) hheard
    rw [hrun.expected, if_neg (by simp), Nat.add_sub_cancel, Fetch.accept, if_neg hcap] at hturn
    simp only [sendTo] at hturn
    split_ifs at hturn with hshort
    · refine ⟨_, .tail (.single hserve) hdeliver, ?_⟩
      have hclient : (System.turn (sys.serve file port (got.length + 1)) server s (.received
          (dataFlight file port (got.length + 1)).bytes port (.ok ()))).client =
          .done (.ok (s.out ++ block blockSize file got.length)) := by
        simp only [System.turn, hturn]
      have hfile := h''.done _ hclient
      exact hclient.trans (by rw [hfile])
    · have hclient := congrArg Prod.fst hturn
      obtain ⟨got', hrun'⟩ := h''.running _ hclient
      have htaken' := hrun'.taken_eq
      have hlen : (s.out ++ block blockSize file got.length).length = got'.length * blockSize :=
        hrun'.length_out
      have hblock := @length_block _ blockSize file got.length
      rw [List.length_append, hrun.length_out] at hlen
      have hnext : got'.length = got.length + 1 := by
        have hmul : got'.length * blockSize = (got.length + 1) * blockSize := by
          rw [Nat.add_mul, Nat.one_mul, ← hlen]
          omega
        exact Nat.eq_of_mul_eq_mul_right (by decide) hmul
      have hlow : (blocksOf blockSize file).length - got'.length < left := by omega
      obtain ⟨sys', hsteps, hdone⟩ := ih _ hlow h'' hclient (by
        show _ - taken _ = _
        exact congrArg _ (Eq.trans (congrArg taken hclient) htaken'))
      exact ⟨sys', .head hserve (.head hdeliver hsteps), hdone⟩

/-! ## Whole downloads -/

/-- The client of the system is the client of the source, polled in turn. -/
theorem client_eq_run (h : Steps server file (.start server filename) sys) :
    ∃ polls, (run (Fetch.turn server) (Fetch.start server filename) polls).1 = sys.client := by
  induction h with
  | refl => exact ⟨[], rfl⟩
  | tail _ hstep ih =>
    obtain ⟨polls, hpolls⟩ := ih
    cases hstep with
    | request | again | acknowledged => exact ⟨polls, hpolls⟩
    | deliver s hs f hf hage send =>
      exact ⟨polls ++ [.received f.bytes f.port send], run_concat (hpolls.trans hs) _⟩
    | apart s hs p hp => exact ⟨polls ++ [p], run_concat (hpolls.trans hs) _⟩

def sampleServer : SocketAddr := ⟨.v4 10 0 0 1, 69, 0, 0⟩

def samplePort : SocketAddr := ⟨.v4 10 0 0 1, 4000, 0, 0⟩

/-- A file of three bytes, and its only block. -/
def sample : System :=
  ((System.start sampleServer "f").serve [1, 2, 3] samplePort 1).turn sampleServer
    (Fetch.start sampleServer "f") (.received (writeData 1 [1, 2, 3]) samplePort (.ok ()))

theorem steps_sample : Steps sampleServer [1, 2, 3] (.start sampleServer "f") sample :=
  .tail (.single
    (.request ⟨sampleServer, buildRrq "f", 0⟩ (.head _) (by decide) samplePort rfl rfl))
    (.deliver (Fetch.start sampleServer "f") rfl (dataFlight [1, 2, 3] samplePort 1) (.head _)
      (by decide) (.ok ()))

end Rsurl.Tftp.Download
