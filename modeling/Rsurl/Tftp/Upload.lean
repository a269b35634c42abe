import Rsurl.Tftp.Download

/-!
# Uploads

An upload to a server that follows RFC 1350, over the network of a download. A session takes the
blocks of the file in order and acknowledges them, until one is not full.
-/

namespace Rsurl.Tftp.Upload

open Library Lockstep Text
open Library.Loop (Turn)
open Net (SocketAddr)

/-- The client, the blocks that every open session has, and all datagrams ever sent. -/
structure System where
  client : Turn Store (Except Error Unit)
  session : SocketAddr → Option (List Bytes)
  toClient : List Flight
  toServer : List Flight

/-- How many blocks the client sent. -/
def sent : Turn Store (Except Error Unit) → Nat
  | .next s => s.blocksSent
  | .done _ => 0

def System.start (server : SocketAddr) (filename : String) : System where
  client := .next (Store.start server filename)
  session := fun _ => none
  toClient := []
  toServer := [⟨server, buildWrq filename, 0⟩]

/-- The client's turn; what it sends is about the block it sent last. -/
def System.turn (sys : System) (server : SocketAddr) (data : Bytes) (s : Store) (p : Poll) :
    System :=
  let (client, packets) := s.turn server data p
  { sys with
    client
    toServer := sys.toServer ++ packets.map fun packet => ⟨packet.dest, packet.bytes, sent client⟩ }

/-- A session acknowledges the last of its blocks. -/
def System.answer (sys : System) (port : SocketAddr) (got : List Bytes) : System :=
  { sys with
    session := Function.update sys.session port (some got)
    toClient := sys.toClient ++ [⟨port, buildAck (wire got.length), got.length⟩] }

/-- What can happen to the client besides acknowledgements by the server. -/
def Apart (server : SocketAddr) (s : Store) : Poll → Prop
  | .received datagram source _ =>
    s.link.hears server source = false ∨ parseOpcode (datagram.take bufferSize) ≠ some opAck
  | _ => True

inductive Step (server : SocketAddr) (data : Bytes) (sys : System) : System → Prop where
  /-- A request opens a session. -/
  | request (f : Flight) (hf : f ∈ sys.toServer) (hop : parseOpcode f.bytes = some opWrq)
      (port : SocketAddr) (hport : port.ip = server.ip) (hnew : sys.session port = none) :
      Step server data sys (sys.answer port [])
  /-- A session acknowledges again. -/
  | again (port : SocketAddr) (got : List Bytes) (hopen : sys.session port = some got) :
      Step server data sys (sys.answer port got)
  /-- A session that does not have a last block yet is given the next one. -/
  | take (f : Flight) (hf : f ∈ sys.toServer) (d : DataPacket) (hd : parseData f.bytes = .ok d)
      (got : List Bytes) (hopen : sys.session f.port = some got)
      (hnum : d.block = wire (got.length + 1)) (hage : got.length + 1 < f.number + numbers)
      (hmore : ∀ b ∈ got, blockSize ≤ b.length) :
      Step server data sys (sys.answer f.port (got ++ [d.data]))
  /-- The client is given an acknowledgement of a session. -/
  | deliver (s : Store) (hs : sys.client = .next s) (f : Flight) (hf : f ∈ sys.toClient)
      (hage : s.blocksSent < f.number + numbers) (send : Except Error Unit) :
      Step server data sys (sys.turn server data s (.received f.bytes f.port send))
  | apart (s : Store) (hs : sys.client = .next s) (p : Poll) (hp : Apart server s p) :
      Step server data sys (sys.turn server data s p)

abbrev Steps (server : SocketAddr) (data : Bytes) : System → System → Prop :=
  Relation.ReflTransGen (Step server data)

/-! ## The turns of the client -/

variable {server : SocketAddr} {data : Bytes} {filename : String} {s : Store} {sys sys' : System}

theorem turn_unheard {datagram : Bytes} {source : SocketAddr} (send : Except Error Unit)
    (h : s.link.hears server source = false) :
    s.turn server data (.received datagram source send) = ignore s := by
  simp [Store.turn, poll, h]

theorem turn_ack {port : SocketAddr} (n : Nat) (send : Except Error Unit)
    (h : s.link.hears server port = true) :
    s.turn server data (.received (buildAck (wire n)) port send) =
      if wire n ≠ s.block then ignore s else s.advance data port send := by
  have htake : (buildAck (wire n)).take bufferSize = buildAck (wire n) := by
    apply List.take_of_length_le
    simp [buildAck, bufferSize]
  simp only [Store.turn, poll, h, if_true, htake]
  simp only [dispatch, Store.onAck, parseOpcode_buildAck, parseAck_buildAck, if_true]

/-- The slice that is sent next is the next block. -/
theorem payload_eq (s : Store) : s.payload data = block blockSize data s.blocksSent := by
  unfold Store.payload block
  rw [List.drop_take, List.take_eq_take_iff, List.length_drop]
  omega

/-! ## What every run keeps -/

/-- If it is a block, then one that was sent, to the port the client heard. -/
def Good (data : Bytes) (peer : Option SocketAddr) (n : Nat) (f : Flight) : Prop :=
  ∀ d, parseData f.bytes = .ok d → peer = some f.port ∧ 0 < f.number ∧ f.number ≤ n ∧
    d = ⟨wire f.number, block blockSize data (f.number - 1)⟩

/-- The client heard `peer` first, sent `n` blocks to it, and is in lockstep with it; no other
session was sent a block. -/
structure Wired (data : Bytes) (sys : System) (peer : Option SocketAddr) (n : Nat) : Prop where
  packets : ∀ f ∈ sys.toServer, Good data peer n f
  others : ∀ port got, peer ≠ some port → sys.session port = some got → got = []
  fresh : peer = none → n = 0
  bound : n ≤ (blocksOf blockSize data).length
  held : ∀ port, peer = some port → 0 < n ∧
    (∃ got, sys.session port = some got ∧
      Lockstep.Steps numbers (blocksOf blockSize data) .start ⟨n, got⟩) ∧
    ⟨port, writeData (wire n) (block blockSize data (n - 1)), n⟩ ∈ sys.toServer

/-- The client knows what it sent. -/
structure Knows (data : Bytes) (s : Store) (peer : Option SocketAddr) (n : Nat) : Prop where
  peer_eq : s.link.peer = peer
  sent_eq : s.blocksSent = n
  block_eq : s.block = wire n
  final : s.sentFinal = true ↔ n = (blocksOf blockSize data).length
  last : Good data peer n ⟨s.link.lastDest, s.link.lastPacket, n⟩

structure Inv (server : SocketAddr) (data : Bytes) (sys : System) : Prop where
  acks : ∀ f ∈ sys.toClient, ∃ got, sys.session f.port = some got ∧ f.number ≤ got.length ∧
    f.bytes = buildAck (wire f.number)
  opened : ∀ port got, sys.session port = some got → port.ip = server.ip
  request : ∃ f ∈ sys.toServer, parseOpcode f.bytes = some opWrq
  wired : ∃ peer n, Wired data sys peer n ∧ ∀ s, sys.client = .next s → Knows data s peer n
  done : sys.client = .done (.ok ()) →
    ∃ port, sys.session port = some (blocksOf blockSize data)

variable {peer : Option SocketAddr} {n : Nat}

theorem good_buildWrq (port : SocketAddr) (k : Nat) :
    Good data peer n ⟨port, buildWrq filename, k⟩ := by
  intro d hd
  have hop := parseOpcode_buildRequest opWrq filename
  have heq := parseData_eq_ok.mp hd
  simp only at heq
  rw [← buildWrq, heq, parseOpcode_writeData] at hop
  exact absurd hop (by decide)

theorem good_writeData {port : SocketAddr} (hpos : 0 < n) :
    Good data (some port) n ⟨port, writeData (wire n) (block blockSize data (n - 1)), n⟩ := by
  intro d hd
  rw [parseData_writeData] at hd
  exact ⟨rfl, hpos, le_rfl, (Except.ok.inj hd).symm⟩

theorem Good.mono {port : SocketAddr} {n' : Nat} {f : Flight} (h : Good data peer n f)
    (hpeer : peer ≠ some port → peer = none) (hle : n ≤ n') : Good data (some port) n' f := by
  intro d hd
  obtain ⟨hport, hpos, hnum, heq⟩ := h d hd
  refine ⟨?_, hpos, hnum.trans hle, heq⟩
  grind

theorem inv_start : Inv server data (.start server filename) where
  acks := by simp [System.start]
  opened := by simp [System.start]
  request := ⟨_, List.mem_singleton_self _, parseOpcode_buildRequest _ _⟩
  wired := by
    refine ⟨none, 0, ⟨?_, by simp [System.start], fun _ => rfl, Nat.zero_le _, by simp⟩, ?_⟩
    · simp only [System.start, List.mem_singleton]
      rintro f rfl
      exact good_buildWrq _ _
    · rintro s ⟨⟩
      exact ⟨rfl, rfl, rfl, by simp [Store.start], good_buildWrq _ _⟩
  done := by simp [System.start]

/-- What a session has is a front of the blocks. -/
theorem Wired.got_eq (h : Wired data sys peer n) {port : SocketAddr} {got : List Bytes}
    (hopen : sys.session port = some got) :
    got = (blocksOf blockSize data).take got.length ∧ got.length ≤ n := by
  by_cases hpeer : peer = some port
  · obtain ⟨-, ⟨got', hopen', hsteps⟩, -⟩ := h.held port hpeer
    obtain rfl : got' = got := Option.some.inj (hopen'.symm.trans hopen)
    have haligned := aligned_start.steps hsteps
    exact ⟨haligned.got_eq, haligned.behind⟩
  · obtain rfl := h.others port got hpeer hopen
    exact ⟨by simp, Nat.zero_le _⟩

theorem Wired.answer (h : Wired data sys peer n) {port : SocketAddr} {got : List Bytes}
    (hother : peer ≠ some port → got = [])
    (hheld : peer = some port → Lockstep.Steps numbers (blocksOf blockSize data) .start ⟨n, got⟩) :
    Wired data (sys.answer port got) peer n := by
  refine ⟨h.packets, fun p got' hp hopen => ?_, h.fresh, h.bound, fun p hp => ?_⟩
  · by_cases hpp : p = port
    · subst hpp
      obtain rfl : got = got' := by simpa [System.answer] using hopen
      exact hother hp
    · exact h.others p got' hp (by simpa [System.answer, hpp] using hopen)
  · obtain ⟨hpos, ⟨got', hopen, hsteps⟩, hpacket⟩ := h.held p hp
    refine ⟨hpos, ?_, hpacket⟩
    by_cases hpp : p = port
    · subst hpp
      exact ⟨got, by simp [System.answer], hheld hp⟩
    · exact ⟨got', by simpa [System.answer, hpp] using hopen, hsteps⟩

theorem Inv.answer (h : Inv server data sys) {port : SocketAddr} {got : List Bytes}
    (hport : port.ip = server.ip)
    (hgrow : ∀ got', sys.session port = some got' → got'.length ≤ got.length)
    (hwhole : sys.session port ≠ some (blocksOf blockSize data) ∨ got = blocksOf blockSize data)
    (hwired : ∀ peer n, Wired data sys peer n → (peer ≠ some port → got = []) ∧
      (peer = some port → Lockstep.Steps numbers (blocksOf blockSize data) .start ⟨n, got⟩)) :
    Inv server data (sys.answer port got) := by
  refine ⟨fun f hf => ?_, fun p got' hopen => ?_, h.request, ?_, fun hdone => ?_⟩
  · simp only [System.answer, List.mem_append, List.mem_singleton] at hf
    rcases hf with hf | rfl
    · obtain ⟨got', hopen, hnum, hbytes⟩ := h.acks f hf
      by_cases hpp : f.port = port
      · subst hpp
        exact ⟨got, by simp [System.answer], hnum.trans (hgrow got' hopen), hbytes⟩
      · exact ⟨got', by simpa [System.answer, hpp] using hopen, hnum, hbytes⟩
    · exact ⟨got, by simp [System.answer], le_rfl, rfl⟩
  · by_cases hpp : p = port
    · rw [hpp, hport]
    · exact h.opened p got' (by simpa [System.answer, hpp] using hopen)
  · obtain ⟨peer, n, hw, hknows⟩ := h.wired
    obtain ⟨hother, hheld⟩ := hwired peer n hw
    exact ⟨peer, n, hw.answer hother hheld, hknows⟩
  · obtain ⟨p, hp⟩ := h.done hdone
    refine ⟨p, ?_⟩
    by_cases hpp : p = port
    · subst hpp
      simpa [System.answer, hp] using hwhole
    · simpa [System.answer, hpp] using hp

/-! ## The client's turns -/

theorem Inv.turn (h : Inv server data sys) {p : Poll}
    (hwired : ∃ peer n, Wired data (sys.turn server data s p) peer n ∧
      ∀ s', (s.turn server data p).1 = .next s' → Knows data s' peer n)
    (hdone : (s.turn server data p).1 = .done (.ok ()) →
      ∃ port, sys.session port = some (blocksOf blockSize data)) :
    Inv server data (sys.turn server data s p) where
  acks := h.acks
  opened := h.opened
  request := by
    obtain ⟨f, hf, hop⟩ := h.request
    exact ⟨f, List.mem_append_left _ hf, hop⟩
  wired := hwired
  done := hdone

/-- Packets that are about the last block, if about any, change nothing. -/
theorem Wired.idle (h : Wired data sys peer n) {p : Poll} {client : Turn Store (Except Error Unit)}
    {packets : List Packet} (hturn : s.turn server data p = (client, packets))
    (hsent : ∀ q ∈ packets, Good data peer n ⟨q.dest, q.bytes, sent client⟩) :
    Wired data (sys.turn server data s p) peer n := by
  refine ⟨fun f hf => ?_, h.others, h.fresh, h.bound, fun port hport => ?_⟩
  · simp only [System.turn, hturn, List.mem_append, List.mem_map] at hf
    rcases hf with hf | ⟨q, hq, rfl⟩
    · exact h.packets f hf
    · exact hsent q hq
  · obtain ⟨hpos, hsession, hpacket⟩ := h.held port hport
    exact ⟨hpos, hsession, List.mem_append_left _ hpacket⟩

theorem Inv.turn_ignored (h : Inv server data sys) (hs : sys.client = .next s) {p : Poll}
    (hturn : s.turn server data p = ignore s) : Inv server data (sys.turn server data s p) := by
  obtain ⟨peer, n, hw, hknows⟩ := h.wired
  refine h.turn ⟨peer, n, hw.idle hturn (by simp), ?_⟩ (by simp [hturn, ignore])
  rw [hturn]
  rintro s' ⟨⟩
  exact hknows s hs

theorem Inv.turn_failed (h : Inv server data sys) {p : Poll} {e : Error}
    (hturn : s.turn server data p = stop (.error e)) :
    Inv server data (sys.turn server data s p) := by
  obtain ⟨peer, n, hw, -⟩ := h.wired
  exact h.turn ⟨peer, n, hw.idle hturn (by simp), by simp [hturn, stop]⟩ (by simp [hturn, stop])

theorem Inv.apart (h : Inv server data sys) (hs : sys.client = .next s) {p : Poll}
    (hp : Apart server s p) : Inv server data (sys.turn server data s p) := by
  cases p with
  | expired => exact h.turn_failed rfl
  | refused e => exact h.turn_failed rfl
  | failed e => exact h.turn_failed rfl
  | timedOut send =>
    by_cases hretries : maxRetries ≤ s.link.retries
    · exact h.turn_failed (if_pos hretries)
    cases send with
    | error e => exact h.turn_failed (if_neg hretries)
    | ok u =>
      obtain ⟨peer, n, hw, hknows⟩ := h.wired
      have hk := hknows s hs
      have hturn : s.turn server data (.timedOut (.ok u)) =
          (.next { s with link := { s.link with retries := s.link.retries + 1 } },
            [⟨s.link.lastDest, s.link.lastPacket⟩]) := if_neg hretries
      refine h.turn ⟨peer, n, hw.idle hturn ?_, ?_⟩ (by simp [hturn])
      · have hlast := hk.last
        simp only [List.mem_singleton, forall_eq, sent, hk.sent_eq]
        exact hlast
      · rw [hturn]
        rintro s' ⟨⟩
        exact ⟨hk.peer_eq, hk.sent_eq, hk.block_eq, hk.final, hk.last⟩
  | received datagram source send =>
    cases hheard : s.link.hears server source with
    | false => exact h.turn_ignored hs (turn_unheard send hheard)
    | true =>
      obtain ⟨e, he⟩ := Download.dispatch_other
        (s.onAck data (datagram.take bufferSize) source send)
        (hp.resolve_left (by simp [hheard]))
      exact h.turn_failed (by simpa [Store.turn, poll, hheard] using he)

/-- The acknowledgement that the client waits for: the session has all that was sent, and is in
lockstep with the client from then on. -/
theorem Wired.acknowledged (h : Wired data sys peer n) {port : SocketAddr} {got : List Bytes}
    (hopen : sys.session port = some got) {k : Nat} (hk : k ≤ got.length) (hage : n < k + numbers)
    (hpeer : peer = none ∨ peer = some port) (hnum : wire k = wire n) :
    k = n ∧ got.length = n ∧ Lockstep.Steps numbers (blocksOf blockSize data) .start ⟨n, got⟩ := by
  rw [wire_eq_iff] at hnum
  rcases hpeer with rfl | rfl
  · obtain rfl := h.others port got (by simp) hopen
    obtain rfl := h.fresh rfl
    exact ⟨Nat.le_zero.mp hk, rfl, .refl⟩
  · obtain ⟨-, ⟨got', hopen', hsteps⟩, -⟩ := h.held port rfl
    obtain rfl : got' = got := Option.some.inj (hopen'.symm.trans hopen)
    obtain ⟨hkn, hgot⟩ := (aligned_start.steps hsteps).acked hk hage hnum
    exact ⟨hkn, hgot, hsteps⟩

/-- The next block is sent to the session that has all the others. -/
theorem Wired.advance (h : Wired data sys peer n) {port : SocketAddr} {got : List Bytes}
    (hopen : sys.session port = some got) (hgot : got.length = n)
    (hpeer : peer = none ∨ peer = some port)
    (hsteps : Lockstep.Steps numbers (blocksOf blockSize data) .start ⟨n, got⟩)
    (hmore : n < (blocksOf blockSize data).length) {p : Poll}
    {client : Turn Store (Except Error Unit)}
    (hturn : s.turn server data p =
      (client, [⟨port, writeData (wire (n + 1)) (block blockSize data n)⟩]))
    (hsent : sent client = n + 1) :
    Wired data (sys.turn server data s p) (some port) (n + 1) := by
  have htoServer : (sys.turn server data s p).toServer = sys.toServer ++
      [⟨port, writeData (wire (n + 1)) (block blockSize data n), n + 1⟩] := by
    simp only [System.turn, hturn, List.map_cons, List.map_nil, hsent]
  refine ⟨fun f hf => ?_, fun q got' hq hopen' => ?_, by simp, hmore, fun q hq => ?_⟩
  · rw [htoServer, List.mem_append, List.mem_singleton] at hf
    rcases hf with hf | rfl
    · exact (h.packets f hf).mono (by grind) (Nat.le_succ n)
    · exact good_writeData (Nat.succ_pos n)
  · exact h.others q got' (by grind) hopen'
  · obtain rfl := Option.some.inj hq
    refine ⟨Nat.succ_pos n, ⟨got, hopen, hsteps.tail ?_⟩, ?_⟩
    · exact .send n hgot.ge (Nat.lt_add_of_pos_right (by decide)) rfl hmore
    · rw [htoServer]
      exact List.mem_append_right _ (List.mem_singleton_self _)

theorem Inv.deliver (h : Inv server data sys) (hs : sys.client = .next s) {f : Flight}
    (hf : f ∈ sys.toClient) (hage : s.blocksSent < f.number + numbers) (send : Except Error Unit) :
    Inv server data (sys.turn server data s (.received f.bytes f.port send)) := by
  obtain ⟨got, hopen, hle, hbytes⟩ := h.acks f hf
  obtain ⟨peer, n, hw, hknows⟩ := h.wired
  have hk := hknows s hs
  rw [hk.sent_eq] at hage
  rw [hbytes]
  cases hheard : s.link.hears server f.port with
  | false => exact h.turn_ignored hs (turn_unheard send hheard)
  | true =>
    have hturn := @turn_ack server data s f.port f.number send hheard
    by_cases hnum : wire f.number = s.block
    · rw [if_neg (not_not.mpr hnum)] at hturn
      rw [hk.block_eq] at hnum
      have hpeer : peer = none ∨ peer = some f.port := by
        rw [← hk.peer_eq]
        cases hp : s.link.peer with
        | none => exact .inl rfl
        | some q => exact .inr (by simpa [Link.hears, hp, eq_comm] using hheard)
      obtain ⟨-, hgot, hsteps⟩ := hw.acknowledged hopen hle hage hpeer hnum
      unfold Store.advance at hturn
      split_ifs at hturn with hfinal
      · have hall := hk.final.mp hfinal
        refine h.turn ⟨peer, n, hw.idle hturn (by simp), by simp [hturn, stop]⟩
          fun _ => ⟨f.port, ?_⟩
        rw [hopen, (hw.got_eq hopen).1, hgot, hall, List.take_length]
      · simp only [payload_eq, hk.sent_eq, hk.block_eq, wire_succ] at hturn
        cases send with
        | error e => exact h.turn_failed hturn
        | ok u =>
          simp only [sendTo] at hturn
          have hmore : n < (blocksOf blockSize data).length := by
            have hne := hk.final.not.mp hfinal
            have hbound := hw.bound
            omega
          refine h.turn ⟨some f.port, n + 1, hw.advance hopen hgot hpeer hsteps hmore hturn rfl, ?_⟩
            (by simp [hturn])
          rw [hturn]
          rintro s' ⟨⟩
          refine ⟨?_, rfl, rfl, ?_, good_writeData (Nat.succ_pos n)⟩
          · rw [hk.peer_eq]
            rcases hpeer with rfl | rfl <;> rfl
          · simpa using length_block_lt_iff (by decide) hmore
    · rw [if_pos hnum] at hturn
      exact h.turn_ignored hs hturn

theorem Inv.step (h : Inv server data sys) (hstep : Step server data sys sys') :
    Inv server data sys' := by
  cases hstep with
  | request f hf hop port hport hnew =>
    refine h.answer hport (by simp [hnew]) (.inl (by simp [hnew]))
      fun peer n hw => ⟨fun _ => rfl, ?_⟩
    intro hpeer
    obtain ⟨-, ⟨got, hopen, -⟩, -⟩ := hw.held port hpeer
    rw [hnew] at hopen
    cases hopen
  | again port got hopen =>
    refine h.answer (h.opened port got hopen) (fun got' hopen' => ?_) ?_ fun peer n hw => ⟨?_, ?_⟩
    · rw [hopen] at hopen'
      exact (congrArg List.length (Option.some.inj hopen')).ge
    · rw [hopen]
      by_cases hwhole : got = blocksOf blockSize data
      · exact .inr hwhole
      · exact .inl (by simpa using hwhole)
    · exact fun hpeer => hw.others port got hpeer hopen
    · intro hpeer
      obtain ⟨-, ⟨got', hopen', hsteps⟩, -⟩ := hw.held port hpeer
      rwa [← Option.some.inj (hopen'.symm.trans hopen)]
  | take f hf d hd got hopen hnum hage hmore =>
    have hshort : got ≠ blocksOf blockSize data := by
      rintro rfl
      have hlast := @blocksOf_getElem? _ blockSize data (data.length / blockSize) (by simp)
      have hmem := hmore _ (List.mem_of_getElem? hlast)
      have hlt := (@length_block_lt_iff _ blockSize data (by decide) (data.length / blockSize)
        (by simp)).mpr (by simp)
      omega
    refine h.answer (h.opened _ got hopen) (fun got' hopen' => ?_) (.inl ?_)
      fun peer n hw => ⟨?_, ?_⟩
    · rw [hopen] at hopen'
      simp [Option.some.inj hopen']
    · rw [hopen]
      simpa using hshort
    · intro hpeer
      exact absurd (hw.packets f hf d hd).1 hpeer
    · intro hpeer
      obtain ⟨-, hpos, hle, hdeq⟩ := hw.packets f hf d hd
      obtain ⟨-, ⟨got', hopen', hsteps⟩, -⟩ := hw.held f.port hpeer
      obtain rfl : got' = got := Option.some.inj (hopen'.symm.trans hopen)
      subst hdeq
      simp only at hnum ⊢
      rw [wire_eq_iff] at hnum
      have hnum' : (f.number - 1) % numbers = got'.length % numbers := by
        have hmod : (f.number - 1 + 1) % numbers = (got'.length + 1) % numbers := by
          rwa [Nat.sub_add_cancel hpos]
        exact Nat.ModEq.add_right_cancel' 1 hmod
      refine hsteps.tail
        (.take (f.number - 1) _ (by simp only; omega) (by simp only; omega) hnum' ?_)
      exact blocksOf_getElem? (by have := hw.bound; omega)
  | deliver s hs f hf hage send => exact h.deliver hs hf hage send
  | apart s hs p hp => exact h.apart hs hp

theorem Inv.steps (h : Inv server data sys) (hsteps : Steps server data sys sys') :
    Inv server data sys' := by
  induction hsteps with
  | refl => exact h
  | tail _ hstep ih => exact ih.step hstep

/-! ## No dead ends -/

/-- A session that the client hears can acknowledge all that was sent. -/
theorem Inv.answered (h : Inv server data sys) (hw : Wired data sys peer n)
    (hpeer : s.link.peer = peer) :
    ∃ port got, s.link.hears server port = true ∧ got.length = n ∧
      Step server data sys (sys.answer port got) := by
  cases peer with
  | none =>
    obtain rfl := hw.fresh rfl
    refine ⟨server, [], by simp [Link.hears, hpeer], rfl, ?_⟩
    cases hopen : sys.session server with
    | none =>
      obtain ⟨f, hf, hop⟩ := h.request
      exact .request f hf hop server rfl hopen
    | some got =>
      obtain rfl := hw.others server got (by simp) hopen
      exact .again server [] hopen
  | some port =>
    obtain ⟨hpos, ⟨got, hopen, hsteps⟩, hpacket⟩ := hw.held port rfl
    have haligned := aligned_start.steps hsteps
    have hbehind := haligned.behind
    have hahead := haligned.ahead
    have hbound := hw.bound
    simp only at hbehind hahead
    by_cases hall : got.length = n
    · exact ⟨port, got, by simp [Link.hears, hpeer], hall, .again port got hopen⟩
    · have hnext : n = got.length + 1 := by omega
      refine ⟨port, got ++ [block blockSize data (n - 1)], by simp [Link.hears, hpeer],
        by simp [hnext], ?_⟩
      refine .take ⟨port, writeData (wire n) (block blockSize data (n - 1)), n⟩ hpacket
        ⟨wire n, block blockSize data (n - 1)⟩ (parseData_writeData _ _) got hopen
        (by rw [hnext]) (by simp only [← hnext]; exact Nat.lt_add_of_pos_right (by decide)) ?_
      intro b hb
      have hgot := haligned.got_eq
      simp only at hgot
      rw [hgot] at hb
      obtain ⟨i, hi, rfl⟩ := List.mem_take_iff_getElem.mp hb
      have hlt : i + 1 < (blocksOf blockSize data).length := by omega
      have hget := blocksOf_getElem? (Nat.lt_of_succ_lt hlt)
      rw [List.getElem?_eq_getElem (Nat.lt_of_succ_lt hlt)] at hget
      rw [Option.some.inj hget, length_block_of_lt (by decide) hlt]

theorem Inv.completes (h : Inv server data sys) (hs : sys.client = .next s) :
    ∃ sys', Steps server data sys sys' ∧ sys'.client = .done (.ok ()) := by
  induction hleft : (blocksOf blockSize data).length - s.blocksSent using Nat.strongRecOn
    generalizing sys s with
  | ind left ih =>
    obtain ⟨peer, n, hw, hknows⟩ := h.wired
    have hk := hknows s hs
    obtain ⟨port, got, hheard, hgot, hanswer⟩ := h.answered hw hk.peer_eq
    have h' := h.step hanswer
    have hdeliver := @Step.deliver server data (sys.answer port got) s hs
      ⟨port, buildAck (wire got.length), got.length⟩
      (List.mem_append_right _ (List.mem_singleton_self _))
      (by
        rw [hk.sent_eq, hgot]
        exact Nat.lt_add_of_pos_right (by decide)) (.ok ())
    have h'' := h'.step hdeliver
    have hturn := @turn_ack server data s port got.length (.ok ()) hheard
    rw [hk.block_eq, hgot, if_neg (by simp), Store.advance] at hturn
    rw [← hgot] at hturn
    by_cases hfinal : s.sentFinal = true
    · rw [if_pos hfinal] at hturn
      exact ⟨_, .tail (.single hanswer) hdeliver, congrArg Prod.fst hturn⟩
    · rw [if_neg hfinal] at hturn
      have hclient := congrArg Prod.fst hturn
      have hne := hk.final.not.mp hfinal
      have hbound := hw.bound
      have hsent := hk.sent_eq
      obtain ⟨sys', hsteps, hdone⟩ := ih _ (by simp only; omega) h'' hclient rfl
      exact ⟨sys', .head hanswer (.head hdeliver hsteps), hdone⟩

/-! ## Whole uploads -/

theorem client_eq_run (h : Steps server data (.start server filename) sys) :
    ∃ polls, (run (Store.turn server data) (Store.start server filename) polls).1 = sys.client := by
  induction h with
  | refl => exact ⟨[], rfl⟩
  | tail _ hstep ih =>
    obtain ⟨polls, hpolls⟩ := ih
    cases hstep with
    | request | again | take => exact ⟨polls, hpolls⟩
    | deliver s hs f hf hage send =>
      exact ⟨polls ++ [.received f.bytes f.port send], run_concat (hpolls.trans hs) _⟩
    | apart s hs p hp => exact ⟨polls ++ [p], run_concat (hpolls.trans hs) _⟩

/-- A file of three bytes: a session is opened, acknowledges the request, takes the only block and
acknowledges it. -/
def sample : System :=
  let opened := (System.start Download.sampleServer "f").answer Download.samplePort []
  let asked := opened.turn Download.sampleServer [1, 2, 3] (Store.start Download.sampleServer "f")
    (.received (buildAck 0) Download.samplePort (.ok ()))
  asked.answer Download.samplePort [[1, 2, 3]]

theorem steps_sample :
    Steps Download.sampleServer [1, 2, 3] (.start Download.sampleServer "f") sample :=
  .tail (.tail (.single (.request ⟨Download.sampleServer, buildWrq "f", 0⟩ (.head _) (by decide)
    Download.samplePort rfl rfl))
    (.deliver (Store.start Download.sampleServer "f") rfl ⟨Download.samplePort, buildAck 0, 0⟩
      (.head _) (by decide) (.ok ())))
    (.take ⟨Download.samplePort, writeData 1 [1, 2, 3], 1⟩ (.tail _ (.head _)) ⟨1, [1, 2, 3]⟩
      (by decide) [] rfl rfl (by decide) (by simp))

end Rsurl.Tftp.Upload
