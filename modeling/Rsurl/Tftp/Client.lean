import Rsurl.Http3.Dial
import Rsurl.Library.Delimited
import Rsurl.Library.Endian
import Rsurl.Library.Loop
import Rsurl.Http2.Request
import Rsurl.Net.Addr

/-!
# The TFTP client

Requests, DATA, ACK and ERROR packets (RFC 1350): how they are built, and what is read off one.
Downloads and uploads are loops over one socket. A turn of either is a function of what the clock
and the socket do in it; it sends one packet at most. Resolving the server's name and opening the
socket come before, and are left out.
-/

namespace Rsurl.Tftp

open Library Text
open Library.Endian (toBe fromBe)
open Library.Loop (Turn)
open Http2 (Url)
open Net (SocketAddr)

/-! ## Packets -/

def opRrq : UInt16 := 1
def opWrq : UInt16 := 2
def opData : UInt16 := 3
def opAck : UInt16 := 4
def opError : UInt16 := 5

def blockSize : Nat := 512

/-- `to_be_bytes`. -/
def toBeBytes (n : UInt16) : Bytes := toBe 2 n.toNat

/-- `from_be_bytes`. -/
def fromBeBytes (bytes : Bytes) : UInt16 := UInt16.ofNat (fromBe bytes)

structure DataPacket where
  block : UInt16
  data : Bytes
  deriving DecidableEq, Repr

def buildRequest (opcode : UInt16) (filename : String) : Bytes :=
  toBeBytes opcode ++ asBytes filename ++ [0] ++ asBytes "octet" ++ [0]

def buildRrq (filename : String) : Bytes := buildRequest opRrq filename

def buildWrq (filename : String) : Bytes := buildRequest opWrq filename

def writeData (block : UInt16) (payload : Bytes) : Bytes :=
  toBeBytes opData ++ toBeBytes block ++ payload

def buildAck (block : UInt16) : Bytes := toBeBytes opAck ++ toBeBytes block

def parseOpcode (buf : Bytes) : Option UInt16 :=
  if buf.length < 2 then none else some (fromBeBytes (buf.take 2))

/-- The word after the opcode. -/
def argument (buf : Bytes) : UInt16 := fromBeBytes ((buf.drop 2).take 2)

def parseData (buf : Bytes) : Except Error DataPacket :=
  if buf.length < 4 then .error (.badResponse "tftp: short DATA packet")
  else if parseOpcode buf ≠ some opData then .error (.badResponse "tftp: not a DATA packet")
  else .ok ⟨argument buf, buf.drop 4⟩

def parseAck (buf : Bytes) : Except Error UInt16 :=
  if buf.length < 4 then .error (.badResponse "tftp: short ACK packet")
  else if parseOpcode buf ≠ some opAck then .error (.badResponse "tftp: not an ACK packet")
  else .ok (argument buf)

/-- The message, up to a NUL. -/
def parseError (buf : Bytes) : Except Error String :=
  if buf.length < 4 then .error (.badResponse "tftp: short ERROR packet")
  else if parseOpcode buf ≠ some opError then .error (.badResponse "tftp: not an ERROR packet")
  else .ok (fromUtf8Lossy ((buf.drop 4).takeWhile (· ≠ 0)))

def filenameOf (url : Url) : Except Error String :=
  let raw := (stripPrefix '/' url.path).getD url.path
  let filename := Net.percentDecode raw
  if asBytes filename = [] then
    .error (.invalidUrl s!"tftp: empty filename in {url.scheme}://{url.host}/{url.path}")
  else if (asBytes filename).contains 0 then
    .error (.invalidUrl "tftp: filename contains NUL")
  else .ok filename

/-! ## Words -/

theorem fromBeBytes_toBeBytes (n : UInt16) : fromBeBytes (toBeBytes n) = n := by
  rw [fromBeBytes, toBeBytes, Endian.fromBe_toBe n.toNat_lt, UInt16.ofNat_toNat]

theorem toBeBytes_fromBeBytes {bytes : Bytes} (h : bytes.length = 2) :
    toBeBytes (fromBeBytes bytes) = bytes := by
  have hlt := Endian.fromBe_lt bytes
  rw [h] at hlt
  rw [toBeBytes, fromBeBytes, UInt16.toNat_ofNat_of_lt' hlt, ← h, Endian.toBe_fromBe]

@[simp] theorem length_toBeBytes (n : UInt16) : (toBeBytes n).length = 2 := Endian.length_toBe 2 _

theorem parseOpcode_append (op : UInt16) (rest : Bytes) :
    parseOpcode (toBeBytes op ++ rest) = some op := by
  rw [parseOpcode, if_neg (by grind [length_toBeBytes]), List.take_left' (length_toBeBytes op),
    fromBeBytes_toBeBytes]

theorem argument_append (op arg : UInt16) (rest : Bytes) :
    argument (toBeBytes op ++ (toBeBytes arg ++ rest)) = arg := by
  rw [argument, List.drop_left' (length_toBeBytes op), List.take_left' (length_toBeBytes arg),
    fromBeBytes_toBeBytes]

/-- A packet of at least four bytes is its opcode, a word and the rest. -/
theorem eq_of_parseOpcode {buf : Bytes} {op : UInt16} (hlen : 4 ≤ buf.length)
    (h : parseOpcode buf = some op) :
    buf = toBeBytes op ++ (toBeBytes (argument buf) ++ buf.drop 4) := by
  rw [parseOpcode, if_neg (by omega)] at h
  obtain rfl := Option.some.inj h
  have hop : (buf.take 2).length = 2 := by grind
  have harg : ((buf.drop 2).take 2).length = 2 := by grind
  rw [argument, toBeBytes_fromBeBytes hop, toBeBytes_fromBeBytes harg]
  have hrest : buf.drop 4 = (buf.drop 2).drop 2 := by rw [List.drop_drop]
  rw [hrest, List.take_append_drop, List.take_append_drop]

/-! ## What is built is read back, and nothing else -/

@[simp] theorem parseOpcode_writeData (block : UInt16) (payload : Bytes) :
    parseOpcode (writeData block payload) = some opData := by
  rw [writeData, List.append_assoc, parseOpcode_append]

@[simp] theorem parseOpcode_buildAck (block : UInt16) :
    parseOpcode (buildAck block) = some opAck := parseOpcode_append _ _

@[simp] theorem parseOpcode_buildRequest (op : UInt16) (filename : String) :
    parseOpcode (buildRequest op filename) = some op := by
  simp only [buildRequest, List.append_assoc, parseOpcode_append]

theorem parseData_eq_ok {buf : Bytes} {d : DataPacket} :
    parseData buf = .ok d ↔ buf = writeData d.block d.data := by
  constructor
  · intro h
    unfold parseData at h
    split_ifs at h with hlen hop
    have hd := Except.ok.inj h
    subst hd
    rw [writeData, List.append_assoc]
    exact eq_of_parseOpcode (by omega) (not_not.mp hop)
  · rintro rfl
    have hhead : (toBeBytes opData ++ toBeBytes d.block).length = 4 := by simp
    have hdrop : (writeData d.block d.data).drop 4 = d.data := List.drop_left' hhead
    rw [parseData, if_neg (by grind [writeData]), if_neg (by simp), hdrop, writeData,
      List.append_assoc, argument_append]

theorem parseAck_eq_ok {buf : Bytes} {block : UInt16} :
    parseAck buf = .ok block ↔ ∃ rest, buf = buildAck block ++ rest := by
  constructor
  · intro h
    unfold parseAck at h
    split_ifs at h with hlen hop
    obtain rfl := Except.ok.inj h
    refine ⟨buf.drop 4, ?_⟩
    rw [buildAck, List.append_assoc]
    exact eq_of_parseOpcode (by omega) (not_not.mp hop)
  · rintro ⟨rest, rfl⟩
    rw [parseAck, if_neg (by grind [buildAck, length_toBeBytes]), buildAck, List.append_assoc,
      parseOpcode_append,
      if_neg (by simp), argument_append]

@[simp] theorem parseData_writeData (block : UInt16) (payload : Bytes) :
    parseData (writeData block payload) = .ok ⟨block, payload⟩ := parseData_eq_ok.mpr rfl

@[simp] theorem parseAck_buildAck (block : UInt16) : parseAck (buildAck block) = .ok block :=
  parseAck_eq_ok.mpr ⟨[], (List.append_nil _).symm⟩

/-! ## Loops -/

/-- How often the last packet is sent again. -/
def maxRetries : Nat := 3

/-- In seconds. -/
def maxTotalDuration : Nat := 600

def maxTotalBytes : Nat := 256 * 1024 * 1024

/-- The receive buffer; what is longer is cut off. -/
def bufferSize : Nat := 4 + blockSize + 16

/-- A packet to be sent. -/
structure Packet where
  dest : SocketAddr
  bytes : Bytes
  deriving DecidableEq, Repr

/-- What both loops know of the other side: the port it chose, and what to send again, and where. -/
structure Link where
  peer : Option SocketAddr
  lastPacket : Bytes
  lastDest : SocketAddr
  retries : Nat
  deriving DecidableEq, Repr

/-- What happens in a turn: the deadline has passed, the timeout cannot be set, the receive times
out or fails, or a datagram is there. `send` is what sending gives if the turn comes to it. -/
inductive Poll where
  | expired
  | refused (e : Error)
  | timedOut (send : Except Error Unit)
  | failed (e : Error)
  | received (datagram : Bytes) (source : SocketAddr) (send : Except Error Unit)

variable {σ α : Type}

/-- How a turn ends, and what it sent. -/
abbrev Progress (σ α : Type) := Turn σ (Except Error α) × List Packet

def stop (r : Except Error α) : Progress σ α := (.done r, [])

def ignore (s : σ) : Progress σ α := (.next s, [])

/-- `send_to(..)?`, and on. -/
def sendTo (send : Except Error Unit) (packet : Packet) (t : Turn σ (Except Error α)) :
    Progress σ α :=
  match send with
  | .ok () => (t, [packet])
  | .error e => stop (.error e)

/-- Before the port is known, anything from the server's host. -/
def Link.hears (link : Link) (server source : SocketAddr) : Bool :=
  match link.peer with
  | some peer => source = peer
  | none => source.ip = server.ip

/-- What both loops do with everything but a packet of the other side. -/
def poll (server : SocketAddr) (link : Link) (keep : Link → σ)
    (onPacket : Bytes → SocketAddr → Except Error Unit → Progress σ α) : Poll → Progress σ α
  | .expired =>
    stop (.error (.badResponse s!"tftp: transfer exceeded {maxTotalDuration}s deadline"))
  | .refused e => stop (.error e)
  | .failed e => stop (.error e)
  | .timedOut send =>
    if maxRetries ≤ link.retries then stop (.error .unexpectedEof)
    else sendTo send ⟨link.lastDest, link.lastPacket⟩
      (.next (keep { link with retries := link.retries + 1 }))
  | .received datagram source send =>
    if link.hears server source then onPacket (datagram.take bufferSize) source send
    else ignore (keep link)

/-- One kind of packet is waited for, and an ERROR ends the transfer. -/
def dispatch (expected : UInt16) (pkt : Bytes) (onExpected : Progress σ α) : Progress σ α :=
  match parseOpcode pkt with
  | some op =>
    if op = expected then onExpected
    else if op = opError then
      match parseError pkt with
      | .error e => stop (.error e)
      | .ok msg => stop (.error (.badResponse s!"tftp: {msg}"))
    else stop (.error (.badResponse s!"tftp: unexpected opcode {op.toNat}"))
  | none => stop (.error (.badResponse "tftp: packet too short"))

/-! ## Downloads -/

structure Fetch where
  link : Link
  out : Bytes
  expectedBlock : UInt16
  deriving DecidableEq, Repr

def Fetch.start (server : SocketAddr) (filename : String) : Fetch where
  link := ⟨none, buildRrq filename, server, 0⟩
  out := []
  expectedBlock := 1

/-- The block that was waited for, from a port that is the server's from now on. -/
def Fetch.accept (s : Fetch) (data : DataPacket) (source : SocketAddr) (send : Except Error Unit) :
    Progress Fetch Bytes :=
  if maxTotalBytes < s.out.length + data.data.length then
    stop (.error (.badResponse s!"tftp: transfer exceeds {maxTotalBytes} bytes"))
  else
    let out := s.out ++ data.data
    let ack := buildAck data.block
    sendTo send ⟨source, ack⟩
      (if data.data.length < blockSize then .done (.ok out)
      else .next
        { link := ⟨some (s.link.peer.getD source), ack, source, 0⟩
          out, expectedBlock := s.expectedBlock + 1 })

/-- Any other block; the one before is acknowledged again. -/
def Fetch.repeated (s : Fetch) (block : UInt16) (send : Except Error Unit) : Progress Fetch Bytes :=
  match s.link.peer with
  | some peer =>
    if block + 1 = s.expectedBlock then sendTo send ⟨peer, buildAck block⟩ (.next s) else ignore s
  | none => ignore s

def Fetch.onData (s : Fetch) (pkt : Bytes) (source : SocketAddr) (send : Except Error Unit) :
    Progress Fetch Bytes :=
  match parseData pkt with
  | .error e => stop (.error e)
  | .ok data =>
    if data.block ≠ s.expectedBlock then s.repeated data.block send else s.accept data source send

def Fetch.turn (server : SocketAddr) (s : Fetch) : Poll → Progress Fetch Bytes :=
  poll server s.link (fun link => { s with link })
    fun pkt source send => dispatch opData pkt (s.onData pkt source send)

/-! ## Uploads -/

structure Store where
  link : Link
  block : UInt16
  blocksSent : Nat
  sentFinal : Bool
  deriving DecidableEq, Repr

def Store.start (server : SocketAddr) (filename : String) : Store where
  link := ⟨none, buildWrq filename, server, 0⟩
  block := 0
  blocksSent := 0
  sentFinal := false

/-- `&data[next_offset..end]`, which is in range as long as the last block was not sent. -/
def Store.payload (data : Bytes) (s : Store) : Bytes :=
  let nextOffset := s.blocksSent * blockSize
  (data.take (min (nextOffset + blockSize) data.length)).drop nextOffset

/-- The last block is acknowledged: the next one goes to the port that is the server's from now
on. -/
def Store.advance (data : Bytes) (s : Store) (source : SocketAddr) (send : Except Error Unit) :
    Progress Store Unit :=
  if s.sentFinal then stop (.ok ())
  else
    let payload := s.payload data
    let nextBlock := s.block + 1
    let packet := writeData nextBlock payload
    sendTo send ⟨source, packet⟩
      (.next
        { link := ⟨some (s.link.peer.getD source), packet, source, 0⟩
          block := nextBlock
          blocksSent := s.blocksSent + 1
          sentFinal := decide (payload.length < blockSize) })

def Store.onAck (data : Bytes) (s : Store) (pkt : Bytes) (source : SocketAddr)
    (send : Except Error Unit) : Progress Store Unit :=
  match parseAck pkt with
  | .error e => stop (.error e)
  | .ok acked => if acked ≠ s.block then ignore s else s.advance data source send

def Store.turn (server : SocketAddr) (data : Bytes) (s : Store) : Poll → Progress Store Unit :=
  poll server s.link (fun link => { s with link })
    fun pkt source send => dispatch opAck pkt (s.onAck data pkt source send)

/-! ## Whole transfers -/

/-- The turns of a loop, one for each poll until it ends, and all that was sent. -/
def run (turn : σ → Poll → Progress σ α) : σ → List Poll → Progress σ α
  | s, [] => (.next s, [])
  | s, p :: polls =>
    match turn s p with
    | (.next s', sent) => ((run turn s' polls).1, sent ++ (run turn s' polls).2)
    | (.done r, sent) => (.done r, sent)

theorem run_concat {turn : σ → Poll → Progress σ α} {s s' : σ} {polls : List Poll}
    (h : (run turn s polls).1 = .next s') (p : Poll) :
    (run turn s (polls ++ [p])).1 = (turn s' p).1 := by
  induction polls generalizing s with
  | nil =>
    obtain rfl := Turn.next.inj h
    rw [List.nil_append, run]
    split <;> simp_all [run]
  | cons q polls ih =>
    rw [run] at h
    rw [List.cons_append, run]
    split at h
    · exact ih h
    · cases h

/-- A download, after the request was sent. -/
def fetchWith (server : SocketAddr) (url : Http2.Url) (polls : List Poll) : Progress Fetch Bytes :=
  match filenameOf url with
  | .error e => stop (.error e)
  | .ok filename =>
    let s := Fetch.start server filename
    let (t, sent) := run (Fetch.turn server) s polls
    (t, ⟨server, s.link.lastPacket⟩ :: sent)

def storeWith (server : SocketAddr) (url : Http2.Url) (data : Bytes) (polls : List Poll) :
    Progress Store Unit :=
  match filenameOf url with
  | .error e => stop (.error e)
  | .ok filename =>
    if maxTotalBytes < data.length then
      stop (.error (.badResponse s!"tftp: upload exceeds {maxTotalBytes} bytes"))
    else
      let s := Store.start server filename
      let (t, sent) := run (Store.turn server data) s polls
      (t, ⟨server, s.link.lastPacket⟩ :: sent)

end Rsurl.Tftp
