import Rsurl.WebSocket.Frame

/-!
# The outgoing side of a WebSocket connection

What has been put on the wire, one whole frame after the other. The random source and the transport
answer from outside: `Io` says what each draw of a mask gives and how each write goes. A write that
fails leaves the connection unusable.
-/

/-!
## WebSocket messages

What the receivers share: the events and messages they yield, the reassembly of fragments, the rules
for control frames, and the payloads of CLOSE frames.
-/

namespace Rsurl.WebSocket

open Library.Endian (toBe fromBe)

/-- The status code and the reason of a CLOSE frame. -/
structure WsClose where
  code : Nat
  reason : String
  deriving DecidableEq, Repr

inductive WsMessage where
  | text (s : String)
  | binary (b : Bytes)
  deriving DecidableEq, Repr

inductive WsEvent where
  | text (s : String)
  | binary (b : Bytes)
  | ping (payload : Bytes)
  | pong (payload : Bytes)
  | close (close : Option WsClose)
  deriving DecidableEq, Repr

/-- Append a fragment, within the cap on whole messages. -/
def accumulate (buf chunk : Bytes) : Except Error Bytes :=
  let total := buf.length + chunk.length
  if maxPayloadBytes < total then
    .error (.badResponse s!"reassembled WS message too large: {total} bytes (max {maxPayloadBytes})")
  else .ok (buf ++ chunk)

def validateControlFrame (f : Frame) : Except Error Unit :=
  if f.rsv1 then .error (.badResponse "RSV1 set on a WS control frame")
  else if !f.fin then
    .error (.badResponse "fragmented control frame (FIN=0 on a control opcode)")
  else if maxControlPayload < f.payload.length then .error (controlTooLarge f.payload.length)
  else .ok ()

def unknownControlOpcode (opcode : UInt8) : Error :=
  .badResponse s!"unknown WS control opcode 0x{Text.hex opcode.toNat}"

def unknownOpcode (opcode : UInt8) : Error :=
  .badResponse s!"unknown WS opcode 0x{Text.hex opcode.toNat}"

/-! ## CLOSE frames -/

/-- The codes that may appear on the wire. -/
def isValidCloseCode (code : Nat) : Bool :=
  (1000 ≤ code && code ≤ 1003) || (1007 ≤ code && code ≤ 1014) || (3000 ≤ code && code ≤ 4999)

def closeProtocolError : Nat := 1002
def closeInvalidData : Nat := 1007

/-- The close a peer sent, or the status to fail the connection with. -/
def parseClosePayload (payload : Bytes) : Except Nat (Option WsClose) :=
  match payload with
  | [] => .ok none
  | [_] => .error closeProtocolError
  | a :: b :: reason =>
    let code := fromBe [a, b]
    if !isValidCloseCode code then .error closeProtocolError
    else match Text.fromUtf8 reason with
      | none => .error closeInvalidData
      | some reason => .ok (some ⟨code, reason⟩)

def badCloseError (status : Nat) : Error :=
  .badResponse
    s!"websocket: malformed close frame from peer (failed the connection with {status})"

def closeEchoPayload (close : Option WsClose) : Bytes :=
  match close with
  | some c => toBe 2 c.code
  | none => []

def closePayload (code : Nat) (reason : String) : Except Error Bytes :=
  if !isValidCloseCode code then
    .error (.badResponse
      s!"websocket: close code {code} may not be sent (use 1000-1003, 1007-1014 or 3000-4999)")
  else
    let payload := toBe 2 code ++ Text.asBytes reason
    if maxControlPayload < payload.length then
      .error (.badResponse s!"websocket: close reason too long: {Text.len reason} bytes (max {maxControlPayload - 2})")
    else .ok payload

/-- The payload of a close that carries a status alone. -/
theorem closePayload_status {status : Nat} (h : isValidCloseCode status = true) :
    closePayload status "" = .ok (toBe 2 status) := by
  have hempty : Text.asBytes "" = [] := by decide
  simp [closePayload, h, hempty, maxControlPayload]

/-- The status of a malformed close may be sent. -/
theorem isValidCloseCode_of_parse {payload : Bytes} {status : Nat}
    (h : parseClosePayload payload = .error status) : isValidCloseCode status = true := by
  unfold parseClosePayload at h
  split at h
  · cases h
  · cases h
    rfl
  · dsimp only at h
    split at h
    · cases h
      rfl
    · split at h
      · cases h
        rfl
      · cases h

end Rsurl.WebSocket

namespace Rsurl.WebSocket

open Library

/-- How writing and flushing a frame goes. -/
inductive WriteAnswer where
  | accepted
  | unflushed (kind : IoErrorKind) (msg : String)
  | failed (kind : IoErrorKind) (msg : String)
  deriving DecidableEq, Repr

/-- The answers of the surroundings, in order. -/
structure Io where
  random : Nat → Except Error Mask
  write : Nat → WriteAnswer

/-- `sent` are the frames that were written whole. -/
structure Transport where
  sent : List Bytes
  draws : Nat
  writes : Nat
  broken : Bool
  deriving DecidableEq, Repr

def Transport.new : Transport := ⟨[], 0, 0, false⟩

/-- Build a client frame, with the next mask of the random source. -/
def Transport.buildClientFrameInner (io : Io) (fin : Bool) (opcode : UInt8) (payload : Bytes)
    (rsv1 : Bool) (t : Transport) : Outcome Transport Bytes :=
  .ofExcept (WebSocket.buildClientFrameInner (io.random t.draws) fin opcode payload rsv1)
    { t with draws := t.draws + 1 }

/-- Build an unfragmented client frame. -/
def Transport.buildClientFrame (io : Io) (opcode : UInt8) (payload : Bytes) (t : Transport) :
    Outcome Transport Bytes :=
  .ofExcept (WebSocket.buildClientFrame (io.random t.draws) opcode payload)
    { t with draws := t.draws + 1 }

/-- Write one whole frame and flush it. -/
def Transport.put (io : Io) (frame : Bytes) (t : Transport) : Outcome Transport Unit :=
  match io.write t.writes with
  | .accepted => .ok () { t with writes := t.writes + 1, sent := t.sent ++ [frame] }
  | .unflushed kind msg => .error (.io kind msg) ⟨t.sent ++ [frame], t.draws, t.writes + 1, true⟩
  | .failed kind msg => .error (.io kind msg) ⟨t.sent, t.draws, t.writes + 1, true⟩

/-- Write one whole frame and flush it; `unusable` is the error after an earlier failure. -/
def Transport.writeAll (io : Io) (unusable : String) (frame : Bytes) (t : Transport) :
    Outcome Transport Unit :=
  if t.broken then .error (.io .brokenPipe unusable) t else t.put io frame

/-- The error of the blocking client after a failed write. -/
def afterFailedWrite : String := "websocket: connection unusable after an earlier failed write"

/-- Write one whole frame, unless a close was sent. -/
def Transport.writeUnlessClosed (io : Io) (sendClosed : Bool) (frame : Bytes) (t : Transport) :
    Outcome Transport Unit :=
  if sendClosed then .error (.badResponse "websocket: the connection is closed") t
  else t.writeAll io afterFailedWrite frame

/-- Send a close frame, unless one was sent; says whether it did. The caller marks the connection
send-closed either way. -/
def Transport.writeClose (io : Io) (sendClosed : Bool) (frame : Bytes) (t : Transport) :
    Outcome Transport Bool :=
  if sendClosed then .ok false t
  else (t.writeAll io afterFailedWrite frame).andThen fun _ t => .ok true t

/-- A frame built and written, or the error of either. -/
def Transport.send (io : Io) (unusable : String) (opcode : UInt8) (payload : Bytes)
    (t : Transport) : Outcome Transport Unit :=
  (t.buildClientFrame io opcode payload).andThen fun frame t => t.writeAll io unusable frame

/-- The surroundings of a connection that works. -/
structure Io.Works (io : Io) : Prop where
  random : ∀ k, ∃ m, io.random k = .ok m
  write : ∀ k, io.write k = .accepted

/-- Every draw gives the same mask, and every write is accepted. -/
def Io.steady (m : Mask) : Io := ⟨fun _ => .ok m, fun _ => .accepted⟩

theorem Io.works_steady (m : Mask) : (Io.steady m).Works := ⟨fun _ => ⟨m, rfl⟩, fun _ => rfl⟩

/-- The two surroundings let the same draws and the same writes succeed. -/
structure Io.Alike (io io' : Io) : Prop where
  random : ∀ k, (io.random k).isOk = (io'.random k).isOk
  write : ∀ k, io.write k = io'.write k

theorem Io.alike_steady (m m' : Mask) : (Io.steady m).Alike (Io.steady m') :=
  ⟨fun _ => rfl, fun _ => rfl⟩

/-- Two frames that the peer reads as the same one. -/
def SameFrame (b c : Bytes) : Prop :=
  ∃ f m m', b = maskedFrame f m ∧ c = maskedFrame f m'

/-- The same frames were sent, the masks aside, and the same can be sent from here on. -/
structure Transport.Alike (t t' : Transport) : Prop where
  sent : List.Forall₂ SameFrame t.sent t'.sent
  draws : t.draws = t'.draws
  writes : t.writes = t'.writes
  broken : t.broken = t'.broken

theorem Transport.Alike.refl_new : Transport.Alike .new .new := ⟨.nil, rfl, rfl, rfl⟩

/-- Two sends of the same frame go alike. -/
theorem Transport.Alike.send {io io' : Io} (hio : io.Alike io') {t t' : Transport}
    (h : t.Alike t') (unusable unusable' : String) (opcode : UInt8) (payload : Bytes) :
    (t.send io unusable opcode payload).result.isOk =
        (t'.send io' unusable' opcode payload).result.isOk ∧
      (t.send io unusable opcode payload).state.Alike
        (t'.send io' unusable' opcode payload).state := by
  obtain ⟨sent, draws, writes, broken⟩ := t
  obtain ⟨sent', draws', writes', broken'⟩ := t'
  obtain ⟨hsent, hd, hw, hb⟩ := h
  dsimp only at hsent hd hw hb
  subst hd hw hb
  have hdraw := hio.random draws
  have hwrite := hio.write writes
  unfold Transport.send Transport.buildClientFrame WebSocket.buildClientFrame WebSocket.buildClientFrameInner
  dsimp only
  cases hm : io.random draws with
  | error e =>
    cases hm' : io'.random draws with
    | error e' => exact ⟨rfl, hsent, rfl, rfl, rfl⟩
    | ok m' => simp [hm, hm', Except.isOk, Except.toBool] at hdraw
  | ok m =>
    cases hm' : io'.random draws with
    | error e' => simp [hm, hm', Except.isOk, Except.toBool] at hdraw
    | ok m' =>
      have hsame : SameFrame (maskedFrame ⟨true, false, opcode, payload⟩ m)
          (maskedFrame ⟨true, false, opcode, payload⟩ m') := ⟨_, m, m', rfl, rfl⟩
      have hmore := List.rel_append hsent (.cons hsame .nil)
      simp only [Except.map, Outcome.ofExcept, Outcome.andThen, Transport.writeAll, Transport.put,
        ← hwrite]
      cases broken with
      | true => exact ⟨rfl, hsent, rfl, rfl, rfl⟩
      | false =>
        cases io.write writes with
        | accepted => exact ⟨rfl, hmore, rfl, rfl, rfl⟩
        | unflushed kind msg => exact ⟨rfl, hmore, rfl, rfl, rfl⟩
        | failed kind msg => exact ⟨rfl, hsent, rfl, rfl, rfl⟩

/-- A send works: the frame is on the wire. -/
theorem Transport.send_works {io : Io} (hio : io.Works) {t : Transport} (hb : t.broken = false)
    (unusable : String) (opcode : UInt8) (payload : Bytes) :
    ∃ m, t.send io unusable opcode payload = .ok ()
      ⟨t.sent ++ [maskedFrame ⟨true, false, opcode, payload⟩ m], t.draws + 1, t.writes + 1,
        false⟩ := by
  obtain ⟨m, hm⟩ := hio.random t.draws
  refine ⟨m, ?_⟩
  simp [Transport.send, Transport.buildClientFrame, WebSocket.buildClientFrame,
    WebSocket.buildClientFrameInner, hm, Except.map, Transport.writeAll, Transport.put, hb, hio.write]

/-- A send that succeeds leaves the connection as usable as it was. -/
theorem Transport.broken_send {io : Io} {t : Transport} {unusable : String} {opcode : UInt8}
    {payload : Bytes} (h : (t.send io unusable opcode payload).result.isOk = true) :
    (t.send io unusable opcode payload).state.broken = t.broken := by
  unfold Transport.send Transport.buildClientFrame WebSocket.buildClientFrame
    WebSocket.buildClientFrameInner at h ⊢
  cases hm : io.random t.draws with
  | error e => rfl
  | ok m =>
    simp only [hm, Except.map, Outcome.ofExcept, Outcome.andThen, Transport.writeAll,
      Transport.put] at h ⊢
    cases hb : t.broken with
    | true => simp
    | false =>
      simp only [hb, Bool.false_eq_true, if_false] at h ⊢
      cases hw : io.write t.writes with
      | accepted => simp
      | unflushed kind msg => simp [hw, Except.isOk, Except.toBool] at h
      | failed kind msg => simp [hw, Except.isOk, Except.toBool] at h

/-- While the connection is usable, writing does not check that it is. -/
theorem Transport.send_eq_put {io : Io} {t : Transport} (hb : t.broken = false)
    (unusable : String) (opcode : UInt8) (payload : Bytes) :
    ((t.buildClientFrame io opcode payload).andThen fun frame t => t.put io frame) =
      t.send io unusable opcode payload := by
  unfold Transport.send Transport.buildClientFrame Transport.writeAll
  cases WebSocket.buildClientFrame (io.random t.draws) opcode payload with
  | error e => rfl
  | ok frame =>
    simp only [Outcome.ofExcept, Outcome.andThen, hb, Bool.false_eq_true, if_false]

end Rsurl.WebSocket
