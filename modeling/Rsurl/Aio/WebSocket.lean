import Rsurl.WebSocket.Reader

/-!
# The async WebSocket receiver

`recv_inner` of the async client: no extension is offered, one flag stands for a close in either
direction, and a failed write poisons the connection.
-/

namespace Rsurl.Aio

open Library Rsurl.WebSocket
open Library.Receiver (Feed Handler receive)

/-- A fragmented message whose last fragment is still to come (`Partial`). -/
structure PartialData where
  opcode : UInt8
  buf : Bytes
  deriving DecidableEq, Repr

/-- What the async client keeps from frame to frame. -/
structure SocketState where
  partialMessage : Option PartialData
  closed : Bool
  transport : Transport

abbrev Socket := Feed ReadFailure UInt8 SocketState

namespace SocketState

variable (io : Io)

/-- The error after a write that failed or was cancelled. -/
def afterPoison : String := "websocket: connection unusable after an interrupted or failed write"

/-- Build a frame and write it. -/
def reply (opcode : UInt8) (payload : Bytes) (s : SocketState) : Outcome SocketState Unit :=
  (s.transport.send io afterPoison opcode payload).mapState fun t => { s with transport := t }

/-- Fail the connection with a status. -/
def fail (status : Nat) (s : SocketState) : SocketState :=
  if s.closed then s
  else
    let s := { s with closed := true }
    match closePayload status "" with
    | .error _ => s
    | .ok payload => (s.reply io opcodeClose payload).state

def handleClose (payload : Bytes) (s : SocketState) :
    Outcome SocketState (Option (Option WsMessage)) :=
  match parseClosePayload payload with
  | .ok close =>
    let s := { s with closed := true }
    .ok (some none) (s.reply io opcodeClose (closeEchoPayload close)).state
  | .error status => .error (badCloseError status) (s.fail io status)

def buildMessage (opcode : UInt8) (payload : Bytes) : Except Error WsMessage :=
  if opcode = opcodeText then
    match Text.fromUtf8 payload with
    | some s => .ok (.text s)
    | none => .error (.badResponse "invalid UTF-8 in text message")
  else .ok (.binary payload)

def finish (opcode : UInt8) (payload : Bytes) (s : SocketState) :
    Outcome SocketState (Option (Option WsMessage)) :=
  match buildMessage opcode payload with
  | .ok message => .ok (some (some message)) s
  | .error e => .error e (s.fail io closeInvalidData)

def onData (f : Frame) (s : SocketState) : Outcome SocketState (Option (Option WsMessage)) :=
  if s.partialMessage.isSome then
    .error (.badResponse "new data frame began before the previous message finished") s
  else if f.rsv1 then
    .error (.badResponse "RSV1 set but permessage-deflate was not negotiated") s
  else if f.fin then s.finish io f.opcode f.payload
  else .ok none { s with partialMessage := some ⟨f.opcode, f.payload⟩ }

def onContinuation (f : Frame) (s : SocketState) :
    Outcome SocketState (Option (Option WsMessage)) :=
  match s.partialMessage with
  | none => .error (.badResponse "CONTINUATION frame without a start frame") s
  | some p =>
    if f.rsv1 then .error (.badResponse "RSV1 set on a WS continuation frame") s
    else match accumulate p.buf f.payload with
      | .error e => .error e s
      | .ok buf =>
        if f.fin then finish io p.opcode buf { s with partialMessage := none }
        else .ok none { s with partialMessage := some { p with buf := buf } }

/-- The body of the loop of `recv_inner`, for one frame. -/
def onFrame (f : Frame) (s : SocketState) : Outcome SocketState (Option (Option WsMessage)) :=
  if f.opcode = opcodePing then
    match validateControlFrame f with
    | .error e => .error e s
    | .ok () => (s.reply io opcodePong f.payload).andThen fun _ s => .ok none s
  else if f.opcode = opcodePong then
    match validateControlFrame f with
    | .error e => .error e s
    | .ok () => .ok none s
  else if f.opcode = opcodeClose then
    match validateControlFrame f with
    | .error e => .error e s
    | .ok () => s.handleClose io f.payload
  else if f.opcode = opcodeText ∨ f.opcode = opcodeBinary then s.onData io f
  else if f.opcode = opcodeCont then s.onContinuation io f
  else .error (unknownOpcode f.opcode) s

/-- A fresh connection. -/
def new : SocketState := ⟨none, false, .new⟩

/-- What becomes of the state when there is no frame: the end of the stream closes it. -/
def onNoFrame (e : Error) (s : SocketState) : SocketState :=
  if e = .unexpectedEof then { s with closed := true } else s

end SocketState

namespace Socket

def handler (io : Io) : Handler Frame (Option WsMessage) Error SocketState where
  step := SocketState.onFrame io
  failed := SocketState.onNoFrame

/-- The next message; `none` once the connection has closed. -/
def recvInner (io : Io) (r : Socket) : Outcome Socket (Option WsMessage) :=
  if r.core.closed then .ok none r else receive stable_frameFormat (handler io) r

end Socket

end Rsurl.Aio
