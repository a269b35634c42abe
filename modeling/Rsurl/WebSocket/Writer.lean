import Rsurl.Library.Loop
import Rsurl.WebSocket.Transport

/-!
# The WebSocket sender

`WsWriter` and its calls. A streamed message is read from its source chunk by chunk, one chunk ahead
of the frame that is sent, and each frame is written on its own. The compressor of
permessage-deflate is a parameter.
-/

namespace Rsurl.WebSocket

open Library Library.Loop

inductive WsOpcode where
  | continuation
  | text
  | binary
  | close
  | ping
  | pong
  deriving DecidableEq, Repr

def WsOpcode.toU8 : WsOpcode → UInt8
  | continuation => opcodeCont
  | text => opcodeText
  | binary => opcodeBinary
  | close => opcodeClose
  | ping => opcodePing
  | pong => opcodePong

/-! ## The source of a stream -/

/-- What a read of the source answers; no bytes are its end. -/
inductive SourceRead where
  | data (bytes : Bytes)
  | interrupted
  | failed (kind : IoErrorKind) (msg : String)
  deriving DecidableEq, Repr

/-- How much of a streamed body goes in one frame. -/
def streamChunk : Nat := 64 * 1024

/-- Read up to `cap` bytes, after those `filled` already. After its last answer the source ends. -/
def readChunk (cap : Nat) (filled : Bytes) :
    List SourceRead → Except (IoErrorKind × String) Bytes × List SourceRead
  | [] => (.ok filled, [])
  | read :: rest =>
    if cap ≤ filled.length then (.ok filled, read :: rest)
    else match read with
      | .interrupted => readChunk cap filled rest
      | .failed kind msg => (.error (kind, msg), rest)
      | .data bytes =>
        if bytes = [] then (.ok filled, rest)
        else if filled.length + bytes.length ≤ cap then readChunk cap (filled ++ bytes) rest
        else (.ok (filled ++ bytes.take (cap - filled.length)),
          .data (bytes.drop (cap - filled.length)) :: rest)

/-- The bytes that the source has left. -/
def sourceBytes (source : List SourceRead) : Nat :=
  (source.map fun
    | .data bytes => bytes.length
    | _ => 0).sum

/-- No byte of the source is read twice. -/
theorem readChunk_bytes {cap : Nat} {filled chunk : Bytes} {source source' : List SourceRead}
    (h : readChunk cap filled source = (.ok chunk, source')) :
    chunk.length + sourceBytes source' ≤ filled.length + sourceBytes source := by
  induction source generalizing filled with
  | nil =>
    cases h
    exact le_refl _
  | cons read rest ih =>
    rw [readChunk.eq_def] at h
    dsimp only at h
    split_ifs at h
    · cases h
      exact le_refl _
    · cases read with
      | interrupted =>
        have := ih h
        simp only [sourceBytes, List.map_cons, List.sum_cons] at this ⊢
        omega
      | failed kind msg => cases h
      | data bytes =>
        simp only at h
        split_ifs at h
        · cases h
          simp only [sourceBytes, List.map_cons, List.sum_cons]
          omega
        · have := ih h
          simp only [sourceBytes, List.map_cons, List.sum_cons, List.length_append] at this ⊢
          omega
        · cases h
          simp only [sourceBytes, List.map_cons, List.sum_cons, List.length_append,
            List.length_take, List.length_drop]
          omega

/-! ## The writer -/

structure WsWriter where
  compress : Bool
  sendClosed : Bool
  transport : Transport
  deriving DecidableEq, Repr

/-- The compressor: what it makes of a message. -/
abbrev Compress := Bytes → Except String Bytes

def deflateTail : Bytes := [0x00, 0x00, 0xff, 0xff]

def deflateMessage (compressor : Compress) (payload : Bytes) : Except Error Bytes :=
  match compressor payload with
  | .error e => .error (.badResponse s!"permessage-deflate deflate failed: {e}")
  | .ok out =>
    .ok (if deflateTail <:+ out then out.take (out.length - deflateTail.length) else out)

/-- Build a frame for the transport, or fail. -/
def buildDataFrame (io : Io) (compressor : Compress) (opcode : UInt8) (payload : Bytes)
    (compress : Bool) (t : Transport) : Outcome Transport Bytes :=
  if opcode ≠ opcodeText ∧ opcode ≠ opcodeBinary then
    .error (.badResponse
      s!"send_message expects a data opcode (text/binary), got 0x{Text.hex opcode.toNat}") t
  else if compress then
    match deflateMessage compressor payload with
    | .error e => .error e t
    | .ok compressed => t.buildClientFrameInner io true opcode compressed true
  else t.buildClientFrame io opcode payload

def checkControlPayload (payload : Bytes) : Except Error Unit :=
  if maxControlPayload < payload.length then
    .error (.badResponse s!"websocket: control frame payload too large: {payload.length} bytes (max {maxControlPayload})")
  else .ok ()

namespace WsWriter

variable (io : Io) (compressor : Compress)

/-- An operation of the transport, in the writer. -/
def onTransport {α : Type} (w : WsWriter) (op : Transport → Outcome Transport α) :
    Outcome WsWriter α :=
  (op w.transport).mapState fun t => { w with transport := t }

/-- Write one whole frame unless a close has been sent. -/
def writeFrame (frame : Bytes) (w : WsWriter) : Outcome WsWriter Unit :=
  w.onTransport (·.writeUnlessClosed io w.sendClosed frame)

def sendData (opcode : UInt8) (payload : Bytes) (w : WsWriter) : Outcome WsWriter Unit :=
  (w.onTransport (buildDataFrame io compressor opcode payload w.compress)).andThen fun frame w =>
    w.writeFrame io frame

def sendText (text : String) (w : WsWriter) : Outcome WsWriter Unit :=
  w.sendData io compressor opcodeText (Text.asBytes text)

def sendBinary (data : Bytes) (w : WsWriter) : Outcome WsWriter Unit :=
  w.sendData io compressor opcodeBinary data

def send (message : WsMessage) (w : WsWriter) : Outcome WsWriter Unit :=
  match message with
  | .text s => w.sendText io compressor s
  | .binary b => w.sendBinary io compressor b

/-- The variables of the loop of `send_stream_inner`. -/
structure Streaming where
  cur : Bytes
  first : Bool
  source : List SourceRead
  writer : WsWriter

/-- One turn: look a chunk ahead, and send the frame before it. -/
def streamTurn (opcode : UInt8) (s : Streaming) : Turn Streaming (Outcome WsWriter Unit) :=
  match readChunk streamChunk [] s.source with
  | (.error (kind, msg), _) => .done (.error (.io kind msg) s.writer)
  | (.ok next, source) =>
    let fin := next.isEmpty
    let op := if s.first then opcode else opcodeCont
    match (s.writer.onTransport (·.buildClientFrameInner io fin op s.cur false)).andThen
      fun frame w => w.writeFrame io frame with
    | .error e w => .done (.error e w)
    | .ok () w => if fin then .done (.ok () w) else .next ⟨next, false, source, w⟩

theorem lowers_streamTurn (opcode : UInt8) :
    Lowers (streamTurn io opcode) fun s => sourceBytes s.source := by
  intro s s' h
  unfold streamTurn at h
  split at h
  · cases h
  · rename_i next source hread
    dsimp only at h
    split at h
    · cases h
    · split at h
      · cases h
      · rename_i hnext
        cases h
        have hbytes := readChunk_bytes hread
        have hpos : 0 < next.length := List.length_pos_iff.mpr (by simpa using hnext)
        simp only [List.length_nil] at hbytes
        change sourceBytes source < sourceBytes s.source
        omega

def sendStream (opcode : WsOpcode) (source : List SourceRead) (w : WsWriter) :
    Outcome WsWriter Unit :=
  if opcode.toU8 ≠ opcodeText ∧ opcode.toU8 ≠ opcodeBinary then
    .error (.badResponse
      s!"send_stream expects a data opcode (text/binary), got 0x{Text.hex opcode.toU8.toNat}") w
  else match readChunk streamChunk [] source with
    | (.error (kind, msg), _) => .error (.io kind msg) w
    | (.ok cur, source) =>
      run (streamTurn io opcode.toU8) (fun s => sourceBytes s.source)
        (lowers_streamTurn io opcode.toU8) ⟨cur, true, source, w⟩

def sendControl (opcode : UInt8) (payload : Bytes) (w : WsWriter) : Outcome WsWriter Unit :=
  match checkControlPayload payload with
  | .error e => .error e w
  | .ok () =>
    (w.onTransport (·.buildClientFrame io opcode payload)).andThen fun frame w =>
      w.writeFrame io frame

def ping (payload : Bytes) (w : WsWriter) : Outcome WsWriter Unit :=
  w.sendControl io opcodePing payload

def sendPong (payload : Bytes) (w : WsWriter) : Outcome WsWriter Unit :=
  w.sendControl io opcodePong payload

/-- Send our close frame once. -/
def sendCloseFrame (frame : Bytes) (w : WsWriter) : Outcome WsWriter Unit :=
  ((w.transport.writeClose io w.sendClosed frame).mapState fun t =>
    { w with transport := t, sendClosed := true }).andThen fun _ w => .ok () w

def close (w : WsWriter) : Outcome WsWriter Unit :=
  (w.onTransport (·.buildClientFrame io opcodeClose [])).andThen fun frame w =>
    w.sendCloseFrame io frame

def closeWith (code : Nat) (reason : String) (w : WsWriter) : Outcome WsWriter Unit :=
  match closePayload code reason with
  | .error e => .error e w
  | .ok payload =>
    (w.onTransport (·.buildClientFrame io opcodeClose payload)).andThen fun frame w =>
      w.sendCloseFrame io frame

/-! ## Calls -/

inductive Call where
  | sendText (text : String)
  | sendBinary (data : Bytes)
  | send (message : WsMessage)
  | sendStream (opcode : WsOpcode) (source : List SourceRead)
  | ping (payload : Bytes)
  | sendPong (payload : Bytes)
  | close
  | closeWith (code : Nat) (reason : String)

def exec (w : WsWriter) : Call → Outcome WsWriter Unit
  | .sendText text => w.sendText io compressor text
  | .sendBinary data => w.sendBinary io compressor data
  | .send message => w.send io compressor message
  | .sendStream opcode source => w.sendStream io opcode source
  | .ping payload => w.ping io payload
  | .sendPong payload => w.sendPong io payload
  | .close => w.close io
  | .closeWith code reason => w.closeWith io code reason

/-- One call after the other, whatever their results. -/
def runCalls (calls : List Call) (w : WsWriter) : WsWriter :=
  calls.foldl (fun w call => (exec io compressor w call).state) w

def new (compress : Bool) : WsWriter := ⟨compress, false, .new⟩

end WsWriter

end Rsurl.WebSocket
