import Rsurl.Http2.Stream
import Std.Data.ExtTreeMap

/-!
# The connection

The state of one HTTP/2 connection and the dispatch of inbound frames. Every handler returns an
`Outcome`: a failure keeps what was changed before it. The transport carries what the coming
reads return, how the coming writes and flushes end, and the log of frames that passed.
`HashMap` is an ordered map here; the source sorts, counts or visits every entry, so only the
entries a failing SETTINGS walk had reached depend on the order, which is ascending.
-/

namespace Rsurl.Http2

open Text Hpack Library

/-! ## Transport -/

/-- What one call of `read_frame` returns. -/
inductive Inbound where
  | frame (f : Frame)
  | failed (kind : IoErrorKind) (msg : String)
  deriving DecidableEq, Repr

inductive WireEvent where
  | preface
  | recv (f : Frame)
  | sent (f : Frame)
  deriving DecidableEq, Repr

structure Transport where
  inbound : List Inbound
  /-- How the coming writes and flushes end; past the end they succeed. -/
  faults : List (Option (IoErrorKind × String))
  log : List WireEvent
  /-- What was written to the caller's sink. -/
  sunk : Bytes
  deriving DecidableEq, Repr

namespace Transport

def attempt (t : Transport) : Outcome Transport Unit :=
  match t.faults with
  | [] => .ok () t
  | none :: rest => .ok () { t with faults := rest }
  | some (kind, msg) :: rest => .error (.io kind msg) { t with faults := rest }

def write (t : Transport) (e : WireEvent) : Outcome Transport Unit :=
  t.attempt.andThen fun _ t => .ok () { t with log := t.log ++ [e] }

def writeFrame (t : Transport) (f : Frame) : Outcome Transport Unit :=
  if maxFramePayload < f.payload.length then
    .error (.io .invalidInput "frame payload too large") t
  else t.write (.sent f)

def flush (t : Transport) : Outcome Transport Unit := t.attempt

def readFrame (t : Transport) : Outcome Transport Frame :=
  match t.inbound with
  | [] => .error (.io .unexpectedEof "failed to fill whole buffer") t
  | .frame f :: rest => .ok f { t with inbound := rest, log := t.log ++ [.recv f] }
  | .failed kind msg :: rest => .error (.io kind msg) { t with inbound := rest }

end Transport

/-! ## Flood budgets -/

def maxNoProgressFrames : Nat := 10000
def maxSettingsFrames : Nat := 2000
def maxPingFrames : Nat := 2000
def maxRstStreamFrames : Nat := 2000

structure FloodBudget where
  noProgress : Nat := 0
  settings : Nat := 0
  ping : Nat := 0
  rstStream : Nat := 0
  deriving DecidableEq, Repr

namespace FloodBudget

def recordControlFrame (b : FloodBudget) (f : Frame) : Outcome FloodBudget Unit :=
  match f.typ with
  | .settings =>
    if f.ack then .ok () b
    else
      let b := { b with settings := b.settings + 1 }
      if maxSettingsFrames < b.settings then
        .error (.badResponse s!"http2: peer sent {b.settings} SETTINGS frames (flood)") b
      else .ok () b
  | .ping =>
    if f.ack then .ok () b
    else
      let b := { b with ping := b.ping + 1 }
      if maxPingFrames < b.ping then
        .error (.badResponse s!"http2: peer sent {b.ping} PING frames (flood)") b
      else .ok () b
  | .rstStream =>
    let b := { b with rstStream := b.rstStream + 1 }
    if maxRstStreamFrames < b.rstStream then
      .error (.badResponse
        s!"http2: peer sent {b.rstStream} RST_STREAM frames (Rapid-Reset flood)") b
    else .ok () b
  | _ => .ok () b

def recordProgress (b : FloodBudget) (madeProgress : Bool) : Outcome FloodBudget Unit :=
  if madeProgress then .ok () { b with noProgress := 0 }
  else
    let b := { b with noProgress := b.noProgress + 1 }
    if maxNoProgressFrames < b.noProgress then
      .error (.badResponse
        (s!"http2: peer sent {b.noProgress} consecutive frames with no forward progress " ++
          "(flood)")) b
    else .ok () b

end FloodBudget

/-! ## State -/

inductive DispatchOutcome where
  | continue
  | done (streamId : Nat)
  deriving DecidableEq, Repr

structure Connection where
  tls : Transport
  peer : PeerSettings
  connSendWindow : ConnSendWindow
  connRecvWindow : RecvWindow
  ourRecvWindow : Int
  decoder : Decoder
  encoder : Encoder
  streams : Std.ExtTreeMap Nat Stream
  nextStreamId : Nat
  goawayReceived : Option Nat
  expectingContinuation : Option Nat
  budget : FloodBudget
  madeProgress : Bool

def errNoError : Nat := 0x0
def errProtocol : Nat := 0x1
def errRefusedStream : Nat := 0x7

def rstStreamFrame (streamId code : Nat) : Frame := ⟨.rstStream, 0, streamId, be32 code⟩

namespace Connection

/-- Send the preface, our settings and the increment that raises the connection's receive
window. -/
def new (tls : Transport) (recvWindow : Nat) : Except Error Connection :=
  let recvWindow := max ourInitialWindow (min recvWindow initialWindowSizeMax)
  let settings : Frame :=
    ⟨.settings, 0, 0, be16 0x2 ++ be32 0 ++ be16 0x4 ++ be32 recvWindow⟩
  let connBump := recvWindow - ourInitialWindow
  let opened := (tls.write .preface).andThen fun _ tls =>
    (tls.writeFrame settings).andThen fun _ tls =>
    (if 0 < connBump then tls.writeFrame (windowUpdateFrame 0 connBump) else .ok () tls).andThen
      fun _ tls => tls.flush
  match opened with
  | .error e _ => .error e
  | .ok _ tls => .ok {
      tls
      peer := .default
      connSendWindow := .new
      connRecvWindow := .new recvWindow
      ourRecvWindow := recvWindow
      decoder := .new
      encoder := .new
      streams := ∅
      nextStreamId := 1
      goawayReceived := none
      expectingContinuation := none
      budget := {}
      madeProgress := false }

def sendFrameLimit (c : Connection) : Nat := min c.peer.maxFrameSize maxFramePayload

def isUsable (c : Connection) : Bool :=
  c.goawayReceived.isNone && c.streams.isEmpty && decide (c.nextStreamId < 0x80000000)

def pruneCompletedStreams (c : Connection) : Connection :=
  { c with streams :=
      c.streams.filter fun _ s => s.state != .closed && !s.responseComplete }

def openStream (c : Connection) : Outcome Connection Nat :=
  if c.peer.maxConcurrentStreams ≤ c.streams.size then
    .error (.badResponse "at MAX_CONCURRENT_STREAMS limit") c
  else if 0x80000000 ≤ c.nextStreamId then
    .error (.badResponse "stream id space exhausted (RFC 9113 §5.1.1)") c
  else if c.goawayReceived.any (· < c.nextStreamId) then
    .error (.badResponse (s!"GOAWAY received with last-stream-id={c.goawayReceived.getD 0}; " ++
      s!"cannot allocate id={c.nextStreamId}")) c
  else
    let id := c.nextStreamId
    .ok id { c with
      nextStreamId := min (id + 2) (2 ^ 32 - 1)
      streams := c.streams.insert id (.new c.peer.initialWindowSize c.ourRecvWindow) }

/-! ## Small steps -/

def setStream (c : Connection) (id : Nat) (s : Stream) : Connection :=
  { c with streams := c.streams.insert id s }

def removeStream (c : Connection) (id : Nat) : Connection :=
  { c with streams := c.streams.erase id }

def writeFrame (c : Connection) (f : Frame) : Outcome Connection Unit :=
  (c.tls.writeFrame f).mapState fun tls => { c with tls }

def flush (c : Connection) : Outcome Connection Unit :=
  c.tls.flush.mapState fun tls => { c with tls }

/-- Write to the sink the caller lent. -/
def writeSink (c : Connection) (bytes : Bytes) : Outcome Connection Unit :=
  (c.tls.attempt.mapState fun tls => { c with tls }).andThen fun _ c =>
    .ok () { c with tls := { c.tls with sunk := c.tls.sunk ++ bytes } }

/-- Decode a complete header block; the decoder keeps what a failing block did to it. -/
def decodeBlock (c : Connection) (block : Bytes) : Outcome Connection (List Header) :=
  (c.decoder.decodeBlock block).mapState fun decoder => { c with decoder }

def outcomeFor (c : Connection) (streamId : Nat) : DispatchOutcome :=
  if c.streams[streamId]?.any Stream.responseComplete then .done streamId else .continue

def checkNotAbandoned (c : Connection) (streamId : Nat) : Except Error Unit :=
  match c.goawayReceived with
  | some last =>
    if last < streamId then
      .error (.badResponse s!"stream {streamId} not processed: GOAWAY last-stream-id={last}")
    else .ok ()
  | none => .ok ()

/-- A stream that failed ends closed and without a response. -/
def closeStream (c : Connection) (streamId : Nat) : Connection :=
  match c.streams[streamId]? with
  | some s => c.setStream streamId { s with state := .closed, responseHeaders := none }
  | none => c

/-- A reset written on a best-effort basis. -/
def sendReset (c : Connection) (streamId : Nat) : Connection :=
  match c.writeFrame (rstStreamFrame streamId errProtocol) with
  | .ok _ c => c.flush.state
  | .error _ c => c

/-- Fail one stream; the error names it. -/
def streamError {α : Type} (c : Connection) (streamId : Nat) (msg : String) :
    Outcome Connection α :=
  .error (.badResponse s!"http2: stream {streamId}: {msg}")
    ((c.closeStream streamId).sendReset streamId)

/-! ## Frames on stream 0 -/

/-- Shift every stream's send window to a new initial size. -/
def applyInitialWindow (c : Connection) (newInitial : Nat) : Outcome Connection Unit :=
  Outcome.forEach c.streams.keys (fun id c =>
    match c.streams[id]? with
    | none => .ok () c
    | some s => match s.sendWindow.applyInitialWindowChange newInitial with
      | .error e => .error e c
      | .ok w => .ok () (c.setStream id { s with sendWindow := w })) c

def applySettings (c : Connection) (payload : Bytes) : Outcome Connection Unit :=
  let oldInitial := c.peer.initialWindowSize
  let oldHeaderTableSize := c.peer.headerTableSize
  ((c.peer.applySettingsPayload payload).mapState fun peer => { c with peer }).andThen
    fun _ c =>
  (if c.peer.initialWindowSize ≠ oldInitial then c.applyInitialWindow c.peer.initialWindowSize
    else .ok () c).andThen fun _ c =>
  let c := if c.peer.headerTableSize ≠ oldHeaderTableSize then
      { c with encoder := c.encoder.setPeerMaxTableSize c.peer.headerTableSize }
    else c
  (c.writeFrame ⟨.settings, flagAck, 0, []⟩).andThen fun _ c => c.flush

/-- Lower the boundary of processed streams and close the streams above it. -/
def applyGoaway (c : Connection) (last : Nat) : Connection :=
  let last := c.goawayReceived.elim last (min · last)
  { c with
    goawayReceived := some last
    streams := c.streams.map fun id s => if last < id then { s with state := .closed } else s }

def processConnFrame (c : Connection) (f : Frame) : Outcome Connection DispatchOutcome :=
  match f.typ with
  | .data | .headers | .priority | .rstStream | .pushPromise | .continuation =>
    .error (.badResponse s!"http2: frame type 0x{f.typ.hex} on stream 0 (PROTOCOL_ERROR)") c
  | .settings =>
    if f.ack then
      if f.payload.isEmpty then .ok .continue c
      else .error (.badResponse
        "http2: SETTINGS ACK with non-empty payload (FRAME_SIZE_ERROR)") c
    else (c.applySettings f.payload).andThen fun _ c => .ok .continue c
  | .ping =>
    if f.payload.length ≠ 8 then
      .error (.badResponse
        s!"http2: PING payload of {f.payload.length} bytes (FRAME_SIZE_ERROR)") c
    else if f.ack then .ok .continue c
    else (c.writeFrame ⟨.ping, flagAck, 0, f.payload⟩).andThen fun _ c =>
      c.flush.andThen fun _ c => .ok .continue c
  | .goaway =>
    if f.payload.length < 8 then
      .error (.badResponse
        s!"http2: GOAWAY payload of {f.payload.length} bytes (FRAME_SIZE_ERROR)") c
    else .ok .continue (c.applyGoaway (mask31 (fromBe (f.payload.take 4))))
  | .windowUpdate =>
    match parseWindowUpdate f.payload with
    | .error e => .error e c
    | .ok inc => match c.connSendWindow.applyWindowUpdate inc with
      | .error e => .error e c
      | .ok w => .ok .continue { c with connSendWindow := w, madeProgress := true }
  -- unknown frame types are ignored
  | .unknown _ => .ok .continue c

/-! ## Header blocks -/

/-- The header-block fragment of a HEADERS frame, without padding and priority. -/
def headersFragment (f : Frame) : Except Error Bytes :=
  if f.padded && f.payload.isEmpty then
    .error (.badResponse "HEADERS PADDED with empty payload")
  else
    let padLen := if f.padded then (f.payload.getD 0 0).toNat else 0
    let payload := if f.padded then f.payload.drop 1 else f.payload
    if f.prioritised && decide (payload.length < 5) then
      .error (.badResponse "HEADERS PRIORITY with insufficient payload")
    else
      let payload := if f.prioritised then payload.drop 5 else payload
      if payload.length < padLen then .error (.badResponse "HEADERS padding overruns payload")
      else .ok (payload.take (payload.length - padLen))

/-- Compare `content-length` with the DATA received: exactly once the stream has ended, as an
upper bound before. -/
def checkContentLength (c : Connection) (streamId : Nat) : Outcome Connection Unit :=
  match c.streams[streamId]? with
  | none => .ok () c
  | some s =>
    if s.headRequest || s.finalStatus == some 204 || s.finalStatus == some 304 then .ok () c
    else match s.expectedLen with
      | none => .ok () c
      | some expected =>
        if expected < s.received ∨ (s.endStreamRecv = true ∧ s.received ≠ expected) then
          c.streamError streamId
            s!"content-length {expected} but received {s.received} body bytes"
        else .ok () c

/-- A section after the final head is a trailer section: it must end the stream. -/
def completeTrailers (c : Connection) (streamId : Nat) (endStream : Bool)
    (decoded : List Header) : Outcome Connection Unit :=
  if !endStream then c.streamError streamId "second HEADERS block without END_STREAM"
  else match validateResponseFields decoded true with
    | .error m => c.streamError streamId s!"malformed trailers: {m}"
    | .ok _ => c.checkContentLength streamId

/-- An interim head is counted and skipped. -/
def completeInterim (c : Connection) (streamId : Nat) (s : Stream) (status : Nat) :
    Outcome Connection Unit :=
  if s.endStreamRecv then
    c.streamError streamId s!"interim {status} response with END_STREAM"
  else if status = 101 then c.streamError streamId "101 response in HTTP/2"
  else
    let c := c.setStream streamId { s with interimCount := s.interimCount + 1 }
    if maxInterimResponses < s.interimCount + 1 then
      c.streamError streamId s!"more than {maxInterimResponses} interim responses"
    else .ok () c

def completeHead (c : Connection) (streamId : Nat) (s : Stream) (decoded : List Header)
    (info : ResponseFieldInfo) : Outcome Connection Unit :=
  let c := c.setStream streamId { s with
    finalStatus := some info.status
    expectedLen := info.contentLength
    responseHeaders := some decoded }
  if s.endStreamRecv then c.checkContentLength streamId else .ok () c

/-- Apply a decoded section: interim head, final head or trailers. -/
def completeHeaderBlock (c : Connection) (streamId : Nat) (decoded : List Header) :
    Outcome Connection Unit :=
  match c.streams[streamId]? with
  | none => .ok () c
  | some s =>
    if s.finalStatus.isSome then c.completeTrailers streamId s.endStreamRecv decoded
    else match validateResponseFields decoded false with
      | .error m => c.streamError streamId s!"malformed response head: {m}"
      | .ok info =>
        if info.status < 200 then c.completeInterim streamId s info.status
        else c.completeHead streamId s decoded info

/-- Decode a complete block and, unless its stream had closed, apply it. -/
def finishBlock (c : Connection) (streamId : Nat) (block : Bytes) (discard : Bool) :
    Outcome Connection DispatchOutcome :=
  (c.decodeBlock block).andThen fun decoded c =>
  let c := { c with madeProgress := true }
  (if discard then .ok () c else c.completeHeaderBlock streamId decoded).andThen fun _ c =>
  .ok (c.outcomeFor streamId) c

/-- HEADERS on a closed stream: the block is decoded, to keep the compression state, and
ignored. -/
def headersOnClosed (c : Connection) (f : Frame) (s : Stream) (frag : Bytes) :
    Outcome Connection DispatchOutcome :=
  if f.endHeaders then (c.decodeBlock frag).andThen fun _ c => .ok .continue c
  else match s.pushHeaderFragment frag with
    | .error e => .error e c
    | .ok s => .ok .continue { c.setStream f.streamId { s with discardHeaders := true } with
        expectingContinuation := some f.streamId }

def processHeaders (c : Connection) (f : Frame) : Outcome Connection DispatchOutcome :=
  match headersFragment f with
  | .error e => .error e c
  | .ok frag => match c.streams[f.streamId]? with
    | none => .error (.badResponse
        s!"HEADERS on unknown stream {f.streamId} (server push disabled)") c
    | some s =>
      if s.state = .closed then c.headersOnClosed f s frag
      else match s.state.recvHeaders f.endStream with
        | .error e => .error e c
        | .ok newState =>
          let s := { s with rxAny := true }
          match s.pushHeaderFragment frag with
          | .error e => .error e (c.setStream f.streamId s)
          | .ok s =>
            let s := { s with endStreamRecv := s.endStreamRecv || f.endStream, state := newState }
            if f.endHeaders then
              { c.setStream f.streamId { s with headersBuf := [] } with
                expectingContinuation := none }.finishBlock f.streamId s.headersBuf false
            else
              let c := { c.setStream f.streamId s with expectingContinuation := some f.streamId }
              .ok (c.outcomeFor f.streamId) c

def processContinuation (c : Connection) (f : Frame) : Outcome Connection DispatchOutcome :=
  if c.expectingContinuation ≠ some f.streamId then
    .error (.badResponse s!"unexpected CONTINUATION on stream {f.streamId}") c
  else match c.streams[f.streamId]? with
    | none => .error (.badResponse s!"CONTINUATION on unknown stream {f.streamId}") c
    | some s => match s.pushHeaderFragment f.payload with
      | .error e => .error e c
      | .ok s =>
        if f.endHeaders then
          { c.setStream f.streamId { s with headersBuf := [], discardHeaders := false } with
            expectingContinuation := none }.finishBlock f.streamId s.headersBuf s.discardHeaders
        else
          let c := c.setStream f.streamId s
          .ok (c.outcomeFor f.streamId) c

/-! ## DATA and RST_STREAM -/

/-- The application bytes of a DATA frame, without padding. -/
def dataPayload (f : Frame) : Except Error Bytes :=
  if f.padded then
    match f.payload with
    | [] => .error (.badResponse "DATA PADDED with empty payload")
    | pad :: payload =>
      if payload.length < pad.toNat then .error (.badResponse "DATA padding overruns payload")
      else .ok (payload.take (payload.length - pad.toNat))
  else .ok f.payload

def announce (c : Connection) (upd : Option Frame) : Outcome Connection Unit :=
  match upd with
  | some f => c.writeFrame f
  | none => .ok () c

/-- Top up both receive windows after DATA on a live stream. -/
def replenishWindows (c : Connection) (streamId : Nat) : Outcome Connection Unit :=
  let (upd, w) := c.connRecvWindow.replenish 0
  ({ c with connRecvWindow := w }.announce upd).andThen fun _ c =>
  match c.streams[streamId]? with
  | none => c.flush
  | some s =>
    let (upd, w) := s.recvWindow.replenish streamId
    ((c.setStream streamId { s with recvWindow := w }).announce upd).andThen fun _ c => c.flush

/-- Take in the application bytes of a DATA frame. -/
def acceptData (c : Connection) (f : Frame) (s : Stream) (newState : StreamState)
    (payload : Bytes) (sink : Bool) : Outcome Connection DispatchOutcome :=
  let encoded := s.responseHeaders.any fun hs =>
    hs.any fun h => eqIgnoreAsciiCase h.1 "content-encoding"
  let toSink := sink && !encoded && s.body.isEmpty
  if !toSink && decide (maxResponseBytes < satAdd s.body.length payload.length) then
    .error (.badResponse "response body exceeds size limit") c
  else
    (if toSink then c.writeSink payload else .ok () c).andThen fun _ c =>
    let s := if toSink then { s with streamedLen := s.streamedLen + payload.length }
      else { s with body := s.body ++ payload }
    let c := { c.setStream f.streamId { s with
        endStreamRecv := s.endStreamRecv || f.endStream, state := newState } with
      madeProgress := c.madeProgress || !payload.isEmpty }
    (c.checkContentLength f.streamId).andThen fun _ c =>
    (c.replenishWindows f.streamId).andThen fun _ c => .ok (c.outcomeFor f.streamId) c

/-- DATA for a stream that is gone is dropped; the connection's window is still topped up. -/
def dropData (c : Connection) : Outcome Connection DispatchOutcome :=
  match c.connRecvWindow.replenish 0 with
  | (none, _) => .ok .continue c
  | (some upd, w) => ({ c with connRecvWindow := w }.writeFrame upd).andThen fun _ c =>
      c.flush.andThen fun _ c => .ok .continue c

def processData (c : Connection) (f : Frame) (sink : Bool) : Outcome Connection DispatchOutcome :=
  -- the connection's window is billed whether or not the stream is known
  let c := { c with connRecvWindow := c.connRecvWindow.consume f.payload.length }
  if c.connRecvWindow.available < 0 then
    .error (.badResponse "http2: flow-control window exceeded by peer") c
  else match c.streams[f.streamId]? with
    | none => c.dropData
    | some s =>
      if s.state = .closed then
        .error (.badResponse s!"DATA on closed stream {f.streamId}") c
      else match s.state.recvData f.endStream with
        | .error e => .error e c
        | .ok newState =>
          let s := { s with
            rxAny := true, recvWindow := s.recvWindow.consume f.payload.length }
          let c := c.setStream f.streamId s
          if s.recvWindow.available < 0 then
            .error (.badResponse "http2: flow-control window exceeded by peer") c
          else match dataPayload f with
            | .error e => .error e c
            | .ok payload =>
              if s.finalStatus.isNone then
                c.streamError f.streamId "DATA before the response HEADERS"
              else c.acceptData f s newState payload sink

def processRst (c : Connection) (f : Frame) : Outcome Connection DispatchOutcome :=
  let code := fromBe f.payload
  match c.streams[f.streamId]? with
  | none => .ok .continue c
  | some s =>
    if s.state = .closed then .ok .continue c
    else
      let s := { s with rxAny := true }
      if code = errNoError ∧ s.endStreamRecv = true ∧ s.responseHeaders.isSome then
        .ok (.done f.streamId) (c.setStream f.streamId { s with state := .closed })
      else
        let s := { s with refused := decide (code = errRefusedStream) }
        match s.state.recvRst with
        | .error e => .error e (c.setStream f.streamId s)
        | .ok newState => .error
            (.badResponse s!"stream {f.streamId} reset by server, error code {code}")
            (c.setStream f.streamId { s with state := newState })

def processStreamWindowUpdate (c : Connection) (f : Frame) : Outcome Connection DispatchOutcome :=
  match parseWindowUpdate f.payload with
  | .error e => .error e c
  | .ok inc => match c.streams[f.streamId]? with
    | none => .ok .continue c
    | some s => match s.sendWindow.applyWindowUpdate inc with
      | .error e => .error e c
      | .ok w => .ok .continue
          { c.setStream f.streamId { s with sendWindow := w } with madeProgress := true }

/-! ## Dispatch -/

def processStreamFrame (c : Connection) (f : Frame) (sink : Bool) :
    Outcome Connection DispatchOutcome :=
  match f.typ with
  | .settings | .ping | .goaway =>
    .error (.badResponse
      s!"http2: frame type 0x{f.typ.hex} on stream {f.streamId} (PROTOCOL_ERROR)") c
  | .priority =>
    if f.payload.length ≠ 5 then
      .error (.badResponse
        s!"http2: PRIORITY payload of {f.payload.length} bytes (FRAME_SIZE_ERROR)") c
    else .ok .continue c
  | .rstStream =>
    if f.payload.length ≠ 4 then
      .error (.badResponse
        s!"http2: RST_STREAM payload of {f.payload.length} bytes (FRAME_SIZE_ERROR)") c
    else c.processRst f
  | .headers => c.processHeaders f
  | .continuation => c.processContinuation f
  | .data => c.processData f sink
  | .windowUpdate => c.processStreamWindowUpdate f
  | .pushPromise =>
    .error (.badResponse "received PUSH_PROMISE despite SETTINGS_ENABLE_PUSH=0") c
  | .unknown _ => .ok .continue c

/-- Between a HEADERS frame without END_HEADERS and the end of its block, only CONTINUATION on
the same stream may come. -/
def continuationGate (c : Connection) (f : Frame) : Except Error Unit :=
  match c.expectingContinuation with
  | none => .ok ()
  | some awaiting =>
    if f.typ = .continuation ∧ f.streamId = awaiting then .ok ()
    else .error (.badResponse (s!"expected CONTINUATION on stream {awaiting}, " ++
      s!"got type=0x{f.typ.hex} stream={f.streamId}"))

def dispatch (c : Connection) (f : Frame) (sink : Bool) : Outcome Connection DispatchOutcome :=
  if f.streamId = 0 then c.processConnFrame f else c.processStreamFrame f sink

def recordProgress (c : Connection) (outcome : DispatchOutcome) :
    Outcome Connection DispatchOutcome :=
  ((c.budget.recordProgress (c.madeProgress || outcome != .continue)).mapState
    fun budget => { c with budget }).andThen fun _ c => .ok outcome c

def processFrame (c : Connection) (f : Frame) (sink : Bool) : Outcome Connection DispatchOutcome :=
  match c.continuationGate f with
  | .error e => .error e c
  | .ok _ =>
    ((c.budget.recordControlFrame f).mapState fun budget => { c with budget }).andThen fun _ c =>
    ({ c with madeProgress := false }.dispatch f sink).andThen fun outcome c =>
    c.recordProgress outcome

def readAndDispatch (c : Connection) (sink : Bool) : Outcome Connection DispatchOutcome :=
  match c.tls.readFrame.mapState fun tls => { c with tls } with
  | .ok f c => c.processFrame f sink
  | .error (.io .unexpectedEof _) c => .error .unexpectedEof c
  | .error e c => .error e c

end Connection

end Rsurl.Http2
