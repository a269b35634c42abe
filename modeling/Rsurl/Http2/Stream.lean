import Rsurl.Http2.Frame
import Rsurl.Hpack.Table

/-!
# Streams

The client-side life cycle of a stream, the record a connection keeps for one, and the checks a
received field section has to pass.
-/

namespace Rsurl.Http2

open Text Hpack

inductive StreamState where
  | idle
  | open
  | halfClosedLocal
  | halfClosedRemote
  | closed
  deriving DecidableEq, Repr

namespace StreamState

/-- The `Debug` rendering error texts show. -/
def dbg : StreamState → String
  | idle => "Idle"
  | .open => "Open"
  | halfClosedLocal => "HalfClosedLocal"
  | halfClosedRemote => "HalfClosedRemote"
  | closed => "Closed"

/-- The state after sending DATA, or HEADERS from `idle`. -/
def sendData (s : StreamState) (endStream : Bool) : Except Error StreamState :=
  match s with
  | idle => .ok (if endStream then halfClosedLocal else .open)
  | .open => .ok (if endStream then halfClosedLocal else .open)
  | halfClosedRemote => .ok (if endStream then closed else halfClosedRemote)
  | halfClosedLocal | closed =>
    .error (.badResponse s!"internal: tried to send DATA in stream state {s.dbg}")

def recvData (s : StreamState) (endStream : Bool) : Except Error StreamState :=
  match s with
  | .open => .ok (if endStream then halfClosedRemote else .open)
  | halfClosedLocal => .ok (if endStream then closed else halfClosedLocal)
  | idle | halfClosedRemote | closed =>
    .error (.badResponse s!"received DATA in stream state {s.dbg} (RFC 9113 §5.1)")

def recvHeaders (s : StreamState) (endStream : Bool) : Except Error StreamState :=
  match s with
  | .open => .ok (if endStream then halfClosedRemote else .open)
  | halfClosedLocal => .ok (if endStream then closed else halfClosedLocal)
  | closed => .ok closed
  | idle | halfClosedRemote =>
    .error (.badResponse s!"received HEADERS in stream state {s.dbg} (RFC 9113 §5.1)")

def recvRst (s : StreamState) : Except Error StreamState :=
  match s with
  | idle => .error (.badResponse "RST_STREAM on idle stream (RFC 9113 §5.1)")
  | _ => .ok closed

end StreamState

/-- A request body on its way out, and how much of it is on the wire. -/
structure PendingBody where
  bytes : Bytes
  sent : Nat
  deriving DecidableEq, Repr

def maxHeadersBuf : Nat := 256 * 1024
def maxResponseBytes : Nat := 256 * 1024 * 1024
def maxInterimResponses : Nat := 32

structure Stream where
  state : StreamState
  sendWindow : StreamSendWindow
  recvWindow : RecvWindow
  headersBuf : Bytes
  responseHeaders : Option (List Header)
  body : Bytes
  streamedLen : Nat
  endStreamRecv : Bool
  pendingBody : Option PendingBody
  finalStatus : Option Nat
  interimCount : Nat
  expectedLen : Option Nat
  headRequest : Bool
  refused : Bool
  rxAny : Bool
  discardHeaders : Bool
  deriving DecidableEq, Repr

namespace Stream

def new (initialPeerWindow ourRecvWindow : Int) : Stream where
  state := .idle
  sendWindow := .new initialPeerWindow
  recvWindow := .new ourRecvWindow
  headersBuf := []
  responseHeaders := none
  body := []
  streamedLen := 0
  endStreamRecv := false
  pendingBody := none
  finalStatus := none
  interimCount := 0
  expectedLen := none
  headRequest := false
  refused := false
  rxAny := false
  discardHeaders := false

/-- The smaller of the connection's and the stream's send windows. -/
def sendBudget (s : Stream) (conn : ConnSendWindow) : Int :=
  min s.sendWindow.available conn.available

/-- The final head and the peer's END_STREAM have both arrived. -/
def responseComplete (s : Stream) : Bool :=
  (s.state == .closed || s.state == .halfClosedRemote) && s.endStreamRecv &&
    s.responseHeaders.isSome

/-- Append a fragment to the header block being collected, up to a size limit. -/
def pushHeaderFragment (s : Stream) (frag : Bytes) : Except Error Stream :=
  if maxHeadersBuf < satAdd s.headersBuf.length frag.length then
    .error (.badResponse "header block exceeds size limit (CONTINUATION flood?)")
  else .ok { s with headersBuf := s.headersBuf ++ frag }

/-- DATA bytes taken in so far, buffered or streamed to a sink. -/
def received (s : Stream) : Nat := s.body.length + s.streamedLen

end Stream

/-! ## Received field sections -/

def isConnectionSpecificHeader (name : String) : Bool :=
  ["connection", "proxy-connection", "keep-alive", "transfer-encoding", "upgrade", "te"].any
    fun h => eqIgnoreAsciiCase name h

structure ResponseFieldInfo where
  status : Nat
  contentLength : Option Nat
  deriving DecidableEq, Repr

/-- What the walk over a section has seen so far. -/
structure FieldScan where
  status : Option Nat := none
  contentLength : Option Nat := none
  seenRegular : Bool := false
  deriving DecidableEq, Repr

namespace FieldScan

def pseudo (acc : FieldScan) (trailers : Bool) (pseudo value : String) :
    Except String FieldScan :=
  if acc.seenRegular then .error s!"pseudo-header :{pseudo} after a regular field"
  else if trailers then .error s!"pseudo-header :{pseudo} in trailers"
  else if pseudo ≠ "status" then .error s!"pseudo-header :{pseudo} not allowed in a response"
  else if acc.status.isSome then .error "duplicate :status"
  else
    let code := if len value = 3 ∧ allDigits value then
        (parseUnsigned 65535 value).filter fun c => 100 ≤ c && c ≤ 999
      else none
    match code with
    | some c => .ok { acc with status := some c }
    | none => .error s!"bad :status {dbgStr value}"

/-- One comma-separated part of a `content-length` value. -/
def lengthPart (value : String) (acc : Option Nat) (part : String) :
    Except String (Option Nat) :=
  let part := trim part
  if part = "" ∨ ¬allDigits part then .error s!"bad content-length {dbgStr value}"
  else match parseUnsigned (2 ^ 64 - 1) part with
    | none => .error s!"bad content-length {dbgStr value}"
    | some n => match acc with
      | some prev =>
        if prev ≠ n then .error "conflicting content-length values" else .ok (some n)
      | none => .ok (some n)

def regular (acc : FieldScan) (trailers : Bool) (name value : String) :
    Except String FieldScan :=
  let acc := { acc with seenRegular := true }
  if eqIgnoreAsciiCase name "te" then
    if eqIgnoreAsciiCase (trim value) "trailers" then .ok acc
    else .error s!"te: {dbgStr value} not allowed"
  else if isConnectionSpecificHeader name then
    .error s!"connection-specific field {dbgStr (toAsciiLowercase name)}"
  else if eqIgnoreAsciiCase name "content-length" && !trailers then
    match (split ',' value).foldlM (lengthPart value) acc.contentLength with
    | .ok n => .ok { acc with contentLength := n }
    | .error m => .error m
  else .ok acc

def field (trailers : Bool) (acc : FieldScan) (h : Header) : Except String FieldScan :=
  match stripPrefix ':' h.1 with
  | some rest => acc.pseudo trailers rest h.2
  | none => acc.regular trailers h.1 h.2

end FieldScan

/-- Check a decoded response head or trailer section. -/
def validateResponseFields (fields : List Header) (trailers : Bool) :
    Except String ResponseFieldInfo :=
  match fields.foldlM (FieldScan.field trailers) {} with
  | .error m => .error m
  | .ok scan =>
    if trailers then .ok ⟨0, none⟩
    else match scan.status with
      | none => .error "response missing :status"
      | some status => .ok ⟨status, scan.contentLength⟩

end Rsurl.Http2
