import Rsurl.Http2.Dispatch
import Rsurl.Library.Loop

/-!
# Requests on the wire

What a request contributes to its stream: the header fields, the HEADERS and CONTINUATION frames
that carry them, and the DATA frames of its body under two windows and a frame limit.
-/

namespace Rsurl.Http2

open Text Hpack Library

inductive Priority where
  | high
  | normal
  | low
  deriving DecidableEq, Repr

structure Url where
  scheme : String
  userinfo : Option String
  host : String
  port : Nat
  path : String
  deriving DecidableEq, Repr

/-- The fields of a request that reach an HTTP/2 stream. -/
structure Request where
  method : String
  keepMethodCase : Bool := false
  url : Url
  headers : List Header := []
  body : Bytes := []
  basicAuth : Option (String × String) := none
  strictHeaders : Bool := false
  priority : Priority := .normal
  decompress : Bool := true
  deriving DecidableEq, Repr

/-- A request without a body, such as a GET. -/
def Request.plain (method host path : String) : Request :=
  { method, url := ⟨"https", none, host, 443, path⟩ }

/-! ## Header fields -/

def effectiveMethod (req : Request) : String :=
  if req.keepMethodCase then req.method else toAsciiUppercase req.method

def base64Char (n : Nat) : Char :=
  "ABCDEFGHIJKLMNOPQRSTUVWXYZabcdefghijklmnopqrstuvwxyz0123456789+/".toList.getD n 'A'

/-- The alphabet, character by character. -/
theorem base64Char_eq (n : Nat) : base64Char n =
    ['A', 'B', 'C', 'D', 'E', 'F', 'G', 'H', 'I', 'J', 'K', 'L', 'M', 'N', 'O', 'P', 'Q', 'R', 'S',
      'T', 'U', 'V', 'W', 'X', 'Y', 'Z', 'a', 'b', 'c', 'd', 'e', 'f', 'g', 'h', 'i', 'j', 'k',
      'l', 'm', 'n', 'o', 'p', 'q', 'r', 's', 't', 'u', 'v', 'w', 'x', 'y', 'z', '0', '1', '2',
      '3', '4', '5', '6', '7', '8', '9', '+', '/'].getD n 'A' :=
  congrArg (List.getD · n 'A') String.toList_ofList

def base64Chars : List Nat → List Char
  | b₀ :: b₁ :: b₂ :: rest =>
    base64Char (b₀ / 4) :: base64Char (b₀ % 4 * 16 + b₁ / 16) ::
      base64Char (b₁ % 16 * 4 + b₂ / 64) :: base64Char (b₂ % 64) :: base64Chars rest
  | [b₀, b₁] =>
    [base64Char (b₀ / 4), base64Char (b₀ % 4 * 16 + b₁ / 16), base64Char (b₁ % 16 * 4), '=']
  | [b₀] => [base64Char (b₀ / 4), base64Char (b₀ % 4 * 16), '=', '=']
  | [] => []

def base64Encode (input : Bytes) : String :=
  String.ofList (base64Chars (input.map UInt8.toNat))

/-- Split at the first `:`; without one, everything is the user. -/
def splitUserinfo (info : String) : String × String :=
  let user := info.toList.takeWhile (· ≠ ':')
  (String.ofList user, String.ofList (info.toList.drop (user.length + 1)))

def effectiveBasicAuth (req : Request) : Option String := do
  let (user, pass) ← match req.basicAuth with
    | some creds => some creds
    | none => req.url.userinfo.map splitUserinfo
  if user = "" ∧ pass = "" then none
  else some (base64Encode (asBytes s!"{user}:{pass}"))

structure RequestPseudo where
  method : String
  scheme : String
  authority : String
  path : String
  deriving DecidableEq, Repr

def userAgent : String := "rsurl/0.1.21"

/-- The caller's fields that may be sent, with lower-case names. -/
def sentHeaders (req : Request) : List Header :=
  (req.headers.filter fun h =>
    !(isConnectionSpecificHeader h.1 || eqIgnoreAsciiCase h.1 "host")).map fun h =>
      (toAsciiLowercase h.1, h.2)

/-- The fields added unless the caller gave them or asked for none. -/
def automaticHeaders (req : Request) (fields : List Header) : List Header :=
  let given (name : String) := fields.any (·.1 == name)
  (if given "authorization" then [] else match effectiveBasicAuth req with
    | some creds => [("authorization", s!"Basic {creds}")]
    | none => []) ++
  (if given "user-agent" then [] else [("user-agent", userAgent)]) ++
  (if given "accept" then [] else [("accept", "*/*")]) ++
  (if given "accept-encoding" then [] else [("accept-encoding", "gzip, deflate")])

def requestHeaderFields (req : Request) : RequestPseudo × List Header :=
  let authority := if req.url.port = 443 ∧ req.url.scheme = "https" then req.url.host
    else s!"{req.url.host}:{req.url.port}"
  let fields := sentHeaders req
  let fields := if req.strictHeaders then fields else fields ++ automaticHeaders req fields
  let fields := if req.body.isEmpty then fields
    else fields ++ [("content-length", toString req.body.length)]
  (⟨effectiveMethod req, req.url.scheme, authority, req.url.path⟩, fields)

/-- Pseudo-headers first, in this order, then the regular fields. -/
def buildHeaderBlock (encoder : Encoder) (req : Request) : Encoder × Bytes :=
  let (pseudo, fields) := requestHeaderFields req
  encoder.encodeBlock ([(":method", pseudo.method), (":scheme", pseudo.scheme),
    (":authority", pseudo.authority), (":path", pseudo.path)] ++ fields)

/-! ## Frames -/

/-- The CONTINUATION frames of what is left of a block; `fuel` bounds their number. -/
def continuationFrames (streamId maxFrameSize : Nat) : Nat → Bytes → List Frame
  | 0, _ => []
  | fuel + 1, block =>
    if block.isEmpty then []
    else
      let rest := block.drop maxFrameSize
      ⟨.continuation, if rest.isEmpty then flagEndHeaders else 0, streamId,
        block.take maxFrameSize⟩ :: continuationFrames streamId maxFrameSize fuel rest

/-- One HEADERS frame and as many CONTINUATION frames as the frame size asks for. -/
def fragmentHeaderBlock (streamId : Nat) (headerBlock : Bytes) (maxFrameSize : Nat)
    (endStream : Bool) : List Frame :=
  let rest := headerBlock.drop maxFrameSize
  ⟨.headers, (if endStream then flagEndStream else 0) |||
      (if rest.isEmpty then flagEndHeaders else 0), streamId, headerBlock.take maxFrameSize⟩ ::
    continuationFrames streamId maxFrameSize headerBlock.length rest

/-- The next DATA chunk: zero only when the send window is used up. -/
def nextDataChunkSize (maxFrameSize : Nat) (available : Int) (remaining : Nat) : Nat :=
  if available ≤ 0 then 0 else (min (min available remaining) maxFrameSize).toNat

theorem nextDataChunkSize_le (maxFrameSize : Nat) (available : Int) (remaining : Nat) :
    nextDataChunkSize maxFrameSize available remaining ≤ maxFrameSize ∧
      nextDataChunkSize maxFrameSize available remaining ≤ remaining ∧
      (0 < nextDataChunkSize maxFrameSize available remaining →
        (nextDataChunkSize maxFrameSize available remaining : Int) ≤ available) := by
  unfold nextDataChunkSize
  split <;> omega

theorem nextDataChunkSize_pos {maxFrameSize remaining : Nat} {available : Int}
    (hm : 0 < maxFrameSize) (ha : 0 < available) (hr : 0 < remaining) :
    0 < nextDataChunkSize maxFrameSize available remaining := by
  unfold nextDataChunkSize
  split <;> omega

def priorityWeightByte : Priority → Option UInt8
  | .high => some 255
  | .normal => none
  | .low => some 0

namespace Connection

def sendPriorityHint (c : Connection) (streamId : Nat) (priority : Priority) :
    Outcome Connection Unit :=
  match priorityWeightByte priority with
  | none => .ok () c
  | some weight => c.writeFrame ⟨.priority, 0, streamId, [0, 0, 0, 0, weight]⟩

/-- Write the HEADERS frames of a request; yields whether a body is still to be sent. -/
def writeRequestHeaders (c : Connection) (streamId : Nat) (req : Request) :
    Outcome Connection Bool :=
  (c.sendPriorityHint streamId req.priority).andThen fun _ c =>
  let (encoder, headerBlock) := buildHeaderBlock c.encoder req
  let c := { c with encoder }
  let hasBody := !req.body.isEmpty
  let frames := fragmentHeaderBlock streamId headerBlock c.sendFrameLimit (!hasBody)
  (Outcome.forEach frames (fun f c => c.writeFrame f) c).andThen fun _ c =>
  match c.streams[streamId]? with
  | none => .error (.badResponse s!"stream {streamId} not found") c
  | some s => match s.state.sendData (!hasBody) with
    | .error e => .error e c
    | .ok state => .ok hasBody (c.setStream streamId { s with
        state, headRequest := eqIgnoreAsciiCase (effectiveMethod req) "HEAD" })

/-- Write the HEADERS frames and park the body for `pumpPendingSends`. -/
def stageRequestOn (c : Connection) (streamId : Nat) (req : Request) : Outcome Connection Unit :=
  (c.writeRequestHeaders streamId req).andThen fun hasBody c =>
  if hasBody then
    match c.streams[streamId]? with
    | none => .ok () c
    | some s => .ok () (c.setStream streamId { s with pendingBody := some ⟨req.body, 0⟩ })
  else .ok () c

/-- The frames of a request's head: the priority hint, if any, and the header block. -/
def headFrames (c : Connection) (streamId : Nat) (req : Request) : List Frame :=
  (match priorityWeightByte req.priority with
    | none => []
    | some weight => [⟨.priority, 0, streamId, [0, 0, 0, 0, weight]⟩]) ++
  fragmentHeaderBlock streamId (buildHeaderBlock c.encoder req).2 c.sendFrameLimit
    req.body.isEmpty

/-- What writing a request's head does when it succeeds. -/
theorem writeRequestHeaders_ok {c c' : Connection} {streamId : Nat} {req : Request}
    {hasBody : Bool} (h : c.writeRequestHeaders streamId req = .ok hasBody c') :
    hasBody = !req.body.isEmpty ∧ ∃ fs s state, c.streams[streamId]? = some s ∧
      s.state.sendData req.body.isEmpty = .ok state ∧
      c' = ({ c with encoder := (buildHeaderBlock c.encoder req).1 }.wrote fs
        (c.headFrames streamId req)).setStream streamId { s with
          state, headRequest := eqIgnoreAsciiCase (effectiveMethod req) "HEAD" } := by
  unfold writeRequestHeaders at h
  obtain ⟨_, c₁, hhint, h⟩ := Outcome.andThen_eq_ok.mp h
  obtain ⟨fs₁, rfl⟩ : ∃ fs, c₁ = c.wrote fs (match priorityWeightByte req.priority with
      | none => []
      | some weight => [⟨.priority, 0, streamId, [0, 0, 0, 0, weight]⟩]) := by
    unfold sendPriorityHint at hhint
    cases hp : priorityWeightByte req.priority with
    | none =>
      rw [hp] at hhint
      cases hhint
      exact ⟨_, (wrote_nil _).symm⟩
    | some weight =>
      rw [hp] at hhint
      obtain ⟨fs, rfl⟩ := writeFrame_ok hhint
      exact ⟨fs, rfl⟩
  simp only at h
  obtain ⟨_, c₂, hframes, h⟩ := Outcome.andThen_eq_ok.mp h
  obtain ⟨fs₂, rfl⟩ := writeFrames_ok hframes
  split at h
  · cases h
  · rename_i s hs
    split at h
    · cases h
    · rename_i state hstate
      cases h
      refine ⟨rfl, fs₂, s, state, hs, by simpa using hstate, ?_⟩
      simp [wrote, headFrames, sendFrameLimit]

theorem stageRequestOn_ok {c c' : Connection} {streamId : Nat} {req : Request} {u : Unit}
    (h : c.stageRequestOn streamId req = .ok u c') :
    ∃ fs s state, c.streams[streamId]? = some s ∧
      s.state.sendData req.body.isEmpty = .ok state ∧
      c' = ({ c with encoder := (buildHeaderBlock c.encoder req).1 }.wrote fs
        (c.headFrames streamId req)).setStream streamId { s with
          state
          headRequest := eqIgnoreAsciiCase (effectiveMethod req) "HEAD"
          pendingBody := if req.body.isEmpty then s.pendingBody else some ⟨req.body, 0⟩ } := by
  unfold stageRequestOn at h
  obtain ⟨hasBody, c₁, hhead, h⟩ := Outcome.andThen_eq_ok.mp h
  obtain ⟨rfl, fs, s, state, hs, hstate, rfl⟩ := writeRequestHeaders_ok hhead
  refine ⟨fs, s, state, hs, hstate, ?_⟩
  cases hbody : req.body.isEmpty with
  | true =>
    simp only [hbody, Bool.not_true, Bool.false_eq_true, if_false] at h
    cases h
    simp
  | false =>
    simp only [hbody, Bool.not_false, if_true, getElem?_setStream_self] at h
    cases h
    rw [setStream_setStream]
    simp

/-- Write one DATA frame, bill both windows and advance the stream. -/
def sendData (c : Connection) (streamId : Nat) (s : Stream) (chunk : Bytes) (isLast : Bool) :
    Outcome Connection Stream :=
  (c.writeFrame ⟨.data, if isLast then flagEndStream else 0, streamId, chunk⟩).andThen fun _ c =>
  let c := { c with connSendWindow := c.connSendWindow.consume chunk.length }
  let s := { s with sendWindow := s.sendWindow.consume chunk.length }
  match s.state.sendData isLast with
  | .error e => .error e (c.setStream streamId s)
  | .ok state => .ok { s with state } (c.setStream streamId { s with state })

/-- One DATA frame of a parked body, if the windows allow one. -/
def pumpTurn (limit streamId : Nat) (c : Connection) :
    Loop.Turn Connection (Outcome Connection Unit) :=
  match c.streams[streamId]? with
  | none => .done (.ok () c)
  | some s => match s.pendingBody with
    | none => .done (.ok () c)
    | some pb =>
      let remaining := pb.bytes.drop pb.sent
      if remaining.isEmpty then .done (.ok () (c.setStream streamId { s with pendingBody := none }))
      else
        let n := nextDataChunkSize limit (s.sendBudget c.connSendWindow) remaining.length
        if n = 0 then .done (.ok () c)
        else
          let isLast := n == remaining.length
          match c.sendData streamId s (remaining.take n) isLast with
          | .error e c => .done (.error e c)
          | .ok s c =>
            if isLast then .done (.ok () (c.setStream streamId { s with pendingBody := none }))
            else .next (c.setStream streamId { s with
              pendingBody := some { pb with sent := pb.sent + n } })

/-- Body bytes a stream still has to send. -/
def unsent (c : Connection) (streamId : Nat) : Nat :=
  match c.streams[streamId]? with
  | none => 0
  | some s => match s.pendingBody with
    | none => 0
    | some pb => pb.bytes.length - pb.sent

/-- The chunk a turn of the pump sends: `n` bytes of what is left, within both windows and the
frame limit. -/
structure PumpChunk (limit streamId : Nat) (c : Connection) (s : Stream) (pb : PendingBody)
    (n : Nat) : Prop where
  stream : c.streams[streamId]? = some s
  pending : s.pendingBody = some pb
  size : n = nextDataChunkSize limit (s.sendBudget c.connSendWindow) (pb.bytes.drop pb.sent).length
  pos : 0 < n

theorem PumpChunk.le {limit streamId n : Nat} {c : Connection} {s : Stream} {pb : PendingBody}
    (h : PumpChunk limit streamId c s pb n) : n ≤ (pb.bytes.drop pb.sent).length := by
  rw [h.size]
  exact (nextDataChunkSize_le _ _ _).2.1

/-- Everything a turn of the pump can do. -/
theorem pumpTurn_cases (limit streamId : Nat) (c : Connection) :
    pumpTurn limit streamId c = .done (.ok () c) ∨
      (∃ s pb, c.streams[streamId]? = some s ∧ s.pendingBody = some pb ∧
        pb.bytes.drop pb.sent = [] ∧ pumpTurn limit streamId c =
        .done (.ok () (c.setStream streamId { s with pendingBody := none }))) ∨
      ∃ s pb n, PumpChunk limit streamId c s pb n ∧
        ((∃ e c₁, c.sendData streamId s ((pb.bytes.drop pb.sent).take n)
              (n == (pb.bytes.drop pb.sent).length) = .error e c₁ ∧
            pumpTurn limit streamId c = .done (.error e c₁)) ∨
          (∃ s₁ c₁, n = (pb.bytes.drop pb.sent).length ∧
            c.sendData streamId s (pb.bytes.drop pb.sent) true = .ok s₁ c₁ ∧
            pumpTurn limit streamId c =
              .done (.ok () (c₁.setStream streamId { s₁ with pendingBody := none }))) ∨
          ∃ s₁ c₁, n < (pb.bytes.drop pb.sent).length ∧
            c.sendData streamId s ((pb.bytes.drop pb.sent).take n) false = .ok s₁ c₁ ∧
            pumpTurn limit streamId c = .next (c₁.setStream streamId { s₁ with
              pendingBody := some { pb with sent := pb.sent + n } })) := by
  unfold pumpTurn
  cases hs : c.streams[streamId]? with
  | none => exact .inl rfl
  | some s =>
    cases hpb : s.pendingBody with
    | none => exact .inl (by simp [hpb])
    | some pb =>
      simp only [hpb]
      split
      · rename_i hempty
        exact .inr (.inl ⟨s, pb, rfl, hpb, by simpa using hempty, rfl⟩)
      · generalize hn : nextDataChunkSize limit (s.sendBudget c.connSendWindow)
          (pb.bytes.drop pb.sent).length = n
        split
        · exact .inl rfl
        · rename_i hzero
          have hchunk : PumpChunk limit streamId c s pb n :=
            ⟨hs, hpb, hn.symm, Nat.pos_of_ne_zero hzero⟩
          refine .inr (.inr ⟨s, pb, n, hchunk, ?_⟩)
          have hle := hchunk.le
          cases hsend : c.sendData streamId s ((pb.bytes.drop pb.sent).take n)
              (n == (pb.bytes.drop pb.sent).length) with
          | error e c₁ => exact .inl ⟨e, c₁, rfl, rfl⟩
          | ok s₁ c₁ =>
            by_cases hlast : n = (pb.bytes.drop pb.sent).length
            · rw [List.take_of_length_le hlast.ge, beq_iff_eq.mpr hlast] at hsend
              exact .inr (.inl ⟨s₁, c₁, hlast, hsend, by simp [hlast]⟩)
            · have hne : (n == (pb.bytes.drop pb.sent).length) = false := by simpa using hlast
              rw [hne] at hsend
              exact .inr (.inr ⟨s₁, c₁, by omega, hsend, by simp only [hne, Bool.false_eq_true, if_false]⟩)

theorem pumpTurn_lowers (limit streamId : Nat) :
    Loop.Lowers (pumpTurn limit streamId) (unsent · streamId) := by
  intro c c' h
  obtain hc | ⟨s, pb, -, -, -, hc⟩ | ⟨s, pb, n, hchunk, ⟨e, c₁, -, hc⟩ | ⟨s₁, c₁, -, -, hc⟩ |
    ⟨s₁, c₁, hlt, -, hc⟩⟩ := pumpTurn_cases limit streamId c
  all_goals rw [hc] at h
  all_goals cases h
  have hpos := hchunk.pos
  rw [List.length_drop] at hlt
  simp only [unsent, getElem?_setStream, if_true, hchunk.stream, hchunk.pending]
  omega

/-- Send what the windows allow of every parked body, in ascending order of stream ids. -/
def pumpPendingSends (c : Connection) : Outcome Connection Unit :=
  let ids := (c.streams.toList.filter fun e => e.2.pendingBody.isSome).map Prod.fst
  Outcome.forEach ids (fun id => Loop.run (pumpTurn c.sendFrameLimit id) (unsent · id)
    (pumpTurn_lowers _ id)) c

def flushPending (c : Connection) : Outcome Connection Unit :=
  c.pumpPendingSends.andThen fun _ c => c.flush

end Connection

end Rsurl.Http2
