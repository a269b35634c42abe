import Rsurl.Library.Receiver
import Rsurl.WebSocket.Transport

/-!
# The blocking WebSocket receiver

`WsReader`: a message that is under way is kept with the reader, so that a failing read between two
fragments, or in the middle of a frame, can be followed by another call. The inflater of
permessage-deflate is a parameter, a function of the message and of the context it carries.
-/

namespace Rsurl.WebSocket

open Library Library.Loop
open Library.Receiver (Feed Handler receive)

/-- A fragmented message whose last fragment is still to come. -/
structure PartialMessage where
  opcode : UInt8
  compressed : Bool
  buf : Bytes
  deriving DecidableEq, Repr

/-- What inflating a message gives, and the context it leaves. -/
abbrev Inflate (κ : Type) := Bytes → κ → Library.Outcome String κ Bytes

/-- What a reader keeps from frame to frame. -/
structure ReaderState (κ : Type) where
  partialMessage : Option PartialMessage
  pmd : Option κ
  sendClosed : Bool
  recvClosed : Bool
  transport : Transport

abbrev WsReader (κ : Type) := Feed ReadFailure UInt8 (ReaderState κ)

namespace ReaderState

variable {κ : Type} (io : Io) (inflate : Inflate κ)

/-- Send a close frame as far as it goes, unless one was sent. -/
def tryClose (payload : Bytes) (s : ReaderState κ) : ReaderState κ :=
  match s.transport.buildClientFrame io opcodeClose payload with
  | .error _ t => { s with transport := t }
  | .ok frame t =>
    { s with transport := (t.writeClose io s.sendClosed frame).state, sendClosed := true }

/-- Fail the connection with a status. -/
def fail (status : Nat) (s : ReaderState κ) : ReaderState κ :=
  match closePayload status "" with
  | .error _ => s
  | .ok payload => s.tryClose io payload

def handleClose (payload : Bytes) (s : ReaderState κ) : Outcome (ReaderState κ) WsEvent :=
  let s := { s with recvClosed := true }
  match parseClosePayload payload with
  | .ok close => .ok (.close close) (s.tryClose io (closeEchoPayload close))
  | .error status => .error (badCloseError status) (s.fail io status)

/-- The payload of a message, inflated if it was compressed. -/
def inflateMessage (payload : Bytes) (compressed : Bool) (s : ReaderState κ) :
    Outcome (ReaderState κ) Bytes :=
  if compressed then
    match s.pmd with
    | none =>
      .error (.badResponse "compressed WS message without negotiated permessage-deflate") s
    | some context => match inflate payload context with
      | .error msg context => .error (.badResponse msg) { s with pmd := some context }
      | .ok payload context => .ok payload { s with pmd := some context }
  else .ok payload s

def finishEvent (opcode : UInt8) (payload : Bytes) (compressed : Bool) (s : ReaderState κ) :
    Outcome (ReaderState κ) WsEvent :=
  (s.inflateMessage inflate payload compressed).andThen fun payload s =>
    if opcode ≠ opcodeText then .ok (.binary payload) s
    else match Text.fromUtf8 payload with
      | some text => .ok (.text text) s
      | none => .error (.badResponse "WS TEXT message payload is not valid UTF-8")
          (s.fail io closeInvalidData)

/-- Answer a ping. -/
def pong (payload : Bytes) (s : ReaderState κ) : Outcome (ReaderState κ) Unit :=
  (s.transport.send io afterFailedWrite opcodePong payload).mapState fun t =>
    { s with transport := t }

/-- A control frame: `none` if it is handled without being surfaced. -/
def onControl (autoPong : Bool) (f : Frame) (s : ReaderState κ) :
    Outcome (ReaderState κ) (Option WsEvent) :=
  match validateControlFrame f with
  | .error e => .error e s
  | .ok () =>
    let surfaced (event : WsEvent) := if s.partialMessage.isSome then none else some event
    if f.opcode = opcodePing then
      (if autoPong then s.pong io f.payload else .ok () s).andThen fun _ s =>
        .ok (surfaced (.ping f.payload)) s
    else if f.opcode = opcodePong then .ok (surfaced (.pong f.payload)) s
    else if f.opcode = opcodeClose then
      (s.handleClose io f.payload).andThen fun event s => .ok (some event) s
    else .error (unknownControlOpcode f.opcode) s

/-- The first frame of a data message. -/
def onData (f : Frame) (s : ReaderState κ) : Outcome (ReaderState κ) (Option WsEvent) :=
  if s.partialMessage.isSome then
    .error (.badResponse "new data frame began while a fragmented message was in progress") s
  else if f.rsv1 && s.pmd.isNone then
    .error (.badResponse "RSV1 set on a WS frame but permessage-deflate was not negotiated") s
  else if f.fin then
    (s.finishEvent io inflate f.opcode f.payload f.rsv1).andThen fun event s => .ok (some event) s
  else .ok none { s with partialMessage := some ⟨f.opcode, f.rsv1, f.payload⟩ }

/-- A continuation frame. A fragment that is refused leaves the message as it was. -/
def onContinuation (f : Frame) (s : ReaderState κ) : Outcome (ReaderState κ) (Option WsEvent) :=
  match s.partialMessage with
  | none => .error (.badResponse "continuation frame with no message in progress") s
  | some p =>
    if f.rsv1 then .error (.badResponse "RSV1 set on a WS continuation frame") s
    else match accumulate p.buf f.payload with
      | .error e => .error e s
      | .ok buf =>
        if f.fin then
          (finishEvent io inflate p.opcode buf p.compressed { s with partialMessage := none }).andThen
            fun event s => .ok (some event) s
        else .ok none { s with partialMessage := some { p with buf := buf } }

/-- The body of the loop of `next_event`, for one frame: `none` goes on with the next. -/
def onFrame (autoPong : Bool) (f : Frame) (s : ReaderState κ) :
    Outcome (ReaderState κ) (Option WsEvent) :=
  if f.isControl then s.onControl io autoPong f
  else if f.opcode = opcodeText ∨ f.opcode = opcodeBinary then s.onData io inflate f
  else if f.opcode = opcodeCont then s.onContinuation io inflate f
  else .error (unknownOpcode f.opcode) s

/-- A fresh connection. -/
def new (pmd : Option κ) : ReaderState κ := ⟨none, pmd, false, false, .new⟩

/-- What becomes of the state when there is no frame: the end of the stream closes it. -/
def onNoFrame (e : Error) (s : ReaderState κ) : ReaderState κ :=
  if e = .unexpectedEof then { s with recvClosed := true } else s

end ReaderState

namespace WsReader

variable {κ : Type} (io : Io) (inflate : Inflate κ)

def handler (autoPong : Bool) : Handler Frame WsEvent Error (ReaderState κ) where
  step := ReaderState.onFrame io inflate autoPong
  failed := ReaderState.onNoFrame

def nextEvent (autoPong : Bool) (r : WsReader κ) : Outcome (WsReader κ) WsEvent :=
  if r.core.recvClosed then .ok (.close none) r
  else receive stable_frameFormat (handler io inflate autoPong) r

def recvTurn (r : WsReader κ) : Turn (WsReader κ) (Outcome (WsReader κ) (Option WsMessage)) :=
  match nextEvent io inflate true r with
  | .error e r => .done (.error e r)
  | .ok (.text s) r => .done (.ok (some (.text s)) r)
  | .ok (.binary b) r => .done (.ok (some (.binary b)) r)
  | .ok (.ping _) r => .next r
  | .ok (.pong _) r => .next r
  | .ok (.close _) r => .done (.ok none r)

theorem nextEvent_lt {autoPong : Bool} {r r' : WsReader κ} {event : WsEvent}
    (h : nextEvent io inflate autoPong r = .ok event r') (hev : event ≠ .close none) :
    r'.unread.length < r.unread.length := by
  unfold nextEvent at h
  split at h
  · cases h
    exact absurd rfl hev
  · exact Receiver.receive_lt stable_frameFormat h

theorem lowers_recvTurn :
    Lowers (recvTurn io inflate) fun r : WsReader κ => r.unread.length := by
  intro r r' h
  unfold recvTurn at h
  split at h <;> cases h
  all_goals
    rename_i hnext
    exact nextEvent_lt io inflate hnext (by simp)

/-- The next data message; `none` once the peer has closed. -/
def recv (r : WsReader κ) : Outcome (WsReader κ) (Option WsMessage) :=
  run (recvTurn io inflate) (fun r => r.unread.length) (lowers_recvTurn io inflate) r

end WsReader

/-! ## What frames leave alone -/

namespace ReaderState

variable {κ : Type} (io : Io) (inflate : Inflate κ)

@[simp] theorem recvClosed_tryClose (payload : Bytes) (s : ReaderState κ) :
    (s.tryClose io payload).recvClosed = s.recvClosed := by
  unfold tryClose
  split <;> rfl

@[simp] theorem recvClosed_fail (status : Nat) (s : ReaderState κ) :
    (s.fail io status).recvClosed = s.recvClosed := by
  unfold fail
  split <;> simp

theorem recvClosed_pong (payload : Bytes) (s : ReaderState κ) :
    (s.pong io payload).state.recvClosed = s.recvClosed := by
  unfold pong
  cases s.transport.send io afterFailedWrite opcodePong payload <;> rfl

theorem recvClosed_inflateMessage (payload : Bytes) (compressed : Bool) (s : ReaderState κ) :
    (s.inflateMessage inflate payload compressed).state.recvClosed = s.recvClosed := by
  unfold inflateMessage
  split
  · split
    · rfl
    · split <;> rfl
  · rfl

theorem recvClosed_finishEvent (opcode : UInt8) (payload : Bytes) (compressed : Bool)
    (s : ReaderState κ) :
    (s.finishEvent io inflate opcode payload compressed).state.recvClosed = s.recvClosed := by
  have hinflate := recvClosed_inflateMessage inflate payload compressed s
  unfold finishEvent
  generalize s.inflateMessage inflate payload compressed = r at hinflate ⊢
  cases r with
  | error e t => exact hinflate
  | ok payload t =>
    rw [Outcome.ok_andThen]
    split
    · exact hinflate
    · split
      · exact hinflate
      · simpa using hinflate

/-- Only a close closes the receiving side. -/
theorem onControl_ok {autoPong : Bool} {f : Frame} {s t : ReaderState κ} {event : Option WsEvent}
    (h : s.onControl io autoPong f = .ok event t) :
    (∃ close, event = some (.close close)) ∨ t.recvClosed = s.recvClosed := by
  unfold onControl at h
  split at h
  · cases h
  dsimp only at h
  by_cases hping : f.opcode = opcodePing
  · rw [if_pos hping] at h
    have hr : (if autoPong then s.pong io f.payload else .ok () s).state.recvClosed =
        s.recvClosed := by
      split
      · exact recvClosed_pong io f.payload s
      · rfl
    obtain ⟨_, t', hpong, ht⟩ := Outcome.andThen_eq_ok.mp h
    rw [hpong] at hr
    cases ht
    exact .inr hr
  by_cases hpong : f.opcode = opcodePong
  · rw [if_neg hping, if_pos hpong] at h
    cases h
    exact .inr rfl
  by_cases hclose : f.opcode = opcodeClose
  · rw [if_neg hping, if_neg hpong, if_pos hclose] at h
    obtain ⟨ev, t', hhandle, ht⟩ := Outcome.andThen_eq_ok.mp h
    cases ht
    unfold handleClose at hhandle
    dsimp only at hhandle
    split at hhandle
    · cases hhandle
      exact .inl ⟨_, rfl⟩
    · cases hhandle
  · rw [if_neg hping, if_neg hpong, if_neg hclose] at h
    cases h

theorem finishEvent_some {opcode : UInt8} {payload : Bytes} {compressed : Bool}
    {s t : ReaderState κ} {event : Option WsEvent}
    (h : (s.finishEvent io inflate opcode payload compressed).andThen
      (fun event s => .ok (some event) s) = .ok event t) : t.recvClosed = s.recvClosed := by
  have hr := recvClosed_finishEvent io inflate opcode payload compressed s
  obtain ⟨ev, t', hfin, ht⟩ := Outcome.andThen_eq_ok.mp h
  rw [hfin] at hr
  cases ht
  exact hr

theorem onData_ok {f : Frame} {s t : ReaderState κ} {event : Option WsEvent}
    (h : s.onData io inflate f = .ok event t) : t.recvClosed = s.recvClosed := by
  unfold onData at h
  split_ifs at h with hmid hrsv hfin
  · exact finishEvent_some io inflate h
  · cases h
    rfl

theorem onContinuation_ok {f : Frame} {s t : ReaderState κ} {event : Option WsEvent}
    (h : s.onContinuation io inflate f = .ok event t) : t.recvClosed = s.recvClosed := by
  unfold onContinuation at h
  cases hp : s.partialMessage with
  | none => simp [hp] at h
  | some p =>
    simp only [hp] at h
    by_cases hrsv : f.rsv1 = true
    · rw [if_pos hrsv] at h
      cases h
    rw [if_neg hrsv] at h
    cases hbuf : accumulate p.buf f.payload with
    | error e => simp [hbuf] at h
    | ok buf =>
      simp only [hbuf] at h
      by_cases hfin : f.fin = true
      · rw [if_pos hfin] at h
        exact (finishEvent_some io inflate h).trans rfl
      · rw [if_neg hfin] at h
        cases h
        rfl

theorem onFrame_ok {autoPong : Bool} {f : Frame} {s t : ReaderState κ} {event : Option WsEvent}
    (h : s.onFrame io inflate autoPong f = .ok event t) :
    (∃ close, event = some (.close close)) ∨ t.recvClosed = s.recvClosed := by
  unfold onFrame at h
  split_ifs at h with hcontrol hdata hcont
  · exact onControl_ok io h
  · exact .inr (onData_ok io inflate h)
  · exact .inr (onContinuation_ok io inflate h)

end ReaderState

/-! ## `recv` as one receiver -/

namespace WsReader

variable {κ : Type} (io : Io) (inflate : Inflate κ)

/-- What `recv` makes of an event. -/
def messageOf : WsEvent → Option (Option WsMessage)
  | .text s => some (some (.text s))
  | .binary b => some (some (.binary b))
  | .ping _ | .pong _ => none
  | .close _ => some none

def recvHandler : Handler Frame (Option WsMessage) Error (ReaderState κ) :=
  (handler io inflate true).skip messageOf

/-- An event that is not a close leaves the receiving side open. -/
theorem nextEvent_ok {autoPong : Bool} {r r' : WsReader κ} {event : WsEvent}
    (h : nextEvent io inflate autoPong r = .ok event r') (hev : ∀ close, event ≠ .close close) :
    r'.core.recvClosed = false := by
  unfold nextEvent at h
  split_ifs at h with hclosed
  · cases h
    exact absurd rfl (hev none)
  · refine Receiver.Ends.ok_rule (I := fun s => s.recvClosed = false)
      (Q := fun event s => (∀ close, event ≠ .close close) → s.recvClosed = false) ?_ ?_
      (Receiver.receive_ends stable_frameFormat h) (by simpa using hclosed) hev
    · intro f s t hs hstep
      rcases ReaderState.onFrame_ok io inflate hstep with ⟨close, hcl⟩ | ht
      · cases hcl
      · exact ht.trans hs
    · intro f s t v hs hstep hv
      rcases ReaderState.onFrame_ok io inflate hstep with ⟨close, hcl⟩ | ht
      · exact absurd (Option.some.inj hcl) (hv close)
      · exact ht.trans hs

theorem recv_of_closed {r : WsReader κ} (h : r.core.recvClosed = true) :
    recv io inflate r = .ok none r := by
  have hturn : recvTurn io inflate r = .done (.ok none r) := by
    simp [recvTurn, nextEvent, h]
  exact run_done hturn

/-- While the receiving side is open, `recv` is a receiver of its own. -/
theorem recv_of_open {r : WsReader κ} (h : r.core.recvClosed = false) :
    recv io inflate r = receive stable_frameFormat (recvHandler io inflate) r := by
  refine run_rule (lowers_recvTurn io inflate) (fun r out => r.core.recvClosed = false →
    out = receive stable_frameFormat (recvHandler io inflate) r) ?_ ?_ r h
  · intro r out hdone hopen
    rw [recvHandler, Receiver.receive_skip]
    have hevent : nextEvent io inflate true r =
        receive stable_frameFormat (handler io inflate true) r := by simp [nextEvent, hopen]
    unfold recvTurn at hdone
    rw [hevent] at hdone
    cases hr : receive stable_frameFormat (handler io inflate true) r with
    | error e r' =>
      rw [hr] at hdone
      cases hdone
      rfl
    | ok event r' =>
      rw [hr] at hdone
      cases event <;> cases hdone <;> rfl
  · intro r r' out hnext ih hopen
    have hevent : nextEvent io inflate true r =
        receive stable_frameFormat (handler io inflate true) r := by simp [nextEvent, hopen]
    rw [recvHandler, Receiver.receive_skip]
    unfold recvTurn at hnext
    cases hr : nextEvent io inflate true r with
    | error e q =>
      rw [hr] at hnext
      cases hnext
    | ok event q =>
      rw [hr] at hnext
      have hopen' := nextEvent_ok io inflate hr
      rw [← hevent, hr]
      cases event with
      | ping payload =>
        cases hnext
        exact ih (hopen' (by simp))
      | pong payload =>
        cases hnext
        exact ih (hopen' (by simp))
      | text s => cases hnext
      | binary b => cases hnext
      | close c => cases hnext

end WsReader

end Rsurl.WebSocket

/-!
## The one-shot WebSocket receiver

`read_message`: frames are read until a whole data message is there, or a close, or an error. All
its state is local to the call.
-/

namespace Rsurl.WebSocket

open Library
open Library.Receiver (Feed Handler receive)

/-- What `read_message` returns. -/
inductive Message where
  | data (opcode : UInt8) (payload : Bytes)
  | closed
  deriving DecidableEq, Repr

/-- The variables of `read_message`. -/
structure OneShot (κ : Type) where
  fragOpcode : Option UInt8
  compressed : Bool
  buf : Bytes
  pmd : Option κ
  transport : Transport

namespace OneShot

variable {κ : Type} (io : Io) (inflate : Inflate κ)

/-- Build a frame and write it. -/
def reply (opcode : UInt8) (payload : Bytes) (s : OneShot κ) : Outcome (OneShot κ) Unit :=
  ((s.transport.buildClientFrame io opcode payload).andThen fun frame t =>
    t.put io frame).mapState fun t => { s with transport := t }

def onControl (f : Frame) (s : OneShot κ) : Outcome (OneShot κ) (Option Message) :=
  if f.rsv1 then .error (.badResponse "RSV1 set on a WS control frame") s
  else if !f.fin then
    .error (.badResponse "fragmented control frame (FIN=0 on a control opcode)") s
  else if maxControlPayload < f.payload.length then .error (controlTooLarge f.payload.length) s
  else if f.opcode = opcodePing then
    (s.reply io opcodePong f.payload).andThen fun _ s => .ok none s
  else if f.opcode = opcodePong then .ok none s
  else if f.opcode = opcodeClose then
    match parseClosePayload f.payload with
    | .ok close => .ok (some .closed) (s.reply io opcodeClose (closeEchoPayload close)).state
    | .error status => .error (badCloseError status) (match closePayload status "" with
      | .error _ => s
      | .ok payload => (s.reply io opcodeClose payload).state)
  else .error (unknownControlOpcode f.opcode) s

def finishDataMessage (opcode : UInt8) (payload : Bytes) (s : OneShot κ) :
    Outcome (OneShot κ) Message :=
  (if s.compressed then
    match s.pmd with
    | none =>
      .error (.badResponse "compressed WS message without negotiated permessage-deflate") s
    | some context => match inflate payload context with
      | .error msg context => .error (.badResponse msg) { s with pmd := some context }
      | .ok payload context => .ok payload { s with pmd := some context }
  else .ok payload s : Outcome (OneShot κ) Bytes).andThen fun payload s =>
    if opcode = opcodeText ∧ Text.fromUtf8 payload = none then
      .error (.badResponse "WS TEXT message payload is not valid UTF-8") s
    else .ok (.data opcode payload) s

def onData (f : Frame) (s : OneShot κ) : Outcome (OneShot κ) (Option Message) :=
  if s.fragOpcode.isSome then
    .error (.badResponse "new data frame began while a fragmented message was in progress") s
  else if f.rsv1 && s.pmd.isNone then
    .error (.badResponse "RSV1 set on a WS frame but permessage-deflate was not negotiated") s
  else
    let s := { s with compressed := s.compressed || f.rsv1 }
    match accumulate s.buf f.payload with
    | .error e => .error e s
    | .ok buf =>
      let s := { s with buf := buf }
      if f.fin then
        (s.finishDataMessage inflate f.opcode buf).andThen fun message s => .ok (some message) s
      else .ok none { s with fragOpcode := some f.opcode }

def onContinuation (f : Frame) (s : OneShot κ) : Outcome (OneShot κ) (Option Message) :=
  match s.fragOpcode with
  | none => .error (.badResponse "continuation frame with no message in progress") s
  | some opcode =>
    if f.rsv1 then .error (.badResponse "RSV1 set on a WS continuation frame") s
    else match accumulate s.buf f.payload with
      | .error e => .error e s
      | .ok buf =>
        let s := { s with buf := buf }
        if f.fin then
          (s.finishDataMessage inflate opcode buf).andThen fun message s => .ok (some message) s
        else .ok none s

/-- The body of the loop of `read_message`, for one frame. -/
def onFrame (f : Frame) (s : OneShot κ) : Outcome (OneShot κ) (Option Message) :=
  if f.isControl then s.onControl io f
  else if f.opcode = opcodeText ∨ f.opcode = opcodeBinary then s.onData inflate f
  else if f.opcode = opcodeCont then s.onContinuation inflate f
  else .error (unknownOpcode f.opcode) s

def handler : Handler Frame Message Error (OneShot κ) where
  step := onFrame io inflate
  failed _ s := s

/-- Nothing is buffered before the call. -/
def start (reads : List (Framing.Read ReadFailure UInt8)) (pmd : Option κ) (t : Transport) :
    Feed ReadFailure UInt8 (OneShot κ) :=
  ⟨[], reads, ⟨none, false, [], pmd, t⟩⟩

def readMessage (reads : List (Framing.Read ReadFailure UInt8)) (pmd : Option κ) (t : Transport) :
    Outcome (Feed ReadFailure UInt8 (OneShot κ)) Message :=
  receive stable_frameFormat (handler io inflate) (start reads pmd t)

end OneShot

end Rsurl.WebSocket
