import Rsurl.Aio.WebSocket
import Rsurl.WebSocket.Reader

/-!
# The three WebSocket receivers agree

The blocking reader, the async client and the one-shot reader go through the frames of a server
side by side: one simulation for each of the other two, frame by frame, and from it whole sessions
up to the first error or close.
-/

namespace Rsurl.WebSocket

open Library
open Library.Receiver (Feed Handler Matches Alike Transcript Received receive shownOf outcomeShown)
open Rsurl.Aio (SocketState Socket)

/-! ## What is compared -/

def messageShown : WsMessage → UInt8 × Bytes
  | .text s => (opcodeText, Text.asBytes s)
  | .binary b => (opcodeBinary, b)

/-- The opcode and the payload of a data event. -/
def eventShown : WsEvent → Option (UInt8 × Bytes)
  | .text s => some (opcodeText, Text.asBytes s)
  | .binary b => some (opcodeBinary, b)
  | _ => none

def WsEvent.isClose : WsEvent → Bool
  | .close _ => true
  | _ => false

/-- A data event or a close. -/
def WsEvent.isOutcome (event : WsEvent) : Bool := event.isClose || (eventShown event).isSome

def Message.shown : Message → Option (UInt8 × Bytes)
  | .data opcode payload => some (opcode, payload)
  | .closed => none

/-! ## Sending alike -/

namespace ReaderState

variable {κ : Type} {io : Io} {inflate : Inflate κ}

theorem tryClose_transport {s : ReaderState κ} (h : s.sendClosed = false) (payload : Bytes) :
    (s.tryClose io payload).transport =
      (s.transport.send io afterFailedWrite opcodeClose payload).state := by
  unfold tryClose Transport.send
  cases s.transport.buildClientFrame io opcodeClose payload with
  | error e t => rfl
  | ok frame t =>
    simp only [Transport.writeClose, h, Bool.false_eq_true, if_false, Outcome.ok_andThen]
    cases t.writeAll io afterFailedWrite frame <;> rfl

theorem fail_transport {s : ReaderState κ} (h : s.sendClosed = false) {status : Nat}
    (hs : isValidCloseCode status = true) :
    (s.fail io status).transport =
      (s.transport.send io afterFailedWrite opcodeClose (Endian.toBe 2 status)).state := by
  rw [fail, closePayload_status hs]
  exact tryClose_transport h _

theorem pong_result (payload : Bytes) (s : ReaderState κ) :
    (s.pong io payload).result.isOk =
      (s.transport.send io afterFailedWrite opcodePong payload).result.isOk :=
  congrArg Except.isOk (Outcome.result_mapState _ _)

theorem pong_state (payload : Bytes) (s : ReaderState κ) :
    (s.pong io payload).state =
      { s with transport := (s.transport.send io afterFailedWrite opcodePong payload).state } :=
  Outcome.state_mapState _ _

/-- Without compression, a message is finished by its opcode alone. -/
theorem finishEvent_plain (opcode : UInt8) (payload : Bytes) (s : ReaderState κ) :
    s.finishEvent io inflate opcode payload false =
      if opcode ≠ opcodeText then .ok (.binary payload) s
      else match Text.fromUtf8 payload with
        | some text => .ok (.text text) s
        | none => .error (.badResponse "WS TEXT message payload is not valid UTF-8")
            (s.fail io closeInvalidData) := rfl

end ReaderState

end Rsurl.WebSocket

namespace Rsurl.Aio.SocketState

open Library Rsurl.WebSocket

variable {io : Io}

theorem reply_result (opcode : UInt8) (payload : Bytes) (s : SocketState) :
    (s.reply io opcode payload).result.isOk =
      (s.transport.send io afterPoison opcode payload).result.isOk :=
  congrArg Except.isOk (Outcome.result_mapState _ _)

theorem reply_state (opcode : UInt8) (payload : Bytes) (s : SocketState) :
    (s.reply io opcode payload).state =
      { s with transport := (s.transport.send io afterPoison opcode payload).state } :=
  Outcome.state_mapState _ _

theorem fail_transport {s : SocketState} (h : s.closed = false) {status : Nat}
    (hs : isValidCloseCode status = true) :
    (s.fail io status).transport =
      (s.transport.send io afterPoison opcodeClose (Endian.toBe 2 status)).state := by
  simp only [fail, h, Bool.false_eq_true, if_false, closePayload_status hs, reply_state]

/-- Only a close, or what fails the connection, closes it. -/
theorem onFrame_ok {f : Frame} {s t : SocketState} {message : Option (Option WsMessage)}
    (h : s.onFrame io f = .ok message t) : message = some none ∨ t.closed = s.closed := by
  have hfinish {opcode : UInt8} {payload : Bytes} {q : SocketState}
      (h : q.finish io opcode payload = .ok message t) : t = q := by
    unfold finish at h
    cases hm : buildMessage opcode payload with
    | error e => simp [hm] at h
    | ok m =>
      simp only [hm] at h
      cases h
      rfl
  unfold onFrame at h
  split_ifs at h with hping hpong hclose hdata hcont
  · cases hv : validateControlFrame f with
    | error e => simp [hv] at h
    | ok u =>
      simp only [hv] at h
      obtain ⟨_, t', hreply, ht⟩ := Outcome.andThen_eq_ok.mp h
      have hstate : (s.reply io opcodePong f.payload).state = _ :=
        reply_state opcodePong f.payload s
      rw [hreply] at hstate
      cases ht
      exact .inr ((congrArg SocketState.closed hstate).trans rfl)
  · cases hv : validateControlFrame f with
    | error e => simp [hv] at h
    | ok u =>
      simp only [hv] at h
      cases h
      exact .inr rfl
  · cases hv : validateControlFrame f with
    | error e => simp [hv] at h
    | ok u =>
      simp only [hv, handleClose] at h
      split at h <;> cases h
      exact .inl rfl
  · unfold onData at h
    split_ifs at h
    · exact .inr (congrArg SocketState.closed (hfinish h))
    · cases h
      exact .inr rfl
  · unfold onContinuation at h
    cases hp : s.partialMessage with
    | none => simp [hp] at h
    | some p =>
      simp only [hp] at h
      by_cases hrsv : f.rsv1 = true
      · simp [hrsv] at h
      rw [if_neg hrsv] at h
      cases hbuf : accumulate p.buf f.payload with
      | error e => simp [hbuf] at h
      | ok buf =>
        simp only [hbuf] at h
        by_cases hfin : f.fin = true
        · rw [if_pos hfin] at h
          exact .inr ((congrArg SocketState.closed (hfinish h)).trans rfl)
        · rw [if_neg hfin] at h
          cases h
          exact .inr rfl

end Rsurl.Aio.SocketState

namespace Rsurl.WebSocket

open Library
open Library.Receiver (Feed Handler Matches Alike Transcript Received receive shownOf outcomeShown)
open Rsurl.Aio (SocketState Socket)

variable {κ : Type} {io io' : Io} {inflate : Inflate κ}

/-! ## The blocking reader and the async client -/

/-- The two are in the middle of the same message, and neither has closed. -/
structure SameProgress (s : ReaderState κ) (a : SocketState) : Prop where
  partialMessage : s.partialMessage = a.partialMessage.map fun p => ⟨p.opcode, false, p.buf⟩
  pmd : s.pmd = none
  sendOpen : s.sendClosed = false
  open' : a.closed = false
  transport : s.transport.Alike a.transport

/-- The two have sent the same frames. -/
def SameReplies (s : ReaderState κ) (a : SocketState) : Prop := s.transport.Alike a.transport

/-- One frame, seen by the blocking reader and by the async client. -/
abbrev MatchesAsync (x : Outcome (ReaderState κ) (Option WsEvent))
    (y : Outcome SocketState (Option (Option WsMessage))) : Prop :=
  Matches WsEvent.isClose Option.isNone eventShown (Option.map messageShown) SameProgress
    SameReplies x y

theorem SameProgress.finish (hio : io.Alike io') {s : ReaderState κ} {a : SocketState}
    (h : SameProgress s a) (opcode : UInt8) (payload : Bytes) :
    MatchesAsync ((s.finishEvent io inflate opcode payload false).andThen fun event s =>
      .ok (some event) s) (a.finish io' opcode payload) := by
  rw [ReaderState.finishEvent_plain]
  unfold SocketState.finish SocketState.buildMessage
  by_cases hop : opcode = opcodeText
  · rw [if_neg (not_not.mpr hop), if_pos hop]
    cases Text.fromUtf8 payload with
    | some text =>
      refine .goOn ?_ ?_ rfl h
      · rintro v ⟨⟩
        rfl
      · rintro w ⟨⟩
        rfl
    | none =>
      refine .failed ?_
      rw [SameReplies, ReaderState.fail_transport h.sendOpen rfl,
        SocketState.fail_transport h.open' rfl]
      exact (h.transport.send hio _ _ _ _).2
  · rw [if_pos hop, if_neg hop]
    refine .goOn ?_ ?_ rfl h
    · rintro v ⟨⟩
      rfl
    · rintro w ⟨⟩
      rfl

theorem SameProgress.close (hio : io.Alike io') {s : ReaderState κ} {a : SocketState}
    (h : SameProgress s a) (payload : Bytes) :
    MatchesAsync ((s.handleClose io payload).andThen fun event s => .ok (some event) s)
      (a.handleClose io' payload) := by
  unfold ReaderState.handleClose SocketState.handleClose
  dsimp only
  cases hparse : parseClosePayload payload with
  | ok close =>
    refine .last rfl rfl rfl ?_
    rw [SameReplies, ReaderState.tryClose_transport (s := { s with recvClosed := true }) h.sendOpen,
      SocketState.reply_state]
    exact (h.transport.send hio _ _ _ _).2
  | error status =>
    have hstatus := isValidCloseCode_of_parse hparse
    refine .failed ?_
    rw [SameReplies, ReaderState.fail_transport (s := { s with recvClosed := true }) h.sendOpen hstatus,
      SocketState.fail_transport h.open' hstatus]
    exact (h.transport.send hio _ _ _ _).2

theorem SameProgress.control (hio : io.Alike io') {s : ReaderState κ} {a : SocketState}
    (h : SameProgress s a) {f : Frame} (hf : f.isControl = true) :
    MatchesAsync (s.onControl io true f) (a.onFrame io' f) := by
  have hdata : ¬(f.opcode = opcodeText ∨ f.opcode = opcodeBinary) := by
    rintro (hop | hop) <;> simp [Frame.isControl, hop, opcodeText, opcodeBinary] at hf
  have hcont : ¬f.opcode = opcodeCont := by
    intro hop
    simp [Frame.isControl, hop, opcodeCont] at hf
  unfold ReaderState.onControl SocketState.onFrame
  cases hv : validateControlFrame f with
  | error e =>
    rw [if_neg hdata, if_neg hcont]
    split_ifs <;> exact .failed h.transport
  | ok u =>
    dsimp only
    by_cases hping : f.opcode = opcodePing
    · rw [if_pos hping, if_pos hping, if_pos rfl]
      obtain ⟨hok, hstate⟩ := h.transport.send hio afterFailedWrite SocketState.afterPoison
        opcodePong f.payload
      refine .of_effect ?_ ?_ ?_ ?_ ?_ ?_
      · rw [ReaderState.pong_result, SocketState.reply_result, hok]
      · rw [ReaderState.pong_state, SocketState.reply_state]
        exact hstate
      · intro _
        rw [ReaderState.pong_state, SocketState.reply_state]
        exact ⟨h.partialMessage, h.pmd, h.sendOpen, h.open', hstate⟩
      · intro v hv
        split at hv <;> cases hv
        rfl
      · rintro w ⟨⟩
      · split <;> rfl
    rw [if_neg hping, if_neg hping]
    by_cases hpong : f.opcode = opcodePong
    · rw [if_pos hpong, if_pos hpong]
      refine .goOn ?_ ?_ ?_ h
      · intro v hv
        split at hv <;> cases hv
        rfl
      · rintro w ⟨⟩
      · split <;> rfl
    rw [if_neg hpong, if_neg hpong]
    by_cases hclose : f.opcode = opcodeClose
    · rw [if_pos hclose, if_pos hclose]
      exact h.close hio f.payload
    rw [if_neg hclose, if_neg hclose, if_neg hdata, if_neg hcont]
    exact .failed h.transport

theorem SameProgress.data (hio : io.Alike io') {s : ReaderState κ} {a : SocketState}
    (h : SameProgress s a) (f : Frame) :
    MatchesAsync (s.onData io inflate f) (a.onData io' f) := by
  have hmid : s.partialMessage.isSome = a.partialMessage.isSome := by
    rw [h.partialMessage, Option.isSome_map]
  unfold ReaderState.onData SocketState.onData
  rw [hmid, h.pmd]
  by_cases hp : a.partialMessage.isSome = true
  · rw [if_pos hp, if_pos hp]
    exact .failed h.transport
  rw [if_neg hp, if_neg hp]
  cases hrsv : f.rsv1 with
  | true => exact .failed h.transport
  | false =>
    cases hfin : f.fin with
    | true => exact h.finish hio f.opcode f.payload
    | false =>
      refine .goOn ?_ ?_ rfl ⟨rfl, rfl, h.sendOpen, h.open', h.transport⟩
      · rintro v ⟨⟩
      · rintro w ⟨⟩

theorem SameProgress.continuation (hio : io.Alike io') {s : ReaderState κ} {a : SocketState}
    (h : SameProgress s a) (f : Frame) :
    MatchesAsync (s.onContinuation io inflate f) (a.onContinuation io' f) := by
  unfold ReaderState.onContinuation SocketState.onContinuation
  rw [h.partialMessage]
  cases a.partialMessage with
  | none => exact .failed h.transport
  | some p =>
    simp only [Option.map_some]
    cases hrsv : f.rsv1 with
    | true => exact .failed h.transport
    | false =>
      simp only [Bool.false_eq_true, if_false]
      cases accumulate p.buf f.payload with
      | error e => exact .failed h.transport
      | ok buf =>
        cases hfin : f.fin with
        | true =>
          have hnone : SameProgress { s with partialMessage := none }
              { a with partialMessage := none } :=
            ⟨rfl, h.pmd, h.sendOpen, h.open', h.transport⟩
          exact hnone.finish hio p.opcode buf
        | false =>
          refine .goOn ?_ ?_ rfl ⟨rfl, h.pmd, h.sendOpen, h.open', h.transport⟩
          · rintro v ⟨⟩
          · rintro w ⟨⟩

/-- Every frame means the same to both. -/
theorem alike_async (hio : io.Alike io') :
    Alike frameFormat (WsReader.handler io inflate true) (Socket.handler io') WsEvent.isClose
      Option.isNone eventShown (Option.map messageShown) SameProgress SameReplies where
  step f s a _ h := by
    change MatchesAsync (s.onFrame io inflate true f) (a.onFrame io' f)
    unfold ReaderState.onFrame
    by_cases hcontrol : f.isControl = true
    · rw [if_pos hcontrol]
      exact h.control hio hcontrol
    rw [if_neg hcontrol]
    have hping : ¬f.opcode = opcodePing := by
      intro hop
      simp [Frame.isControl, hop, opcodePing] at hcontrol
    have hpong : ¬f.opcode = opcodePong := by
      intro hop
      simp [Frame.isControl, hop, opcodePong] at hcontrol
    have hclose : ¬f.opcode = opcodeClose := by
      intro hop
      simp [Frame.isControl, hop, opcodeClose] at hcontrol
    unfold SocketState.onFrame
    rw [if_neg hping, if_neg hpong, if_neg hclose]
    by_cases hdata : f.opcode = opcodeText ∨ f.opcode = opcodeBinary
    · rw [if_pos hdata, if_pos hdata]
      exact h.data hio f
    rw [if_neg hdata, if_neg hdata]
    by_cases hcont : f.opcode = opcodeCont
    · rw [if_pos hcont, if_pos hcont]
      exact h.continuation hio f
    rw [if_neg hcont, if_neg hcont]
    exact .failed h.transport
  failed e s a h := by
    change SameReplies (s.onNoFrame e) (a.onNoFrame e)
    unfold ReaderState.onNoFrame SocketState.onNoFrame
    split <;> exact h.transport

/-! ## The blocking reader and the one-shot reader -/

/-- The two are in the middle of the same message, and the connection is usable. -/
structure SameCall (s : ReaderState κ) (o : OneShot κ) : Prop where
  partialMessage : s.partialMessage = o.fragOpcode.map fun opcode => ⟨opcode, false, o.buf⟩
  fresh : o.fragOpcode = none → o.buf = []
  opcode : ∀ opcode, o.fragOpcode = some opcode → opcode = opcodeText ∨ opcode = opcodeBinary
  plain : o.compressed = false
  pmd : s.pmd = none
  pmd' : o.pmd = none
  usable : s.transport.broken = false
  transport : s.transport.Alike o.transport

/-- One frame, seen by the blocking reader and by the one-shot reader. -/
abbrev MatchesOneShot (x : Outcome (ReaderState κ) (Option WsEvent))
    (y : Outcome (OneShot κ) (Option Message)) : Prop :=
  Matches WsEvent.isOutcome (fun _ => true) eventShown Message.shown SameCall (fun _ _ => True) x y

theorem OneShot.reply_eq {s : OneShot κ} (h : s.transport.broken = false) (opcode : UInt8)
    (payload : Bytes) : s.reply io opcode payload =
      (s.transport.send io afterFailedWrite opcode payload).mapState fun t =>
        { s with transport := t } := by
  rw [reply, Transport.send_eq_put h]

theorem OneShot.finish_plain {s : OneShot κ} (h : s.compressed = false) (opcode : UInt8)
    (payload : Bytes) : s.finishDataMessage inflate opcode payload =
      if opcode = opcodeText ∧ Text.fromUtf8 payload = none then
        .error (.badResponse "WS TEXT message payload is not valid UTF-8") s
      else .ok (.data opcode payload) s := by
  simp [finishDataMessage, h]

theorem SameCall.finish {s : ReaderState κ} {o : OneShot κ} (hplain : o.compressed = false)
    {opcode : UInt8} (hop : opcode = opcodeText ∨ opcode = opcodeBinary) (payload : Bytes) :
    MatchesOneShot ((s.finishEvent io inflate opcode payload false).andThen fun event s =>
      .ok (some event) s)
      ((o.finishDataMessage inflate opcode payload).andThen fun message s =>
        .ok (some message) s) := by
  rw [ReaderState.finishEvent_plain, OneShot.finish_plain hplain]
  rcases hop with rfl | rfl
  · rw [if_neg (not_not.mpr rfl)]
    cases htext : Text.fromUtf8 payload with
    | none =>
      rw [if_pos ⟨rfl, rfl⟩]
      exact .failed trivial
    | some text =>
      rw [if_neg (by simp)]
      refine .last rfl rfl ?_ trivial
      simp [eventShown, Message.shown, Text.asBytes_of_fromUtf8 htext]
  · have hne : opcodeBinary ≠ opcodeText := by decide
    rw [if_pos hne, if_neg fun h => hne h.1]
    exact .last rfl rfl rfl trivial

theorem SameCall.data {s : ReaderState κ} {o : OneShot κ} (h : SameCall s o) {f : Frame}
    (hop : f.opcode = opcodeText ∨ f.opcode = opcodeBinary)
    (hlen : f.payload.length ≤ maxPayloadBytes) :
    MatchesOneShot (s.onData io inflate f) (o.onData inflate f) := by
  have hmid : s.partialMessage.isSome = o.fragOpcode.isSome := by
    rw [h.partialMessage, Option.isSome_map]
  unfold ReaderState.onData OneShot.onData
  rw [hmid, h.pmd, h.pmd']
  by_cases hp : o.fragOpcode.isSome = true
  · rw [if_pos hp, if_pos hp]
    exact .failed trivial
  rw [if_neg hp, if_neg hp]
  have hfresh := h.fresh (Option.not_isSome_iff_eq_none.mp hp)
  cases hrsv : f.rsv1 with
  | true => exact .failed trivial
  | false =>
    have hbuf : accumulate o.buf f.payload = .ok f.payload := by
      rw [hfresh]
      simp only [accumulate, List.length_nil, Nat.zero_add, List.nil_append]
      rw [if_neg (by omega)]
    simp only [Bool.false_and, Bool.false_eq_true, if_false, Bool.or_false, hbuf]
    cases hfin : f.fin with
    | true => exact finish (by exact h.plain) hop f.payload
    | false =>
      refine .goOn ?_ ?_ rfl ⟨rfl, by simp, ?_, h.plain, rfl, rfl, h.usable, h.transport⟩
      · rintro v ⟨⟩
      · rintro w ⟨⟩
      · rintro opcode ⟨⟩
        exact hop

theorem SameCall.continuation {s : ReaderState κ} {o : OneShot κ} (h : SameCall s o) (f : Frame) :
    MatchesOneShot (s.onContinuation io inflate f) (o.onContinuation inflate f) := by
  unfold ReaderState.onContinuation OneShot.onContinuation
  rw [h.partialMessage]
  cases hfrag : o.fragOpcode with
  | none => exact .failed trivial
  | some opcode =>
    simp only [Option.map_some]
    cases hrsv : f.rsv1 with
    | true => exact .failed trivial
    | false =>
      simp only [Bool.false_eq_true, if_false]
      cases accumulate o.buf f.payload with
      | error e => exact .failed trivial
      | ok buf =>
        cases hfin : f.fin with
        | true => exact finish (by exact h.plain) (h.opcode opcode hfrag) buf
        | false =>
          refine .goOn ?_ ?_ rfl ⟨?_, ?_, ?_, h.plain, h.pmd, h.pmd', h.usable, h.transport⟩
          · rintro v ⟨⟩
          · rintro w ⟨⟩
          · rfl
          · simp
          · exact fun op hop => h.opcode op (hfrag.trans hop)

theorem SameCall.control (hio : io.Alike io') {s : ReaderState κ} {o : OneShot κ}
    (h : SameCall s o) (f : Frame) :
    MatchesOneShot (s.onControl io true f) (o.onControl io' f) := by
  have husable : o.transport.broken = false := h.transport.broken ▸ h.usable
  unfold ReaderState.onControl OneShot.onControl validateControlFrame
  cases hrsv : f.rsv1 with
  | true => exact .failed trivial
  | false =>
    cases hfin : f.fin with
    | false => exact .failed trivial
    | true =>
      simp only [Bool.false_eq_true, if_false, Bool.not_true]
      by_cases hlen : maxControlPayload < f.payload.length
      · rw [if_pos hlen, if_pos hlen]
        exact .failed trivial
      rw [if_neg hlen, if_neg hlen]
      dsimp only
      by_cases hping : f.opcode = opcodePing
      · rw [if_pos hping, if_pos hping, if_pos trivial]
        obtain ⟨hok, hstate⟩ := h.transport.send hio afterFailedWrite afterFailedWrite opcodePong
          f.payload
        rw [OneShot.reply_eq husable]
        refine .of_effect ?_ trivial ?_ ?_ ?_ ?_
        · rw [ReaderState.pong_result, hok, Outcome.result_mapState]
        · intro hsent
          rw [ReaderState.pong_result] at hsent
          have hbroken := (Transport.broken_send hsent).trans h.usable
          rw [ReaderState.pong_state, Outcome.state_mapState]
          exact ⟨h.partialMessage, h.fresh, h.opcode, h.plain, h.pmd, h.pmd', hbroken, hstate⟩
        · intro v hv
          split at hv <;> cases hv
          rfl
        · rintro w ⟨⟩
        · split <;> rfl
      rw [if_neg hping, if_neg hping]
      by_cases hpong : f.opcode = opcodePong
      · rw [if_pos hpong, if_pos hpong]
        refine .goOn ?_ ?_ ?_ h
        · intro v hv
          split at hv <;> cases hv
          rfl
        · rintro w ⟨⟩
        · split <;> rfl
      rw [if_neg hpong, if_neg hpong]
      by_cases hclose : f.opcode = opcodeClose
      · rw [if_pos hclose, if_pos hclose]
        unfold ReaderState.handleClose
        dsimp only
        cases parseClosePayload f.payload with
        | ok close => exact .last rfl rfl rfl trivial
        | error status => exact .failed trivial
      rw [if_neg hclose, if_neg hclose]
      exact .failed trivial

theorem alike_oneShot (hio : io.Alike io') :
    Alike frameFormat (WsReader.handler io inflate true) (OneShot.handler io' inflate)
      WsEvent.isOutcome (fun _ => true) eventShown Message.shown SameCall (fun _ _ => True) where
  step f s o hf h := by
    obtain ⟨u, n, hparse⟩ := hf
    have hlen : f.payload.length ≤ maxPayloadBytes := tryParseFrame_payload hparse
    change MatchesOneShot (s.onFrame io inflate true f) (o.onFrame io' inflate f)
    unfold ReaderState.onFrame OneShot.onFrame
    by_cases hcontrol : f.isControl = true
    · rw [if_pos hcontrol, if_pos hcontrol]
      exact h.control hio f
    rw [if_neg hcontrol, if_neg hcontrol]
    by_cases hdata : f.opcode = opcodeText ∨ f.opcode = opcodeBinary
    · rw [if_pos hdata, if_pos hdata]
      exact h.data hdata hlen
    rw [if_neg hdata, if_neg hdata]
    by_cases hcont : f.opcode = opcodeCont
    · rw [if_pos hcont, if_pos hcont]
      exact h.continuation f
    rw [if_neg hcont, if_neg hcont]
    exact .failed trivial
  failed e s o h := trivial

/-! ## Sessions -/

theorem usesUp_nextEvent (io : Io) (inflate : Inflate κ) :
    Receiver.UsesUp (WsReader.nextEvent io inflate true) WsEvent.isClose := by
  intro r event r' h hlast
  refine WsReader.nextEvent_lt io inflate h ?_
  rintro rfl
  cases hlast

/-- Events up to the first error or close, pings answered. -/
def WsReader.session (io : Io) (inflate : Inflate κ) (r : WsReader κ) :
    List (WsEvent × Bytes) × Outcome (WsReader κ) WsEvent :=
  Receiver.session (WsReader.nextEvent io inflate true) WsEvent.isClose (usesUp_nextEvent io inflate)
    r

theorem usesUp_recvInner (io : Io) : Receiver.UsesUp (Socket.recvInner io) Option.isNone := by
  intro r message r' h hlast
  unfold Socket.recvInner at h
  split at h
  · cases h
    cases hlast
  · exact Receiver.receive_lt stable_frameFormat h

/-- Messages up to the first error or close. -/
def socketSession (io : Io) (r : Socket) :
    List (Option WsMessage × Bytes) × Outcome Socket (Option WsMessage) :=
  Receiver.session (Socket.recvInner io) Option.isNone (usesUp_recvInner io) r

theorem session_transcript {r : WsReader κ} (hopen : r.core.recvClosed = false)
    (hdata : ∀ x ∈ r.reads, x.isData) :
    Transcript frameFormat (WsReader.handler io inflate true) WsEvent.isClose r.unread r.core
      (WsReader.session io inflate r).1 ((WsReader.session io inflate r).2.mapState Feed.view) := by
  refine Receiver.session_transcript (usesUp_nextEvent io inflate)
    (I := fun s => s.recvClosed = false) ?_ r hopen hdata
  intro r hopen hdata
  have hnext : WsReader.nextEvent io inflate true r =
      receive stable_frameFormat (WsReader.handler io inflate true) r := by
    simp [WsReader.nextEvent, hopen]
  have hr : Received frameFormat (WsReader.handler io inflate true) r _ :=
    Receiver.receive_received stable_frameFormat r
  obtain ⟨hends, hreads⟩ := hr.ends_of_isData hdata
  rw [hnext]
  refine ⟨hends, hreads, ?_⟩
  intro event r' hr hlast
  refine WsReader.nextEvent_ok io inflate (hnext.trans hr) ?_
  rintro close rfl
  cases hlast

theorem socketSession_transcript {r : Socket} (hopen : r.core.closed = false)
    (hdata : ∀ x ∈ r.reads, x.isData) :
    Transcript frameFormat (Socket.handler io) Option.isNone r.unread r.core
      (socketSession io r).1 ((socketSession io r).2.mapState Feed.view) := by
  refine Receiver.session_transcript (usesUp_recvInner io) (I := fun s => s.closed = false) ?_ r
    hopen hdata
  intro r hopen hdata
  have hnext : Socket.recvInner io r = receive stable_frameFormat (Socket.handler io) r := by
    simp [Socket.recvInner, hopen]
  have hr : Received frameFormat (Socket.handler io) r _ :=
    Receiver.receive_received stable_frameFormat r
  obtain ⟨hends, hreads⟩ := hr.ends_of_isData hdata
  rw [hnext]
  refine ⟨hends, hreads, ?_⟩
  intro message r' hr hlast
  refine Receiver.Ends.ok_rule (I := fun s : SocketState => s.closed = false)
    (Q := fun (m : Option WsMessage) (s : SocketState) => m.isNone = false → s.closed = false) ?_ ?_
    (Receiver.receive_ends stable_frameFormat hr) hopen hlast
  · intro f s t hs hstep
    rcases SocketState.onFrame_ok hstep with hnone | ht
    · cases hnone
    · exact ht.trans hs
  · intro f s t v hs hstep hv
    rcases SocketState.onFrame_ok hstep with hnone | ht
    · cases hnone
      cases hv
    · exact ht.trans hs

/-- The first data message of a session, or else how it ended; with what was unread then. -/
def firstOutcome (session : List (WsEvent × Bytes) × Outcome (WsReader κ) WsEvent) :
    Option (Option (UInt8 × Bytes)) × Bytes :=
  match shownOf eventShown session.1 with
  | (message, unread) :: _ => (some (some message), unread)
  | [] => (outcomeShown eventShown session.2, session.2.state.unread)

/-- Cut at the first data message or close, a session is its first outcome. -/
theorem cut_firstOutcome {events : List (WsEvent × Bytes)} {out : Outcome (WsReader κ) WsEvent}
    (h : ∀ x ∈ events, x.1.isClose = false) :
    ((Receiver.cutOutcome WsEvent.isOutcome events (out.mapState Feed.view)).1.toOption.map
        eventShown, (Receiver.cutOutcome WsEvent.isOutcome events (out.mapState Feed.view)).2) =
      firstOutcome (events, out) := by
  induction events with
  | nil => cases out <;> rfl
  | cons x rest ih =>
    obtain ⟨event, u⟩ := x
    have hclose : event.isClose = false := h (event, u) List.mem_cons_self
    have hrest := ih fun x hx => h x (List.mem_cons_of_mem _ hx)
    cases hshown : eventShown event with
    | some d =>
      have hout : event.isOutcome = true := by simp [WsEvent.isOutcome, hshown]
      simp [Receiver.cutOutcome, firstOutcome, shownOf, hout, hshown, Except.toOption]
    | none =>
      have hout : event.isOutcome = false := by simp [WsEvent.isOutcome, hclose, hshown]
      have hskip : shownOf eventShown ((event, u) :: rest) = shownOf eventShown rest := by
        simp [shownOf, hshown]
      unfold firstOutcome at hrest ⊢
      simp only [hskip]
      simpa [Receiver.cutOutcome, hout] using hrest

theorem outcomeShown_mapState {σ τ γ δ : Type} (shown : γ → Option δ) (out : Outcome σ γ)
    (f : σ → τ) : outcomeShown shown (out.mapState f) = outcomeShown shown out := by
  cases out <;> rfl

theorem outcomeShown_result {σ γ δ : Type} (shown : γ → Option δ) (out : Outcome σ γ) :
    outcomeShown shown out = out.result.toOption.map shown := by
  cases out <;> rfl

/-- On the same bytes of a server, whatever reads bring them, the three receivers yield the same
messages with the same left unread, and end alike; the two long-lived ones reply the same. -/
theorem receivers_agree {io'' : Io} (hio : io.Alike io') (hio' : io.Alike io'') {rx rx' : Bytes}
    {reads reads' reads'' : List (Framing.Read ReadFailure UInt8)}
    (hdata : ∀ x ∈ reads, x.isData) (hdata' : ∀ x ∈ reads', x.isData)
    (hdata'' : ∀ x ∈ reads'', x.isData)
    (hbytes : Framing.unread rx' reads' = Framing.unread rx reads)
    (hbytes' : Framing.unread [] reads'' = Framing.unread rx reads) :
    let blocking := WsReader.session io inflate ⟨rx, reads, .new none⟩
    let async := socketSession io' ⟨rx', reads', .new⟩
    let oneShot := OneShot.readMessage io'' inflate reads'' none .new
    shownOf eventShown blocking.1 = shownOf (Option.map messageShown) async.1 ∧
      outcomeShown eventShown blocking.2 = outcomeShown (Option.map messageShown) async.2 ∧
      blocking.2.state.unread = async.2.state.unread ∧
      List.Forall₂ SameFrame blocking.2.state.core.transport.sent
        async.2.state.core.transport.sent ∧
      (outcomeShown Message.shown oneShot, oneShot.state.unread) = firstOutcome blocking := by
  intro blocking async oneShot
  have hblocking : Transcript frameFormat (WsReader.handler io inflate true) WsEvent.isClose
      (Framing.unread rx reads) (.new none) blocking.1 (blocking.2.mapState Feed.view) :=
    session_transcript (r := ⟨rx, reads, .new none⟩) rfl hdata
  have hasync : Transcript frameFormat (Socket.handler io') Option.isNone
      (Framing.unread rx reads) .new async.1 (async.2.mapState Feed.view) := by
    rw [← hbytes]
    exact socketSession_transcript (r := ⟨rx', reads', .new⟩) rfl hdata'
  have hone : Transcript frameFormat (OneShot.handler io'' inflate) (fun _ => true)
      (Framing.unread rx reads) (OneShot.start reads'' none .new).core []
      (oneShot.mapState Feed.view) := by
    have hr : Received frameFormat (OneShot.handler io'' inflate) (OneShot.start reads'' none .new)
      oneShot := Receiver.receive_received stable_frameFormat _
    have hends := (hr.ends_of_isData hdata'').1
    rw [← hbytes']
    cases hout : oneShot with
    | ok v r => exact (hout ▸ hends).transcript_last rfl
    | error e r => exact (hout ▸ hends).transcript_error
  obtain ⟨hshown, hkind, hunread, hsent⟩ := hblocking.alike stable_frameFormat
    (alike_async hio) ⟨rfl, rfl, rfl, rfl, .refl_new⟩ hasync
  obtain ⟨events, out, hcut, hevents, hout⟩ := hblocking.cut
    (fun event h => by simp [WsEvent.isOutcome, h] : ∀ event, _ → WsEvent.isOutcome event = true)
  obtain ⟨-, hkind', hunread', -⟩ := hcut.alike stable_frameFormat (alike_oneShot hio')
    ⟨rfl, fun _ => rfl, by rintro _ ⟨⟩, rfl, rfl, rfl, rfl, .refl_new⟩ hone
  have hfirst := @cut_firstOutcome κ blocking.1 blocking.2 hblocking.not_last
  rw [← hout, ← outcomeShown_result, hkind', hunread', outcomeShown_mapState,
    Outcome.state_mapState] at hfirst
  rw [outcomeShown_mapState, outcomeShown_mapState] at hkind
  rw [Outcome.state_mapState, Outcome.state_mapState] at hunread hsent
  exact ⟨hshown, hkind, hunread, hsent.sent, hfirst⟩

/-- A ping, a text in two fragments and a close, in one read, in three, and one read a frame. -/
theorem receivers_agree_fragmentedText :
    let io := Io.steady ⟨1, 2, 3, 4⟩
    let io' := Io.steady ⟨5, 6, 7, 8⟩
    let reads : List (Framing.Read ReadFailure UInt8) :=
      [.data 0x89 [1, 0x70, 0x01, 1, 0x68, 0x80, 1, 0x69, 0x88, 0]]
    let reads' : List (Framing.Read ReadFailure UInt8) :=
      [.data 0x89 [], .data 1 [0x70, 0x01, 1, 0x68, 0x80], .data 1 [0x69, 0x88, 0]]
    let reads'' : List (Framing.Read ReadFailure UInt8) :=
      [.data 0x89 [1, 0x70], .data 0x01 [1, 0x68], .data 0x80 [1, 0x69], .data 0x88 [0]]
    let blocking := WsReader.session io (fun p (c : Unit) => .ok p c) ⟨[], reads, .new none⟩
    let async := socketSession io' ⟨[], reads', .new⟩
    let oneShot := OneShot.readMessage io (fun p (c : Unit) => .ok p c) reads'' none .new
    shownOf eventShown blocking.1 = shownOf (Option.map messageShown) async.1 ∧
      outcomeShown eventShown blocking.2 = outcomeShown (Option.map messageShown) async.2 ∧
      blocking.2.state.unread = async.2.state.unread ∧
      List.Forall₂ SameFrame blocking.2.state.core.transport.sent
        async.2.state.core.transport.sent ∧
      (outcomeShown Message.shown oneShot, oneShot.state.unread) = firstOutcome blocking :=
  receivers_agree (Io.alike_steady _ _) (Io.alike_steady _ _) (by decide) (by decide) (by decide)
    (by decide) (by decide)

end Rsurl.WebSocket
