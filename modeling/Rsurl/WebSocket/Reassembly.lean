import Rsurl.WebSocket.Reader

/-!
# Reassembly is transparent

What a server sends in fragments, the reader delivers as if every message had come in one frame,
whatever reads bring the bytes and wherever a read times out. `unfragmented` is the traffic with the
fragments of each message joined; the reader of the fragments and the reader of the joined frames
are simulated frame by frame.
-/

namespace Rsurl.WebSocket

open Library
open Library.Receiver (Feed Handler Ends Silent Received)

/-! ## Traffic -/

/-- The bytes of frames. -/
def encode (frames : List Frame) : Bytes := frames.flatMap serverFrame

/-- What a server may send, inside the message `p` or between messages: messages in one frame or
more, with control frames anywhere. RSV1 is for compressed messages. -/
inductive Traffic (compression : Bool) : Option PartialMessage → List Frame → Prop where
  | nil (p : Option PartialMessage) : Traffic compression p []
  | control {p : Option PartialMessage} {f : Frame} {rest : List Frame} (hf : f.Wf)
      (hop : f.opcode = opcodePing ∨ f.opcode = opcodePong ∨ f.opcode = opcodeClose)
      (hfin : f.fin = true) (hrsv : f.rsv1 = false) (h : Traffic compression p rest) :
      Traffic compression p (f :: rest)
  | single {f : Frame} {rest : List Frame} (hf : f.Wf)
      (hop : f.opcode = opcodeText ∨ f.opcode = opcodeBinary) (hfin : f.fin = true)
      (hrsv : f.rsv1 = true → compression = true) (h : Traffic compression none rest) :
      Traffic compression none (f :: rest)
  | first {f : Frame} {rest : List Frame} (hf : f.Wf)
      (hop : f.opcode = opcodeText ∨ f.opcode = opcodeBinary) (hfin : f.fin = false)
      (hrsv : f.rsv1 = true → compression = true)
      (h : Traffic compression (some ⟨f.opcode, f.rsv1, f.payload⟩) rest) :
      Traffic compression none (f :: rest)
  | middle {q : PartialMessage} {f : Frame} {rest : List Frame} (hf : f.Wf)
      (hop : f.opcode = opcodeCont) (hfin : f.fin = false) (hrsv : f.rsv1 = false)
      (hlen : q.buf.length + f.payload.length ≤ maxPayloadBytes)
      (h : Traffic compression (some { q with buf := q.buf ++ f.payload }) rest) :
      Traffic compression (some q) (f :: rest)
  | final {q : PartialMessage} {f : Frame} {rest : List Frame} (hf : f.Wf)
      (hop : f.opcode = opcodeCont) (hfin : f.fin = true) (hrsv : f.rsv1 = false)
      (hlen : q.buf.length + f.payload.length ≤ maxPayloadBytes)
      (h : Traffic compression none rest) : Traffic compression (some q) (f :: rest)

/-- The frame of a message that has all its fragments. -/
def PartialMessage.joined (q : PartialMessage) : Frame := ⟨true, q.compressed, q.opcode, q.buf⟩

/-- The same messages in one frame each, sent when the last fragment was. -/
def unfragmented : Option PartialMessage → List Frame → List Frame
  | _, [] => []
  | p, f :: rest =>
    if f.isControl then f :: unfragmented p rest
    else match p with
      | none =>
        if f.fin then f :: unfragmented none rest
        else unfragmented (some ⟨f.opcode, f.rsv1, f.payload⟩) rest
      | some q =>
        let q := { q with buf := q.buf ++ f.payload }
        if f.fin then q.joined :: unfragmented none rest else unfragmented (some q) rest

/-- The payloads of the pings. -/
def pings (frames : List Frame) : List Bytes :=
  (frames.filter fun f => f.opcode = opcodePing).map Frame.payload

/-- The payloads of the pongs that were sent. -/
def pongs (sent : List Bytes) : List Bytes :=
  ((sent.filterMap readClientFrame).filter fun f => f.opcode = opcodePong).map Frame.payload

theorem pongs_append (sent more : List Bytes) : pongs (sent ++ more) = pongs sent ++ pongs more := by
  simp [pongs]

theorem pongs_control {opcode : UInt8} {payload : Bytes} (hop : opcode ≤ 0x0f)
    (hlen : payload.length ≤ maxControlPayload) (m : Mask) :
    pongs [maskedFrame ⟨true, false, opcode, payload⟩ m] =
      if opcode = opcodePong then [payload] else [] := by
  have hread : readClientFrame (maskedFrame ⟨true, false, opcode, payload⟩ m) =
      some ⟨true, false, opcode, payload⟩ :=
    readClientFrame_maskedFrame hop (lt_of_le_of_lt hlen (by decide)) m
  unfold pongs
  simp only [List.filterMap_cons, hread, List.filterMap_nil]
  split_ifs with h
  · simp [h]
  · simp [h]

/-! ## What a frame leaves alone -/

/-- Nothing that matters to the messages to come has changed, and no pong was sent. -/
structure Quiet {κ : Type} (s t : ReaderState κ) : Prop where
  partialMessage : t.partialMessage = s.partialMessage
  pmd : t.pmd.isSome = s.pmd.isSome
  usable : t.transport.broken = false
  pongs : pongs t.transport.sent = pongs s.transport.sent

theorem Quiet.trans {κ : Type} {s t u : ReaderState κ} (h : Quiet s t) (h' : Quiet t u) : Quiet s u :=
  ⟨h'.partialMessage.trans h.partialMessage, h'.pmd.trans h.pmd, h'.usable,
    h'.pongs.trans h.pongs⟩

namespace ReaderState

variable {κ : Type} {io : Io} {inflate : Inflate κ}

theorem quiet_refl {s : ReaderState κ} (h : s.transport.broken = false) : Quiet s s :=
  ⟨rfl, rfl, h, rfl⟩

theorem quiet_tryClose (hio : io.Works) {s : ReaderState κ} (h : s.transport.broken = false)
    {payload : Bytes} (hlen : payload.length ≤ maxControlPayload) :
    Quiet s (s.tryClose io payload) := by
  obtain ⟨m, hm⟩ := hio.random s.transport.draws
  have hpong := pongs_control (by decide : opcodeClose ≤ 0x0f) hlen m
  rw [if_neg (by decide)] at hpong
  unfold tryClose Transport.buildClientFrame WebSocket.buildClientFrame buildClientFrameInner
  simp only [hm, Except.map, Outcome.ofExcept, Transport.writeClose]
  cases s.sendClosed with
  | true => exact ⟨rfl, rfl, h, rfl⟩
  | false =>
    simp only [Bool.false_eq_true, if_false, Transport.writeAll, Transport.put, h, hio.write,
      Outcome.andThen, Outcome.state]
    refine ⟨rfl, rfl, rfl, ?_⟩
    rw [pongs_append, hpong, List.append_nil]

theorem quiet_fail (hio : io.Works) {s : ReaderState κ} (h : s.transport.broken = false)
    {status : Nat} (hs : isValidCloseCode status = true) : Quiet s (s.fail io status) := by
  rw [fail, closePayload_status hs]
  exact quiet_tryClose hio h (by simp [maxControlPayload])

/-- A message that ends, well or not, is no timeout. -/
theorem finishEvent_quiet (hio : io.Works) {s : ReaderState κ} (h : s.transport.broken = false)
    (opcode : UInt8) (payload : Bytes) (compressed : Bool) :
    (s.finishEvent io inflate opcode payload compressed).Post (fun _ t => Quiet s t)
      fun e t => Quiet s t ∧ ∃ msg, e = .badResponse msg := by
  have hinflate : (s.inflateMessage inflate payload compressed).Post (fun _ t => Quiet s t)
      fun e t => Quiet s t ∧ ∃ msg, e = .badResponse msg := by
    unfold inflateMessage
    cases compressed with
    | false => exact quiet_refl h
    | true =>
      rw [if_pos rfl]
      cases hpmd : s.pmd with
      | none => exact ⟨quiet_refl h, _, rfl⟩
      | some context =>
        simp only
        cases inflate payload context with
        | error msg context => exact ⟨⟨rfl, by rw [hpmd]; rfl, h, rfl⟩, _, rfl⟩
        | ok payload context => exact ⟨rfl, by rw [hpmd]; rfl, h, rfl⟩
  refine Outcome.post_andThen hinflate ?_
  intro payload t ht
  split_ifs
  · exact ht
  · split
    · exact ht
    · exact ⟨ht.trans (quiet_fail hio ht.usable rfl), _, rfl⟩

theorem handleClose_quiet (hio : io.Works) {s : ReaderState κ} (h : s.transport.broken = false)
    (payload : Bytes) : (s.handleClose io payload).Post (fun _ t => Quiet s t)
      fun e t => Quiet s t ∧ ∃ msg, e = .badResponse msg := by
  have hclosed : Quiet s { s with recvClosed := true } := ⟨rfl, rfl, h, rfl⟩
  unfold handleClose
  dsimp only
  cases hp : parseClosePayload payload with
  | ok close =>
    have hlen : (closeEchoPayload close).length ≤ maxControlPayload := by
      cases close <;> simp [closeEchoPayload, maxControlPayload]
    exact hclosed.trans (quiet_tryClose hio (by exact h) hlen)
  | error status =>
    exact ⟨hclosed.trans (quiet_fail hio (by exact h) (isValidCloseCode_of_parse hp)), _, rfl⟩

/-- The same reader between two messages. -/
def withoutPartial (s : ReaderState κ) : ReaderState κ := { s with partialMessage := none }

theorem withoutPartial_eq {s : ReaderState κ} (h : s.partialMessage = none) :
    s.withoutPartial = s := by
  cases s
  cases h
  rfl

theorem tryClose_withoutPartial (payload : Bytes) (s : ReaderState κ) :
    s.withoutPartial.tryClose io payload = (s.tryClose io payload).withoutPartial := by
  have htransport : s.withoutPartial.transport = s.transport := rfl
  unfold tryClose
  rw [htransport]
  cases s.transport.buildClientFrame io opcodeClose payload <;> rfl

theorem handleClose_withoutPartial (payload : Bytes) (s : ReaderState κ) :
    s.withoutPartial.handleClose io payload =
      (s.handleClose io payload).mapState withoutPartial := by
  unfold handleClose
  dsimp only
  cases hp : parseClosePayload payload with
  | ok close => exact congrArg (Outcome.ok _) (tryClose_withoutPartial _ { s with recvClosed := true })
  | error status =>
    have hs := closePayload_status (isValidCloseCode_of_parse hp)
    simp only [fail, hs, Outcome.mapState]
    exact congrArg (Outcome.error _) (tryClose_withoutPartial _ { s with recvClosed := true })

end ReaderState

/-! ## Frame by frame -/

variable {κ : Type} {io : Io} {inflate : Inflate κ} {compression : Bool}

open WsReader (recvHandler)

/-- The reader is in the middle of traffic, with these frames to come. -/
structure Ready (compression : Bool) (s : ReaderState κ) (frames : List Frame) : Prop where
  traffic : Traffic compression s.partialMessage frames
  opened : ∀ q, s.partialMessage = some q →
    (q.opcode = opcodeText ∨ q.opcode = opcodeBinary) ∧ (q.compressed = true → compression = true)
  pmd : s.pmd.isSome = compression
  usable : s.transport.broken = false

/-- What a frame does to the reader of the joined frames: nothing, as it is part of one that is
still to come; or it brings the frame `g`, which does the same there. -/
def Follows (io : Io) (inflate : Inflate κ) (f : Frame) (rest : List Frame) (s : ReaderState κ) :
    Prop :=
  let x := (recvHandler io inflate).step f s
  (∃ t, x = .ok none t ∧ t.withoutPartial = s.withoutPartial ∧
      unfragmented s.partialMessage (f :: rest) = unfragmented t.partialMessage rest) ∨
    ∃ g : Frame, g.Wf ∧ (recvHandler io inflate).step g s.withoutPartial =
      x.mapState ReaderState.withoutPartial ∧
      unfragmented s.partialMessage (f :: rest) = g :: unfragmented x.state.partialMessage rest

/-- A frame of valid traffic: the reader goes on, answers a ping, and fails with no timeout. -/
structure Stepped (io : Io) (inflate : Inflate κ) (compression : Bool) (f : Frame)
    (rest : List Frame) (s : ReaderState κ) : Prop where
  ready : Ready compression ((recvHandler io inflate).step f s).state rest
  pongs : pongs ((recvHandler io inflate).step f s).state.transport.sent =
    pongs s.transport.sent ++ pings [f]
  noTimeout : ∀ e t, (recvHandler io inflate).step f s = .error e t → ∃ msg, e = .badResponse msg
  follows : Follows io inflate f rest s

/-! ### Control frames -/

theorem step_control {f : Frame} (hf : f.Wf) (hcontrol : f.isControl = true) (hfin : f.fin = true)
    (hrsv : f.rsv1 = false) (s : ReaderState κ) :
    (recvHandler io inflate).step f s =
      if f.opcode = opcodePing then (s.pong io f.payload).andThen fun _ s => .ok none s
      else if f.opcode = opcodePong then .ok none s
      else if f.opcode = opcodeClose then (s.handleClose io f.payload).andThen fun event s =>
        .ok (WsReader.messageOf event) s
      else .error (unknownControlOpcode f.opcode) s := by
  have hvalid : validateControlFrame f = .ok () := by
    have hlen := hf.control hcontrol
    simp [validateControlFrame, hfin, hrsv, hlen]
  change (s.onFrame io inflate true f).andThen _ = _
  unfold ReaderState.onFrame ReaderState.onControl
  rw [if_pos hcontrol, hvalid]
  dsimp only
  by_cases hping : f.opcode = opcodePing
  · simp only [if_pos hping, if_true, Outcome.andThen_assoc, Outcome.ok_andThen]
    congr 1
    funext _ t
    split <;> rfl
  by_cases hpong : f.opcode = opcodePong
  · simp only [if_neg hping, if_pos hpong, Outcome.ok_andThen]
    split <;> rfl
  by_cases hclose : f.opcode = opcodeClose
  · simp only [if_neg hping, if_neg hpong, if_pos hclose, Outcome.andThen_assoc]
    rfl
  · simp only [if_neg hping, if_neg hpong, if_neg hclose]
    rfl

/-- A frame that does quietly what the frame `g` does between messages. -/
theorem Stepped.of_quiet {f g : Frame} {rest : List Frame} {s s₀ : ReaderState κ}
    {x : Outcome (ReaderState κ) (Option (Option WsMessage))} (h₀ : Ready compression s₀ rest)
    (hsent : s₀.transport.sent = s.transport.sent) (hs : (recvHandler io inflate).step f s = x)
    (hx : x.Post (fun _ t => Quiet s₀ t) fun e t => Quiet s₀ t ∧ ∃ msg, e = .badResponse msg)
    (hg : g.Wf) (hstep : (recvHandler io inflate).step g s.withoutPartial =
      x.mapState ReaderState.withoutPartial) (hpings : pings [f] = [])
    (hunfrag : unfragmented s.partialMessage (f :: rest) =
      g :: unfragmented s₀.partialMessage rest) : Stepped io inflate compression f rest s := by
  have hquiet : Quiet s₀ x.state := by
    cases x with
    | ok v t => exact hx
    | error e t => exact hx.1
  subst hs
  refine ⟨⟨?_, ?_, ?_, hquiet.usable⟩, ?_, ?_, .inr ⟨g, hg, hstep, ?_⟩⟩
  · rw [hquiet.partialMessage]
    exact h₀.traffic
  · rw [hquiet.partialMessage]
    exact h₀.opened
  · exact hquiet.pmd.trans h₀.pmd
  · rw [hquiet.pongs, hsent, hpings, List.append_nil]
  · intro e t he
    rw [he] at hx
    exact hx.2
  · rw [hquiet.partialMessage]
    exact hunfrag

/-- A ping is answered by one pong with its payload. -/
theorem Ready.ping (hio : io.Works) {f : Frame} {rest : List Frame} {s : ReaderState κ}
    (h : Ready compression s rest) (hf : f.Wf) (hop : f.opcode = opcodePing)
    (hcontrol : f.isControl = true) (hfin : f.fin = true) (hrsv : f.rsv1 = false)
    (hunfrag : unfragmented s.partialMessage (f :: rest) =
      f :: unfragmented s.partialMessage rest) : Stepped io inflate compression f rest s := by
  obtain ⟨m, hm⟩ := Transport.send_works hio h.usable afterFailedWrite opcodePong f.payload
  have hs (t : ReaderState κ) (ht : t.transport = s.transport) :
      (recvHandler io inflate).step f t = .ok none { t with transport :=
        ⟨s.transport.sent ++ [maskedFrame ⟨true, false, opcodePong, f.payload⟩ m],
          s.transport.draws + 1, s.transport.writes + 1, false⟩ } := by
    rw [step_control hf hcontrol hfin hrsv, if_pos hop, ReaderState.pong, ht, hm]
    rfl
  refine ⟨?_, ?_, ?_, .inr ⟨f, hf, ?_, ?_⟩⟩
  · rw [hs s rfl]
    exact ⟨h.traffic, h.opened, h.pmd, rfl⟩
  · rw [hs s rfl]
    simp only [Outcome.state, pongs_append]
    rw [pongs_control (by decide) (hf.control hcontrol), if_pos rfl]
    simp [pings, hop]
  · intro e t he
    rw [hs s rfl] at he
    cases he
  · rw [hs s rfl, hs s.withoutPartial rfl]
    rfl
  · rw [hs s rfl]
    exact hunfrag

theorem Ready.control (hio : io.Works) {f : Frame} {rest : List Frame} {s : ReaderState κ}
    (h : Ready compression s rest) (hf : f.Wf)
    (hop : f.opcode = opcodePing ∨ f.opcode = opcodePong ∨ f.opcode = opcodeClose)
    (hfin : f.fin = true) (hrsv : f.rsv1 = false) : Stepped io inflate compression f rest s := by
  have hcontrol : f.isControl = true := by
    rcases hop with hop | hop | hop <;>
      simp [Frame.isControl, hop, opcodePing, opcodePong, opcodeClose]
  have hstep (t : ReaderState κ) : (recvHandler io inflate).step f t = _ :=
    step_control hf hcontrol hfin hrsv t
  have hunfrag : unfragmented s.partialMessage (f :: rest) =
      f :: unfragmented s.partialMessage rest := by
    rw [unfragmented.eq_def]
    exact if_pos hcontrol
  rcases hop with hop | hop | hop
  · exact h.ping hio hf hop hcontrol hfin hrsv hunfrag
  · have hs (t : ReaderState κ) : (recvHandler io inflate).step f t = .ok none t := by
      rw [hstep, if_neg (by rw [hop]; decide), if_pos hop]
    refine Stepped.of_quiet h rfl (hs s) (ReaderState.quiet_refl h.usable) hf (hs _) ?_ hunfrag
    simp [pings, hop, opcodePing, opcodePong]
  · have hs (t : ReaderState κ) : (recvHandler io inflate).step f t =
        (t.handleClose io f.payload).andThen fun event t => .ok (WsReader.messageOf event) t := by
      rw [hstep, if_neg (by rw [hop]; decide), if_neg (by rw [hop]; decide), if_pos hop]
    refine Stepped.of_quiet h rfl (hs s) ?_ hf ?_ ?_ hunfrag
    · exact Outcome.post_andThen (ReaderState.handleClose_quiet hio h.usable f.payload)
        fun _ _ ht => ht
    · rw [hs, ReaderState.handleClose_withoutPartial]
      cases s.handleClose io f.payload <;> rfl
    · simp [pings, hop, opcodePing, opcodeClose]

/-! ### Data frames -/

theorem not_isControl {f : Frame}
    (h : f.opcode = opcodeText ∨ f.opcode = opcodeBinary ∨ f.opcode = opcodeCont) :
    ¬f.isControl = true ∧ pings [f] = [] := by
  rcases h with h | h | h <;>
    simp [Frame.isControl, pings, h, opcodeText, opcodeBinary, opcodeCont, opcodePing]

/-- A message in one frame. -/
theorem step_single {g : Frame} (hop : g.opcode = opcodeText ∨ g.opcode = opcodeBinary)
    (hfin : g.fin = true) (hrsv : g.rsv1 = true → compression = true) {s : ReaderState κ}
    (hnone : s.partialMessage = none) (hpmd : s.pmd.isSome = compression) :
    (recvHandler io inflate).step g s =
      (s.finishEvent io inflate g.opcode g.payload g.rsv1).andThen fun event s =>
        .ok (WsReader.messageOf event) s := by
  have hcontrol := (not_isControl (hop.imp_right .inl)).1
  have hplain : ¬(g.rsv1 && s.pmd.isNone) = true := by
    intro h
    obtain ⟨hr, hn⟩ := Bool.and_eq_true_iff.mp h
    have hsome := hpmd.trans (hrsv hr)
    rw [Option.isNone_iff_eq_none.mp hn] at hsome
    cases hsome
  change (s.onFrame io inflate true g).andThen _ = _
  rw [ReaderState.onFrame, if_neg hcontrol, if_pos hop, ReaderState.onData, hnone, if_neg (by simp),
    if_neg hplain, if_pos hfin, Outcome.andThen_assoc]
  rfl

theorem mapState_withoutPartial {x : Outcome (ReaderState κ) (Option (Option WsMessage))}
    (h : x.state.partialMessage = none) : x.mapState ReaderState.withoutPartial = x := by
  cases x with
  | ok v t => exact congrArg _ (ReaderState.withoutPartial_eq h)
  | error e t => exact congrArg _ (ReaderState.withoutPartial_eq h)

/-- A frame that ends a message does what the frame `g` of the whole message does. -/
theorem Stepped.of_message (hio : io.Works) {f g : Frame} {rest : List Frame} {s : ReaderState κ}
    (h₀ : Ready compression s.withoutPartial rest) (hg : g.Wf)
    (hop : g.opcode = opcodeText ∨ g.opcode = opcodeBinary) (hfin : g.fin = true)
    (hrsv : g.rsv1 = true → compression = true)
    (hs : (recvHandler io inflate).step f s = (recvHandler io inflate).step g s.withoutPartial)
    (hpings : pings [f] = []) (hunfrag : unfragmented s.partialMessage (f :: rest) =
      g :: unfragmented none rest) : Stepped io inflate compression f rest s := by
  have hsingle : (recvHandler io inflate).step g s.withoutPartial = _ :=
    step_single hop hfin hrsv rfl h₀.pmd
  have hquiet : Outcome.Post ((recvHandler io inflate).step g s.withoutPartial)
      (fun _ t => Quiet s.withoutPartial t)
      fun e t => Quiet s.withoutPartial t ∧ ∃ msg, e = .badResponse msg := by
    rw [hsingle]
    exact Outcome.post_andThen (ReaderState.finishEvent_quiet hio h₀.usable _ _ _) fun _ _ ht => ht
  have hnone : ((recvHandler io inflate).step g s.withoutPartial).state.partialMessage = none := by
    generalize (recvHandler io inflate).step g s.withoutPartial = x at hquiet
    cases x with
    | ok v t => exact hquiet.partialMessage
    | error e t => exact hquiet.1.partialMessage
  exact .of_quiet h₀ rfl hs hquiet hg (mapState_withoutPartial hnone).symm hpings hunfrag

theorem Ready.single (hio : io.Works) {f : Frame} {rest : List Frame} {s : ReaderState κ}
    (h : Ready compression s rest) (hnone : s.partialMessage = none) (hf : f.Wf)
    (hop : f.opcode = opcodeText ∨ f.opcode = opcodeBinary) (hfin : f.fin = true)
    (hrsv : f.rsv1 = true → compression = true) : Stepped io inflate compression f rest s := by
  have hsame := ReaderState.withoutPartial_eq hnone
  obtain ⟨hcontrol, hpings⟩ := not_isControl (hop.imp_right .inl)
  refine .of_message hio (hsame.symm ▸ h) hf hop hfin hrsv (by rw [hsame]) hpings ?_
  rw [hnone, unfragmented.eq_def]
  simp [hcontrol, hfin]

theorem Ready.first {f : Frame} {rest : List Frame} {s : ReaderState κ}
    (h : Ready compression s (f :: rest)) (hnone : s.partialMessage = none)
    (hop : f.opcode = opcodeText ∨ f.opcode = opcodeBinary) (hfin : f.fin = false)
    (hrsv : f.rsv1 = true → compression = true)
    (ht : Traffic compression (some ⟨f.opcode, f.rsv1, f.payload⟩) rest) :
    Stepped io inflate compression f rest s := by
  obtain ⟨hcontrol, hpings⟩ := not_isControl (hop.imp_right .inl)
  have hplain : ¬(f.rsv1 && s.pmd.isNone) = true := by
    intro hr
    obtain ⟨hr, hn⟩ := Bool.and_eq_true_iff.mp hr
    have hsome := h.pmd.trans (hrsv hr)
    rw [Option.isNone_iff_eq_none.mp hn] at hsome
    cases hsome
  have hs : (recvHandler io inflate).step f s =
      .ok none { s with partialMessage := some ⟨f.opcode, f.rsv1, f.payload⟩ } := by
    change (s.onFrame io inflate true f).andThen _ = _
    rw [ReaderState.onFrame, if_neg hcontrol, if_pos hop, ReaderState.onData, hnone,
      if_neg (by simp), if_neg hplain, if_neg (by simp [hfin])]
    rfl
  refine ⟨?_, ?_, ?_, .inl ⟨_, hs, rfl, ?_⟩⟩
  · rw [hs]
    refine ⟨ht, ?_, h.pmd, h.usable⟩
    rintro q ⟨⟩
    exact ⟨hop, hrsv⟩
  · rw [hs, hpings, List.append_nil]
    rfl
  · intro e t he
    rw [hs] at he
    cases he
  · rw [hnone, unfragmented.eq_def]
    simp [hcontrol, hfin]

/-- A continuation frame that is within the cap. -/
theorem step_continuation {q : PartialMessage} {f : Frame} (hop : f.opcode = opcodeCont)
    (hrsv : f.rsv1 = false) (hlen : q.buf.length + f.payload.length ≤ maxPayloadBytes)
    {s : ReaderState κ} (hq : s.partialMessage = some q) :
    (recvHandler io inflate).step f s =
      if f.fin then (s.withoutPartial.finishEvent io inflate q.opcode (q.buf ++ f.payload)
        q.compressed).andThen fun event s => .ok (WsReader.messageOf event) s
      else .ok none { s with partialMessage := some { q with buf := q.buf ++ f.payload } } := by
  have hcontrol := (not_isControl (.inr (.inr hop))).1
  have hdata : ¬(f.opcode = opcodeText ∨ f.opcode = opcodeBinary) := by
    rw [hop]
    decide
  have hbuf : accumulate q.buf f.payload = .ok (q.buf ++ f.payload) := by
    rw [accumulate]
    exact if_neg (by omega)
  change (s.onFrame io inflate true f).andThen _ = _
  rw [ReaderState.onFrame, if_neg hcontrol, if_neg hdata, if_pos hop, ReaderState.onContinuation, hq]
  simp only [hrsv, Bool.false_eq_true, if_false, hbuf]
  cases f.fin with
  | true =>
    simp only [if_true, Outcome.andThen_assoc]
    rfl
  | false => rfl

theorem Ready.middle {q : PartialMessage} {f : Frame} {rest : List Frame} {s : ReaderState κ}
    (h : Ready compression s (f :: rest)) (hq : s.partialMessage = some q)
    (hop : f.opcode = opcodeCont) (hfin : f.fin = false) (hrsv : f.rsv1 = false)
    (hlen : q.buf.length + f.payload.length ≤ maxPayloadBytes)
    (ht : Traffic compression (some { q with buf := q.buf ++ f.payload }) rest) :
    Stepped io inflate compression f rest s := by
  obtain ⟨hcontrol, hpings⟩ := not_isControl (.inr (.inr hop))
  have hs : (recvHandler io inflate).step f s = _ := step_continuation hop hrsv hlen hq
  rw [if_neg (by simp [hfin])] at hs
  refine ⟨?_, ?_, ?_, .inl ⟨_, hs, rfl, ?_⟩⟩
  · rw [hs]
    refine ⟨ht, ?_, h.pmd, h.usable⟩
    rintro q' ⟨⟩
    exact h.opened q hq
  · rw [hs, hpings, List.append_nil]
    rfl
  · intro e t he
    rw [hs] at he
    cases he
  · rw [hq, unfragmented.eq_def]
    simp [hcontrol, hfin]

theorem Ready.final (hio : io.Works) {q : PartialMessage} {f : Frame} {rest : List Frame}
    {s : ReaderState κ} (h : Ready compression s (f :: rest)) (hq : s.partialMessage = some q)
    (hop : f.opcode = opcodeCont) (hfin : f.fin = true) (hrsv : f.rsv1 = false)
    (hlen : q.buf.length + f.payload.length ≤ maxPayloadBytes)
    (ht : Traffic compression none rest) : Stepped io inflate compression f rest s := by
  obtain ⟨hcontrol, hpings⟩ := not_isControl (.inr (.inr hop))
  obtain ⟨hqop, hqrsv⟩ := h.opened q hq
  have hs : (recvHandler io inflate).step f s = _ := step_continuation hop hrsv hlen hq
  rw [if_pos hfin] at hs
  have hready : Ready compression s.withoutPartial rest := ⟨ht, by rintro q ⟨⟩, h.pmd, h.usable⟩
  have hwf : (PartialMessage.joined { q with buf := q.buf ++ f.payload }).Wf := by
    refine ⟨?_, by simpa [PartialMessage.joined] using hlen, ?_⟩
    · rcases hqop with hqop | hqop <;> simp [PartialMessage.joined, hqop, opcodeText, opcodeBinary]
    · intro hc
      rcases hqop with hqop | hqop <;>
        simp [PartialMessage.joined, Frame.isControl, hqop, opcodeText, opcodeBinary] at hc
  refine .of_message hio hready hwf hqop rfl hqrsv ?_ hpings ?_
  · rw [hs, step_single hqop rfl hqrsv rfl hready.pmd]
    rfl
  · rw [hq, unfragmented.eq_def]
    simp [hcontrol, hfin]

/-- Every frame of the traffic. -/
theorem Ready.step (hio : io.Works) {f : Frame} {rest : List Frame} {s : ReaderState κ}
    (h : Ready compression s (f :: rest)) : Stepped io inflate compression f rest s := by
  have ht := h.traffic
  generalize hp : s.partialMessage = p at ht
  cases ht with
  | control hf hop hfin hrsv ht =>
    exact Ready.control hio ⟨hp ▸ ht, h.opened, h.pmd, h.usable⟩ hf hop hfin hrsv
  | single hf hop hfin hrsv ht =>
    exact Ready.single hio ⟨hp ▸ ht, h.opened, h.pmd, h.usable⟩ hp hf hop hfin hrsv
  | first hf hop hfin hrsv ht => exact h.first hp hop hfin hrsv ht
  | middle hf hop hfin hrsv hlen ht => exact h.middle hp hop hfin hrsv hlen ht
  | final hf hop hfin hrsv hlen ht => exact h.final hio hp hop hfin hrsv hlen ht

/-! ## Call by call -/

theorem parse_encode {f : Frame} (hf : f.Wf) (rest : List Frame) :
    frameFormat.parse (encode (f :: rest)) = .ok (some (f, (serverFrame f).length)) ∧
      (encode (f :: rest)).drop (serverFrame f).length = encode rest :=
  ⟨tryParseFrame_serverFrame hf (encode rest), List.drop_left⟩

theorem Traffic.wf {p : Option PartialMessage} {f : Frame} {rest : List Frame}
    (h : Traffic compression p (f :: rest)) : f.Wf := by
  cases h <;> assumption

/-- A frame that is not surfaced leaves the receiving side as open as it was. -/
theorem step_none {f : Frame} {s t : ReaderState κ}
    (h : (recvHandler io inflate).step f s = .ok none t) : t.recvClosed = s.recvClosed := by
  change (s.onFrame io inflate true f).andThen _ = _ at h
  obtain ⟨event, t', hframe, ht⟩ := Outcome.andThen_eq_ok.mp h
  obtain ⟨hkeep, rfl⟩ : event.bind WsReader.messageOf = none ∧ t' = t := by simpa using ht
  rcases ReaderState.onFrame_ok io inflate hframe with ⟨close, rfl⟩ | hclosed
  · cases hkeep
  · exact hclosed

/-- A call on fragmented traffic ends as the call on the joined frames. -/
theorem Ready.ends (hio : io.Works) {frames : List Frame} {s : ReaderState κ}
    (h : Ready compression s frames) {out : Outcome (Bytes × ReaderState κ) (Option WsMessage)}
    (hout : Ends frameFormat (recvHandler io inflate) (encode frames) s out) :
    ∃ done rest, frames = done ++ rest ∧ out.state.1 = encode rest ∧
      Ready compression out.state.2 rest ∧
      pongs out.state.2.transport.sent = pongs s.transport.sent ++ pings done ∧
      (∀ e x, out = .error e x → ∀ kind msg, e ≠ .io kind msg) ∧
      Ends frameFormat (recvHandler io inflate) (encode (unfragmented s.partialMessage frames))
        s.withoutPartial (out.mapState fun x =>
          (encode (unfragmented x.2.partialMessage rest), x.2.withoutPartial)) := by
  -- the frames are taken one by one; a frame that is part of a message still to come is none on
  -- the other side
  induction frames generalizing s with
  | nil =>
    rw [hout.of_ended rfl]
    refine ⟨[], [], rfl, rfl, ⟨.nil _, h.opened, h.pmd, h.usable⟩, (List.append_nil _).symm, ?_, ?_⟩
    · rintro e x ⟨⟩ kind msg
      exact Error.noConfusion
    · have hnil : unfragmented s.partialMessage [] = [] := by rw [unfragmented.eq_def]
      have hnil' : unfragmented ((recvHandler io inflate).failed .unexpectedEof s).partialMessage [] =
          [] := by rw [unfragmented.eq_def]
      change Ends _ _ _ _ (.error _ (encode (unfragmented
        ((recvHandler io inflate).failed .unexpectedEof s).partialMessage []), _))
      rw [hnil, hnil']
      exact .ended rfl
  | cons f rest ih =>
    obtain ⟨hready, hpongs, htimeout, hfollows⟩ : Stepped io inflate _ f rest _ := h.step hio
    obtain ⟨hparse, hdrop⟩ := parse_encode h.traffic.wf rest
    rw [Receiver.ends_iff_after hparse, hdrop] at hout
    unfold Follows at hfollows
    generalize (recvHandler io inflate).step f s = x at hout hready hpongs htimeout hfollows
    -- what the rest of the traffic says, once this frame is dealt with
    have hlater {t : ReaderState κ} (ht : x = .ok none t) : ∃ done rest', rest = done ++ rest' ∧
        out.state.1 = encode rest' ∧ Ready compression out.state.2 rest' ∧
        pongs out.state.2.transport.sent = pongs t.transport.sent ++ pings done ∧
        (∀ e x, out = .error e x → ∀ kind msg, e ≠ .io kind msg) ∧
        Ends frameFormat (recvHandler io inflate) (encode (unfragmented t.partialMessage rest))
          t.withoutPartial (out.mapState fun x =>
            (encode (unfragmented x.2.partialMessage rest'), x.2.withoutPartial)) := by
      subst ht
      exact ih hready hout
    have hpongs' {t : ReaderState κ} {done : List Frame} (ht : x.state = t)
        (h : pongs out.state.2.transport.sent = pongs t.transport.sent ++ pings done) :
        pongs out.state.2.transport.sent = pongs s.transport.sent ++ pings (f :: done) := by
      have hcons : pings (f :: done) = pings [f] ++ pings done := by
        unfold pings
        rw [← List.map_append, ← List.filter_append, List.singleton_append]
      rw [h, ← ht, hpongs, hcons, List.append_assoc]
    rcases hfollows with ⟨t, ht, hsame, hunfrag⟩ | ⟨g, hg, hstep, hunfrag⟩
    · obtain ⟨done, rest', hrest, hunread, hready', hsent, hio', hends⟩ := hlater ht
      refine ⟨f :: done, rest', congrArg (f :: ·) hrest, hunread, hready',
        hpongs' (ht ▸ rfl) hsent, hio', ?_⟩
      rw [hunfrag, ← hsame]
      exact hends
    · obtain ⟨hparse', hdrop'⟩ := parse_encode hg (unfragmented x.state.partialMessage rest)
      rw [hunfrag]
      cases x with
      | error e t =>
        obtain ⟨msg, rfl⟩ := htimeout e t rfl
        obtain rfl : out = .error (.badResponse msg) (encode rest, t) := hout
        refine ⟨[f], rest, rfl, rfl, hready, hpongs, ?_, ?_⟩
        · rintro e x ⟨⟩ kind text
          exact Error.noConfusion
        · rw [Receiver.ends_iff_after hparse', hdrop', hstep]
          rfl
      | ok w t =>
        cases w with
        | some v =>
          obtain rfl : out = .ok v (encode rest, t) := hout
          refine ⟨[f], rest, rfl, rfl, hready, hpongs, ?_, ?_⟩
          · rintro e x ⟨⟩
          · rw [Receiver.ends_iff_after hparse', hdrop', hstep]
            rfl
        | none =>
          obtain ⟨done, rest', hrest, hunread, hready', hsent, hio', hends⟩ := hlater rfl
          refine ⟨f :: done, rest', congrArg (f :: ·) hrest, hunread, hready',
            hpongs' rfl hsent, hio', ?_⟩
          rw [Receiver.ends_iff_after hparse', hdrop', hstep]
          exact hends

/-- What a call has dealt with before a timeout is dealt with on the joined frames too, but for the
fragments of messages that are still to come. -/
theorem Ready.silent (hio : io.Works) {frames : List Frame} {s t : ReaderState κ} {u : Bytes}
    (h : Ready compression s frames)
    (hs : Silent frameFormat (recvHandler io inflate) (encode frames) s u t) :
    ∃ done rest, frames = done ++ rest ∧ u = encode rest ∧ Ready compression t rest ∧
      pongs t.transport.sent = pongs s.transport.sent ++ pings done ∧
      t.recvClosed = s.recvClosed ∧
      Silent frameFormat (recvHandler io inflate) (encode (unfragmented s.partialMessage frames))
        s.withoutPartial (encode (unfragmented t.partialMessage rest)) t.withoutPartial := by
  generalize hu : encode frames = v at hs
  induction hs generalizing frames with
  | refl v s =>
    exact ⟨[], frames, rfl, hu.symm, h, (List.append_nil _).symm, rfl, .refl _ _⟩
  | @unit v u s t' t f n hparse hstep hs ih =>
    subst hu
    cases frames with
    | nil => cases hparse
    | cons f' rest =>
      obtain ⟨hready, hpongs, -, hfollows⟩ : Stepped io inflate _ f' rest _ := h.step hio
      obtain ⟨hparse', hdrop⟩ := parse_encode h.traffic.wf rest
      rw [hparse'] at hparse
      cases hparse
      rw [Follows, hstep] at hfollows
      rw [hstep] at hready hpongs
      simp only [Outcome.state] at hready hpongs hfollows
      obtain ⟨done, rest', hrest, hunread, hready', hsent, hclosed, hsilent⟩ :=
        ih hready hdrop.symm
      have hcons : pings (f :: done) = pings [f] ++ pings done := by
        unfold pings
        rw [← List.map_append, ← List.filter_append, List.singleton_append]
      refine ⟨f :: done, rest', congrArg (f :: ·) hrest, hunread, hready', ?_,
        hclosed.trans (step_none hstep), ?_⟩
      · rw [hsent, hcons, ← List.append_assoc]
        rw [hpongs]
      · rcases hfollows with ⟨t'', ht, hsame, hunfrag⟩ | ⟨g, hg, hstep', hunfrag⟩
        · cases ht
          rw [hunfrag, ← hsame]
          exact hsilent
        · obtain ⟨hparse'', hdrop'⟩ := parse_encode hg (unfragmented t'.partialMessage rest)
          rw [hunfrag]
          refine .unit hparse'' hstep' ?_
          rw [hdrop']
          exact hsilent

/-! ## Whole runs -/

/-- `q` reads the joined frames of what `r` reads; `done` are the frames that `r` has dealt with, and
`q` has at most those pings still to answer that came after the last result. -/
structure Tracks (io : Io) (inflate : Inflate κ) (compression : Bool) (done rest : List Frame)
    (r q : WsReader κ) : Prop where
  unread : r.unread = encode rest
  ready : Ready compression r.core rest
  answered : pongs r.core.transport.sent = pings done
  closed : q.core.recvClosed = r.core.recvClosed
  data : ∀ x ∈ q.reads, x.isData
  silent : Silent frameFormat (recvHandler io inflate) q.unread q.core
    (encode (unfragmented r.core.partialMessage rest)) r.core.withoutPartial

/-- A result that the caller skips: the read failed, and the call can be made again. -/
def isTimeout {α : Type} : Except Error α → Bool
  | .error (.io _ _) => true
  | _ => false

theorem pings_append (done more : List Frame) : pings (done ++ more) = pings done ++ pings more := by
  simp [pings]

/-- One call: a timeout, or the same result on both sides. -/
theorem Tracks.call (hio : io.Works) {done rest : List Frame} {r q : WsReader κ}
    (h : Tracks io inflate compression done rest r q) :
    ∃ more rest', rest = more ++ rest' ∧
      ((isTimeout (WsReader.recv io inflate r).result = true ∧
          Tracks io inflate compression (done ++ more) rest' (WsReader.recv io inflate r).state q ∧
          Framing.failures (WsReader.recv io inflate r).state.reads < Framing.failures r.reads) ∨
        (isTimeout (WsReader.recv io inflate r).result = false ∧
          (WsReader.recv io inflate q).result = (WsReader.recv io inflate r).result ∧
          Tracks io inflate compression (done ++ more) rest' (WsReader.recv io inflate r).state
            (WsReader.recv io inflate q).state ∧
          Framing.failures (WsReader.recv io inflate r).state.reads ≤ Framing.failures r.reads)) := by
  by_cases hclosed : r.core.recvClosed = true
  · rw [WsReader.recv_of_closed io inflate hclosed,
      WsReader.recv_of_closed io inflate (h.closed.trans hclosed)]
    exact ⟨[], rest, rfl, .inr ⟨rfl, rfl, by simpa using h, le_refl _⟩⟩
  rw [Bool.not_eq_true] at hclosed
  rw [WsReader.recv_of_open io inflate hclosed,
    WsReader.recv_of_open io inflate (h.closed.trans hclosed)]
  have hr : Received frameFormat (recvHandler io inflate) r _ :=
    Receiver.receive_received stable_frameFormat r
  have hq : Received frameFormat (recvHandler io inflate) q _ :=
    Receiver.receive_received stable_frameFormat q
  obtain ⟨hqends, hqdata⟩ := hq.ends_of_isData h.data
  generalize Receiver.receive stable_frameFormat (recvHandler io inflate) r = out at hr ⊢
  generalize Receiver.receive stable_frameFormat (recvHandler io inflate) q = out' at hqends hqdata ⊢
  cases hr with
  | ends hends hs =>
    rw [h.unread] at hends
    obtain ⟨more, rest', hrest, hunread, hready, hsent, hio', hends'⟩ := h.ready.ends hio hends
    have hsame := hqends.unique (h.silent.ends hends')
    have hview := congrArg Outcome.state hsame
    have hresult := congrArg Outcome.result hsame
    simp only [Outcome.state_mapState, Outcome.result_mapState] at hunread hready hsent hview hresult
    refine ⟨more, rest', hrest, .inr ⟨?_, hresult, ⟨hunread, hready, ?_, ?_, hqdata, ?_⟩,
      Framing.failures_le hs⟩⟩
    · cases out with
      | ok v r' => rfl
      | error e r' =>
        cases e with
        | io kind msg => exact absurd rfl (hio' _ _ rfl kind msg)
        | _ => rfl
    · rw [pings_append, ← h.answered]
      exact hsent
    · exact congrArg (fun x => x.2.recvClosed) hview
    · have hu : out'.state.unread = _ := congrArg Prod.fst hview
      have hc : out'.state.core = _ := congrArg Prod.snd hview
      rw [hu, hc]
      exact .refl _ _
  | @interrupted failure r' s hsilent hc hs =>
    rw [h.unread] at hsilent
    obtain ⟨more, rest', hrest, hunread, hready, hsent, hclosed', hsilent'⟩ :=
      h.ready.silent hio hsilent
    have hsame : r'.core = s := hc
    refine ⟨more, rest', hrest, .inl ⟨rfl, ⟨hunread, hsame ▸ hready, ?_, ?_, h.data, ?_⟩,
      Framing.failures_lt hs⟩⟩
    · rw [pings_append, ← h.answered]
      exact hsame ▸ hsent
    · rw [h.closed, ← hclosed']
      exact congrArg ReaderState.recvClosed hsame.symm
    · change Silent _ _ q.unread q.core (encode (unfragmented r'.core.partialMessage rest'))
        r'.core.withoutPartial
      rw [hsame]
      exact h.silent.trans hsilent'

theorem Tracks.calls (hio : io.Works) (n : Nat) {done rest : List Frame} {r q : WsReader κ}
    (h : Tracks io inflate compression done rest r q) :
    let fragmented := Receiver.calls (WsReader.recv io inflate) n r
    let results := fragmented.1.filter fun x => !isTimeout x
    results = (Receiver.calls (WsReader.recv io inflate) results.length q).1 ∧
      n ≤ results.length + Framing.failures r.reads ∧
      ∃ more rest', rest = more ++ rest' ∧ fragmented.2.unread = encode rest' ∧
        pongs fragmented.2.core.transport.sent = pings (done ++ more) := by
  induction n generalizing done rest r q with
  | zero => exact ⟨rfl, Nat.zero_le _, [], rest, rfl, h.unread, by
      rw [List.append_nil]
      exact h.answered⟩
  | succ n ih =>
    obtain ⟨more, rest', hrest, ⟨htimeout, htracks, hfail⟩ | ⟨hno, hresult, htracks, hfail⟩⟩ :=
      h.call hio
    · obtain ⟨hres, hn, more', rest'', hrest', hunread, hpongs⟩ := ih htracks
      simp only [Receiver.calls, List.filter_cons, htimeout, Bool.not_true, Bool.false_eq_true,
        if_false]
      refine ⟨hres, by omega, more ++ more', rest'', ?_, hunread, ?_⟩
      · rw [hrest, hrest', List.append_assoc]
      · rw [hpongs, List.append_assoc]
    · obtain ⟨hres, hn, more', rest'', hrest', hunread, hpongs⟩ := ih htracks
      simp only [Receiver.calls, List.filter_cons, hno, Bool.not_false, if_true, List.length_cons]
      refine ⟨?_, by omega, more ++ more', rest'', ?_, hunread, ?_⟩
      · rw [hresult]
        exact congrArg _ hres
      · rw [hrest, hrest', List.append_assoc]
      · rw [hpongs, List.append_assoc]

end Rsurl.WebSocket
