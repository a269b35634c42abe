import Rsurl.WebSocket.Writer

/-!
# What a writer puts on the wire

The frames of a writer form legal messages as long as no data message is begun after a streamed one
broke off between two of its fragments. A call is described by the frames it appends, and a run of
calls by the frames of all of them.
-/

namespace Rsurl.WebSocket

open Library Library.Loop

/-! ## Legal messages -/

/-- What of a frame matters to fragmentation. -/
structure Head where
  fin : Bool
  opcode : UInt8
  deriving DecidableEq, Repr

def headOf (frame : Bytes) : Option Head :=
  frame.head?.map fun h0 => ⟨h0 &&& 0x80 ≠ 0, h0 &&& 0x0f⟩

def Head.isControl (h : Head) : Bool := 0x8 ≤ h.opcode

/-- Data frames in order, inside a message (`mid`) or between messages: TEXT and BINARY begin a
message, CONTINUATION goes on with one, until the frame that is final. -/
def FragmentsInOrder : Bool → List Head → Prop
  | _, [] => True
  | mid, h :: rest =>
    if h.isControl then FragmentsInOrder mid rest
    else (h.opcode = opcodeCont ↔ mid = true) ∧ FragmentsInOrder (!h.fin) rest

/-- Whether a message is unfinished after these frames. -/
def midAfter : Bool → List Head → Bool
  | mid, [] => mid
  | mid, h :: rest => if h.isControl then midAfter mid rest else midAfter (!h.fin) rest

/-- After a CLOSE there is no data frame and no second CLOSE. -/
def NothingAfterClose (heads : List Head) : Prop :=
  heads.Pairwise fun h g => h.opcode = opcodeClose → g.isControl = true ∧ g.opcode ≠ opcodeClose

/-- Legal messages: the fragments are in order, and a CLOSE ends them. -/
def Legal (heads : List Head) : Prop := FragmentsInOrder false heads ∧ NothingAfterClose heads

def WsWriter.wire (w : WsWriter) : List Head := w.transport.sent.filterMap headOf

theorem fragmentsInOrder_append (mid : Bool) (heads more : List Head) :
    FragmentsInOrder mid (heads ++ more) ↔
      FragmentsInOrder mid heads ∧ FragmentsInOrder (midAfter mid heads) more := by
  induction heads generalizing mid with
  | nil => simp [FragmentsInOrder, midAfter]
  | cons h rest ih =>
    simp only [List.cons_append, FragmentsInOrder, midAfter]
    split_ifs
    · exact ih mid
    · rw [ih, and_assoc]

theorem midAfter_append (mid : Bool) (heads more : List Head) :
    midAfter mid (heads ++ more) = midAfter (midAfter mid heads) more := by
  induction heads generalizing mid with
  | nil => rfl
  | cons h rest ih =>
    simp only [List.cons_append, midAfter]
    split_ifs <;> exact ih _

theorem nothingAfterClose_of_none {heads : List Head}
    (h : ∀ a ∈ heads, a.opcode ≠ opcodeClose) : NothingAfterClose heads := by
  induction heads with
  | nil => exact .nil
  | cons a rest ih =>
    rw [List.forall_mem_cons] at h
    exact .cons (fun _ _ hclose => absurd hclose h.1) (ih h.2)

theorem Legal.of_append {heads more : List Head} (h : Legal more) (hpre : heads <+: more) :
    Legal heads := by
  obtain ⟨rest, rfl⟩ := hpre
  exact ⟨((fragmentsInOrder_append _ _ _).mp h.1).1, (List.pairwise_append.mp h.2).1⟩

theorem headOf_maskedFrame {f : Frame} (hop : f.opcode ≤ 0x0f) (m : Mask) :
    headOf (maskedFrame f m) = some ⟨f.fin, f.opcode⟩ := by
  obtain ⟨-, hopcode, hfin, -⟩ := headerByte_bits f.fin f.rsv1 hop
  unfold headOf maskedFrame frameHeader
  simp only [List.cons_append, List.head?_cons, Option.map_some, hopcode, hfin]

/-- The fragments of a message, `k` after the first; the last is final if it is complete. -/
def fragments (opcode : UInt8) : Nat → Bool → List Head
  | 0, complete => [⟨complete, opcode⟩]
  | k + 1, complete => ⟨false, opcode⟩ :: fragments opcodeCont k complete

theorem fragments_inOrder {opcode : UInt8}
    (hop : opcode = opcodeText ∨ opcode = opcodeBinary ∨ opcode = opcodeCont) (k : Nat)
    (complete mid : Bool) :
    (FragmentsInOrder mid (fragments opcode k complete) ↔ (opcode = opcodeCont ↔ mid = true)) ∧
      midAfter mid (fragments opcode k complete) = !complete ∧
      ∀ h ∈ fragments opcode k complete, h.opcode ≠ opcodeClose := by
  have hcontrol (fin : Bool) : Head.isControl ⟨fin, opcode⟩ = false ∧ opcode ≠ opcodeClose := by
    rcases hop with rfl | rfl | rfl <;> cases fin <;> decide
  induction k generalizing opcode mid with
  | zero =>
    refine ⟨?_, ?_, ?_⟩
    · simp [fragments, FragmentsInOrder, hcontrol]
    · simp [fragments, midAfter, hcontrol]
    · intro h hh
      cases List.mem_singleton.mp hh
      exact (hcontrol complete).2
  | succ k ih =>
    obtain ⟨horder, hmid, hclose⟩ := ih (.inr (.inr (rfl : opcodeCont = opcodeCont))) true
      (fun fin => by cases fin <;> decide)
    refine ⟨?_, ?_, ?_⟩
    · simp [fragments, FragmentsInOrder, hcontrol, horder]
    · simp [fragments, midAfter, hcontrol, hmid]
    · intro h hh
      rcases List.mem_cons.mp hh with rfl | hh
      · exact (hcontrol false).2
      · exact hclose h hh

/-! ## Streams -/

/-- The chunks that are read after the first one, and whether the source ends after them; if not, it
fails. -/
def chunksFrom (source : List SourceRead) : List Bytes × Bool :=
  match h : readChunk streamChunk [] source with
  | (.error _, _) => ([], false)
  | (.ok chunk, rest) =>
    if hc : chunk = [] then ([], true)
    else
      have : sourceBytes rest < sourceBytes source := by
        have hbytes := readChunk_bytes h
        have hpos := List.length_pos_iff.mpr hc
        simp only [List.length_nil] at hbytes
        omega
      (chunk :: (chunksFrom rest).1, (chunksFrom rest).2)
termination_by sourceBytes source

theorem chunksFrom_error {source rest : List SourceRead} {e : IoErrorKind × String}
    (h : readChunk streamChunk [] source = (.error e, rest)) : chunksFrom source = ([], false) := by
  rw [chunksFrom]
  split
  · rfl
  · rename_i h'
    rw [h] at h'
    cases h'

theorem chunksFrom_ok {source rest : List SourceRead} {chunk : Bytes}
    (h : readChunk streamChunk [] source = (.ok chunk, rest)) :
    chunksFrom source = if chunk = [] then ([], true)
      else (chunk :: (chunksFrom rest).1, (chunksFrom rest).2) := by
  rw [chunksFrom]
  split
  · rename_i h'
    rw [h] at h'
    cases h'
  · rename_i h'
    rw [h] at h'
    cases h'
    split_ifs <;> rfl

/-- There is a mask for the draw. -/
def Io.HasMask (io : Io) (k : Nat) : Prop := ∃ m, io.random k = .ok m

/-- The first fragment goes out: the chunk after it is read, and there is a mask. -/
def StreamBegins (io : Io) (draws : Nat) (source : List SourceRead) : Prop :=
  ((chunksFrom source).1 ≠ [] ∨ (chunksFrom source).2 = true) ∧ io.HasMask draws

/-- The stream gets through: the source ends, and there is a mask for every fragment. -/
def StreamCompletes (io : Io) (draws : Nat) (source : List SourceRead) : Prop :=
  (chunksFrom source).2 = true ∧ ∀ i ≤ (chunksFrom source).1.length, io.HasMask (draws + i)

theorem StreamCompletes.begins {io : Io} {draws : Nat} {source : List SourceRead}
    (h : StreamCompletes io draws source) : StreamBegins io draws source :=
  ⟨.inr h.1, h.2 0 (Nat.zero_le _)⟩

namespace WsWriter

/-- No close was sent and no write has failed. -/
structure Open (w : WsWriter) : Prop where
  sendClosed : w.sendClosed = false
  usable : w.transport.broken = false

/-- The writer after a frame: the next mask is drawn, and the frame is on the wire. -/
def sent (w : WsWriter) (frame : Bytes) : WsWriter :=
  { w with transport := ⟨w.transport.sent ++ [frame], w.transport.draws + 1,
    w.transport.writes + 1, w.transport.broken⟩ }

/-- The writer after a draw that failed, or a frame that was not written. -/
def drawn (w : WsWriter) : WsWriter :=
  { w with transport := { w.transport with draws := w.transport.draws + 1 } }

variable {io : Io} {compressor : Compress}

theorem wire_sent (w : WsWriter) {f : Frame} (hop : f.opcode ≤ 0x0f) (m : Mask) :
    (w.sent (maskedFrame f m)).wire = w.wire ++ [⟨f.fin, f.opcode⟩] := by
  simp [wire, sent, headOf_maskedFrame hop]

/-- A frame built and written while the connection is open. -/
theorem frame_open (hio : ∀ k, io.write k = .accepted) {w : WsWriter} (h : w.Open) (fin : Bool)
    (opcode : UInt8) (payload : Bytes) (rsv1 : Bool) :
    ((w.onTransport (·.buildClientFrameInner io fin opcode payload rsv1)).andThen
      fun frame w => w.writeFrame io frame) =
      match io.random w.transport.draws with
      | .error e => .error e w.drawn
      | .ok m => .ok () (w.sent (maskedFrame ⟨fin, rsv1, opcode, payload⟩ m)) := by
  unfold onTransport Transport.buildClientFrameInner WebSocket.buildClientFrameInner
  dsimp only
  cases io.random w.transport.draws with
  | error e => rfl
  | ok m =>
    simp only [Except.map, Outcome.ofExcept, Outcome.mapState, Outcome.andThen, writeFrame,
      onTransport, Transport.writeUnlessClosed, h.sendClosed, Bool.false_eq_true, if_false,
      Transport.writeAll, h.usable, Transport.put, hio, sent]

/-- The wire after the loop of a stream. -/
theorem stream_wire (hio : ∀ k, io.write k = .accepted) {opcode : UInt8}
    (hop : opcode = opcodeText ∨ opcode = opcodeBinary) (source : List SourceRead) (cur : Bytes)
    (first : Bool) {w : WsWriter} (h : w.Open) :
    let w' := (run (streamTurn io opcode) (fun s => sourceBytes s.source)
      (lowers_streamTurn io opcode) ⟨cur, first, source, w⟩).state
    w'.Open ∧ ((¬StreamBegins io w.transport.draws source ∧ w'.wire = w.wire) ∨
      (StreamBegins io w.transport.draws source ∧ ∃ k complete,
        w'.wire = w.wire ++ fragments (if first then opcode else opcodeCont) k complete ∧
        (complete = true ↔ StreamCompletes io w.transport.draws source))) := by
  -- induction on what the source has left: each turn that goes on has read a chunk
  induction hn : sourceBytes source using Nat.strongRecOn generalizing source cur first w with
  | ind n ih =>
    cases hread : readChunk streamChunk [] source with
    | mk result rest =>
      cases result with
      | error e =>
        have hdone : streamTurn io opcode ⟨cur, first, source, w⟩ =
            .done (.error (.io e.1 e.2) w) := by
          simp only [streamTurn, hread]
        rw [run_done hdone]
        exact ⟨h, .inl ⟨by simp [StreamBegins, chunksFrom_error hread], rfl⟩⟩
      | ok next =>
        have hchunks := chunksFrom_ok hread
        have hcode : (if first then opcode else opcodeCont) ≤ 0x0f := by
          rcases hop with rfl | rfl <;> cases first <;> decide
        have hturn : streamTurn io opcode ⟨cur, first, source, w⟩ =
            match io.random w.transport.draws with
            | .error e => .done (.error e w.drawn)
            | .ok m =>
              let w' := w.sent (maskedFrame
                ⟨next.isEmpty, false, if first then opcode else opcodeCont, cur⟩ m)
              if next.isEmpty then .done (.ok () w') else .next ⟨next, false, rest, w'⟩ := by
          simp only [streamTurn, hread, frame_open hio h]
          cases io.random w.transport.draws <;> rfl
        generalize (if first then opcode else opcodeCont) = op at hcode hturn ⊢
        cases hm : io.random w.transport.draws with
        | error e =>
          simp only [hm] at hturn
          rw [run_done hturn]
          refine ⟨⟨h.sendClosed, h.usable⟩, .inl ⟨?_, rfl⟩⟩
          rintro ⟨-, m, hm'⟩
          rw [hm] at hm'
          cases hm'
        | ok m =>
          simp only [hm] at hturn
          by_cases hnext : next = []
          · subst hnext
            rw [run_done hturn]
            rw [if_pos rfl] at hchunks
            refine ⟨⟨h.sendClosed, h.usable⟩, .inr ⟨⟨.inr (by rw [hchunks]), m, hm⟩, 0, true, ?_, ?_⟩⟩
            · exact wire_sent w hcode m
            · refine ⟨fun _ => ⟨by rw [hchunks], ?_⟩, fun _ => rfl⟩
              intro i hi
              rw [hchunks] at hi
              obtain rfl := Nat.le_zero.mp hi
              exact ⟨m, hm⟩
          · rw [if_neg hnext] at hchunks
            rw [if_neg (by simpa using hnext)] at hturn
            rw [run_next hturn]
            have hless : sourceBytes rest < n := by
              have hbytes := readChunk_bytes hread
              have hpos := List.length_pos_iff.mpr hnext
              simp only [List.length_nil] at hbytes
              omega
            have hempty : next.isEmpty = false := by simpa using hnext
            have hwire := wire_sent w (f := ⟨next.isEmpty, false, op, cur⟩) hcode m
            obtain ⟨hopen, hrest⟩ := ih _ hless rest next false
              (w := w.sent (maskedFrame ⟨next.isEmpty, false, op, cur⟩ m))
              ⟨h.sendClosed, h.usable⟩ rfl
            have hbegins : StreamBegins io w.transport.draws source :=
              ⟨.inl (by rw [hchunks]; simp), m, hm⟩
            have hcompletes : StreamCompletes io w.transport.draws source ↔
                StreamCompletes io (w.transport.draws + 1) rest := by
              simp only [StreamCompletes, hchunks, List.length_cons]
              refine and_congr_right fun _ => ⟨fun hall i hi => ?_, fun hall i hi => ?_⟩
              · rw [Nat.add_assoc, Nat.add_comm 1 i]
                exact hall (i + 1) (by omega)
              · cases i with
                | zero => exact ⟨m, hm⟩
                | succ i =>
                  rw [Nat.add_comm i 1, ← Nat.add_assoc]
                  exact hall i (by omega)
            refine ⟨hopen, .inr ⟨hbegins, ?_⟩⟩
            rcases hrest with ⟨hno, heq⟩ | ⟨hyes, k, complete, heq, hcomplete⟩
            · refine ⟨0, false, ?_, ?_⟩
              · rw [heq, hwire, hempty]
                rfl
              · rw [hcompletes]
                exact ⟨nofun, fun hc => absurd hc.begins hno⟩
            · refine ⟨k + 1, complete, ?_, ?_⟩
              · rw [heq, hwire, hempty, List.append_assoc]
                rfl
              · rw [hcompletes]
                exact hcomplete

/-! ## Calls -/

/-- A data frame of the payload can be built: it can be compressed, and there is a mask. -/
def Sendable (io : Io) (compressor : Compress) (w : WsWriter) (payload : Bytes) : Prop :=
  (w.compress = true → (deflateMessage compressor payload).isOk = true) ∧
    io.HasMask w.transport.draws

/-- The call begins a data message: the connection is open, and its first frame goes out. -/
def Call.Begins (io : Io) (compressor : Compress) (w : WsWriter) : Call → Prop
  | sendText text | send (.text text) =>
    w.sendClosed = false ∧ w.Sendable io compressor (Text.asBytes text)
  | sendBinary data | send (.binary data) =>
    w.sendClosed = false ∧ w.Sendable io compressor data
  | sendStream opcode source =>
    w.sendClosed = false ∧ (opcode.toU8 = opcodeText ∨ opcode.toU8 = opcodeBinary) ∧
      (readChunk streamChunk [] source).1.isOk = true ∧
      StreamBegins io w.transport.draws (readChunk streamChunk [] source).2
  | ping _ | sendPong _ | close | closeWith _ _ => False

/-- The call begins a streamed message, and it does not get through: the source fails, or there is
no mask for one of its fragments. -/
def Call.BreaksOff (io : Io) (compressor : Compress) (w : WsWriter) : Call → Prop
  | sendStream opcode source =>
    (sendStream opcode source).Begins io compressor w ∧
      ¬StreamCompletes io w.transport.draws (readChunk streamChunk [] source).2
  | _ => False

/-- What a call does to the wire. -/
inductive Effect (w w' : WsWriter) (begins breaksOff : Prop) : Prop
  | quiet (hno : ¬begins ∧ ¬breaksOff) (hclosed : w'.sendClosed = w.sendClosed)
    (hwire : w'.wire = w.wire)
  | control (hno : ¬begins ∧ ¬breaksOff) (hopen : w.sendClosed = false)
    (hclosed : w'.sendClosed = false) (opcode : UInt8)
    (hop : opcode = opcodePing ∨ opcode = opcodePong) (hwire : w'.wire = w.wire ++ [⟨true, opcode⟩])
  | close (hno : ¬begins ∧ ¬breaksOff) (hopen : w.sendClosed = false)
    (hclosed : w'.sendClosed = true) (hwire : w'.wire = w.wire ++ [⟨true, opcodeClose⟩])
  | message (hbegins : begins) (hopen : w.sendClosed = false) (hclosed : w'.sendClosed = false)
    (opcode : UInt8) (hop : opcode = opcodeText ∨ opcode = opcodeBinary) (k : Nat)
    (complete : Bool) (hcomplete : complete = true ↔ ¬breaksOff)
    (hwire : w'.wire = w.wire ++ fragments opcode k complete)

/-- A frame that is built and offered to a connection that was closed. -/
theorem frame_closed (io : Io) {w : WsWriter} (h : w.sendClosed = true) (fin : Bool) (opcode : UInt8)
    (payload : Bytes) (rsv1 : Bool) :
    ∃ e, ((w.onTransport (·.buildClientFrameInner io fin opcode payload rsv1)).andThen
      fun frame w => w.writeFrame io frame) = .error e w.drawn := by
  unfold onTransport Transport.buildClientFrameInner WebSocket.buildClientFrameInner
  dsimp only
  cases io.random w.transport.draws with
  | error e => exact ⟨e, rfl⟩
  | ok m =>
    refine ⟨.badResponse "websocket: the connection is closed", ?_⟩
    simp only [Except.map, Outcome.ofExcept, Outcome.mapState, Outcome.andThen, writeFrame,
      onTransport, Transport.writeUnlessClosed, h, if_true, drawn]

/-- One frame goes out if the connection is open and there is a mask. -/
theorem frame_wire (hio : ∀ k, io.write k = .accepted) {w : WsWriter}
    (hb : w.transport.broken = false) (fin : Bool) {opcode : UInt8} (hop : opcode ≤ 0x0f)
    (payload : Bytes) (rsv1 : Bool) :
    let w' := ((w.onTransport (·.buildClientFrameInner io fin opcode payload rsv1)).andThen
      fun frame w => w.writeFrame io frame).state
    w'.transport.broken = false ∧ w'.sendClosed = w.sendClosed ∧
      ((¬(w.sendClosed = false ∧ io.HasMask w.transport.draws) ∧ w'.wire = w.wire) ∨
        (w.sendClosed = false ∧ io.HasMask w.transport.draws) ∧
          w'.wire = w.wire ++ [⟨fin, opcode⟩]) := by
  intro w'
  cases hclosed : w.sendClosed with
  | true =>
    obtain ⟨e, he⟩ := frame_closed io hclosed fin opcode payload rsv1
    have hw' : w' = w.drawn := congrArg Outcome.state he
    exact hw' ▸ ⟨hb, hclosed, .inl ⟨by simp, rfl⟩⟩
  | false =>
    have hframe := frame_open hio ⟨hclosed, hb⟩ fin opcode payload rsv1
    cases hm : io.random w.transport.draws with
    | error e =>
      simp only [hm] at hframe
      have hw' : w' = w.drawn := congrArg Outcome.state hframe
      refine hw' ▸ ⟨hb, hclosed, .inl ⟨?_, rfl⟩⟩
      rintro ⟨-, m, hm'⟩
      rw [hm] at hm'
      cases hm'
    | ok m =>
      simp only [hm] at hframe
      have hw' : w' = w.sent (maskedFrame ⟨fin, rsv1, opcode, payload⟩ m) :=
        congrArg Outcome.state hframe
      exact hw' ▸ ⟨hb, hclosed, .inr ⟨⟨rfl, m, hm⟩, wire_sent w hop m⟩⟩

theorem buildDataFrame_data {opcode : UInt8} (hop : opcode = opcodeText ∨ opcode = opcodeBinary)
    (payload : Bytes) (compress : Bool) :
    buildDataFrame io compressor opcode payload compress = fun t =>
      if compress then
        match deflateMessage compressor payload with
        | .error e => .error e t
        | .ok compressed => t.buildClientFrameInner io true opcode compressed true
      else t.buildClientFrameInner io true opcode payload false := by
  funext t
  unfold buildDataFrame
  rw [if_neg (not_and_or.mpr (hop.imp not_not.mpr not_not.mpr))]
  rfl

theorem effect_sendData (hio : ∀ k, io.write k = .accepted) {w : WsWriter}
    (hb : w.transport.broken = false) {opcode : UInt8}
    (hop : opcode = opcodeText ∨ opcode = opcodeBinary) (payload : Bytes) :
    let w' := (w.sendData io compressor opcode payload).state
    w'.transport.broken = false ∧
      Effect w w' (w.sendClosed = false ∧ w.Sendable io compressor payload) False := by
  intro w'
  have hcode : opcode ≤ 0x0f := by rcases hop with rfl | rfl <;> decide
  have hframe (payload : Bytes) (rsv1 : Bool) (begins : Prop)
      (hbegins : begins ↔ w.sendClosed = false ∧ io.HasMask w.transport.draws) :
      let w' := ((w.onTransport (·.buildClientFrameInner io true opcode payload rsv1)).andThen
        fun frame w => w.writeFrame io frame).state
      w'.transport.broken = false ∧ Effect w w' begins False := by
    obtain ⟨hb', hclosed, ⟨hno, hwire⟩ | ⟨hyes, hwire⟩⟩ := frame_wire hio hb true hcode payload rsv1
    · exact ⟨hb', .quiet ⟨fun h => hno (hbegins.mp h), id⟩ hclosed hwire⟩
    · exact ⟨hb', .message (hbegins.mpr hyes) hyes.1 (hclosed.trans hyes.1) opcode hop 0 true
        (by simp) hwire⟩
  cases hcompress : w.compress with
  | false =>
    have hw' : w' = ((w.onTransport (·.buildClientFrameInner io true opcode payload false)).andThen
        fun frame w => w.writeFrame io frame).state := by
      simp only [w', sendData, buildDataFrame_data hop, hcompress, if_false, Bool.false_eq_true]
    exact hw' ▸ hframe payload false _ (by simp [Sendable, hcompress])
  | true =>
    cases hdeflate : deflateMessage compressor payload with
    | error e =>
      have hw' : w' = w := by
        simp only [w', sendData, buildDataFrame_data hop, hcompress, hdeflate, if_true]
        rfl
      rw [hw']
      refine ⟨hb, .quiet ⟨?_, id⟩ rfl rfl⟩
      simp [Sendable, hcompress, hdeflate, Except.isOk, Except.toBool]
    | ok compressed =>
      have hw' : w' =
          ((w.onTransport (·.buildClientFrameInner io true opcode compressed true)).andThen
            fun frame w => w.writeFrame io frame).state := by
        simp only [w', sendData, buildDataFrame_data hop, hcompress, hdeflate, if_true]
      exact hw' ▸ hframe compressed true _ (by simp [Sendable, hcompress, hdeflate, Except.isOk,
        Except.toBool])

theorem effect_sendControl (hio : ∀ k, io.write k = .accepted) {w : WsWriter}
    (hb : w.transport.broken = false) {opcode : UInt8}
    (hop : opcode = opcodePing ∨ opcode = opcodePong) (payload : Bytes) :
    let w' := (w.sendControl io opcode payload).state
    w'.transport.broken = false ∧ Effect w w' False False := by
  intro w'
  cases hcheck : checkControlPayload payload with
  | error e =>
    have hw' : w' = w := by
      simp only [w', sendControl, hcheck]
      rfl
    rw [hw']
    exact ⟨hb, .quiet ⟨id, id⟩ rfl rfl⟩
  | ok u =>
    have hw' : w' = ((w.onTransport (·.buildClientFrameInner io true opcode payload false)).andThen
        fun frame w => w.writeFrame io frame).state := by
      simp only [w', sendControl, hcheck]
      rfl
    have hcode : opcode ≤ 0x0f := by rcases hop with rfl | rfl <;> decide
    obtain ⟨hb', hclosed, ⟨-, hwire⟩ | ⟨hyes, hwire⟩⟩ := frame_wire hio hb true hcode payload false
    · exact hw' ▸ ⟨hb', .quiet ⟨id, id⟩ hclosed hwire⟩
    · exact hw' ▸ ⟨hb', .control ⟨id, id⟩ hyes.1 (hclosed.trans hyes.1) opcode hop hwire⟩

/-- Building a close frame and sending it, once. -/
theorem effect_closeFrame (hio : ∀ k, io.write k = .accepted) {w : WsWriter}
    (hb : w.transport.broken = false) (payload : Bytes) :
    let w' := ((w.onTransport (·.buildClientFrame io opcodeClose payload)).andThen
      fun frame w => w.sendCloseFrame io frame).state
    w'.transport.broken = false ∧ Effect w w' False False := by
  unfold onTransport Transport.buildClientFrame WebSocket.buildClientFrame
    WebSocket.buildClientFrameInner
  dsimp only
  cases hm : io.random w.transport.draws with
  | error e => exact ⟨hb, .quiet ⟨id, id⟩ rfl rfl⟩
  | ok m =>
    cases hclosed : w.sendClosed with
    | true =>
      simp only [Except.map, Outcome.ofExcept, Outcome.mapState, Outcome.andThen, sendCloseFrame,
        Transport.writeClose, if_true, Outcome.state]
      exact ⟨hb, .quiet ⟨id, id⟩ hclosed.symm rfl⟩
    | false =>
      simp only [Except.map, Outcome.ofExcept, Outcome.mapState, Outcome.andThen, sendCloseFrame,
        Transport.writeClose, Bool.false_eq_true, if_false, Transport.writeAll, hb,
        Transport.put, hio, Outcome.state]
      have hcode : opcodeClose ≤ 0x0f := by decide
      exact ⟨trivial, .close ⟨id, id⟩ hclosed rfl
        (wire_sent w (f := ⟨true, false, opcodeClose, payload⟩) hcode m)⟩

/-- The stream on a connection that was closed. -/
theorem stream_closed (io : Io) (opcode : UInt8) {w : WsWriter} (h : w.sendClosed = true) (cur : Bytes)
    (first : Bool) (source : List SourceRead) :
    ∃ e, run (streamTurn io opcode) (fun s => sourceBytes s.source)
      (lowers_streamTurn io opcode) ⟨cur, first, source, w⟩ = .error e w ∨
      run (streamTurn io opcode) (fun s => sourceBytes s.source)
        (lowers_streamTurn io opcode) ⟨cur, first, source, w⟩ = .error e w.drawn := by
  cases hread : readChunk streamChunk [] source with
  | mk result rest =>
    cases result with
    | error e =>
      refine ⟨.io e.1 e.2, .inl (run_done ?_)⟩
      simp only [streamTurn, hread]
    | ok next =>
      obtain ⟨e, he⟩ := frame_closed io h next.isEmpty
        (if first then opcode else opcodeCont) cur false
      refine ⟨e, .inr (run_done ?_)⟩
      simp only [streamTurn, hread, he]

theorem effect_sendStream (hio : ∀ k, io.write k = .accepted) {w : WsWriter}
    (hb : w.transport.broken = false) (opcode : WsOpcode) (source : List SourceRead) :
    let w' := (w.sendStream io opcode source).state
    w'.transport.broken = false ∧
      Effect w w' ((Call.sendStream opcode source).Begins io compressor w)
        ((Call.sendStream opcode source).BreaksOff io compressor w) := by
  intro w'
  have hquiet (hno : ¬(Call.sendStream opcode source).Begins io compressor w) (hw' : w' = w) :
      w'.transport.broken = false ∧
        Effect w w' ((Call.sendStream opcode source).Begins io compressor w)
          ((Call.sendStream opcode source).BreaksOff io compressor w) :=
    hw'.symm ▸ ⟨hb, .quiet ⟨hno, fun h => hno h.1⟩ rfl rfl⟩
  by_cases hop : opcode.toU8 = opcodeText ∨ opcode.toU8 = opcodeBinary
  swap
  · refine hquiet (fun h => hop h.2.1) ?_
    simp only [w', sendStream]
    rw [if_pos (not_or.mp hop)]
    rfl
  have hdata : ¬(opcode.toU8 ≠ opcodeText ∧ opcode.toU8 ≠ opcodeBinary) :=
    not_and_or.mpr (hop.imp not_not.mpr not_not.mpr)
  cases hread : readChunk streamChunk [] source with
  | mk result rest =>
    cases result with
    | error e =>
      refine hquiet ?_ ?_
      · rintro ⟨-, -, hok, -⟩
        simp [hread, Except.isOk, Except.toBool] at hok
      · simp only [w', sendStream, if_neg hdata, hread]
        rfl
    | ok cur =>
      have hrun : w' = (run (streamTurn io opcode.toU8) (fun s => sourceBytes s.source)
          (lowers_streamTurn io opcode.toU8) ⟨cur, true, rest, w⟩).state := by
        simp only [w', sendStream, if_neg hdata, hread]
      have hbegins : (Call.sendStream opcode source).Begins io compressor w ↔
          w.sendClosed = false ∧ StreamBegins io w.transport.draws rest := by
        simp [Call.Begins, hread, hop, Except.isOk, Except.toBool]
      have hbreaks : (Call.sendStream opcode source).BreaksOff io compressor w ↔
          (w.sendClosed = false ∧ StreamBegins io w.transport.draws rest) ∧
            ¬StreamCompletes io w.transport.draws rest := by
        simp only [Call.BreaksOff, hbegins, hread]
      cases hclosed : w.sendClosed with
      | true =>
        have hno : ¬(Call.sendStream opcode source).Begins io compressor w := by
          rw [hbegins]
          simp [hclosed]
        obtain ⟨e, he | he⟩ := stream_closed io opcode.toU8 hclosed cur true rest
        · exact hquiet hno (hrun.trans (congrArg Outcome.state he))
        · have hw' : w' = w.drawn := hrun.trans (congrArg Outcome.state he)
          exact hw' ▸ ⟨hb, .quiet ⟨hno, fun h => hno h.1⟩ rfl rfl⟩
      | false =>
        obtain ⟨hopen, ⟨hno, hwire⟩ | ⟨hyes, k, complete, hwire, hcomplete⟩⟩ :=
          stream_wire hio hop rest cur true ⟨hclosed, hb⟩
        · rw [← hrun] at hopen hwire
          have hno' : ¬(Call.sendStream opcode source).Begins io compressor w :=
            fun h => hno (hbegins.mp h).2
          exact ⟨hopen.usable, .quiet ⟨hno', fun h => hno' h.1⟩ (hopen.sendClosed.trans
            hclosed.symm) hwire⟩
        · rw [← hrun] at hopen hwire
          refine ⟨hopen.usable, .message (hbegins.mpr ⟨hclosed, hyes⟩) hclosed hopen.sendClosed
            opcode.toU8 hop k complete ?_ hwire⟩
          rw [hcomplete, hbreaks]
          simp [hclosed, hyes]

theorem effect_exec (compressor : Compress) (hio : ∀ k, io.write k = .accepted) {w : WsWriter}
    (hb : w.transport.broken = false) (call : Call) :
    let w' := (exec io compressor w call).state
    w'.transport.broken = false ∧
      Effect w w' (call.Begins io compressor w) (call.BreaksOff io compressor w) := by
  cases call with
  | sendText text => exact effect_sendData hio hb (.inl rfl) _
  | sendBinary data => exact effect_sendData hio hb (.inr rfl) data
  | send message =>
    cases message with
    | text s => exact effect_sendData hio hb (.inl rfl) _
    | binary b => exact effect_sendData hio hb (.inr rfl) b
  | sendStream opcode source => exact effect_sendStream hio hb opcode source
  | ping payload => exact effect_sendControl hio hb (.inl rfl) payload
  | sendPong payload => exact effect_sendControl hio hb (.inr rfl) payload
  | close => exact effect_closeFrame hio hb []
  | closeWith code reason =>
    simp only [exec, closeWith]
    cases closePayload code reason with
    | error e => exact ⟨hb, .quiet ⟨id, id⟩ rfl rfl⟩
    | ok payload => exact effect_closeFrame hio hb payload

/-! ## Runs -/

/-- The calls, each with the writer it is made on. -/
def history (io : Io) (compressor : Compress) : List Call → WsWriter → List (WsWriter × Call)
  | [], _ => []
  | call :: calls, w => (w, call) :: history io compressor calls (exec io compressor w call).state

/-- After a streamed message broke off, no call begins a data message. -/
def NoneBeginsAfterBreak (io : Io) (compressor : Compress) (calls : List Call) (w : WsWriter) :
    Prop :=
  (history io compressor calls w).Pairwise fun broke next =>
    broke.2.BreaksOff io compressor broke.1 → ¬next.2.Begins io compressor next.1

/-- A legal wire, on which there is no CLOSE as long as the connection is open. -/
structure Standing (w : WsWriter) : Prop where
  usable : w.transport.broken = false
  legal : Legal w.wire
  closed : w.sendClosed = false → ∀ h ∈ w.wire, h.opcode ≠ opcodeClose

theorem standing_new (compress : Bool) : Standing (.new compress) :=
  ⟨rfl, ⟨trivial, .nil⟩, fun _ _ h => nomatch h⟩

/-- A message is unfinished on the wire. -/
def Mid (w : WsWriter) : Prop := midAfter false w.wire = true

/-- One call leaves the wire legal unless it begins a message inside another one. -/
theorem Effect.legal {w w' : WsWriter} {begins breaksOff : Prop} (h : Effect w w' begins breaksOff)
    (hw : Standing w) (hb : w'.transport.broken = false) :
    (w.Mid ∧ begins → ¬Legal w'.wire) ∧
      (¬(w.Mid ∧ begins) → Standing w' ∧ (w'.Mid ↔ w.Mid ∨ breaksOff)) := by
  have happend {more : List Head} (hopen : w.sendClosed = false) (hmore : NothingAfterClose more) :
      Legal (w.wire ++ more) ↔ FragmentsInOrder (midAfter false w.wire) more := by
    unfold Legal NothingAfterClose
    rw [fragmentsInOrder_append, List.pairwise_append]
    refine ⟨fun h => h.1.2, fun h => ⟨⟨hw.legal.1, h⟩, hw.legal.2, hmore, ?_⟩⟩
    intro a ha b _ hclose
    exact absurd hclose (hw.closed hopen a ha)
  cases h with
  | quiet hno hclosed hwire =>
    refine ⟨fun h => absurd h.2 hno.1, fun _ => ⟨⟨hb, hwire ▸ hw.legal, ?_⟩, ?_⟩⟩
    · rw [hclosed, hwire]
      exact hw.closed
    · simp only [Mid, hwire, hno.2, or_false]
  | control hno hopen hclosed opcode hop hwire =>
    have hcontrol : Head.isControl ⟨true, opcode⟩ = true ∧ opcode ≠ opcodeClose := by
      rcases hop with rfl | rfl <;> decide
    refine ⟨fun h => absurd h.2 hno.1, fun _ => ⟨⟨hb, ?_, ?_⟩, ?_⟩⟩
    · rw [hwire, happend hopen (List.pairwise_singleton _ _)]
      simp [FragmentsInOrder, hcontrol]
    · rw [hwire]
      intro _ h hh
      rcases List.mem_append.mp hh with hh | hh
      · exact hw.closed hopen h hh
      · exact List.mem_singleton.mp hh ▸ hcontrol.2
    · simp [Mid, hwire, midAfter_append, midAfter, hcontrol, hno]
  | close hno hopen hclosed hwire =>
    have hcontrol : Head.isControl ⟨true, opcodeClose⟩ = true := by decide
    refine ⟨fun h => absurd h.2 hno.1, fun _ => ⟨⟨hb, ?_, ?_⟩, ?_⟩⟩
    · rw [hwire, happend hopen (List.pairwise_singleton _ _)]
      simp [FragmentsInOrder, hcontrol]
    · simp [hclosed]
    · simp [Mid, hwire, midAfter_append, midAfter, hcontrol, hno]
  | message hbegins hopen hclosed opcode hop k complete hcomplete hwire =>
    have hdata : opcode ≠ opcodeCont := by rcases hop with rfl | rfl <;> decide
    obtain ⟨horder, hmid, hnone⟩ :=
      fragments_inOrder (hop.imp_right Or.inl) k complete (midAfter false w.wire)
    have hlegal : Legal w'.wire ↔ ¬w.Mid := by
      rw [hwire, happend hopen (nothingAfterClose_of_none hnone), horder, Mid]
      simp [hdata]
    refine ⟨fun h hl => hlegal.mp hl h.1, fun h => ?_⟩
    have hbetween : ¬w.Mid := fun hm => h ⟨hm, hbegins⟩
    refine ⟨⟨hb, hlegal.mpr hbetween, ?_⟩, ?_⟩
    · rw [hwire]
      intro _ h hh
      rcases List.mem_append.mp hh with hh | hh
      · exact hw.closed hopen h hh
      · exact hnone h hh
    · rw [Mid, hwire, midAfter_append, hmid]
      simp only [hbetween, false_or, Bool.not_eq_true', ← Bool.not_eq_true, hcomplete, not_not]

theorem Effect.wire_append {w w' : WsWriter} {begins breaksOff : Prop}
    (h : Effect w w' begins breaksOff) : w.wire <+: w'.wire := by
  cases h with
  | quiet hno hclosed hwire => rw [hwire]
  | control hno hopen hclosed opcode hop hwire => exact ⟨_, hwire.symm⟩
  | close hno hopen hclosed hwire => exact ⟨_, hwire.symm⟩
  | message hbegins hopen hclosed opcode hop k complete hcomplete hwire => exact ⟨_, hwire.symm⟩

/-- What is on the wire stays there. -/
theorem wire_runCalls (hio : ∀ k, io.write k = .accepted) (calls : List Call) {w : WsWriter}
    (hb : w.transport.broken = false) : w.wire <+: (runCalls io compressor calls w).wire := by
  induction calls generalizing w with
  | nil => exact List.prefix_rfl
  | cons call calls ih =>
    obtain ⟨hb', heffect⟩ := effect_exec compressor hio hb call
    exact heffect.wire_append.trans (ih hb')

theorem legal_runCalls_iff (hio : ∀ k, io.write k = .accepted) (calls : List Call) {w : WsWriter}
    (hw : Standing w) :
    Legal (runCalls io compressor calls w).wire ↔
      (w.Mid → ∀ next ∈ history io compressor calls w, ¬next.2.Begins io compressor next.1) ∧
        NoneBeginsAfterBreak io compressor calls w := by
  induction calls generalizing w with
  | nil => exact ⟨fun _ => ⟨fun _ _ h => (nomatch h), .nil⟩, fun _ => hw.legal⟩
  | cons call calls ih =>
    obtain ⟨hb', heffect⟩ := effect_exec compressor hio hw.usable call
    obtain ⟨hbad, hgood⟩ := heffect.legal hw hb'
    simp only [NoneBeginsAfterBreak, history, List.pairwise_cons, List.forall_mem_cons]
    by_cases h : w.Mid ∧ call.Begins io compressor w
    · refine iff_of_false (fun hl => hbad h ?_) fun hc => (hc.1 h.1).1 h.2
      exact hl.of_append (wire_runCalls hio calls hb')
    · obtain ⟨hw', hmid⟩ := hgood h
      have hrest := ih hw'
      rw [hmid] at hrest
      refine hrest.trans ⟨fun ⟨hnone, hpairs⟩ => ⟨fun hm => ⟨fun hb => h ⟨hm, hb⟩, ?_⟩, ?_, hpairs⟩,
        fun ⟨hnone, hbreak, hpairs⟩ => ⟨?_, hpairs⟩⟩
      · exact hnone (.inl hm)
      · exact fun next hnext hbroke => hnone (.inr hbroke) next hnext
      · rintro (hm | hbroke)
        · exact (hnone hm).2
        · exact fun next hnext => hbreak next hnext hbroke

/-- The calls of a new writer leave legal messages on the wire if and only if no call begins a data
message after a streamed message broke off. -/
theorem wire_legal_iff (io : Io) (compressor : Compress) (compress : Bool)
    (hio : ∀ k, io.write k = .accepted) (calls : List Call) :
    Legal (runCalls io compressor calls (.new compress)).wire ↔
      NoneBeginsAfterBreak io compressor calls (.new compress) := by
  rw [legal_runCalls_iff hio calls (standing_new compress)]
  refine and_iff_right_of_imp fun _ hm => ?_
  simp [Mid, wire, new, Transport.new, midAfter] at hm

theorem wire_legal_iff_pingClose :
    Legal (runCalls (.steady ⟨0x11, 0x22, 0x33, 0x44⟩) .ok [.ping [], .close] (.new false)).wire ↔
      NoneBeginsAfterBreak (.steady ⟨0x11, 0x22, 0x33, 0x44⟩) .ok [.ping [], .close] (.new false) :=
  wire_legal_iff (.steady ⟨0x11, 0x22, 0x33, 0x44⟩) .ok false (fun _ => rfl) [.ping [], .close]

/-! ## A source that fails -/

/-- A read that fills the chunk. -/
theorem readChunk_full {cap : Nat} {bytes : Bytes} (hcap : bytes.length = cap) (hpos : bytes ≠ [])
    (rest : List SourceRead) : readChunk cap [] (.data bytes :: rest) = (.ok bytes, rest) := by
  have hzero : ¬cap ≤ ([] : Bytes).length := by
    simpa [← hcap, List.length_eq_zero_iff] using hpos
  rw [readChunk, if_neg hzero]
  simp only [List.length_nil, Nat.zero_add, List.nil_append, if_neg hpos, hcap, le_refl, if_true]
  cases rest with
  | nil => rfl
  | cons read rest =>
    rw [readChunk.eq_def]
    exact if_pos hcap.ge

theorem readChunk_failed {cap : Nat} (hcap : 0 < cap) (kind : IoErrorKind) (msg : String)
    (rest : List SourceRead) :
    readChunk cap [] (.failed kind msg :: rest) = (.error (kind, msg), rest) := by
  rw [readChunk, if_neg (by simpa using hcap.ne')]

/-- The source fails after two full chunks, of which the first was sent by then. -/
theorem breaksOff_failing (compressor : Compress) (m : Mask) {chunk : Bytes} (hchunk : chunk.length = streamChunk) :
    (Call.sendStream .text [.data chunk, .data chunk, .failed .other "read error"]).BreaksOff
      (.steady m) compressor (.new false) := by
  have hpos : chunk ≠ [] := by
    rintro rfl
    cases hchunk
  have hfull := readChunk_full hchunk hpos
  have hfails := readChunk_failed (by decide : 0 < streamChunk) .other "read error" []
  have hchunks : chunksFrom [.data chunk, .failed .other "read error"] = ([chunk], false) := by
    rw [chunksFrom_ok (hfull _), if_neg hpos, chunksFrom_error hfails]
  refine ⟨⟨rfl, .inl rfl, ?_, ?_⟩, ?_⟩
  · rw [hfull]
    rfl
  · rw [hfull]
    exact ⟨.inl (by rw [hchunks]; simp), m, rfl⟩
  · rw [hfull, StreamCompletes, hchunks]
    simp

/-- A text message is begun inside the one that broke off. -/
theorem not_legal_after_failing :
    ¬Legal (runCalls (.steady ⟨0x11, 0x22, 0x33, 0x44⟩) .ok
      [.sendStream .text [.data (.replicate streamChunk 0x61), .data (.replicate streamChunk 0x61),
        .failed .other "read error"], .sendText "x"] (.new false)).wire := by
  have hio (k : Nat) : (Io.steady ⟨0x11, 0x22, 0x33, 0x44⟩).write k = .accepted := rfl
  have hlength : (List.replicate streamChunk (0x61 : UInt8)).length = streamChunk :=
    List.length_replicate
  generalize List.replicate streamChunk (0x61 : UInt8) = chunk at hlength ⊢
  have hbroke := breaksOff_failing .ok ⟨0x11, 0x22, 0x33, 0x44⟩ hlength
  rw [legal_runCalls_iff hio _ (standing_new false)]
  rintro ⟨-, hpairs⟩
  have hnext := (List.pairwise_cons.mp hpairs).1 _ List.mem_cons_self hbroke
  obtain ⟨-, heffect⟩ := effect_exec .ok hio (w := .new false) rfl
    (.sendStream .text [.data chunk, .data chunk, .failed .other "read error"])
  refine hnext ⟨?_, ?_⟩
  · cases heffect with
    | message hbegins hopen hclosed => exact hclosed
    | quiet hno => exact absurd hbroke hno.2
    | control hno => exact absurd hbroke hno.2
    | close hno => exact absurd hbroke hno.2
  · exact ⟨fun _ => rfl, ⟨0x11, 0x22, 0x33, 0x44⟩, rfl⟩

/-! ## Sources that do not fail -/

/-- No read of the source fails. -/
def Sound (source : List SourceRead) : Prop := ∀ kind msg, .failed kind msg ∉ source

theorem readChunk_sound (cap : Nat) (filled : Bytes) {source : List SourceRead}
    (h : Sound source) :
    ∃ chunk rest, readChunk cap filled source = (.ok chunk, rest) ∧ Sound rest := by
  induction source generalizing filled with
  | nil => exact ⟨filled, [], rfl, h⟩
  | cons read source ih =>
    have hsource : Sound source := fun kind msg hm => h kind msg (List.mem_cons_of_mem _ hm)
    rw [readChunk.eq_def]
    dsimp only
    split_ifs
    · exact ⟨filled, read :: source, rfl, h⟩
    · cases read with
      | interrupted => exact ih filled hsource
      | failed kind msg => exact absurd List.mem_cons_self (h kind msg)
      | data bytes =>
        dsimp only
        split_ifs
        · exact ⟨filled, source, rfl, hsource⟩
        · exact ih _ hsource
        · refine ⟨_, _, rfl, fun kind msg hm => ?_⟩
          rcases List.mem_cons.mp hm with hm | hm
          · cases hm
          · exact hsource kind msg hm

theorem chunksFrom_sound {source : List SourceRead} (h : Sound source) :
    (chunksFrom source).2 = true := by
  induction hn : sourceBytes source using Nat.strongRecOn generalizing source with
  | ind n ih =>
    obtain ⟨chunk, rest, hread, hrest⟩ := readChunk_sound streamChunk [] h
    rw [chunksFrom_ok hread]
    split_ifs with hchunk
    · rfl
    · have hbytes := readChunk_bytes hread
      have hpos := List.length_pos_iff.mpr hchunk
      simp only [List.length_nil] at hbytes
      exact ih _ (by omega) hrest rfl

/-- If there are masks enough and no source fails, the wire is legal. -/
theorem legal_of_sound (hio : ∀ k, io.write k = .accepted) (hmasks : ∀ k, io.HasMask k)
    {calls : List Call} (hsound : ∀ opcode source, .sendStream opcode source ∈ calls → Sound source)
    (compress : Bool) : Legal (runCalls io compressor calls (.new compress)).wire := by
  have hnone (w : WsWriter) {call : Call} (hcall : call ∈ calls) :
      ¬call.BreaksOff io compressor w := by
    cases call with
    | sendStream opcode source =>
      rintro ⟨-, hbreaks⟩
      obtain ⟨cur, rest, hread, hrest⟩ :=
        readChunk_sound streamChunk [] (hsound opcode source hcall)
      rw [hread] at hbreaks
      exact hbreaks ⟨chunksFrom_sound hrest, fun i _ => hmasks _⟩
    | _ => exact id
  have hmem (w : WsWriter) (cs : List Call) (p : WsWriter × Call)
      (hp : p ∈ history io compressor cs w) : p.2 ∈ cs := by
    induction cs generalizing w with
    | nil => cases hp
    | cons c cs ih =>
      rcases List.mem_cons.mp hp with rfl | hp
      · exact List.mem_cons_self
      · exact List.mem_cons_of_mem _ (ih _ hp)
  rw [legal_runCalls_iff hio calls (standing_new compress)]
  refine ⟨fun hm => ?_, ?_⟩
  · simp [Mid, wire, new, Transport.new, midAfter] at hm
  · refine List.pairwise_iff_forall_sublist.mpr fun {broke next} hsub hbroke => ?_
    exact absurd hbroke (hnone _ (hmem _ _ broke (hsub.subset List.mem_cons_self)))

end WsWriter

end Rsurl.WebSocket
