import Rsurl.Http2.Alike
import Rsurl.Http2.Sections
import Rsurl.Http2.Reachable

/-!
# Cutting a header block into frames

A header block may come in one HEADERS frame or in a HEADERS frame and any number of
CONTINUATION frames. While a block is collected only its stream's buffer, the awaited stream and
the flood budget move, so the last fragment meets a connection that is `Alike` the one a single
frame meets.
-/

namespace Rsurl.Http2

open Library Hpack

/-- CONTINUATION frames on stream `id` that carry `block` and end it. -/
inductive Continues (id : Nat) : Bytes → List Frame → Prop where
  | last {f : Frame} (typ : f.typ = .continuation) (streamId : f.streamId = id)
      (endHeaders : f.endHeaders = true) : Continues id f.payload [f]
  | more {f : Frame} {block : Bytes} {rest : List Frame} (typ : f.typ = .continuation)
      (streamId : f.streamId = id) (endHeaders : f.endHeaders = false)
      (h : Continues id block rest) : Continues id (f.payload ++ block) (f :: rest)

/-- Frames that carry the header block `block` on stream `id`: one HEADERS frame, or a HEADERS
frame and the CONTINUATION frames after it. Padding and priority fields are not part of the
block. -/
inductive Carries (id : Nat) (endStream : Bool) : Bytes → List Frame → Prop where
  | whole {f : Frame} {block : Bytes} (typ : f.typ = .headers) (streamId : f.streamId = id)
      (hend : f.endStream = endStream) (endHeaders : f.endHeaders = true)
      (fragment : Connection.headersFragment f = .ok block) : Carries id endStream block [f]
  | cut {f : Frame} {first block : Bytes} {rest : List Frame} (typ : f.typ = .headers)
      (streamId : f.streamId = id) (hend : f.endStream = endStream)
      (endHeaders : f.endHeaders = false)
      (fragment : Connection.headersFragment f = .ok first) (h : Continues id block rest) :
      Carries id endStream (first ++ block) (f :: rest)

theorem Continues.length_pos {id : Nat} {block : Bytes} {frames : List Frame}
    (h : Continues id block frames) : 0 < frames.length := by
  cases h <;> simp

/-- A single frame carries its block whole. -/
theorem Carries.whole_inv {id : Nat} {endStream : Bool} {block : Bytes} {f : Frame}
    (h : Carries id endStream block [f]) :
    f.typ = .headers ∧ f.streamId = id ∧ f.endStream = endStream ∧ f.endHeaders = true ∧
      Connection.headersFragment f = .ok block := by
  generalize hframes : [f] = frames at h
  cases h with
  | whole typ streamId hend endHeaders fragment =>
    cases hframes
    exact ⟨typ, streamId, hend, endHeaders, fragment⟩
  | cut _ _ _ _ _ hrest =>
    cases hframes
    exact absurd hrest.length_pos (by simp)

theorem Carries.pair {id : Nat} {endStream : Bool} {first block : Bytes} {f g : Frame}
    (typ : f.typ = .headers ∧ g.typ = .continuation) (streamId : f.streamId = id ∧ g.streamId = id)
    (hend : f.endStream = endStream) (endHeaders : f.endHeaders = false ∧ g.endHeaders = true)
    (fragment : Connection.headersFragment f = .ok first) (hblock : block = first ++ g.payload) :
    Carries id endStream block [f, g] := by
  rw [hblock]
  exact .cut typ.1 streamId.1 hend endHeaders.1 fragment (.last typ.2 streamId.2 endHeaders.2)

namespace Connection

variable {c c' : Connection} {id : Nat}

/-- Process frames in order and collect what each yields; the first failure ends it. -/
def feed (c : Connection) (sink : Bool) :
    List Frame → List (Except Error DispatchOutcome) × Connection
  | [] => ([], c)
  | f :: rest => match c.processFrame f sink with
    | .error e c => ([.error e], c)
    | .ok outcome c =>
      let (results, c) := feed c sink rest
      (.ok outcome :: results, c)

/-- Feeding `frames` ends as feeding the one frame `whole` does: every frame before the last one
processed yields `continue`, the last yields what `whole` yields, and only a HEADERS frame that
is refused itself ends the feeding early. -/
def EndsAlike (c : Connection) (sink : Bool) (whole : Frame) (frames : List Frame) : Prop :=
  ∃ (result : Except Error DispatchOutcome) (k : Nat) (c₁ c₂ : Connection),
    c.feed sink [whole] = ([result], c₁) ∧
    c.feed sink frames = (List.replicate k (.ok .continue) ++ [result], c₂) ∧
    (k + 1 = frames.length ∨ k = 0 ∧ ∃ e, result = .error e) ∧
    c₂.streams = c₁.streams ∧ c₂.decoder = c₁.decoder ∧
    c₂.expectingContinuation = c₁.expectingContinuation

/-! ## One fragment -/

/-- Frames of a header block are not counted as control frames. -/
theorem processFrame_block {f : Frame} (hgate : c.continuationGate f = .ok ())
    (hf : f.typ = .headers ∨ f.typ = .continuation) (sink : Bool) :
    c.processFrame f sink = ({ c with madeProgress := false }.dispatch f sink).andThen
      fun outcome c => c.recordProgress outcome := by
  have hcontrol : c.budget.recordControlFrame f = .ok () c.budget := by
    unfold FloodBudget.recordControlFrame
    rcases hf with h | h <;> rw [h]
  unfold processFrame
  rw [hgate, hcontrol]
  rfl

/-- A frame that makes no progress is charged to the budget. -/
theorem recordProgress_continue (hm : c.madeProgress = false)
    (hb : c.budget.noProgress < maxNoProgressFrames) :
    c.recordProgress .continue =
      .ok .continue { c with budget := { c.budget with noProgress := c.budget.noProgress + 1 } } := by
  unfold recordProgress FloodBudget.recordProgress
  have hle : ¬maxNoProgressFrames < c.budget.noProgress + 1 := by omega
  simp [hm, hle]

theorem recordProgress_made (hm : c.madeProgress = true) (outcome : DispatchOutcome) :
    c.recordProgress outcome = .ok outcome { c with budget := { c.budget with noProgress := 0 } } := by
  unfold recordProgress FloodBudget.recordProgress
  simp [hm]

theorem pushHeaderFragment_eq {s : Stream} {frag : Bytes}
    (h : (s.headersBuf ++ frag).length ≤ maxHeadersBuf) :
    s.pushHeaderFragment frag = .ok { s with headersBuf := s.headersBuf ++ frag } := by
  rw [List.length_append] at h
  unfold Stream.pushHeaderFragment satAdd
  rw [if_neg (by omega)]

theorem gate_awaited {f : Frame} (hexp : c.expectingContinuation = some f.streamId)
    (hf : f.typ = .continuation) : c.continuationGate f = .ok () := by
  simp [continuationGate, hexp, hf]

theorem gate_free (hexp : c.expectingContinuation = none) (f : Frame) :
    c.continuationGate f = .ok () := by
  simp [continuationGate, hexp]

/-! ## The end of a block -/

theorem finishBlock_madeProgress {block : Bytes} {discard : Bool} {outcome : DispatchOutcome}
    (h : c.finishBlock id block discard = .ok outcome c') : c'.madeProgress = true := by
  obtain ⟨decoded, d, -, -, ⟨-, rfl⟩ | ⟨-, hdone⟩⟩ := finishBlock_ok h
  · rfl
  · exact hdone.madeProgress

/-- The progress a finished block makes is never an error. -/
theorem Alike.finishRecorded (h : Alike c c') (id : Nat) (block : Bytes) (discard : Bool) :
    Outcome.Rel Alike
      ((c.finishBlock id block discard).andThen fun outcome c => c.recordProgress outcome)
      ((c'.finishBlock id block discard).andThen fun outcome c => c.recordProgress outcome) := by
  have hrel := h.finishBlock id block discard
  cases hc : c.finishBlock id block discard with
  | ok outcome c₁ =>
    cases hc' : c'.finishBlock id block discard with
    | ok outcome' c₁' =>
      rw [hc, hc'] at hrel
      cases hrel with
      | ok h₁ =>
        simp only [Outcome.andThen, recordProgress_made (finishBlock_madeProgress hc),
          recordProgress_made (finishBlock_madeProgress hc')]
        exact .ok { h₁ with }
    | error e c₁' =>
      rw [hc, hc'] at hrel
      cases hrel
  | error e c₁ =>
    cases hc' : c'.finishBlock id block discard with
    | ok outcome' c₁' =>
      rw [hc, hc'] at hrel
      cases hrel
    | error e' c₁' =>
      rw [hc, hc'] at hrel
      exact hrel

/-! ## Collecting -/

/-- The connection once the collected block has been taken out of its stream. -/
def blockTaken (c : Connection) (id : Nat) (s : Stream) : Connection :=
  { c.setStream id { s with headersBuf := [], discardHeaders := false } with
    expectingContinuation := none }

theorem processContinuation_last {f : Frame} {s : Stream}
    (hexp : c.expectingContinuation = some f.streamId) (hs : c.streams[f.streamId]? = some s)
    (hlen : (s.headersBuf ++ f.payload).length ≤ maxHeadersBuf) (hend : f.endHeaders = true) :
    c.processContinuation f =
      (c.blockTaken f.streamId s).finishBlock f.streamId (s.headersBuf ++ f.payload)
        s.discardHeaders := by
  simp [processContinuation, hexp, hs, pushHeaderFragment_eq hlen, hend, blockTaken]

theorem processContinuation_more {f : Frame} {s : Stream}
    (hexp : c.expectingContinuation = some f.streamId) (hs : c.streams[f.streamId]? = some s)
    (hlen : (s.headersBuf ++ f.payload).length ≤ maxHeadersBuf) (hend : f.endHeaders = false)
    (hopen : s.responseComplete = false) :
    c.processContinuation f =
      .ok .continue (c.setStream f.streamId { s with headersBuf := s.headersBuf ++ f.payload }) := by
  have hstill : { s with headersBuf := s.headersBuf ++ f.payload }.responseComplete = false := hopen
  simp [processContinuation, hexp, hs, pushHeaderFragment_eq hlen, hend, outcomeFor, hstill]

/-- The CONTINUATION frames of a block: all but the last yield `continue`, and the last ends as
if the block had just been completed. -/
theorem feed_continues {block : Bytes} {frames : List Frame} (h : Continues id block frames)
    (hid : id ≠ 0) (sink : Bool) {c : Connection} {s : Stream} (hs : c.streams[id]? = some s)
    (hexp : c.expectingContinuation = some id) (hopen : s.responseComplete = false)
    (hlen : (s.headersBuf ++ block).length ≤ maxHeadersBuf)
    (hb : c.budget.noProgress + frames.length ≤ maxNoProgressFrames + 1) :
    ∃ r : Outcome Connection DispatchOutcome,
      Outcome.Rel Alike (((c.blockTaken id s).finishBlock id (s.headersBuf ++ block)
        s.discardHeaders).andThen fun outcome c => c.recordProgress outcome) r ∧
      c.feed sink frames =
        (List.replicate (frames.length - 1) (.ok .continue) ++ [r.result], r.state) := by
  induction h generalizing c s with
  | @last f typ streamId endHeaders =>
    subst streamId
    have hprocess : c.processFrame f sink =
        (({ c with madeProgress := false }.blockTaken f.streamId s).finishBlock f.streamId
          (s.headersBuf ++ f.payload) s.discardHeaders).andThen
            fun outcome c => c.recordProgress outcome := by
      rw [processFrame_block (gate_awaited hexp typ) (.inr typ)]
      simp only [dispatch, hid, if_false, processStreamFrame, typ]
      exact congrArg (Outcome.andThen · _) (processContinuation_last hexp hs hlen endHeaders)
    refine ⟨c.processFrame f sink, ?_, ?_⟩
    · rw [hprocess]
      refine Alike.finishRecorded ?_ _ _ _
      exact { Alike.refl (c.blockTaken f.streamId s) with }
    · simp only [feed, List.length_singleton, Nat.sub_self, List.replicate_zero, List.nil_append]
      cases c.processFrame f sink with
      | ok outcome c₁ => rfl
      | error e c₁ => rfl
  | @more f block rest typ streamId endHeaders hrest ih =>
    subst streamId
    rw [← List.append_assoc] at hlen
    have hpos := hrest.length_pos
    rw [List.length_cons] at hb
    have hfirst : (s.headersBuf ++ f.payload).length ≤ maxHeadersBuf := by
      rw [List.length_append] at hlen
      omega
    -- the connection after this fragment
    let held := { c.setStream f.streamId { s with headersBuf := s.headersBuf ++ f.payload } with
      madeProgress := false
      budget := { c.budget with noProgress := c.budget.noProgress + 1 } }
    have hprocess : c.processFrame f sink = .ok .continue held := by
      rw [processFrame_block (gate_awaited hexp typ) (.inr typ)]
      simp only [dispatch, hid, if_false, processStreamFrame, typ]
      have hcont := @processContinuation_more { c with madeProgress := false } f s hexp hs hfirst
        endHeaders hopen
      rw [hcont]
      exact recordProgress_continue rfl (by simp only [setStream]; omega)
    obtain ⟨r, hrel, hfeed⟩ := @ih held { s with headersBuf := s.headersBuf ++ f.payload }
      (by simp [held]) hexp hopen hlen (by simp only [held]; omega)
    refine ⟨r, ?_, ?_⟩
    · rw [List.append_assoc] at hrel
      have hsame : Alike (c.blockTaken f.streamId s)
          (held.blockTaken f.streamId { s with headersBuf := s.headersBuf ++ f.payload }) := by
        have hstreams := congrArg Connection.streams (setStream_setStream c f.streamId
          { s with headersBuf := s.headersBuf ++ f.payload }
          { s with headersBuf := [], discardHeaders := false })
        exact { Alike.refl (c.blockTaken f.streamId s) with streams := hstreams }
      exact (hsame.finishRecorded _ _ _).trans (fun _ _ _ => Alike.trans) hrel
    · simp only [feed, hprocess, hfeed]
      obtain ⟨k, hk⟩ : ∃ k, rest.length = k + 1 := ⟨rest.length - 1, by omega⟩
      simp [hk, List.replicate_succ]

/-! ## The first fragment -/

end Connection

/-- A fragment of a block that starts now would be taken for the end of the response: the final
head is in, and the stream ends with the frame or had ended before it closed. -/
def Stream.endsEarly (s : Stream) (endStream : Bool) : Bool :=
  s.responseHeaders.isSome && if s.state = .closed then s.endStreamRecv else endStream

namespace Connection

variable {c c' : Connection} {id : Nat}

/-- Only its flags, its stream and its fragment matter of a HEADERS frame. -/
theorem processHeaders_congr {f g : Frame} (c : Connection) (hid : f.streamId = g.streamId)
    (hend : f.endStream = g.endStream) (hheaders : f.endHeaders = g.endHeaders)
    (hfrag : headersFragment f = headersFragment g) : c.processHeaders f = c.processHeaders g := by
  unfold processHeaders headersOnClosed
  rw [hid, hend, hheaders, hfrag]

theorem processFrame_headers {f : Frame} (hexp : c.expectingContinuation = none)
    (typ : f.typ = .headers) (hid : f.streamId ≠ 0) (sink : Bool) :
    c.processFrame f sink = ({ c with madeProgress := false }.processHeaders f).andThen
      fun outcome c => c.recordProgress outcome := by
  rw [processFrame_block (gate_free hexp f) (.inl typ)]
  simp only [dispatch, hid, if_false, processStreamFrame, typ]

theorem endsAlike_of_error {whole f : Frame} {rest : List Frame} {sink : Bool} {e : Error}
    {c₁ : Connection} (hw : c.processFrame whole sink = .error e c₁)
    (hf : c.processFrame f sink = .error e c₁) : EndsAlike c sink whole (f :: rest) := by
  refine ⟨.error e, 0, c₁, c₁, ?_, ?_, .inr ⟨rfl, e, rfl⟩, rfl, rfl, rfl⟩
  · simp [feed, hw]
  · simp [feed, hf]

theorem endsAlike_of_rel {whole f : Frame} {rest : List Frame} {sink : Bool} {held : Connection}
    {r : Outcome Connection DispatchOutcome} (hpos : 0 < rest.length)
    (hf : c.processFrame f sink = .ok .continue held)
    (hrest : held.feed sink rest =
      (List.replicate (rest.length - 1) (.ok .continue) ++ [r.result], r.state))
    (hrel : Outcome.Rel Alike (c.processFrame whole sink) r) :
    EndsAlike c sink whole (f :: rest) := by
  refine ⟨r.result, rest.length, (c.processFrame whole sink).state, r.state, ?_, ?_, .inl rfl,
    hrel.state.streams, hrel.state.decoder, hrel.state.expectingContinuation⟩
  · cases hw : c.processFrame whole sink with
    | ok outcome c₁ =>
      rw [hw] at hrel
      cases hrel
      simp [feed, hw]
    | error e c₁ =>
      rw [hw] at hrel
      cases hrel
      simp [feed, hw]
  · obtain ⟨k, hk⟩ : ∃ k, rest.length = k + 1 := ⟨rest.length - 1, by omega⟩
    simp [feed, hf, hrest, hk, List.replicate_succ]

theorem responseComplete_recvHeaders {s : Stream} {endStream : Bool} {newState : StreamState}
    (hlive : s.state ≠ .closed) (hrecv : s.state.recvHeaders endStream = .ok newState)
    (hopen : s.endsEarly endStream = false) {s' : Stream} (hstate : s'.state = newState)
    (hheaders : s'.responseHeaders = s.responseHeaders) : s'.responseComplete = false := by
  unfold Stream.endsEarly at hopen
  rw [if_neg hlive] at hopen
  rw [Stream.responseComplete_eq, hstate, hheaders]
  cases hst : s.state <;> cases endStream <;> simp_all [StreamState.recvHeaders]
  all_goals
    subst hrecv
    simp [StreamState.remoteDone]

/-- On a live stream the first fragment moves the stream's state, and the rest of the block meets
the stream a single frame would have left. -/
theorem endsAlike_live {whole f : Frame} {first block : Bytes} {rest : List Frame} {s : Stream}
    {newState : StreamState} (hexp : c.expectingContinuation = none)
    (hw : Carries id f.endStream (first ++ block) [whole]) (typ : f.typ = .headers)
    (hid : f.streamId = id) (hid₀ : id ≠ 0) (endHeaders : f.endHeaders = false)
    (fragment : headersFragment f = .ok first) (h : Continues id block rest)
    (hs : c.streams[id]? = some s) (hblock : s.blockPart = ([], false))
    (hlive : s.state ≠ .closed) (hrecv : s.state.recvHeaders f.endStream = .ok newState)
    (hlen : (first ++ block).length ≤ maxHeadersBuf)
    (hb : c.budget.noProgress + rest.length ≤ maxNoProgressFrames)
    (hopen : s.endsEarly f.endStream = false) (sink : Bool) :
    EndsAlike c sink whole (f :: rest) := by
  obtain ⟨hbuf, hdiscard⟩ : s.headersBuf = [] ∧ s.discardHeaders = false := by
    simpa [Stream.blockPart] using hblock
  have hpos := h.length_pos
  obtain ⟨wtyp, wid, wend, wheaders, wfragment⟩ := hw.whole_inv
  -- the stream once its HEADERS frame has been taken in
  let moved (buf : Bytes) : Stream := { s with
    rxAny := true, headersBuf := buf, endStreamRecv := s.endStreamRecv || f.endStream,
    state := newState }
  have hmoved (buf : Bytes) : (moved buf).responseComplete = false :=
    responseComplete_recvHeaders hlive hrecv hopen rfl rfl
  have hpush {frag : Bytes} (hfrag : frag.length ≤ maxHeadersBuf) :
      { s with rxAny := true }.pushHeaderFragment frag =
        .ok { s with rxAny := true, headersBuf := frag } := by
    have := @pushHeaderFragment_eq { s with rxAny := true } frag (by simpa [hbuf] using hfrag)
    simpa [hbuf] using this
  have hfirst : first.length ≤ maxHeadersBuf := by
    rw [List.length_append] at hlen
    omega
  let held : Connection := { c.setStream id (moved first) with
    madeProgress := false
    expectingContinuation := some id
    budget := { c.budget with noProgress := c.budget.noProgress + 1 } }
  have hf : c.processFrame f sink = .ok .continue held := by
    rw [processFrame_headers hexp typ (hid ▸ hid₀)]
    have hstep : { c with madeProgress := false }.processHeaders f =
        .ok .continue { { c with madeProgress := false }.setStream id (moved first) with
          expectingContinuation := some id } := by
      simp [processHeaders, fragment, hid, hs, hlive, hrecv, hpush hfirst, endHeaders, outcomeFor,
        hmoved first, moved]
    rw [hstep]
    exact recordProgress_continue rfl (by simp only [setStream]; omega)
  have hwhole : c.processFrame whole sink =
      ({ { c with madeProgress := false }.setStream id (moved []) with
        expectingContinuation := none }.finishBlock id (first ++ block) false).andThen
          fun outcome c => c.recordProgress outcome := by
    rw [processFrame_headers hexp wtyp (wid ▸ hid₀)]
    simp only [processHeaders, wfragment, wid, hs, hlive, if_false, wend, hrecv, hpush hlen,
      wheaders, if_true, moved]
  obtain ⟨r, hrel, hfeed⟩ := @feed_continues id block rest h hid₀ sink held (moved first)
    (by simp [held]) rfl (hmoved first) hlen (by simp only [held]; omega)
  refine endsAlike_of_rel hpos hf hfeed ?_
  rw [hwhole]
  refine Outcome.Rel.trans (R := Alike) ?_ (fun _ _ _ h₁ h₂ => h₁.trans h₂) hrel
  have hsame : (moved first).discardHeaders = false := hdiscard
  rw [hsame]
  refine Alike.finishRecorded ?_ _ _ _
  have hstreams := congrArg Connection.streams (setStream_setStream c id (moved first) (moved []))
  have hback : held.blockTaken id (moved first) =
      { held.setStream id (moved []) with expectingContinuation := none } := by
    simp only [blockTaken, moved, hdiscard]
  rw [hback]
  exact { Alike.refl { { c with madeProgress := false }.setStream id (moved []) with
    expectingContinuation := none } with streams := hstreams }

/-- A block on a closed stream is decoded and dropped, in one frame or in several. -/
theorem Alike.finishDiscarded {c c' : Connection} (h : Alike c c') {s : Stream}
    (hs : c.streams[id]? = some s) (hopen : s.responseComplete = false)
    (hm : c.madeProgress = false) (hb : c.budget.noProgress < maxNoProgressFrames)
    (block : Bytes) :
    Outcome.Rel Alike
      (((c.decodeBlock block).andThen fun _ c => .ok .continue c).andThen
        fun outcome c => c.recordProgress outcome)
      ((c'.finishBlock id block true).andThen fun outcome c => c.recordProgress outcome) := by
  unfold Connection.finishBlock Connection.decodeBlock
  rw [h.decoder]
  cases c.decoder.decodeBlock block with
  | error e d => exact .error { h with decoder := rfl }
  | ok decoded d =>
    have houtcome : { c' with decoder := d, madeProgress := true }.outcomeFor id = .continue := by
      simp [Connection.outcomeFor, h.streams, hs, hopen]
    simp only [Outcome.mapState, Outcome.andThen, if_true]
    rw [houtcome, @recordProgress_continue { c with decoder := d } hm hb, recordProgress_made rfl]
    exact .ok { h with decoder := rfl }

theorem endsAlike_closed {whole f : Frame} {first block : Bytes} {rest : List Frame} {s : Stream}
    (hexp : c.expectingContinuation = none)
    (hw : Carries id f.endStream (first ++ block) [whole]) (typ : f.typ = .headers)
    (hid : f.streamId = id) (hid₀ : id ≠ 0) (endHeaders : f.endHeaders = false)
    (fragment : headersFragment f = .ok first) (h : Continues id block rest)
    (hs : c.streams[id]? = some s) (hblock : s.blockPart = ([], false))
    (hclosed : s.state = .closed) (hlen : (first ++ block).length ≤ maxHeadersBuf)
    (hb : c.budget.noProgress + rest.length ≤ maxNoProgressFrames)
    (hopen : s.responseComplete = false) (sink : Bool) :
    EndsAlike c sink whole (f :: rest) := by
  obtain ⟨hbuf, hdiscard⟩ : s.headersBuf = [] ∧ s.discardHeaders = false := by
    simpa [Stream.blockPart] using hblock
  have hpos := h.length_pos
  obtain ⟨wtyp, wid, wend, wheaders, wfragment⟩ := hw.whole_inv
  have hfirst : (s.headersBuf ++ first).length ≤ maxHeadersBuf := by
    rw [List.length_append] at hlen ⊢
    simp only [hbuf, List.length_nil]
    omega
  let kept : Stream := { s with headersBuf := first, discardHeaders := true }
  let held : Connection := { c.setStream id kept with
    madeProgress := false
    expectingContinuation := some id
    budget := { c.budget with noProgress := c.budget.noProgress + 1 } }
  have hf : c.processFrame f sink = .ok .continue held := by
    rw [processFrame_headers hexp typ (hid ▸ hid₀)]
    have hstep : { c with madeProgress := false }.processHeaders f =
        .ok .continue { { c with madeProgress := false }.setStream id kept with
          expectingContinuation := some id } := by
      simp [processHeaders, fragment, hid, hs, hclosed, headersOnClosed, endHeaders,
        pushHeaderFragment_eq hfirst, hbuf, kept]
    rw [hstep]
    exact recordProgress_continue rfl (by simp only [setStream]; omega)
  have hwhole : c.processFrame whole sink =
      (({ c with madeProgress := false }.decodeBlock (first ++ block)).andThen
        fun _ c => .ok DispatchOutcome.continue c).andThen
          fun outcome c => c.recordProgress outcome := by
    rw [processFrame_headers hexp wtyp (wid ▸ hid₀)]
    simp only [processHeaders, wfragment, wid, hs, hclosed, if_true, headersOnClosed, wheaders]
  obtain ⟨r, hrel, hfeed⟩ := @feed_continues id block rest h hid₀ sink held kept
    (by simp [held]) rfl hopen hlen (by simp only [held]; omega)
  refine endsAlike_of_rel hpos hf hfeed ?_
  rw [hwhole]
  refine Outcome.Rel.trans (R := Alike) ?_ (fun _ _ _ h₁ h₂ => h₁.trans h₂) hrel
  refine @Alike.finishDiscarded id { c with madeProgress := false } _ ?_ s hs hopen rfl
    (by simp only; omega) _
  -- taking the block out again leaves the stream as it was
  have hrestored : { kept with headersBuf := [], discardHeaders := false } = s := by
    simp only [kept, ← hbuf, ← hdiscard]
  have hstreams := congrArg Connection.streams
    ((setStream_setStream c id kept s).trans (setStream_self hs))
  have hback : held.blockTaken id kept =
      { held.setStream id s with expectingContinuation := none } := by
    simp only [blockTaken, hrestored]
  rw [hback]
  exact { Alike.refl { c with madeProgress := false } with
    streams := hstreams, expectingContinuation := hexp.symm }

/-- However a header block is cut into frames, it ends as it does in one HEADERS frame: same
result, same streams, same decoder, same awaited stream. The budget for frames without progress
must cover the fragments, and no fragment may look like the end of the response already. -/
theorem header_block_cut_transparent {whole : Frame} {frames : List Frame} {block : Bytes}
    {endStream : Bool} (hc : Reachable c) (hexp : c.expectingContinuation = none)
    (hw : Carries id endStream block [whole]) (hf : Carries id endStream block frames)
    (hlen : block.length ≤ maxHeadersBuf)
    (hb : c.budget.noProgress + (frames.length - 1) ≤ maxNoProgressFrames)
    (hopen : ∀ s, c.streams[id]? = some s → s.endsEarly endStream = false) (sink : Bool) :
    EndsAlike c sink whole frames := by
  obtain ⟨wtyp, wid, wend, wheaders, wfragment⟩ := hw.whole_inv
  cases hf with
  | @whole f _ typ streamId hend endHeaders fragment =>
    have hsame : c.processFrame f sink = c.processFrame whole sink := by
      rw [processFrame_block (gate_free hexp f) (.inl typ),
        processFrame_block (gate_free hexp whole) (.inl wtyp)]
      have hprocess := processHeaders_congr { c with madeProgress := false }
        (streamId.trans wid.symm) (hend.trans wend.symm) (endHeaders.trans wheaders.symm)
        (fragment.trans wfragment.symm)
      simp only [dispatch, processConnFrame, processStreamFrame, typ, wtyp, streamId, wid, hprocess]
    refine ⟨(c.processFrame whole sink).result, 0, (c.processFrame whole sink).state,
      (c.processFrame whole sink).state, ?_, ?_, .inl rfl, rfl, rfl, rfl⟩
    · cases hr : c.processFrame whole sink <;> simp [feed, hr]
    · cases hr : c.processFrame whole sink <;> simp [feed, hsame, hr]
  | @cut f first block rest typ streamId hend endHeaders fragment h =>
    rw [List.length_cons, Nat.add_sub_cancel] at hb
    by_cases hid₀ : id = 0
    · have herror {g : Frame} (htyp : g.typ = .headers) (hg : g.streamId = id) :
          c.processFrame g sink = .error (.badResponse
            s!"http2: frame type 0x{FrameType.headers.hex} on stream 0 (PROTOCOL_ERROR)")
            { c with madeProgress := false } := by
        rw [processFrame_block (gate_free hexp g) (.inl htyp)]
        simp only [dispatch, hg, hid₀, if_true, processConnFrame, htyp, Outcome.andThen]
      exact endsAlike_of_error (herror wtyp wid) (herror typ streamId)
    · subst hend
      cases hs : c.streams[id]? with
      | none =>
        have herror {g : Frame} {frag : Bytes} (htyp : g.typ = .headers) (hg : g.streamId = id)
            (hfrag : headersFragment g = .ok frag) :
            c.processFrame g sink = .error (.badResponse
              s!"HEADERS on unknown stream {id} (server push disabled)")
              { c with madeProgress := false } := by
          rw [processFrame_headers hexp htyp (hg ▸ hid₀)]
          simp only [processHeaders, hfrag, hg, hs, Outcome.andThen]
        exact endsAlike_of_error (herror wtyp wid wfragment) (herror typ streamId fragment)
      | some s =>
        have hblock := hc.tidy id s hs (by simp [hexp])
        by_cases hclosed : s.state = .closed
        · have hcomplete : s.responseComplete = false := by
            have hearly := hopen s hs
            simp only [Stream.endsEarly, hclosed, if_true] at hearly
            rw [Stream.responseComplete_eq]
            grind
          exact endsAlike_closed hexp hw typ streamId hid₀ endHeaders fragment h hs hblock hclosed
            hlen hb hcomplete sink
        · cases hrecv : s.state.recvHeaders f.endStream with
          | ok newState =>
            exact endsAlike_live hexp hw typ streamId hid₀ endHeaders fragment h hs hblock hclosed
              hrecv hlen hb (hopen s hs) sink
          | error e =>
            have herror {g : Frame} {frag : Bytes} (htyp : g.typ = .headers)
                (hg : g.streamId = id) (hend : g.endStream = f.endStream)
                (hfrag : headersFragment g = .ok frag) :
                c.processFrame g sink = .error e { c with madeProgress := false } := by
              rw [processFrame_headers hexp htyp (hg ▸ hid₀)]
              simp only [processHeaders, hfrag, hg, hs, hclosed, if_false, hend, hrecv,
                Outcome.andThen]
            exact endsAlike_of_error (herror wtyp wid wend wfragment)
              (herror typ streamId rfl fragment)

/-- The block of a status line, cut before its only byte. -/
theorem header_block_cut_transparent_status :
    EndsAlike (asked []) false ⟨.headers, 4, 1, [0x88]⟩
      [⟨.headers, 0, 1, []⟩, ⟨.continuation, 4, 1, [0x88]⟩] := by
  have hstreams : ((asked []).streams[1]?.all fun s => s.endsEarly false == false) = true := by
    decide +kernel
  have hwhole : Carries 1 false [0x88] [⟨.headers, 4, 1, [0x88]⟩] := .whole rfl rfl rfl rfl rfl
  have hcut : Carries 1 false [0x88] [⟨.headers, 0, 1, []⟩, ⟨.continuation, 4, 1, [0x88]⟩] :=
    .pair ⟨rfl, rfl⟩ ⟨rfl, rfl⟩ rfl ⟨rfl, rfl⟩ rfl rfl
  have hexp : (asked []).expectingContinuation = none := by decide +kernel
  have hzero : (asked []).budget.noProgress = 0 := by decide +kernel
  refine header_block_cut_transparent (reachable_asked []) hexp hwhole hcut (by decide)
    ?_ ?_ false
  · rw [hzero]
    decide
  · intro s hs
    rw [hs, Option.all_some] at hstreams
    exact eq_of_beq hstreams

/-! ## Where the cut shows -/

theorem EndsAlike.results {sink : Bool} {whole : Frame} {frames : List Frame}
    (h : EndsAlike c sink whole frames) :
    (c.feed sink frames).1 =
      List.replicate ((c.feed sink frames).1.length - 1) (.ok .continue) ++
        (c.feed sink [whole]).1 := by
  obtain ⟨result, k, c₁, c₂, hwhole, hframes, -⟩ := h
  rw [hwhole, hframes]
  simp

theorem processFrame_priority (hexp : c.expectingContinuation = none)
    (hm : c.madeProgress = false) (hb : c.budget.noProgress < maxNoProgressFrames) :
    c.processFrame ⟨.priority, 0, 1, [0, 0, 0, 0, 0]⟩ false =
      .ok .continue { c with budget := { c.budget with noProgress := c.budget.noProgress + 1 } } := by
  unfold Connection.processFrame
  rw [gate_free hexp, ← recordProgress_continue hm hb]
  have hsame : { c with madeProgress := false } = c := by rw [← hm]
  exact congrArg (recordProgress · .continue) hsame

/-- Frames that are ignored use up the budget for frames without progress. -/
theorem reachable_idle (h : Reachable c) (hexp : c.expectingContinuation = none)
    (hm : c.madeProgress = false) (hzero : c.budget.noProgress = 0) {n : Nat}
    (hn : n ≤ maxNoProgressFrames) :
    Reachable { c with budget := { c.budget with noProgress := n } } := by
  induction n with
  | zero =>
    rw [← hzero]
    exact h
  | succ n ih =>
    have hnext := (ih (by omega)).processFrame ⟨.priority, 0, 1, [0, 0, 0, 0, 0]⟩ false
    have hstep := @processFrame_priority { c with budget := { c.budget with noProgress := n } }
      hexp hm (by simp only; omega)
    rw [hstep] at hnext
    exact hnext

/-- A reachable connection between header blocks, and two frames that carry a block but do not
end as the one frame `whole` does. -/
structure CutShows (c : Connection) (id : Nat) (endStream : Bool) (block : Bytes) (whole : Frame)
    (frames : List Frame) : Prop where
  reachable : Reachable c
  between : c.expectingContinuation = none
  carried : Carries id endStream block [whole]
  cut : Carries id endStream block frames
  small : block.length ≤ maxHeadersBuf
  differs : ¬EndsAlike c false whole frames

theorem not_endsAlike {whole : Frame} {frames : List Frame}
    (h : (c.feed false frames).1 ≠
      List.replicate ((c.feed false frames).1.length - 1) (.ok .continue) ++
        (c.feed false [whole]).1) : ¬EndsAlike c false whole frames :=
  fun halike => h halike.results

/-- The connection that has sent a GET request, with the budget for frames without progress used
up by frames that are ignored. -/
def exhausted : Connection :=
  { asked [] with budget := { (asked []).budget with noProgress := maxNoProgressFrames } }

/-- A cut shows when the flood guard is about to trip, when the block is the trailer section that
ends a live stream, and when the stream had closed with its response complete. -/
theorem header_block_cut_shows :
    CutShows exhausted 1 false [0x88] ⟨.headers, 4, 1, [0x88]⟩
        [⟨.headers, 0, 1, []⟩, ⟨.continuation, 4, 1, [0x88]⟩] ∧
      CutShows ((asked []).processFrame ⟨.headers, 4, 1, [0x88]⟩ false).state 1 true []
        ⟨.headers, 5, 1, []⟩ [⟨.headers, 1, 1, []⟩, ⟨.continuation, 4, 1, []⟩] ∧
      CutShows ((asked []).processFrame ⟨.headers, 5, 1, [0x88]⟩ false).state 1 false []
        ⟨.headers, 4, 1, []⟩ [⟨.headers, 0, 1, []⟩, ⟨.continuation, 4, 1, []⟩] := by
  have hasked := reachable_asked []
  refine ⟨⟨?_, by decide +kernel, .whole rfl rfl rfl rfl rfl,
      .pair ⟨rfl, rfl⟩ ⟨rfl, rfl⟩ rfl ⟨rfl, rfl⟩ rfl rfl,
      by decide +kernel, not_endsAlike (by decide +kernel)⟩,
    ⟨hasked.processFrame _ _, by decide +kernel, .whole rfl rfl rfl rfl rfl,
      .pair ⟨rfl, rfl⟩ ⟨rfl, rfl⟩ rfl ⟨rfl, rfl⟩ rfl rfl,
      by decide +kernel, not_endsAlike (by decide +kernel)⟩,
    ⟨hasked.processFrame _ _, by decide +kernel, .whole rfl rfl rfl rfl rfl,
      .pair ⟨rfl, rfl⟩ ⟨rfl, rfl⟩ rfl ⟨rfl, rfl⟩ rfl rfl,
      by decide +kernel, not_endsAlike (by decide +kernel)⟩⟩
  exact reachable_idle hasked (by decide +kernel) (by decide +kernel) (by decide +kernel) le_rfl

end Connection

end Rsurl.Http2
