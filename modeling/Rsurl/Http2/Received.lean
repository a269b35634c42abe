import Rsurl.Library.Trace
import Rsurl.Http2.Accepted
import Rsurl.Http2.Reachable

/-!
# What a stream has received

The log says which frames came in. `dataReceived` and `collected` read off it the bytes a stream's
DATA frames carried and the header blocks that arrived; a stream `Follows` the log when its body
and its head are made of those, and of nothing else.
-/

namespace Rsurl.Http2

open Library Hpack

/-! ## Reading the log -/

/-- The HEADERS frame that opens stream `id`. -/
def opens (id : Nat) : WireEvent → Bool
  | .sent f => f.typ == .headers && f.streamId == id
  | _ => false

/-- What happened since stream `id` was opened. -/
def sinceOpened (id : Nat) (log : List WireEvent) : List WireEvent := Trace.since (opens id) log

/-- The application bytes a frame brings to stream `id`. -/
def Frame.dataFor (id : Nat) (f : Frame) : Bytes :=
  if f.typ = .data ∧ f.streamId = id then ((Connection.dataPayload f).toOption).getD [] else []

def WireEvent.dataFor (id : Nat) : WireEvent → Bytes
  | .recv f => f.dataFor id
  | _ => []

/-- The application bytes that came in for stream `id`, in order. -/
def dataReceived (id : Nat) (log : List WireEvent) : Bytes := log.flatMap (WireEvent.dataFor id)

/-- Header blocks put together from frames: the complete ones with their streams, and the one
still being collected. -/
structure Collected where
  blocks : List (Nat × Bytes) := []
  pending : Option (Nat × Bytes) := none
  deriving DecidableEq, Repr

namespace Collected

def add (k : Collected) (id : Nat) (fragment : Bytes) (endHeaders : Bool) : Collected :=
  if endHeaders then { blocks := k.blocks ++ [(id, fragment)], pending := none }
  else { k with pending := some (id, fragment) }

def frame (k : Collected) (f : Frame) : Collected :=
  match f.typ with
  | .headers => match Connection.headersFragment f with
    | .ok fragment => k.add f.streamId fragment f.endHeaders
    | .error _ => k
  | .continuation => match k.pending with
    | some (id, collected) =>
      if f.streamId = id then k.add id (collected ++ f.payload) f.endHeaders else k
    | none => k
  | _ => k

def event (k : Collected) : WireEvent → Collected
  | .recv f => k.frame f
  | _ => k

end Collected

/-- The header blocks that came in. -/
def collected (log : List WireEvent) : Collected := log.foldl Collected.event {}

theorem collected_append (log more : List WireEvent) :
    collected (log ++ more) = more.foldl Collected.event (collected log) := by
  simp [collected, List.foldl_append]

/-- Frames the client writes bring nothing in. -/
theorem collected_sent (log : List WireEvent) (out : List Frame) :
    collected (log ++ out.map .sent) = collected log := by
  rw [collected_append]
  induction out with
  | nil => rfl
  | cons f out ih => exact ih

theorem dataReceived_sent (id : Nat) (log : List WireEvent) (out : List Frame) :
    dataReceived id (log ++ out.map .sent) = dataReceived id log := by
  unfold dataReceived
  rw [List.flatMap_append]
  have hnil : (out.map WireEvent.sent).flatMap (WireEvent.dataFor id) = [] := by
    simp [List.flatMap_eq_nil_iff, WireEvent.dataFor]
  rw [hnil, List.append_nil]

theorem dataReceived_recv (id : Nat) (log : List WireEvent) (f : Frame) :
    dataReceived id (log ++ [WireEvent.recv f]) = dataReceived id log ++ f.dataFor id := by
  simp [dataReceived, WireEvent.dataFor]

theorem collected_recv (log : List WireEvent) (f : Frame) :
    collected (log ++ [WireEvent.recv f]) = (collected log).frame f := by
  rw [collected_append]
  rfl

theorem Frame.dataFor_of_ne {f : Frame} (h : f.typ ≠ .data) (id : Nat) : f.dataFor id = [] := by
  simp [Frame.dataFor, h]

theorem Frame.dataFor_other {f : Frame} {id : Nat} (h : f.streamId ≠ id) : f.dataFor id = [] := by
  simp [Frame.dataFor, h]

theorem Collected.mem_add {k : Collected} {id : Nat} {fragment : Bytes} {endHeaders : Bool}
    {block : Nat × Bytes} (h : block ∈ k.blocks) : block ∈ (k.add id fragment endHeaders).blocks := by
  unfold add
  split
  · exact List.mem_append_left _ h
  · exact h

theorem Collected.frame_headers {k : Collected} {f : Frame} {fragment : Bytes}
    (typ : f.typ = .headers) (h : Connection.headersFragment f = .ok fragment) :
    k.frame f = k.add f.streamId fragment f.endHeaders := by
  simp [frame, typ, h]

theorem Collected.frame_continuation {k : Collected} {f : Frame} {buf : Bytes}
    (typ : f.typ = .continuation) (h : k.pending = some (f.streamId, buf)) :
    k.frame f = k.add f.streamId (buf ++ f.payload) f.endHeaders := by
  simp [frame, typ, h]

theorem Collected.frame_other {k : Collected} {f : Frame} (hh : f.typ ≠ .headers)
    (hc : f.typ ≠ .continuation) : k.frame f = k := by
  unfold frame
  split
  · exact absurd ‹_› hh
  · exact absurd ‹_› hc
  · rfl

theorem Collected.mem_frame {k : Collected} {f : Frame} {block : Nat × Bytes}
    (h : block ∈ k.blocks) : block ∈ (k.frame f).blocks := by
  unfold frame
  repeat' split
  all_goals first
    | exact h
    | exact mem_add h

/-! ## Streams that follow the log -/

/-- The head of a stream comes from a block that arrived for it. -/
structure Stream.HeadFrom (id : Nat) (ev : List WireEvent) (s : Stream) (head : List Header)
    (info : ResponseFieldInfo) : Prop where
  responseHeaders : s.responseHeaders = some head
  valid : validateResponseFields head false = .ok info
  finalStatus : s.finalStatus = some info.status
  expectedLen : s.expectedLen = info.contentLength
  block : ∃ (block : Bytes) (d d' : Decoder), (id, block) ∈ (collected ev).blocks ∧
    d.decodeBlock block = .ok head d'

/-- A stream whose body and head are what the events `ev` brought it; `awaited` is the stream
whose block is being collected. -/
structure Stream.Follows (id : Nat) (ev : List WireEvent) (awaited : Option Nat) (s : Stream) :
    Prop where
  body : s.body = dataReceived id ev
  streamed : s.streamedLen = 0
  pending : awaited = some id → (collected ev).pending = some (id, s.headersBuf)
  idle : awaited ≠ some id → s.headersBuf = []
  head : s.responseHeaders = none ∧ s.finalStatus = none ∨ ∃ head info, s.HeadFrom id ev head info

namespace Stream

variable {id : Nat} {ev ev' : List WireEvent} {x x' : Option Nat} {s s' : Stream}

theorem HeadFrom.mono {head : List Header} {info : ResponseFieldInfo}
    (h : s.HeadFrom id ev head info)
    (hblocks : ∀ b ∈ (collected ev).blocks, b ∈ (collected ev').blocks)
    (hheaders : s'.responseHeaders = s.responseHeaders) (hstatus : s'.finalStatus = s.finalStatus)
    (hlen : s'.expectedLen = s.expectedLen) : s'.HeadFrom id ev' head info := by
  obtain ⟨block, d, d', hmem, hdec⟩ := h.block
  exact ⟨hheaders.trans h.responseHeaders, h.valid, hstatus.trans h.finalStatus,
    hlen.trans h.expectedLen, block, d, d', hblocks _ hmem, hdec⟩

/-- A step that brings the stream no head. -/
theorem Follows.step (h : s.Follows id ev x) (hheaders : s'.responseHeaders = s.responseHeaders)
    (hstatus : s'.finalStatus = s.finalStatus) (hlen : s'.expectedLen = s.expectedLen)
    (hstreamed : s'.streamedLen = s.streamedLen)
    (hblocks : ∀ b ∈ (collected ev).blocks, b ∈ (collected ev').blocks)
    (hbody : s'.body = dataReceived id ev')
    (hpending : x' = some id → (collected ev').pending = some (id, s'.headersBuf))
    (hidle : x' ≠ some id → s'.headersBuf = []) : s'.Follows id ev' x' := by
  refine ⟨hbody, hstreamed.trans h.streamed, hpending, hidle, ?_⟩
  obtain ⟨hnone, hnone'⟩ | ⟨head, info, hhead⟩ := h.head
  · exact .inl ⟨hheaders.trans hnone, hstatus.trans hnone'⟩
  · exact .inr ⟨head, info, hhead.mono hblocks hheaders hstatus hlen⟩

theorem Follows.takesSection {decoded : List Header} {block : Bytes} {d d' : Decoder}
    (h : s.Follows id ev x) (hs : s.TakesSection decoded s')
    (hblock : (id, block) ∈ (collected ev).blocks) (hdec : d.decodeBlock block = .ok decoded d') :
    s'.Follows id ev x := by
  cases hs with
  | trailers => exact h
  | interim => exact h.step rfl rfl rfl rfl (fun _ hb => hb) h.body h.pending h.idle
  | head final hinfo status hs' =>
    subst hs'
    exact ⟨h.body, h.streamed, h.pending, h.idle,
      .inr ⟨decoded, _, rfl, hinfo, rfl, rfl, block, d, d', hblock, hdec⟩⟩

/-- A stream goes on following the log through every frame it takes. -/
theorem Follows.takes {f : Frame} {d d' : Decoder} (h : s.Follows f.streamId ev x)
    (ht : Takes f (s, d, x) (s', d', x')) :
    s'.Follows f.streamId (ev ++ [WireEvent.recv f]) x' := by
  have hbody (typ : f.typ ≠ .data) :
      s.body = dataReceived f.streamId (ev ++ [WireEvent.recv f]) := by
    rw [dataReceived_recv, Frame.dataFor_of_ne typ, List.append_nil, h.body]
  have hblocks : ∀ b ∈ (collected ev).blocks,
      b ∈ (collected (ev ++ [WireEvent.recv f])).blocks := by
    intro b hb
    rw [collected_recv]
    exact Collected.mem_frame hb
  have hsame (hh : f.typ ≠ .headers) (hc : f.typ ≠ .continuation) :
      collected (ev ++ [WireEvent.recv f]) = collected ev := by
    rw [collected_recv, Collected.frame_other hh hc]
  cases ht with
  | ignored typ =>
    refine h.step rfl rfl rfl rfl hblocks (hbody typ.1) ?_ h.idle
    rw [hsame typ.2.1 typ.2.2.1]
    exact h.pending
  | window typ w =>
    refine h.step rfl rfl rfl rfl hblocks (hbody (by simp [typ])) ?_ h.idle
    rw [hsame (by simp [typ]) (by simp [typ])]
    exact h.pending
  | finished typ ended head =>
    refine h.step rfl rfl rfl rfl hblocks (hbody (by simp [typ])) ?_ h.idle
    rw [hsame (by simp [typ]) (by simp [typ])]
    exact h.pending
  | dropped typ closed endHeaders fragment hdec =>
    exact h.step rfl rfl rfl rfl hblocks (hbody (by simp [typ])) (by simp) h.idle
  | dropping typ closed endHeaders fragment =>
    refine h.step rfl rfl rfl rfl hblocks (hbody (by simp [typ])) (fun _ => ?_) (by simp)
    rw [collected_recv, Collected.frame_headers typ fragment, endHeaders, h.idle (by simp)]
    rfl
  | whole typ live endHeaders fragment hstate hdec hsection =>
    rw [h.idle (by simp), List.nil_append] at hdec
    refine Follows.takesSection ?_ hsection ?_ hdec
    · exact h.step rfl rfl rfl rfl hblocks (hbody (by simp [typ])) (by simp) fun _ => rfl
    · rw [collected_recv, Collected.frame_headers typ fragment, endHeaders]
      simp [Collected.add]
  | first typ live endHeaders fragment hstate =>
    refine h.step rfl rfl rfl rfl hblocks (hbody (by simp [typ])) (fun _ => ?_) (by simp)
    rw [collected_recv, Collected.frame_headers typ fragment, endHeaders, h.idle (by simp)]
    rfl
  | more typ endHeaders =>
    refine h.step rfl rfl rfl rfl hblocks (hbody (by simp [typ])) (fun _ => ?_) (by simp)
    rw [collected_recv, Collected.frame_continuation typ (h.pending rfl), endHeaders]
    rfl
  | lastDropped typ endHeaders discard hdec =>
    exact h.step rfl rfl rfl rfl hblocks (hbody (by simp [typ])) (by simp) fun _ => rfl
  | last typ endHeaders discard hdec hsection =>
    refine Follows.takesSection ?_ hsection ?_ hdec
    · exact h.step rfl rfl rfl rfl hblocks (hbody (by simp [typ])) (by simp) fun _ => rfl
    · rw [collected_recv, Collected.frame_continuation typ (h.pending rfl), endHeaders]
      simp [Collected.add]
  | data typ hpayload final hstate hs' hlen =>
    subst hs'
    refine h.step rfl rfl rfl rfl hblocks ?_ ?_ h.idle
    · rw [dataReceived_recv, ← h.body]
      simp [Frame.dataFor, typ, hpayload, Except.toOption]
    · rw [hsame (by simp [typ]) (by simp [typ])]
      exact h.pending

/-- Frames on other streams leave what was received alone. -/
theorem Follows.other (h : s.Follows id ev x) {f : Frame}
    (hs : ∃ w st, s' = { s with sendWindow := w, state := st }) (hf : f.streamId ≠ id)
    (hx : x ≠ some id) (hx' : x' ≠ some id) : s'.Follows id (ev ++ [WireEvent.recv f]) x' := by
  obtain ⟨w, st, rfl⟩ := hs
  refine h.step rfl rfl rfl rfl (fun b hb => ?_) ?_ (fun hx₁ => absurd hx₁ hx') fun _ => h.idle hx
  · rw [collected_recv]
    exact Collected.mem_frame hb
  · rw [dataReceived_recv, Frame.dataFor_other hf, List.append_nil, h.body]

/-- The part of a stream that `Follows` is about. -/
def contents (s : Stream) :
    Bytes × Nat × Bytes × Option (List Header) × Option Nat × Option Nat :=
  (s.body, s.streamedLen, s.headersBuf, s.responseHeaders, s.finalStatus, s.expectedLen)

theorem contents_of_recvPart (h : s'.recvPart = s.recvPart) : s'.contents = s.contents :=
  (congrArg contents h :)

/-- Sending leaves what was received alone. -/
theorem Follows.sent (h : s.Follows id ev x) (out : List Frame) (hs : s'.contents = s.contents) :
    s'.Follows id (ev ++ out.map .sent) x := by
  simp only [contents, Prod.mk.injEq] at hs
  obtain ⟨hbody, hstreamed, hbuf, hheaders, hstatus, hlen⟩ := hs
  refine h.step hheaders hstatus hlen hstreamed ?_ ?_ ?_ ?_
  · rw [collected_sent]
    exact fun _ hb => hb
  · rw [dataReceived_sent, ← h.body]
    exact hbody
  · intro hx
    rw [collected_sent, h.pending hx, hbuf]
  · intro hx
    exact hbuf.trans (h.idle hx)

theorem Takes.awaited {f : Frame} {d d' : Decoder} (h : Takes f (s, d, x) (s', d', x')) :
    x' = x ∨ x' = none ∨ x' = some f.streamId := by
  cases h
  all_goals simp

/-- What an accepted frame does to stream `id`, its own or not. -/
inductive Step (id : Nat) (f : Frame) :
    Stream × Decoder × Option Nat → Stream × Decoder × Option Nat → Prop where
  | own {a b : Stream × Decoder × Option Nat} (hid : f.streamId = id) (h : Takes f a b) :
      Step id f a b
  | elsewhere {s : Stream} {d d' : Decoder} {x x' : Option Nat} (hid : f.streamId ≠ id)
      (hx : x ≠ some id) (hx' : x' ≠ some id) (w : StreamSendWindow) {st : StreamState}
      (hst : st = s.state ∨ f.streamId = 0 ∧ st = .closed) :
      Step id f (s, d, x) ({ s with sendWindow := w, state := st }, d', x')

theorem Follows.frame {f : Frame} {d d' : Decoder} (h : s.Follows id ev x)
    (hstep : Step id f (s, d, x) (s', d', x')) : s'.Follows id (ev ++ [WireEvent.recv f]) x' := by
  cases hstep with
  | own hid ht =>
    subst hid
    exact h.takes ht
  | elsewhere hid hx hx' w hst => exact h.other ⟨w, _, rfl⟩ hid hx hx'

end Stream

namespace Connection

variable {c c' : Connection} {id : Nat} {s : Stream} {outcome : DispatchOutcome}

/-- A read that succeeds took the next frame in. -/
theorem readAndDispatch_ok (h : c.readAndDispatch false = .ok outcome c') :
    ∃ f rest, c.tls.inbound = .frame f :: rest ∧
      (c.received f rest).processFrame f false = .ok outcome c' ∧
      ∃ out : List Frame, c'.tls.log = c.tls.log ++ WireEvent.recv f :: out.map .sent ∧
        ∀ g ∈ out, g.isReply := by
  obtain ⟨-, h'⟩ | ⟨kind, msg, rest, e, hin, h'⟩ | ⟨f, rest, hin, h'⟩ :=
    c.readAndDispatch_cases false
  all_goals rw [h'] at h
  · cases h
  · cases h
  · refine ⟨f, rest, hin, h, ?_⟩
    have hlog := (carried_processFrame (c.received f rest) f false).log
    rw [h] at hlog
    obtain ⟨out, hout, hreply⟩ := hlog
    exact ⟨out, by rw [Outcome.state] at hout; rw [hout]; simp [received], hreply⟩

/-- While a stream is awaited only its own CONTINUATION frames are accepted. -/
theorem awaited_of_gate {f : Frame} (hgate : c.continuationGate f = .ok ())
    (hid : c.expectingContinuation = some id) : f.typ = .continuation ∧ f.streamId = id := by
  unfold continuationGate at hgate
  rw [hid] at hgate
  simp only at hgate
  split at hgate
  · assumption
  · cases hgate

/-- An accepted frame, seen from a stream in the map: either it finishes that stream's response,
or whatever was unfinished stays so, a GOAWAY apart. -/
theorem processFrame_on_stream {f : Frame} (h : c.processFrame f false = .ok outcome c')
    (hs : c.streams[id]? = some s) (hid₀ : id ≠ 0) :
    ∃ s', c'.streams[id]? = some s' ∧
      Stream.Step id f (s, c.decoder, c.expectingContinuation)
        (s', c'.decoder, c'.expectingContinuation) ∧
      (f.streamId ≠ id → s'.state = s.state ∨ c'.Abandoned id) ∧
      (outcome = .done id ∧ s'.responseComplete = true ∨
        outcome ≠ .done id ∧
          (s'.responseComplete = true → s.responseComplete = true ∨ f.streamId = 0)) := by
  obtain ⟨hgate, ⟨hzero, rfl, hconn⟩ | ⟨hid, hacc⟩⟩ := processFrame_ok h
  · obtain ⟨-, hnone⟩ | ⟨t, w, st, ht, hst, hs'⟩ := hconn.streams id
    · rw [hs] at hnone
      cases hnone
    · rw [hs] at ht
      cases ht
      have hx : c.expectingContinuation ≠ some id := fun hx =>
        hid₀ ((awaited_of_gate hgate hx).2.symm.trans hzero)
      refine ⟨_, hs', .elsewhere (by omega) hx (by rwa [hconn.expecting]) w ?_, ?_,
        .inr ⟨by simp, fun _ => .inr hzero⟩⟩
      · rcases hst with hst | hst
        · exact .inl hst
        · exact .inr ⟨hzero, hst.1⟩
      · exact fun _ => hst.imp_right fun hst => hst.2
  · by_cases hown : f.streamId = id
    · subst hown
      obtain ⟨s', hs', htakes, hout⟩ := hacc.taken s hs
      refine ⟨s', hs', .own rfl htakes, fun hne => absurd rfl hne, ?_⟩
      rcases hout with hout | ⟨rfl, hopen⟩
      · exact .inl hout
      · exact .inr ⟨by simp, fun hc => .inl (hopen hc)⟩
    · have hx : c.expectingContinuation ≠ some id := fun hx => hown (awaited_of_gate hgate hx).2
      have hs' : c'.streams[id]? = some s := (hacc.others id (Ne.symm hown)).trans hs
      refine ⟨s, hs', ?_, fun _ => .inl rfl, .inr ⟨?_, .inl⟩⟩
      · refine .elsewhere hown hx ?_ s.sendWindow (.inl rfl)
        cases hf : c.streams[f.streamId]? with
        | none => rwa [(hacc.gone hf).2.2.1]
        | some t =>
          obtain ⟨t', -, htakes, -⟩ := hacc.taken t hf
          rcases htakes.awaited with hx' | hx' | hx'
          · rwa [hx']
          · simp [hx']
          · simpa [hx'] using hown
      · cases hf : c.streams[f.streamId]? with
        | none => simp [(hacc.gone hf).2.2.2.1]
        | some t =>
          obtain ⟨t', -, -, ⟨hout, -⟩ | ⟨hout, -⟩⟩ := hacc.taken t hf
          · simpa [hout] using hown
          · simp [hout]

theorem not_opens_reply {out : List Frame} (h : ∀ g ∈ out, g.isReply) (f : Frame) :
    ∀ e ∈ WireEvent.recv f :: out.map .sent, opens id e = false := by
  intro e he
  rcases List.mem_cons.mp he with rfl | he
  · rfl
  · obtain ⟨g, hg, rfl⟩ := List.mem_map.mp he
    have hne : g.typ ≠ .headers := by
      intro htyp
      have := h g hg
      simp [Frame.isReply, htyp] at this
    simp [opens, hne]

/-- A stream in the map goes on following the log through a read. -/
theorem follows_read (h : c.readAndDispatch false = .ok outcome c')
    (hs : c.streams[id]? = some s) (hid₀ : id ≠ 0)
    (hf : s.Follows id (sinceOpened id c.tls.log) c.expectingContinuation) :
    ∃ f rest s', c.tls.inbound = .frame f :: rest ∧ c'.streams[id]? = some s' ∧
      Stream.Step id f (s, c.decoder, c.expectingContinuation)
        (s', c'.decoder, c'.expectingContinuation) ∧
      s'.Follows id (sinceOpened id c'.tls.log) c'.expectingContinuation ∧
      (f.streamId ≠ id → s'.state = s.state ∨ c'.Abandoned id) ∧
      (outcome = .done id ∧ s'.responseComplete = true ∨
        outcome ≠ .done id ∧
          (s'.responseComplete = true → s.responseComplete = true ∨ f.streamId = 0)) := by
  obtain ⟨f, rest, hin, hp, out, hlog, hreply⟩ := readAndDispatch_ok h
  obtain ⟨s', hs', hstep, hstate, hout⟩ := processFrame_on_stream hp hs hid₀
  refine ⟨f, rest, s', hin, hs', hstep, ?_, hstate, hout⟩
  have hsince : sinceOpened id c'.tls.log =
      sinceOpened id c.tls.log ++ [WireEvent.recv f] ++ out.map .sent := by
    unfold sinceOpened
    rw [hlog, Trace.since_append (not_opens_reply hreply f)]
    simp
  rw [hsince]
  exact (hf.frame hstep).sent out rfl

/-! ## Opening a stream -/

/-- The frames of a request's head: exactly one of them opens its stream. -/
theorem headFrames_split (c : Connection) (id : Nat) (req : Request) :
    ∃ (hint : List Frame) (f : Frame) (rest : List Frame),
      c.headFrames id req = hint ++ f :: rest ∧
      (∀ g ∈ hint, g.typ = .priority ∧ g.streamId = id) ∧ f.typ = .headers ∧ f.streamId = id ∧
      ∀ g ∈ rest, g.typ = .continuation ∧ g.streamId = id := by
  unfold headFrames fragmentHeaderBlock
  refine ⟨_, _, _, rfl, ?_, rfl, rfl, ?_⟩
  · intro g hg
    split at hg
    · cases hg
    · cases List.mem_singleton.mp hg
      exact ⟨rfl, rfl⟩
  · intro g hg
    obtain ⟨hid, htyp, -⟩ := mem_continuationFrames hg
    exact ⟨htyp, hid⟩

theorem sinceOpened_headFrames (c : Connection) (id : Nat) (req : Request) :
    ∃ rest : List Frame, (∀ g ∈ rest, g.typ = .continuation ∧ g.streamId = id) ∧
      ∀ log, sinceOpened id (log ++ (c.headFrames id req).map .sent) = rest.map .sent := by
  obtain ⟨hint, f, rest, heq, -, htyp, hid, hrest⟩ := headFrames_split c id req
  refine ⟨rest, hrest, fun log => ?_⟩
  have hsplit : log ++ (c.headFrames id req).map WireEvent.sent =
      (log ++ hint.map .sent) ++ WireEvent.sent f :: rest.map .sent := by
    rw [heq]
    simp
  unfold sinceOpened
  rw [hsplit, Trace.since_append_cons]
  · simp [opens, htyp, hid]
  · intro e he
    obtain ⟨g, hg, rfl⟩ := List.mem_map.mp he
    simp [opens, (hrest g hg).1]

/-- A stream that has just been opened has received nothing. -/
theorem follows_headFrames (c : Connection) (req : Request) {x : Option Nat} (hx : x ≠ some id)
    (window initial : Int) (hs : s.recvPart = (Stream.new window initial).recvPart)
    (log : List WireEvent) :
    s.Follows id (sinceOpened id (log ++ (c.headFrames id req).map .sent)) x := by
  obtain ⟨rest, -, hsince⟩ := sinceOpened_headFrames c id req
  have hnew : (Stream.new window initial).Follows id [] x :=
    ⟨rfl, rfl, fun h => absurd h hx, fun _ => rfl, .inl ⟨rfl, rfl⟩⟩
  rw [hsince]
  exact hnew.sent rest (Stream.contents_of_recvPart hs)

end Connection

end Rsurl.Http2
