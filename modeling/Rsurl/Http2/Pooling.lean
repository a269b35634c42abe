import Rsurl.Http2.Batch
import Rsurl.Http2.Exchange

/-!
# Connections that are used again

A connection goes back to the pool when its last exchange succeeded and it can open streams. It is
then at a clean frame boundary: no stream is left, no CONTINUATION is awaited, and every header
block that came in has been decoded. The one way around this is a trailer section whose first part
ends the response: the response is handed back while the rest of the section is still to come.
-/

namespace Rsurl.Http2

open Library Hpack

/-- Decode blocks in order; `none` if one of them does not decode. -/
def replay (d : Decoder) : List (Nat × Bytes) → Option Decoder
  | [] => some d
  | block :: rest => match d.decodeBlock block.2 with
    | .ok _ d => replay d rest
    | .error _ _ => none

theorem replay_append {d d' : Decoder} {blocks : List (Nat × Bytes)} (more : List (Nat × Bytes))
    (h : replay d blocks = some d') : replay d (blocks ++ more) = replay d' more := by
  induction blocks generalizing d with
  | nil =>
    cases h
    rfl
  | cons block rest ih =>
    rw [replay] at h
    rw [List.cons_append, replay]
    cases hd : d.decodeBlock block.2 with
    | error e d₁ =>
      rw [hd] at h
      cases h
    | ok fields d₁ =>
      rw [hd] at h
      exact ih h

/-- The part of a stream that the blocks and the end of the response show in. -/
def Stream.blockView (s : Stream) : (Bytes × Bool) × Option (List Header) × Bool :=
  (s.blockPart, s.responseHeaders, s.endStreamRecv)

namespace Connection

variable {c c' : Connection} {id : Nat} {outcome : DispatchOutcome}

/-! ## In step with the peer -/

/-- The decoder has seen every block that is complete, and the block still being collected is held
by the awaited stream. -/
structure InSync (c : Connection) : Prop where
  decoder : replay .new (collected c.tls.log).blocks = some c.decoder
  idle : c.expectingContinuation = none → (collected c.tls.log).pending = none
  pending : ∀ id, c.expectingContinuation = some id → ∃ s, c.streams[id]? = some s ∧
    (collected c.tls.log).pending = some (id, s.headersBuf)
  tidy : Tidy c

/-- The stream whose block is being collected has not ended with its head in. -/
def Held (c : Connection) : Prop :=
  ∀ (id : Nat) (s : Stream), c.expectingContinuation = some id → c.streams[id]? = some s →
    s.responseHeaders.isSome = true → s.endStreamRecv = false

/-- The next frame is the first part of a section, on a stream that has its final head and ends
with the frame. -/
def cutsShort (c : Connection) : Bool :=
  match c.tls.inbound with
  | .frame f :: _ => match c.streams[f.streamId]? with
    | some s => f.typ == .headers && !f.endHeaders && s.responseHeaders.isSome &&
        (f.endStream || s.endStreamRecv)
    | none => false
  | _ => false

/-- A connection that can be used on. -/
structure Sound (c : Connection) : Prop where
  sync : InSync c
  held : Held c
  known : Known c

/-- Between blocks, a frame that is not part of one changes nothing of this. -/
theorem gate_none {f : Frame} (hgate : c.continuationGate f = .ok ()) (htyp : f.typ ≠ .continuation) :
    c.expectingContinuation = none := by
  cases hx : c.expectingContinuation with
  | none => rfl
  | some a => exact absurd (awaited_of_gate hgate hx).1 htyp

/-- A frame on the stream it names, seen from the blocks that came in. -/
theorem takes_blocks {f : Frame} {s s' : Stream} {k : Collected}
    (ht : Stream.Takes f (s, c.decoder, c.expectingContinuation)
      (s', c'.decoder, c'.expectingContinuation))
    (hgate : c.continuationGate f = .ok ())
    (hdec : replay .new k.blocks = some c.decoder)
    (hidle : c.expectingContinuation = none → k.pending = none ∧ s.headersBuf = [])
    (hpending : c.expectingContinuation = some f.streamId →
      k.pending = some (f.streamId, s.headersBuf)) :
    replay .new (k.frame f).blocks = some c'.decoder ∧
      (c'.expectingContinuation = none → (k.frame f).pending = none) ∧
      (c'.expectingContinuation ≠ none → c'.expectingContinuation = some f.streamId ∧
        (k.frame f).pending = some (f.streamId, s'.headersBuf)) := by
  generalize hd : c.decoder = d at ht hdec
  generalize hx : c.expectingContinuation = x at ht hidle hpending
  generalize c'.decoder = d' at ht ⊢
  generalize c'.expectingContinuation = x' at ht ⊢
  have hother (hh : f.typ ≠ .headers) (hc : f.typ ≠ .continuation) : k.frame f = k ∧ x = none :=
    ⟨Collected.frame_other hh hc, by rw [← hx]; exact gate_none hgate hc⟩
  have hdone {block : Bytes} {decoded : List Header} {d₁ : Decoder}
      (hblock : k.frame f = { blocks := k.blocks ++ [(f.streamId, block)], pending := none })
      (hdecode : d.decodeBlock block = .ok decoded d₁) :
      replay .new (k.frame f).blocks = some d₁ ∧ (k.frame f).pending = none := by
    rw [hblock]
    refine ⟨?_, rfl⟩
    rw [replay_append _ hdec]
    simp [replay, hdecode]
  cases ht with
  | ignored typ =>
    obtain ⟨hk, rfl⟩ := hother typ.2.1 typ.2.2.1
    rw [hk]
    exact ⟨hdec, fun _ => (hidle rfl).1, by simp⟩
  | window typ w =>
    obtain ⟨hk, rfl⟩ := hother (by simp [typ]) (by simp [typ])
    rw [hk]
    exact ⟨hdec, fun _ => (hidle rfl).1, by simp⟩
  | finished typ ended head =>
    obtain ⟨hk, rfl⟩ := hother (by simp [typ]) (by simp [typ])
    rw [hk]
    exact ⟨hdec, fun _ => (hidle rfl).1, by simp⟩
  | data typ hpayload final hstate hs' hlen =>
    obtain ⟨hk, rfl⟩ := hother (by simp [typ]) (by simp [typ])
    rw [hk]
    exact ⟨hdec, fun _ => (hidle rfl).1, by simp⟩
  | dropped typ closed endHeaders fragment hdecode =>
    have hframe := @Collected.frame_headers k f _ typ fragment
    rw [endHeaders] at hframe
    obtain ⟨hblocks, hpend⟩ := hdone hframe hdecode
    exact ⟨hblocks, fun _ => hpend, by simp⟩
  | dropping typ closed endHeaders fragment =>
    have hframe := @Collected.frame_headers k f _ typ fragment
    rw [endHeaders] at hframe
    rw [hframe, (hidle rfl).2]
    exact ⟨hdec, by simp, fun _ => ⟨rfl, rfl⟩⟩
  | whole typ live endHeaders fragment hstate hdecode hsection =>
    rw [(hidle rfl).2, List.nil_append] at hdecode
    have hframe := @Collected.frame_headers k f _ typ fragment
    rw [endHeaders] at hframe
    obtain ⟨hblocks, hpend⟩ := hdone hframe hdecode
    exact ⟨hblocks, fun _ => hpend, by simp⟩
  | first typ live endHeaders fragment hstate =>
    have hframe := @Collected.frame_headers k f _ typ fragment
    rw [endHeaders] at hframe
    rw [hframe, (hidle rfl).2]
    exact ⟨hdec, by simp, fun _ => ⟨rfl, rfl⟩⟩
  | more typ endHeaders =>
    have hframe := Collected.frame_continuation typ (hpending rfl)
    rw [endHeaders] at hframe
    rw [hframe]
    exact ⟨hdec, by simp, fun _ => ⟨rfl, rfl⟩⟩
  | lastDropped typ endHeaders discard hdecode =>
    have hframe := Collected.frame_continuation typ (hpending rfl)
    rw [endHeaders] at hframe
    obtain ⟨hblocks, hpend⟩ := hdone hframe hdecode
    exact ⟨hblocks, fun _ => hpend, by simp⟩
  | last typ endHeaders discard hdecode hsection =>
    have hframe := Collected.frame_continuation typ (hpending rfl)
    rw [endHeaders] at hframe
    obtain ⟨hblocks, hpend⟩ := hdone hframe hdecode
    exact ⟨hblocks, fun _ => hpend, by simp⟩

/-- A frame that starts or carries on a block does so on a stream that has not ended. -/
theorem takes_held {f : Frame} {s s' : Stream}
    (ht : Stream.Takes f (s, c.decoder, c.expectingContinuation)
      (s', c'.decoder, c'.expectingContinuation))
    (hgate : c.continuationGate f = .ok ())
    (hcut : f.typ = .headers → f.endHeaders = false → s.responseHeaders.isSome = true →
      f.endStream = false ∧ s.endStreamRecv = false)
    (hheld : c.expectingContinuation = some f.streamId → s.responseHeaders.isSome = true →
      s.endStreamRecv = false)
    (hx' : c'.expectingContinuation ≠ none) (hhead : s'.responseHeaders.isSome = true) :
    s'.endStreamRecv = false := by
  generalize hx : c.expectingContinuation = x at ht hheld
  generalize c'.expectingContinuation = x' at ht hx'
  generalize c.decoder = d at ht
  generalize c'.decoder = d' at ht
  have hnone (hc : f.typ ≠ .continuation) : x = none := by
    rw [← hx]
    exact gate_none hgate hc
  cases ht with
  | ignored typ => exact absurd (hnone typ.2.2.1) hx'
  | window typ w => exact absurd (hnone (by simp [typ])) hx'
  | finished typ ended head => exact absurd (hnone (by simp [typ])) hx'
  | data typ hpayload final hstate hs' hlen => exact absurd (hnone (by simp [typ])) hx'
  | dropping typ closed endHeaders fragment => exact (hcut typ endHeaders hhead).2
  | first typ live endHeaders fragment hstate =>
    obtain ⟨hend, hrecv⟩ := hcut typ endHeaders hhead
    simp [hend, hrecv]
  | more typ endHeaders => exact hheld rfl hhead
  | _ => exact absurd rfl hx'

theorem sound_read (hs : Sound c) (h : c.readAndDispatch false = .ok outcome c')
    (hno : c.cutsShort = false) : Sound c' := by
  have htidy := tidy_readAndDispatch hs.sync.tidy false
  have hknown := hs.known.same (sameIds_readAndDispatch c false)
  rw [h] at htidy hknown
  obtain ⟨f, rest, hin, hp, out, hlog, -⟩ := readAndDispatch_ok h
  have hcollected : collected c'.tls.log = (collected c.tls.log).frame f := by
    rw [hlog, List.append_cons, collected_sent, collected_recv]
  -- a frame that is no part of a block
  have hkept (hh : f.typ ≠ .headers) (hc : f.typ ≠ .continuation)
      (hgate : (c.received f rest).continuationGate f = .ok ()) (hdec : c'.decoder = c.decoder)
      (hexp : c'.expectingContinuation = c.expectingContinuation) : Sound c' := by
    have hnone : c.expectingContinuation = none := gate_none hgate hc
    have hnone' : c'.expectingContinuation = none := hexp.trans hnone
    rw [Collected.frame_other hh hc] at hcollected
    refine ⟨⟨?_, fun _ => ?_, ?_, htidy⟩, ?_, hknown⟩
    · rw [hcollected, hdec]
      exact hs.sync.decoder
    · rw [hcollected]
      exact hs.sync.idle hnone
    · simp [hnone']
    · simp [Held, hnone']
  obtain ⟨hgate, ⟨hzero, -, hconn⟩ | ⟨hid, hacc⟩⟩ := processFrame_ok hp
  · obtain ⟨hh, hc⟩ := connFrame_typ hzero hp
    exact hkept hh hc hgate hconn.decoder hconn.expecting
  · cases hf : (c.received f rest).streams[f.streamId]? with
    | none =>
      obtain ⟨-, hdec, hexp, -, hh, hc⟩ := hacc.gone hf
      exact hkept hh hc hgate hdec hexp
    | some s =>
      obtain ⟨s', hs', htakes, -⟩ := hacc.taken s hf
      have hf' : c.streams[f.streamId]? = some s := hf
      have hempty (hnone : c.expectingContinuation = none) :
          (collected c.tls.log).pending = none ∧ s.headersBuf = [] :=
        ⟨hs.sync.idle hnone, congrArg Prod.fst (hs.sync.tidy f.streamId s hf' (by simp [hnone]))⟩
      have hpending (hx : c.expectingContinuation = some f.streamId) :
          (collected c.tls.log).pending = some (f.streamId, s.headersBuf) := by
        obtain ⟨t, ht, hpend⟩ := hs.sync.pending _ hx
        rw [hf'] at ht
        cases ht
        exact hpend
      obtain ⟨hblocks, hidle, hawaited⟩ :=
        takes_blocks htakes hgate hs.sync.decoder hempty hpending
      refine ⟨⟨?_, ?_, ?_, htidy⟩, ?_, hknown⟩
      · rw [hcollected]
        exact hblocks
      · rw [hcollected]
        exact hidle
      · intro id hx
        obtain ⟨hx', hpend⟩ := hawaited (by simp [hx])
        rw [hx] at hx'
        cases hx'
        exact ⟨s', hs', by rw [hcollected]; exact hpend⟩
      · intro id t hx ht
        obtain ⟨hx', -⟩ := hawaited (by simp [hx])
        rw [hx] at hx'
        cases hx'
        rw [hs'] at ht
        cases ht
        refine takes_held htakes hgate ?_ ?_ (by simp [hx])
        · intro typ hend hhead
          simpa [cutsShort, hin, hf', typ, hend, hhead] using hno
        · exact fun hx => hs.held _ s hx hf'

/-- Nothing that came in and nothing made of it changed. -/
theorem Sound.kept (hs : Sound c) (hids : SameIds c c') (hdec : c'.decoder = c.decoder)
    (hexp : c'.expectingContinuation = c.expectingContinuation)
    (hlog : collected c'.tls.log = collected c.tls.log)
    (hstreams : ∀ id : Nat, c'.streams[id]?.map Stream.blockView = c.streams[id]?.map Stream.blockView) :
    Sound c' := by
  have hback {k : Nat} {s : Stream} (hk : c'.streams[k]? = some s) :
      ∃ s₀, c.streams[k]? = some s₀ ∧ Stream.blockView s₀ = Stream.blockView s := by
    have hview := hstreams k
    rw [hk, Option.map_some] at hview
    exact Option.map_eq_some_iff.mp hview.symm
  refine ⟨⟨?_, ?_, ?_, ?_⟩, ?_, hs.known.same hids⟩
  · rw [hlog, hdec]
    exact hs.sync.decoder
  · rw [hlog, hexp]
    exact hs.sync.idle
  · intro k hx
    rw [hexp] at hx
    obtain ⟨s, hk, hpend⟩ := hs.sync.pending k hx
    have hview := hstreams k
    rw [hk, Option.map_some] at hview
    obtain ⟨s', hk', heq⟩ := Option.map_eq_some_iff.mp hview
    refine ⟨s', hk', ?_⟩
    simp only [Stream.blockView, Stream.blockPart, Prod.mk.injEq] at heq
    rw [hlog, heq.1.1]
    exact hpend
  · intro k s hk hx
    rw [hexp] at hx
    obtain ⟨s₀, hk₀, heq⟩ := hback hk
    exact (congrArg Prod.fst heq).symm.trans (hs.sync.tidy k s₀ hk₀ hx)
  · intro k s hx hk hhead
    rw [hexp] at hx
    obtain ⟨s₀, hk₀, heq⟩ := hback hk
    simp only [Stream.blockView, Prod.mk.injEq] at heq
    rw [← heq.2.2]
    exact hs.held k s₀ hx hk₀ (by rw [heq.2.1]; exact hhead)

theorem Sound.sends (hs : Sound c) (h : Sends c c') : Sound c' := by
  refine hs.kept h.sameIds h.decoder h.expectingContinuation ?_ fun k => ?_
  · obtain ⟨out, hlog, -⟩ := h.log
    rw [hlog, collected_sent]
  · have hview := congrArg (Option.map Stream.blockView) (h.streams k)
    rw [Option.map_map, Option.map_map] at hview
    exact hview

theorem Sound.stopped {u : Unit} (hs : Sound c) (h : c.abortSend id = .ok u c') : Sound c' := by
  have hids := sameIds_abortSend c id
  rw [h] at hids
  obtain ⟨fs, ⟨-, rfl⟩ | ⟨s, hid, rfl⟩⟩ := abortSend_ok h
  · exact hs.kept hids rfl rfl (collected_sent _ _) fun _ => rfl
  · refine hs.kept hids rfl rfl (collected_sent _ _) fun k => ?_
    rw [getElem?_setStream]
    split
    · rename_i hk
      subst hk
      simp [hid, Stream.blockView, Stream.blockPart]
    · rfl

/-- A new stream is not the awaited one. -/
theorem Sound.opened {c₁ : Connection} (hs : Sound c) (h : c.openStream = .ok id c₁) :
    Sound c₁ := by
  have htidy := tidy_openStream hs.sync.tidy
  have hknown := known_openStream hs.known
  rw [h] at htidy hknown
  obtain ⟨rfl, -, -, -, rfl⟩ := openStream_ok h
  have hne {k : Nat} (hx : c.expectingContinuation = some k) : c.nextStreamId ≠ k :=
    (hs.known.awaited k hx).2.ne'
  refine ⟨⟨hs.sync.decoder, hs.sync.idle, ?_, htidy⟩, ?_, hknown⟩
  · intro k hx
    obtain ⟨s, hk, hpend⟩ := hs.sync.pending k hx
    refine ⟨s, ?_, hpend⟩
    simpa [Std.ExtTreeMap.getElem?_insert, hne hx] using hk
  · intro k s hx hk
    refine hs.held k s hx ?_
    simpa [Std.ExtTreeMap.getElem?_insert, hne hx] using hk

theorem Sound.removed (hs : Sound c) (hx : c.expectingContinuation ≠ some id) :
    Sound (c.removeStream id) := by
  have hne {k : Nat} (hk : c.expectingContinuation = some k) : id ≠ k :=
    fun heq => hx (by rw [heq]; exact hk)
  refine ⟨⟨hs.sync.decoder, hs.sync.idle, ?_, ?_⟩, ?_,
    hs.known.same (sameIds_removeStream c id)⟩
  · intro k hk
    obtain ⟨s, hs₀, hpend⟩ := hs.sync.pending k hk
    exact ⟨s, by rwa [getElem?_removeStream, if_neg (hne hk)], hpend⟩
  · intro k s hk hexp
    rw [getElem?_removeStream] at hk
    split at hk
    · cases hk
    · exact hs.sync.tidy k s hk hexp
  · intro k s hk hs₀
    rw [getElem?_removeStream, if_neg (hne hk)] at hs₀
    exact hs.held k s hk hs₀

/-- No more of its header block is awaited for a stream whose response is complete. -/
theorem Sound.not_awaited (hs : Sound c) {s : Stream} (hid : c.streams[id]? = some s)
    (hcomplete : s.responseComplete = true) : c.expectingContinuation ≠ some id := by
  intro hx
  rw [Stream.responseComplete_eq] at hcomplete
  simp only [Bool.and_eq_true] at hcomplete
  have := hs.held id s hx hid hcomplete.2
  simp [this] at hcomplete

/-! ## A clean frame boundary -/

/-- Nothing is in flight, and every block that came in has been decoded. -/
structure Clean (c : Connection) : Prop where
  streams : c.streams = ∅
  awaited : c.expectingContinuation = none
  decoder : replay .new (collected c.tls.log).blocks = some c.decoder
  pending : (collected c.tls.log).pending = none
  known : Known c

theorem Clean.sound (h : Clean c) : Sound c where
  sync := ⟨h.decoder, fun _ => h.pending, by simp [h.awaited], by simp [Tidy, h.streams]⟩
  held := by simp [Held, h.awaited]
  known := h.known

theorem Sound.clean (hs : Sound c) (h : ∀ k : Nat, c.streams[k]? = none) : Clean c := by
  have hawaited : c.expectingContinuation = none := by
    cases hx : c.expectingContinuation with
    | none => rfl
    | some k =>
      obtain ⟨s, hk, -⟩ := hs.sync.pending k hx
      rw [h k] at hk
      cases hk
  refine ⟨?_, hawaited, hs.sync.decoder, hs.sync.idle hawaited, hs.known⟩
  ext k s
  simp [h k]

theorem prune_clean (h : Clean c) : Clean c.pruneCompletedStreams := by
  refine ⟨?_, h.awaited, h.decoder, h.pending, ?_⟩
  · ext k s
    simp [pruneCompletedStreams, h.streams]
  · refine h.known.same ⟨rfl, fun k hk => ?_, fun _ hk => .inl hk⟩
    simp [pruneCompletedStreams, h.streams] at hk

/-- An exchange that keeps to its stream. -/
def Alone (id : Nat) (c : Connection) : Prop :=
  Sound c ∧ ∀ k : Nat, c.streams[k]?.isSome → k = id

theorem Alone.step {st st' : Connection × Bytes} (ha : Alone id st.1)
    (h : ExchangeStep id (fun c => c.cutsShort = false) st st') : Alone id st'.1 := by
  cases h with
  | @chunk c c' s s' rem n hs hbudget hn hsend =>
    have hsends := (sendEdits_sendData hs (rem.take n) (rem.drop n).isEmpty).sends
    rw [hsend] at hsends
    exact ⟨ha.1.sends hsends, fun k hk => ha.2 k (hsends.sameIds.streams k hk)⟩
  | @read c c' rem outcome hp h =>
    have hids := sameIds_readAndDispatch c false
    rw [h] at hids
    exact ⟨sound_read ha.1 h hp, fun k hk => ha.2 k (hids.streams k hk)⟩
  | @stopped c c' rem u h =>
    have hids := sameIds_abortSend c id
    rw [h] at hids
    exact ⟨ha.1.stopped h, fun k hk => ha.2 k (hids.streams k hk)⟩
  | @flushed c c' rem u h =>
    have hsends := (@sendEdits_flush id c).sends
    rw [h] at hsends
    exact ⟨ha.1.sends hsends, fun k hk => ha.2 k (hsends.sameIds.streams k hk)⟩

theorem Alone.steps {st st' : Connection × Bytes} (ha : Alone id st.1)
    (h : ExchangeSteps id (fun c => c.cutsShort = false) st st') : Alone id st'.1 := by
  induction h with
  | refl => exact ha
  | tail _ hstep ih => exact ih.step hstep

/-- An exchange that succeeds leaves the connection at a clean boundary. -/
theorem clean_exchange {codecs : Codecs} {req : Request} {resp : Response} (hc : Clean c)
    (h : c.runOneRequest codecs req = .ok resp c')
    (hno : ∀ st ∈ c.readStates req, st.2.cutsShort = false) : Clean c' := by
  obtain ⟨id, c₁, hasBody, c₂, c₃, rem, s, hopen, hhead, hsteps, hs, hcomplete, rfl, -⟩ :=
    exchange_steps (P := fun c => c.cutsShort = false) h hno
  have halone : Alone id c₂ := by
    have hsends := (@sendEdits_writeRequestHeaders id c₁ req).sends
    rw [hhead] at hsends
    refine ⟨(hc.sound.opened hopen).sends hsends, fun k hk => ?_⟩
    have hk₁ := hsends.sameIds.streams k hk
    obtain ⟨rfl, -, -, -, rfl⟩ := openStream_ok hopen
    simp only [Std.ExtTreeMap.getElem?_insert, Nat.compare_eq_eq, hc.streams] at hk₁
    split at hk₁
    · exact Eq.symm ‹_›
    · simp at hk₁
  obtain ⟨hsound, hkeys⟩ := halone.steps hsteps
  refine prune_clean ((hsound.removed (hsound.not_awaited hs hcomplete)).clean fun k => ?_)
  rw [getElem?_removeStream]
  split
  · rfl
  · rename_i hne
    exact Option.not_isSome_iff_eq_none.mp fun hk => hne (hkeys k hk).symm

end Connection

/-! ## A batch -/

namespace Mux

variable {n : Nat} {codecs : Codecs} {reqs : Fin n → Request} {m m' : Mux n} {c : Connection}

/-- Some request has failed. -/
def Failed (m : Mux n) : Prop := ∃ i e, m.results i = some (.error e)

theorem Failed.advances (h : Failed m) (hadv : Advances m m') : Failed m' := by
  obtain ⟨i, e, hi⟩ := h
  exact ⟨i, e, hadv.results i _ hi⟩

theorem failed_setResult (m : Mux n) (idx : Fin n) (e : Error) :
    Failed (m.setResult idx (.error e)) :=
  ⟨idx, e, by simp⟩

/-- The connection can be used on, and every stream in its map belongs to a request. -/
structure Orderly (m : Mux n) : Prop where
  sound : m.conn.Sound
  matched : ∀ id : Nat, m.conn.streams[id]?.isSome → m.idToIdx[id]?.isSome

/-- A GOAWAY that takes its toll fails a request. -/
theorem spared_cases (hacc : Accounted m) : m.spared = m ∨ Failed m.spared := by
  unfold spared
  split
  · unfold failGoawayDoomed
    split
    · exact .inl rfl
    · rename_i last hlast
      clear hlast
      simp only
      generalize m.idToIdx.keys.filter _ = doomed
      induction doomed generalizing m with
      | nil => exact .inl rfl
      | cons id doomed ih =>
        rw [List.foldl_cons]
        have hstep : failDoomed last m id = m ∨ Failed (failDoomed last m id) := by
          unfold failDoomed
          split
          · exact .inl rfl
          · exact .inr (failed_setResult _ _ _)
        rcases hstep with hstep | hstep
        · rw [hstep]
          exact ih hacc ‹_›
        · obtain ⟨hacc', -⟩ := failDoomed_accounted last hacc id
          have hfold : ∀ (ids : List Nat) (m₁ : Mux n), Accounted m₁ → Failed m₁ →
              Failed (ids.foldl (failDoomed last) m₁) := by
            intro ids
            induction ids with
            | nil => exact fun m₁ _ h => h
            | cons k ids ihk =>
              intro m₁ hacc₁ h
              obtain ⟨hacc₂, hadv⟩ := failDoomed_accounted last hacc₁ k
              exact ihk _ hacc₂ (h.advances hadv)
          exact .inr (hfold doomed _ hacc' hstep)
  · exact .inl rfl

theorem deliver_orderly (h : Orderly m) {id : Nat} {idx : Fin n} {stream : Stream}
    (hs : m.conn.streams[id]? = some stream) (hcomplete : stream.responseComplete = true) :
    Orderly (m.deliver codecs reqs id idx stream) := by
  have hremoved := h.sound.removed (h.sound.not_awaited hs hcomplete)
  have hmatched (k : Nat) (hk : (m.conn.removeStream id).streams[k]?.isSome) :
      (m.idToIdx.erase id)[k]?.isSome := by
    rw [Connection.getElem?_removeStream] at hk
    split at hk
    · cases hk
    · rename_i hne
      rw [Std.ExtTreeMap.getElem?_erase, if_neg (by simpa using hne)]
      exact h.matched k hk
  unfold deliver
  simp only
  split
  · have hids := ((m.conn.removeStream id).writeFrame_keepsStreams
      (rstStreamFrame id errNoError)).ids
    refine ⟨?_, fun k hk => hmatched k (hids.streams k hk)⟩
    obtain ⟨fs, hw | ⟨e, hw⟩⟩ :=
      (m.conn.removeStream id).writeFrame_cases (rstStreamFrame id errNoError)
    all_goals
      rw [hw] at hids
      simp only [setResult, hw]
    · exact hremoved.kept hids rfl rfl (collected_sent _ [_]) fun _ => rfl
    · exact hremoved.kept hids rfl rfl rfl fun _ => rfl
  · exact ⟨hremoved, hmatched⟩

/-- A move that fails no request keeps the connection in order. -/
theorem move_orderly (hacc : Accounted m) (h : Orderly m)
    (hm : Move codecs reqs (fun c => c.cutsShort = false) m m') : Failed m' ∨ Orderly m' := by
  cases hm with
  | refused hq hopen => exact .inl (failed_setResult _ _ _)
  | unsent hq hopen hstage => exact .inl (failed_setResult _ _ _)
  | stumbled hp hread htake => exact .inl (failed_setResult _ _ _)
  | @started idx rest id u conn conn' hq hopen hstage =>
    have hsends := (@Connection.sendEdits_stageRequestOn id conn (reqs idx)).sends
    rw [hstage] at hsends
    refine .inr ⟨(h.sound.opened hopen).sends hsends, fun k hk => ?_⟩
    have hk₁ := hsends.sameIds.streams k hk
    obtain ⟨rfl, -, -, -, rfl⟩ := Connection.openStream_ok hopen
    simp only [Std.ExtTreeMap.getElem?_insert, Nat.compare_eq_eq] at hk₁ ⊢
    split
    · rfl
    · rename_i hne
      rw [if_neg hne] at hk₁
      exact h.matched k hk₁
  | pumped =>
    have hsends := m.conn.sends_flushPending
    exact .inr ⟨h.sound.sends hsends, fun k hk => h.matched k (hsends.sameIds.streams k hk)⟩
  | @accepted outcome conn hp hread =>
    have hkeeps : Connection.KeepsStreams m.conn conn := by
      have := m.conn.keepsStreams_readAndDispatch false
      rwa [hread] at this
    have hread' : Orderly { m with conn } :=
      ⟨Connection.sound_read h.sound hread hp, fun k hk => h.matched k (hkeeps.ids.streams k hk)⟩
    have hacc' : Accounted { m with conn } := hacc.conn hkeeps
    unfold settle
    rcases spared_cases hacc' with hspared | hfailed
    · rw [hspared]
      right
      unfold handBack
      cases outcome with
      | «continue» => exact hread'
      | done id =>
        simp only
        split
        · exact hread'
        · rename_i idx hidx
          split
          · rename_i hnone
            have := hacc'.live id (by simp [hidx])
            simp [hnone] at this
          · rename_i stream hs
            exact deliver_orderly hread' hs (Connection.complete_of_done hread hs)
    · obtain ⟨hacc₁, -⟩ := @settle_accounted n codecs reqs _ hacc' .continue
      have hhand : Advances { m with conn }.spared
          ({ m with conn }.spared.handBack codecs reqs outcome) := by
        unfold handBack
        cases outcome with
        | «continue» => exact .refl _
        | done id =>
          simp only
          split
          · exact .refl _
          · rename_i idx hidx
            split
            · exact ⟨fun _ _ h => h, List.suffix_refl _, List.prefix_refl _⟩
            · exact (deliver_accounted hacc₁ hidx _).2
      exact .inl (hfailed.advances hhand)

/-- A batch all of whose requests succeed leaves the connection at a clean boundary. -/
theorem run_clean {reqs : Fin n → Request} (hc : c.Clean)
    (hno : ∀ m ∈ turns codecs reqs c, m.Reads reqs fun c => c.cutsShort = false)
    (hok : ∀ i, ∃ resp, (run codecs reqs c).results i = some (.ok resp)) :
    (run codecs reqs c).conn.Clean := by
  have hinit : Accounted (init c n) ∧ (Failed (init c n) ∨ Orderly (init c n)) :=
    ⟨(kept_init codecs reqs hc.known).accounted, .inr ⟨hc.sound, fun k hk => by
      rw [show (init c n).conn = c from rfl, hc.streams] at hk
      simp at hk⟩⟩
  obtain ⟨m₁, m₂, ⟨hacc, hstate⟩, hends, hrun⟩ := run_ends
    (I := fun m => Accounted m ∧ (Failed m ∨ Orderly m)) hinit
    (fun m m' hm hmove => by
      obtain ⟨hacc, hadv⟩ := move_accounted hm.1 hmove
      refine ⟨hacc, ?_⟩
      rcases hm.2 with hfailed | horderly
      · exact .inl (hfailed.advances hadv)
      · exact move_orderly hm.1 horderly hmove) hno
  have hok₂ : ∀ i, ∃ resp, m₂.results i = some (.ok resp) := by
    intro i
    rcases hrun with hrun | hrun
    all_goals
      rw [hrun] at hok
      exact hok i
  obtain ⟨-, -, hback, -⟩ := ends_forward hacc hends
  have hall : ∀ i, ∃ resp, m₁.results i = some (.ok resp) := fun i => by
    obtain ⟨resp, hresp⟩ := hok₂ i
    exact ⟨resp, hback i resp hresp⟩
  have hidle : ∀ k : Nat, m₁.idToIdx[k]? = none := by
    intro k
    cases hk : m₁.idToIdx[k]? with
    | none => rfl
    | some i =>
      obtain ⟨resp, hresp⟩ := hall i
      rw [(hacc.mapped k i hk).1] at hresp
      cases hresp
  have horderly : Orderly m₁ := by
    rcases hstate with ⟨i, e, hi⟩ | horderly
    · obtain ⟨resp, hresp⟩ := hall i
      rw [hi] at hresp
      cases hresp
    · exact horderly
  have hclean : m₁.conn.Clean := by
    refine horderly.sound.clean fun k => Option.not_isSome_iff_eq_none.mp fun hk => ?_
    have := horderly.matched k hk
    simp [hidle k] at this
  -- whatever the way out, it changes results only
  have hconn : m₂.conn = m₁.conn := by
    cases hends with
    | finished h => rfl
    | broken hlive => rfl
    | starved hidle e => rw [(foldl_failOutstanding e m₁.queue m₁).2]
    | gaveUp e => rw [(failAllOutstanding_spec hacc e).2]
    | fatal hlive hp hread htake =>
      have hempty : m₁.idToIdx = ∅ := by
        ext k i
        simp [hidle k]
      simp [hempty] at hlive
  rcases hrun with hrun | hrun <;> rw [hrun]
  · rw [hconn]
    exact hclean
  · simp only [hconn]
    exact Connection.prune_clean hclean

end Mux

/-! ## The life of a connection -/

namespace Connection

variable {c c' : Connection} {codecs : Codecs}

/-- A connection between its uses: what it was used for succeeded, and no response was cut
short. -/
inductive Pooled (codecs : Codecs) : Connection → Prop where
  | new {tls : Transport} {recvWindow : Nat} {c : Connection} (hlog : tls.log = [])
      (h : Connection.new tls recvWindow = .ok c) : Pooled codecs c
  | exchange {c c' : Connection} {req : Request} {resp : Response} (hc : Pooled codecs c)
      (h : c.runOneRequest codecs req = .ok resp c')
      (hno : (c.readStates req).all fun st => !st.2.cutsShort) : Pooled codecs c'
  | batch {c : Connection} {reqs : List Request} (hc : Pooled codecs c)
      (hok : ∀ r ∈ (c.runMultiplexed codecs reqs).1, ∃ resp, r = .ok resp)
      (hno : ∀ m ∈ Mux.turns codecs reqs.get c, m.Reads reqs.get fun c => c.cutsShort = false) :
      Pooled codecs (c.runMultiplexed codecs reqs).2

theorem clean_new {tls : Transport} {recvWindow : Nat} (hlog : tls.log = [])
    (h : Connection.new tls recvWindow = .ok c) : Clean c := by
  have hk := (Reachable.new h).known
  obtain ⟨fs, rfl⟩ := new_ok h
  have hnone :
      collected (tls.log ++ WireEvent.preface :: (greeting recvWindow).map .sent) = {} := by
    rw [hlog, List.nil_append]
    exact collected_sent [.preface] (greeting recvWindow)
  exact ⟨rfl, rfl, by rw [hnone]; rfl, by rw [hnone], hk⟩

theorem Pooled.clean (h : Pooled codecs c) : Clean c := by
  induction h with
  | new hlog h => exact clean_new hlog h
  | exchange hc h hno ih =>
    refine clean_exchange ih h fun st hst => ?_
    simpa using List.all_eq_true.mp hno st hst
  | @batch c reqs hc hok hno ih =>
    refine Mux.run_clean ih hno fun i => ?_
    have hmem : ((Mux.run codecs reqs.get c).results i).getD
        (.error (.badResponse "internal: multiplexed request produced no result")) ∈
        (c.runMultiplexed codecs reqs).1 :=
      List.mem_map.mpr ⟨i, List.mem_finRange i, rfl⟩
    obtain ⟨resp, hresp⟩ := hok _ hmem
    cases hr : (Mux.run codecs reqs.get c).results i with
    | none =>
      rw [hr] at hresp
      cases hresp
    | some r =>
      rw [hr] at hresp
      exact ⟨resp, by rw [← hresp]; rfl⟩

/-- A connection that is used again has no stream, awaits no CONTINUATION, has decoded every block
that came in, and lets every frame through. -/
theorem pooled_connection_clean (h : Pooled codecs c) :
    c.streams = ∅ ∧ c.expectingContinuation = none ∧
      (collected c.tls.log).pending = none ∧
      replay .new (collected c.tls.log).blocks = some c.decoder ∧
      ∀ f, c.continuationGate f = .ok () := by
  have hclean := h.clean
  exact ⟨hclean.streams, hclean.awaited, hclean.pending, hclean.decoder,
    fun f => by simp [continuationGate, hclean.awaited]⟩

theorem pooled_connection_clean_whole :
    ∃ resp c', (fresh wholeReply).runOneRequest .unavailable (.plain "GET" "example.com" "/") =
        .ok resp c' ∧ c'.isUsable = true ∧
      c'.streams = ∅ ∧ c'.expectingContinuation = none ∧
      (collected c'.tls.log).pending = none ∧
      replay .new (collected c'.tls.log).blocks = some c'.decoder ∧
      ∀ f, c'.continuationGate f = .ok () := by
  obtain ⟨resp, c', hrun, husable⟩ := Outcome.exists_of_okAnd (r := (fresh wholeReply).runOneRequest
    .unavailable (.plain "GET" "example.com" "/")) (p := fun _ c' => c'.isUsable)
    (by decide +kernel)
  have hfresh : Pooled .unavailable (fresh wholeReply) :=
    @Pooled.new _ ⟨wholeReply, [], [], []⟩ ourInitialWindow _ rfl rfl
  exact ⟨resp, c', hrun, husable, pooled_connection_clean (hfresh.exchange hrun (by decide +kernel))⟩

/-- A response that is cut short leaves its stream awaited on a connection that counts as usable,
and the next exchange fails on a well-formed response. -/
theorem cut_response_poisons :
    ∃ resp c', (fresh (truncatedReply ++ [.frame ⟨.headers, 5, 3, [0x88]⟩])).runOneRequest
        .unavailable (.plain "GET" "example.com" "/") = .ok resp c' ∧
      c'.isUsable = true ∧ c'.expectingContinuation = some 1 ∧
      (collected c'.tls.log).pending = some (1, []) ∧
      (c'.runOneRequest .unavailable (.plain "GET" "example.com" "/")).okAnd (fun _ _ => true) =
        false := by
  obtain ⟨resp, c', hrun, htest⟩ := Outcome.exists_of_okAnd
    (r := (fresh (truncatedReply ++ [.frame ⟨.headers, 5, 3, [0x88]⟩])).runOneRequest
      .unavailable (.plain "GET" "example.com" "/"))
    (p := fun _ c' => c'.isUsable && c'.expectingContinuation == some 1 &&
      (collected c'.tls.log).pending == some (1, []) &&
      !(c'.runOneRequest .unavailable (.plain "GET" "example.com" "/")).okAnd fun _ _ => true)
    (by decide +kernel)
  simp only [Bool.and_eq_true, beq_iff_eq, Bool.not_eq_true'] at htest
  exact ⟨resp, c', hrun, htest.1.1.1, htest.1.1.2, htest.1.2, htest.2⟩

end Connection

end Rsurl.Http2
