import Rsurl.Http2.HeaderBlocks
import Rsurl.Http2.Batch

/-!
# Decoding errors

A header block that does not decode leaves the compression state of the connection behind the
peer's, so nothing that comes later can be trusted. `blockDecoded` is the block a frame hands to
the decoder. The driver tells a connection error from a stream error by the streams it finds closed
without a response; a decoding error leaves such a stream only when the block was to be the head of
a response that ends with it.
-/

namespace Rsurl.Http2

open Library Hpack

/-- HEADERS close a live stream only when both sides have ended. -/
theorem StreamState.recvHeaders_closes {s : StreamState} {endStream : Bool}
    (h : s.recvHeaders endStream = .ok .closed) (hne : s ≠ .closed) :
    s = .halfClosedLocal ∧ endStream = true := by
  cases s <;> cases endStream <;> simp [recvHeaders] at h hne ⊢

namespace Connection

variable {c c' : Connection} {f : Frame} {k : Nat} {s : Stream}

/-- The block the frame completes, if it gets that far: what is passed to the decoder. -/
def blockDecoded (c : Connection) (f : Frame) : Option Bytes :=
  match c.continuationGate f, c.streams[f.streamId]? with
  | .ok _, some s =>
    if f.streamId = 0 || !f.endHeaders then none
    else match f.typ with
      | .headers => match headersFragment f with
        | .error _ => none
        | .ok frag =>
          if s.state = .closed then some frag
          else match s.state.recvHeaders f.endStream, s.pushHeaderFragment frag with
            | .ok _, .ok s => some s.headersBuf
            | _, _ => none
      | .continuation =>
        if c.expectingContinuation = some f.streamId then
          match s.pushHeaderFragment f.payload with
          | .ok s => some s.headersBuf
          | .error _ => none
        else none
      | _ => none
  | _, _ => none

/-- The next frame completes a header block, and the block does not decode. -/
def decodeFails (c : Connection) : Bool :=
  match c.tls.inbound with
  | .frame f :: _ => match c.blockDecoded f with
    | some block => match c.decoder.decodeBlock block with
      | .error _ _ => true
      | .ok _ _ => false
    | none => false
  | _ => false

/-- The next frame completes the block of a response head and leaves its stream closed: a HEADERS
frame that ends the stream, or the last CONTINUATION of a stream that has ended. -/
def endsHeadless (c : Connection) : Bool :=
  match c.tls.inbound with
  | .frame f :: _ => match c.streams[f.streamId]? with
    | some s => s.responseHeaders.isNone && match f.typ with
      | .headers => f.endStream && s.state == .halfClosedLocal
      | .continuation => s.state == .closed
      | _ => false
    | none => false
  | _ => false

theorem finishBlock_fails {id : Nat} {block : Bytes} {discard : Bool} {e : Error} {d : Decoder}
    (h : c.decoder.decodeBlock block = .error e d) :
    c.finishBlock id block discard = .error e { c with decoder := d } := by
  unfold finishBlock decodeBlock
  rw [h]
  rfl

/-- What a block that does not decode leaves behind on its stream. -/
structure Undecoded (f : Frame) (s s' : Stream) : Prop where
  responseHeaders : s'.responseHeaders = s.responseHeaders
  cases : (f.typ = .headers ∧ s.state = .closed ∧ s' = s) ∨
    (f.typ = .headers ∧ s.state ≠ .closed ∧ s.state.recvHeaders f.endStream = .ok s'.state ∧
      s'.endStreamRecv = (s.endStreamRecv || f.endStream)) ∨
    (f.typ = .continuation ∧ s'.state = s.state ∧ s'.endStreamRecv = s.endStreamRecv)

/-- A block that does not decode is an error, and the decoder keeps what the block did to it. -/
theorem processFrame_undecoded (sink : Bool) {block : Bytes} {e : Error} {d : Decoder}
    (hblock : c.blockDecoded f = some block) (hdec : c.decoder.decodeBlock block = .error e d) :
    f.streamId ≠ 0 ∧ c.continuationGate f = .ok () ∧
      ∃ c' s s', c.processFrame f sink = .error e c' ∧ c'.decoder = d ∧
        c.streams[f.streamId]? = some s ∧ c'.streams[f.streamId]? = some s' ∧
        Undecoded f s s' := by
  unfold blockDecoded at hblock
  split at hblock
  · rename_i u s hgate hs
    split at hblock
    · cases hblock
    · rename_i hcond
      obtain ⟨hid, hend⟩ : f.streamId ≠ 0 ∧ f.endHeaders = true := by simpa using hcond
      split at hblock
      · rename_i typ
        split at hblock
        · cases hblock
        · rename_i frag hfrag
          refine ⟨hid, hgate, ?_⟩
          have hexp : c.expectingContinuation = none := by
            cases hx : c.expectingContinuation with
            | none => rfl
            | some a =>
              have := (awaited_of_gate hgate hx).1
              simp [typ] at this
          rw [processFrame_headers hexp typ hid]
          unfold processHeaders
          split at hblock
          · rename_i hclosed
            cases hblock
            refine ⟨{ c with madeProgress := false, decoder := d }, s, s, ?_, rfl, hs, hs, rfl,
              .inl ⟨typ, hclosed, rfl⟩⟩
            simp [hfrag, hs, hclosed, headersOnClosed, hend, decodeBlock, hdec]
          · rename_i hlive
            split at hblock
            · rename_i newState s₁ hstate hpush
              cases hblock
              have hpush' : { s with rxAny := true }.pushHeaderFragment frag =
                  .ok { s₁ with rxAny := true } := by
                cases pushHeaderFragment_ok hpush
                unfold Stream.pushHeaderFragment at hpush ⊢
                split at hpush
                · cases hpush
                · rename_i hlen
                  rw [if_neg hlen]
              obtain ⟨s', hs'⟩ : ∃ s', s' = { s₁ with
                rxAny := true, endStreamRecv := s₁.endStreamRecv || f.endStream,
                state := newState, headersBuf := [] } := ⟨_, rfl⟩
              have hfinish := @finishBlock_fails { { c with madeProgress := false }.setStream
                f.streamId s' with expectingContinuation := none } f.streamId _ false e d hdec
              refine ⟨{ { c with madeProgress := false }.setStream f.streamId s' with
                expectingContinuation := none, decoder := d }, s, s', ?_, rfl, hs,
                getElem?_setStream_self _ _ _, ?_⟩
              · simp only [hfrag, hs, if_neg hlive, hstate, hpush', hend, if_true]
                rw [hs'] at hfinish ⊢
                rw [hfinish]
                rfl
              · cases pushHeaderFragment_ok hpush
                subst hs'
                exact ⟨rfl, .inr (.inl ⟨typ, hlive, hstate, rfl⟩)⟩
            · cases hblock
      · rename_i typ
        split at hblock
        · rename_i hexp
          split at hblock
          · rename_i s₁ hpush
            cases hblock
            refine ⟨hid, hgate, ?_⟩
            rw [processFrame_block hgate (.inr typ)]
            simp only [dispatch, hid, if_false, processStreamFrame, typ]
            obtain ⟨s', hs'⟩ : ∃ s', s' = { s₁ with
              headersBuf := [], discardHeaders := false } := ⟨_, rfl⟩
            have hfinish := @finishBlock_fails { { c with madeProgress := false }.setStream
              f.streamId s' with expectingContinuation := none } f.streamId _ s₁.discardHeaders e d
              hdec
            refine ⟨{ { c with madeProgress := false }.setStream f.streamId s' with
              expectingContinuation := none, decoder := d }, s, s', ?_, rfl, hs,
              getElem?_setStream_self _ _ _, ?_⟩
            · unfold processContinuation
              rw [if_neg (by simp [hexp])]
              simp only [hs, hpush, hend, if_true]
              rw [hs'] at hfinish ⊢
              rw [hfinish]
              rfl
            · cases pushHeaderFragment_ok hpush
              subst hs'
              exact ⟨rfl, .inr (.inr ⟨typ, rfl, rfl⟩)⟩
          · cases hblock
        · cases hblock
      · cases hblock
  · cases hblock

end Connection

namespace Mux

variable {n : Nat} {codecs : Codecs} {reqs : Fin n → Request} {m m₁ : Mux n} {c : Connection}

/-- A block that does not decode leaves no stream to put the error down to, unless it was to be
the head of a response that ends with it. -/
theorem undecoded_fatal (hlive : Live m) (hfails : m.conn.decodeFails = true)
    (hhead : m.conn.endsHeadless = false) :
    ∃ e conn, m.conn.readAndDispatch false = .error e conn ∧
      { m with conn }.takeStreamError = none := by
  unfold Connection.decodeFails at hfails
  split at hfails
  · rename_i f rest hin
    split at hfails
    · rename_i block hblock
      split at hfails
      · rename_i e d hdec
        obtain ⟨hid, hgate, conn, s, s', hp, -, hs, hs', hunder⟩ :=
          @Connection.processFrame_undecoded (m.conn.received f rest) f false block e d hblock hdec
        have hread : m.conn.readAndDispatch false = .error e conn := by
          obtain ⟨hnil, -⟩ | ⟨_, _, _, _, hfail, -⟩ | ⟨g, rest', hin', hr⟩ :=
            m.conn.readAndDispatch_cases false
          · rw [hin] at hnil
            cases hnil
          · rw [hin] at hfail
            cases hfail
          · rw [hin] at hin'
            cases hin'
            rw [hr, hp]
        refine ⟨e, conn, hread, ?_⟩
        have hconn : conn = ((m.conn.received f rest).processFrame f false).state := by
          rw [hp]
          rfl
        have hnone : { m with conn }.culprits = [] := by
          rw [List.eq_nil_iff_forall_not_mem]
          rintro ⟨k, t⟩ hmem
          obtain ⟨ht, hk, hclosed, hopen⟩ := mem_culprits.mp hmem
          simp only at ht hk hclosed hopen
          obtain ⟨t₀, ht₀, hunder₀, -⟩ := hlive k hk
          by_cases hkf : k = f.streamId
          · subst hkf
            rw [hs'] at ht
            cases ht
            have hsame : s = t₀ := Option.some.inj (hs.symm.trans ht₀)
            subst hsame
            have hno : s.responseHeaders.isSome = true → s'.endStreamRecv = true → False := by
              intro hsome hend
              rw [Stream.responseComplete_eq, hunder.responseHeaders] at hopen
              simp [hclosed, StreamState.remoteDone, hend, hsome] at hopen
            obtain ⟨typ, hst, -⟩ | ⟨typ, hne, hst, hend⟩ | ⟨typ, hst, hend⟩ := hunder.cases
            · have hx := hunder₀.awaited (by rw [hst]; rfl)
              have htyp := (Connection.awaited_of_gate hgate hx).1
              rw [typ] at htyp
              cases htyp
            · rw [hclosed] at hst
              obtain ⟨hlocal, hstream⟩ := StreamState.recvHeaders_closes hst hne
              refine hno ?_ (by rw [hend, hstream, Bool.or_true])
              simpa [Connection.endsHeadless, hin, ht₀, typ, hlocal, hstream] using hhead
            · rw [hclosed] at hst
              refine hno ?_ (by rw [hend, hunder₀.ended, ← hst]; rfl)
              simpa [Connection.endsHeadless, hin, ht₀, typ, ← hst] using hhead
          · obtain ⟨hx, -, w, st, ht', hst⟩ :=
              Connection.processFrame_elsewhere false hgate hkf ht₀
            rw [← hconn, ht] at ht'
            cases ht'
            rcases hst with hst | ⟨hzero, -⟩
            · simp only at hclosed
              rw [hclosed] at hst
              exact hx (hunder₀.awaited (by rw [← hst]; rfl))
            · exact hid hzero
        unfold takeStreamError
        rw [hnone]
      · cases hfails
    · cases hfails
  · cases hfails

/-- The turn that meets a block that does not decode ends the run. -/
theorem run_of_undecoded (hc : c.Known) (hm : m ∈ turns codecs reqs c) (hun : m.unfinished = true)
    (hwake : m.wake reqs = .ok m₁) (hfails : m₁.conn.decodeFails = true)
    (hhead : m₁.conn.endsHeadless = false) :
    (∀ i, m₁.results i = none → ∃ e, (run codecs reqs c).results i = some (.error e)) ∧
      (run codecs reqs c).conn = (m₁.conn.readAndDispatch false).state.pruneCompletedStreams := by
  have hkept := (turns_forward codecs reqs hc).2.1 m hm
  have hmoves : Moves codecs reqs (fun _ => True) m m₁ := wake_moves hwake
  have hkept₁ := (hkept.moves hmoves).1
  obtain ⟨e, conn, hread, htake⟩ := undecoded_fatal hkept₁.live hfails hhead
  have hkeeps : Connection.KeepsStreams m₁.conn conn := by
    have := m₁.conn.keepsStreams_readAndDispatch false
    rwa [hread] at this
  obtain ⟨hres, hrest⟩ := failAllOutstanding_spec (hkept₁.accounted.conn hkeeps) e
  have hturn : m.turn codecs reqs = .done ({ m₁ with conn }.failAllOutstanding e) := by
    unfold turn
    rw [hun, hwake]
    simp only [Bool.not_true, Bool.false_eq_true, if_false, hread]
    unfold recover
    rw [htake]
  have hrun : run codecs reqs c = { { m₁ with conn }.failAllOutstanding e with
      conn := ({ m₁ with conn }.failAllOutstanding e).conn.pruneCompletedStreams } := by
    unfold turns at hm
    unfold run
    simp only
    cases hf : (startQueued reqs (List.finRange n) (init c n)).flushPending with
    | error e _ =>
      rw [hf] at hm
      cases hm
    | ok u s =>
      rw [hf] at hm
      simp only
      rw [Loop.run_of_mem_visited (turn_lowers codecs reqs) hm, Loop.run_done hturn]
  rw [hrun, hread]
  refine ⟨fun i hi => ⟨e, ?_⟩, ?_⟩
  · exact (hres i).trans (if_pos hi)
  · simp only [Outcome.state]
    rw [hrest]

end Mux

namespace Connection

/-- A block that does not decode ends the batch: every request without a result fails, and no frame
is read after it, so no later block is decoded. -/
theorem decode_error_fatal {c : Connection} (hc : Reachable c) (codecs : Codecs)
    (reqs : List Request) {m m₁ : Mux reqs.length} (hm : m ∈ Mux.turns codecs reqs.get c)
    (hun : m.unfinished = true) (hwake : m.wake reqs.get = .ok m₁)
    (hfails : m₁.conn.decodeFails = true) (hhead : m₁.conn.endsHeadless = false) :
    (∀ i : Fin reqs.length, m₁.results i = none →
        ∃ e, (c.runMultiplexed codecs reqs).1[i.val]? = some (.error e)) ∧
      (c.runMultiplexed codecs reqs).2 =
        (m₁.conn.readAndDispatch false).state.pruneCompletedStreams := by
  obtain ⟨hres, hconn⟩ := Mux.run_of_undecoded hc.known hm hun hwake hfails hhead
  refine ⟨fun i hi => ?_, hconn⟩
  obtain ⟨e, he⟩ := hres i hi
  refine ⟨e, ?_⟩
  have hfin : (List.finRange reqs.length)[i.val]? = some i := by
    rw [List.getElem?_eq_getElem (by simp)]
    simp
  simp only [runMultiplexed, Mux.collectResults, List.getElem?_map, hfin, Option.map_some, he,
    Option.getD_some]

/-- The first response head of two does not decode, and does not end its stream. -/
def garbledHead : List Inbound :=
  [.frame ⟨.headers, 4, 1, [0x80]⟩, .frame ⟨.headers, 5, 3, [0x88]⟩]

theorem decode_error_fatal_head :
    ∃ m ∈ Mux.turns .unavailable twoRequests.get (fresh garbledHead),
      m.conn.decodeFails = true ∧ m.results (0 : Fin 2) = none ∧ m.results (1 : Fin 2) = none ∧
      (∀ i : Fin 2, m.results i = none →
        ∃ e, ((fresh garbledHead).runMultiplexed .unavailable twoRequests).1[i.val]? =
          some (.error e)) ∧
      ((fresh garbledHead).runMultiplexed .unavailable twoRequests).2 =
        (m.conn.readAndDispatch false).state.pruneCompletedStreams := by
  have hany : (Mux.turns .unavailable twoRequests.get (fresh garbledHead)).any (fun m =>
      m.unfinished && !m.idToIdx.isEmpty && m.conn.decodeFails && !m.conn.endsHeadless &&
        (m.results (0 : Fin 2)).isNone && (m.results (1 : Fin 2)).isNone) = true := by
    decide +kernel
  obtain ⟨m, hm, htest⟩ := List.any_eq_true.mp hany
  simp only [Bool.and_eq_true, Bool.not_eq_true', Option.isNone_iff_eq_none] at htest
  obtain ⟨⟨⟨⟨⟨hun, hlive⟩, hfails⟩, hhead⟩, hfirst⟩, hsecond⟩ := htest
  have hwake : m.wake twoRequests.get = .ok m := by simp [Mux.wake, hlive]
  exact ⟨m, hm, hfails, hfirst, hsecond, decode_error_fatal (reachable_fresh garbledHead)
    .unavailable twoRequests hm hun hwake hfails hhead⟩

/-- The first response head of two does not decode, and ends its stream. -/
def garbledReply : List Inbound :=
  [.frame ⟨.headers, 5, 1, [0x80]⟩, .frame ⟨.headers, 5, 3, [0x88]⟩]

/-- The request whose head did not decode fails alone: the block of the other response is decoded
after it, and that response is handed back. -/
theorem decode_error_survived :
    (Mux.turns .unavailable twoRequests.get (fresh garbledReply)).any (fun m =>
        m.unfinished && m.conn.decodeFails && (m.results (1 : Fin 2)).isNone) = true ∧
      (((fresh garbledReply).runMultiplexed .unavailable twoRequests).1.map fun r =>
        r.toOption.map Response.status) = [none, some 200] := by
  decide +kernel

end Connection

end Rsurl.Http2
