import Rsurl.Http2.Accounting
import Rsurl.Http2.Received
import Rsurl.Http2.Pump

/-!
# The live streams of a batch

Between two moves of the driver a live stream is `Underway`: its response is not complete, and the
peer has ended it only while the rest of its header block is awaited. It is also made of the frames
that came in for it, unless the connection is `Stuck`: an error was put down to the awaited stream,
the stream is gone, and no frame is accepted any more.
-/

namespace Rsurl.Http2

open Library Hpack

namespace StreamState

variable {s s' : StreamState} {endStream : Bool}

theorem recvHeaders_live (h : s.recvHeaders endStream = .ok s') (hlive : s ≠ .closed) :
    s.remoteDone = false ∧ s'.remoteDone = endStream ∧
      (s = .open → s' = .open ∨ s' = .halfClosedRemote) := by
  cases s <;> cases endStream <;> simp_all [recvHeaders, remoteDone] <;> subst h <;> simp

theorem recvData_live (h : s.recvData endStream = .ok s') :
    s.remoteDone = false ∧ s'.remoteDone = endStream ∧
      (s = .open → s' = .open ∨ s' = .halfClosedRemote) := by
  cases s <;> cases endStream <;> simp_all [recvData, remoteDone] <;> subst h <;> simp

end StreamState

/-- A stream between two moves; `awaited` is the stream whose block is being collected. -/
structure Stream.Underway (id : Nat) (awaited : Option Nat) (s : Stream) : Prop where
  ended : s.endStreamRecv = s.state.remoteDone
  awaited : s.state.remoteDone = true → awaited = some id
  kept : s.discardHeaders = false
  incomplete : s.responseComplete = false
  unsent : s.pendingBody.isSome → s.state = .open ∨ s.state = .halfClosedRemote

namespace Stream

variable {id : Nat} {ev : List WireEvent} {x x' : Option Nat} {s s' : Stream} {f : Frame}
  {d d' : Decoder}

theorem Underway.not_remoteDone (h : s.Underway id x) (hx : x ≠ some id) :
    s.state.remoteDone = false := by
  cases hr : s.state.remoteDone with
  | false => rfl
  | true => exact absurd (h.awaited hr) hx

/-- What a section leaves alone. -/
theorem TakesSection.same {decoded : List Header} (h : s.TakesSection decoded s') :
    s'.state = s.state ∧ s'.endStreamRecv = s.endStreamRecv ∧ s'.pendingBody = s.pendingBody ∧
      s'.discardHeaders = s.discardHeaders := by
  cases h with
  | head final hinfo status hs' hlen => rw [hs']; exact ⟨rfl, rfl, rfl, rfl⟩
  | _ => exact ⟨rfl, rfl, rfl, rfl⟩

/-- A section on a stream the peer has ended completes its response. -/
theorem TakesSection.complete {decoded : List Header} (h : s.TakesSection decoded s')
    (hhead : s.finalStatus.isSome → s.responseHeaders.isSome)
    (hdone : s.state.remoteDone = true) (hend : s.endStreamRecv = true) :
    s'.responseComplete = true := by
  rw [responseComplete_eq]
  cases h with
  | trailers final ended hlen => simp [hdone, hend, hhead final]
  | interim final ended =>
    rw [ended] at hend
    cases hend
  | head final hinfo status hs' hlen => simp [hs', hdone, hend]

/-- A live stream that takes a frame and is not complete stays underway. -/
theorem Underway.takes (h : s.Underway f.streamId x)
    (hhead : s.finalStatus.isSome → s.responseHeaders.isSome)
    (ht : Takes f (s, d, x) (s', d', x')) (hopen : s'.responseComplete = false) :
    s'.Underway f.streamId x' := by
  cases ht with
  | ignored typ => exact h
  | window typ w => exact ⟨h.ended, h.awaited, h.kept, h.incomplete, h.unsent⟩
  | finished typ ended head => simp [responseComplete, ended, head] at hopen
  | dropped typ closed endHeaders fragment hdec =>
    have := h.awaited (by simp [closed, StreamState.remoteDone])
    cases this
  | dropping typ closed endHeaders fragment =>
    have := h.awaited (by simp [closed, StreamState.remoteDone])
    cases this
  | whole typ live endHeaders fragment hstate hdec hsection =>
    obtain ⟨hbefore, hafter, hsend⟩ := StreamState.recvHeaders_live hstate live
    obtain ⟨hst, hrecv, hpb, hdh⟩ := hsection.same
    have hend : s.endStreamRecv = false := h.ended.trans hbefore
    cases hf : f.endStream with
    | true =>
      have hc := hsection.complete hhead (by simp [hafter, hf]) (by simp [hf])
      rw [hc] at hopen
      cases hopen
    | false =>
      rw [hf] at hafter
      refine ⟨?_, ?_, hdh.trans h.kept, hopen, ?_⟩
      · rw [hrecv, hst]
        simp [hend, hf, hafter]
      · rw [hst]
        simp [hafter]
      · rw [hpb, hst]
        intro hsome
        rcases h.unsent hsome with ho | hc
        · exact hsend ho
        · simp [hc, StreamState.remoteDone] at hbefore
  | first typ live endHeaders fragment hstate =>
    obtain ⟨hbefore, hafter, hsend⟩ := StreamState.recvHeaders_live hstate live
    have hend : s.endStreamRecv = false := h.ended.trans hbefore
    refine ⟨?_, fun _ => rfl, h.kept, hopen, ?_⟩
    · simp [hend, hafter]
    · intro hsome
      rcases h.unsent hsome with ho | hc
      · exact hsend ho
      · simp [hc, StreamState.remoteDone] at hbefore
  | more typ endHeaders => exact ⟨h.ended, h.awaited, h.kept, hopen, h.unsent⟩
  | lastDropped typ endHeaders discard hdec =>
    rw [h.kept] at discard
    cases discard
  | last typ endHeaders discard hdec hsection =>
    obtain ⟨hst, hrecv, hpb, hdh⟩ := hsection.same
    cases hdone : s.state.remoteDone with
    | true =>
      have hc := hsection.complete hhead hdone (h.ended.trans hdone)
      rw [hc] at hopen
      cases hopen
    | false =>
      refine ⟨?_, ?_, hdh, hopen, ?_⟩
      · rw [hrecv, hst]
        exact h.ended
      · rw [hst]
        simp [hdone]
      · rw [hpb, hst]
        exact h.unsent
  | data typ hpayload final hstate hs' hlen =>
    obtain ⟨hbefore, hafter, hsend⟩ := StreamState.recvData_live hstate
    have hend : s.endStreamRecv = false := h.ended.trans hbefore
    subst hs'
    cases hf : f.endStream with
    | true =>
      rw [responseComplete_eq] at hopen
      simp [hafter, hf, hhead final] at hopen
    | false =>
      rw [hf] at hafter
      refine ⟨?_, ?_, h.kept, ?_, ?_⟩
      · simp [hend, hafter]
      · simp [hafter]
      · simpa [hf] using hopen
      · intro hsome
        rcases h.unsent hsome with ho | hc
        · exact hsend ho
        · simp [hc, StreamState.remoteDone] at hbefore

theorem Follows.head_isSome (h : s.Follows id ev x) :
    s.finalStatus.isSome → s.responseHeaders.isSome := by
  obtain ⟨-, hnone⟩ | ⟨head, info, hfrom⟩ := h.head
  · simp [hnone]
  · simp [hfrom.responseHeaders]

end Stream

namespace Connection

variable {c c' c'' : Connection} {id k : Nat} {s : Stream}

/-! ## One connection -/

/-- The awaited stream is gone. -/
def Stuck (c : Connection) : Prop := ∃ a, c.expectingContinuation = some a ∧ c.streams[a]? = none

/-- Stream `id` is underway, and made of what came in for it unless the connection is stuck. -/
def Standing (c : Connection) (id : Nat) : Prop :=
  ∃ s, c.streams[id]? = some s ∧ s.Underway id c.expectingContinuation ∧
    (c.Stuck ∨ s.Follows id (sinceOpened id c.tls.log) c.expectingContinuation)

/-- A connection that is stuck accepts nothing. -/
theorem Stuck.read (h : Stuck c) (hk : Known c) {outcome : DispatchOutcome} :
    c.readAndDispatch false ≠ .ok outcome c' := by
  intro hread
  obtain ⟨a, hexp, hnone⟩ := h
  obtain ⟨f, rest, hin, hp, -⟩ := readAndDispatch_ok hread
  obtain ⟨hgate, ⟨hzero, -⟩ | ⟨-, hacc⟩⟩ := processFrame_ok hp
  · have ha := (awaited_of_gate hgate hexp).2
    have := hk.awaited a hexp
    omega
  · obtain ⟨htyp, rfl⟩ := awaited_of_gate hgate hexp
    exact (hacc.gone hnone).2.2.2.2.2 htyp

theorem Standing.present (h : c.Standing id) : c.streams[id]?.isSome := by
  obtain ⟨s, hs, -⟩ := h
  simp [hs]

/-- Writing frames of other streams, or DATA, keeps a stream standing. -/
theorem Standing.moved (h : c.Standing k) {out : List Frame}
    (hlog : c'.tls.log = c.tls.log ++ out.map .sent) (hout : ∀ f ∈ out, opens k (.sent f) = false)
    (hexp : c'.expectingContinuation = c.expectingContinuation) (hstuck : c.Stuck → c'.Stuck)
    (hs : ∀ s, c.streams[k]? = some s → s.Underway k c.expectingContinuation →
      ∃ s', c'.streams[k]? = some s' ∧ s'.contents = s.contents ∧
        s'.Underway k c.expectingContinuation) : c'.Standing k := by
  obtain ⟨s, hk, hunder, hf⟩ := h
  obtain ⟨s', hk', hcontents, hunder'⟩ := hs s hk hunder
  refine ⟨s', hk', by rwa [hexp], hf.imp hstuck fun hf => ?_⟩
  have hsince : sinceOpened k c'.tls.log = sinceOpened k c.tls.log ++ out.map .sent := by
    unfold sinceOpened
    rw [hlog, Trace.since_append]
    intro e he
    obtain ⟨g, hg, rfl⟩ := List.mem_map.mp he
    exact hout g hg
  rw [hsince, hexp]
  exact hf.sent out hcontents

theorem Standing.removed (h : c.Standing k) (hne : k ≠ id) : (c.removeStream id).Standing k := by
  refine h.moved (show _ = _ ++ [].map WireEvent.sent by simp [removeStream]) (by simp) rfl ?_ fun s hs hunder => ?_
  · rintro ⟨a, hexp, hnone⟩
    exact ⟨a, hexp, by rw [getElem?_removeStream]; split <;> simp [hnone]⟩
  · exact ⟨s, by rw [getElem?_removeStream, if_neg (Ne.symm hne), hs], rfl, hunder⟩

theorem Standing.wrote (h : c.Standing k) (f : Frame) (hf : opens k (.sent f) = false) :
    (c.writeFrame f).state.Standing k := by
  obtain ⟨fs, hw | ⟨e, hw⟩⟩ := c.writeFrame_cases f
  all_goals rw [hw]
  · exact h.moved (show _ = _ ++ [f].map WireEvent.sent from rfl) (by simpa using hf) rfl (fun hs => hs)
      fun s hs hunder => ⟨s, hs, rfl, hunder⟩
  · exact h.moved (show _ = _ ++ [].map WireEvent.sent by simp [withFaults]) (by simp) rfl (fun hs => hs)
      fun s hs hunder => ⟨s, hs, rfl, hunder⟩

/-! ## Sending -/

/-- A chunk of the body goes out on a stream underway. -/
theorem underway_sent {awaited : Option Nat} {state : StreamState} {isLast : Bool}
    (h : s.Underway id awaited) (w : StreamSendWindow) {pending : Option PendingBody}
    (hstate : s.state.sendData isLast = .ok state) (hpending : pending.isSome → isLast = false)
    (hsome : s.pendingBody.isSome) :
    { s with sendWindow := w, state, pendingBody := pending }.Underway id awaited := by
  have hdone := StreamState.remoteDone_sendData hstate
  refine ⟨h.ended.trans hdone.symm, fun hr => h.awaited (hdone.symm.trans hr), h.kept, ?_, ?_⟩
  · have hopen := h.incomplete
    rw [Stream.responseComplete_eq] at hopen ⊢
    rw [hdone]
    exact hopen
  · intro hp
    rw [hpending hp] at hstate
    rcases h.unsent hsome with ho | ho
    · rw [ho] at hstate
      cases hstate
      exact .inl rfl
    · rw [ho] at hstate
      cases hstate
      exact .inr rfl

theorem PumpStep.standing {limit : Nat} (h : PumpStep limit c c') (hk : c.Standing k) :
    c'.Standing k := by
  obtain ⟨out, hlog, hout⟩ := h.log
  refine hk.moved hlog (fun f hf => by simp [opens, hout f hf]) ?_ ?_ ?_
  · cases h <;> rfl
  · rintro ⟨a, hexp, hnone⟩
    cases h with
    | faults fs => exact ⟨a, hexp, hnone⟩
    | unparked hs hpending hout =>
      refine ⟨a, hexp, ?_⟩
      rw [getElem?_setStream, if_neg, hnone]
      rintro rfl
      simp [hs] at hnone
    | chunk fs hchunk hstate =>
      refine ⟨a, hexp, ?_⟩
      rw [getElem?_setStream, if_neg]
      · exact hnone
      · rintro rfl
        simp [hchunk.stream] at hnone
    | misplaced fs hchunk hstate =>
      refine ⟨a, hexp, ?_⟩
      rw [getElem?_setStream, if_neg]
      · exact hnone
      · rintro rfl
        simp [hchunk.stream] at hnone
  · intro s hs hunder
    cases h with
    | faults fs => exact ⟨s, hs, rfl, hunder⟩
    | @unparked id t pb ht hpending hout =>
      rw [getElem?_setStream]
      split
      · rename_i heq
        subst heq
        rw [hs] at ht
        cases ht
        exact ⟨_, rfl, rfl, hunder.ended, hunder.awaited, hunder.kept, hunder.incomplete, by simp⟩
      · exact ⟨s, hs, rfl, hunder⟩
    | @chunk id n t pb state fs hchunk hstate =>
      rw [getElem?_setStream]
      split
      · rename_i heq
        subst heq
        have ht := hchunk.stream
        rw [hs] at ht
        cases ht
        refine ⟨_, rfl, rfl, underway_sent hunder _ hstate ?_ (by simp [hchunk.pending])⟩
        intro hsome
        unfold PendingBody.after at hsome
        split at hsome
        · cases hsome
        · rename_i hne
          exact beq_false_of_ne hne
      · exact ⟨s, hs, rfl, hunder⟩
    | @misplaced id n t pb e fs hchunk hstate =>
      rw [getElem?_setStream]
      split
      · rename_i heq
        subst heq
        have ht := hchunk.stream
        rw [hs] at ht
        cases ht
        -- a stream with a body left to send is in a state to send it
        rcases hunder.unsent (by simp [hchunk.pending]) with ho | ho
        · rw [ho] at hstate
          cases hstate
        · rw [ho] at hstate
          cases hstate
      · exact ⟨s, hs, rfl, hunder⟩

theorem standing_flushPending (hk : c.Standing k) : c.flushPending.state.Standing k := by
  have hsteps := c.pumpSteps_flushPending
  generalize c.flushPending.state = c' at hsteps
  induction hsteps with
  | refl => exact hk
  | tail _ hstep ih => exact hstep.standing ih

/-! ## Opening a stream -/

theorem SendEdits.elsewhere (h : SendEdits id c c') (hne : k ≠ id) :
    c'.streams[k]? = c.streams[k]? := by
  induction h with
  | refl => rfl
  | tail _ hstep ih =>
    rw [← ih]
    cases hstep with
    | stream hs e => rw [getElem?_setStream, if_neg (Ne.symm hne)]
    | _ => rfl

theorem SendEdits.log (h : SendEdits id c c') :
    ∃ out : List Frame, c'.tls.log = c.tls.log ++ out.map .sent ∧ ∀ f ∈ out, f.streamId = id := by
  induction h with
  | refl => exact ⟨[], by simp⟩
  | tail _ hstep ih =>
    obtain ⟨out, hlog, hout⟩ := ih
    cases hstep with
    | wrote f hid hf =>
      refine ⟨out ++ [f], by simp [logged, hlog], fun g hg => ?_⟩
      rcases List.mem_append.mp hg with hg | hg
      · exact hout g hg
      · cases List.mem_singleton.mp hg
        exact hid
    | _ => exact ⟨out, hlog, hout⟩

/-- Opening a stream for another request keeps a stream standing. -/
theorem Standing.opened (h : c.Standing k) (hknown : Known c)
    (hopen : c.openStream = .ok id c') : c'.Standing k ∧ k ≠ id := by
  obtain ⟨rfl, -, -, -, rfl⟩ := openStream_ok hopen
  have hlt := (hknown.streams k h.present).2
  refine ⟨?_, by omega⟩
  refine h.moved (show _ = _ ++ [].map WireEvent.sent by simp) (by simp) rfl ?_ fun s hs hunder => ?_
  · rintro ⟨a, hexp, hnone⟩
    refine ⟨a, hexp, ?_⟩
    have := (hknown.awaited a hexp).2
    simp only [Std.ExtTreeMap.getElem?_insert]
    rw [if_neg (by simp; omega)]
    exact hnone
  · refine ⟨s, ?_, rfl, hunder⟩
    simp only [Std.ExtTreeMap.getElem?_insert]
    rw [if_neg (by simp; omega)]
    exact hs

theorem Standing.edited (h : c.Standing k) (hne : k ≠ id) (he : SendEdits id c c') :
    c'.Standing k := by
  obtain ⟨out, hlog, hout⟩ := he.log
  have hsends := he.sends
  refine h.moved hlog (fun f hf => ?_) hsends.expectingContinuation ?_ fun s hs hunder => ?_
  · simp [opens, hout f hf, Ne.symm hne]
  · rintro ⟨a, hexp, hnone⟩
    refine ⟨a, hsends.expectingContinuation.trans hexp, ?_⟩
    have hview := hsends.streams a
    rw [hnone, Option.map_none, Option.map_eq_none_iff] at hview
    exact hview
  · exact ⟨s, (he.elsewhere hne).trans hs, rfl, hunder⟩

/-- A stream is standing once the head of its request is out, the body parked or not. -/
theorem standing_head {conn : Connection} {req : Request} {state : StreamState} {e : Encoder}
    {pending : Option PendingBody} (hknown : Known c) (hopen : c.openStream = .ok id conn)
    (hstate : StreamState.idle.sendData req.body.isEmpty = .ok state)
    (hpending : pending.isSome → req.body.isEmpty = false)
    (fs : List (Option (IoErrorKind × String))) (headRequest : Bool) :
    (({ conn with encoder := e }.wrote fs (conn.headFrames id req)).setStream id
      { Stream.new c.peer.initialWindowSize c.ourRecvWindow with
        state, headRequest, pendingBody := pending }).Standing id := by
  obtain ⟨rfl, -, -, -, rfl⟩ := openStream_ok hopen
  have hnot : c.expectingContinuation ≠ some c.nextStreamId := fun hx =>
    absurd (hknown.awaited _ hx).2 (lt_irrefl _)
  have hrecv := StreamState.remoteDone_sendData hstate
  refine ⟨_, getElem?_setStream_self _ _ _, ⟨?_, ?_, rfl, ?_, ?_⟩, .inr ?_⟩
  · exact hrecv.symm
  · intro hdone
    simp only at hdone
    rw [hrecv] at hdone
    cases hdone
  · rw [Stream.responseComplete_eq]
    simp [Stream.new]
  · intro hsome
    rw [hpending hsome] at hstate
    cases hstate
    exact .inl rfl
  · refine follows_headFrames _ req hnot c.peer.initialWindowSize c.ourRecvWindow ?_ c.tls.log
    simp only [Stream.recvPart, hrecv]
    rfl

/-- The stream opened for a request is standing once the request is staged. -/
theorem standing_staged {conn : Connection} {req : Request} {u : Unit} (hknown : Known c)
    (hopen : c.openStream = .ok id conn) (hstage : conn.stageRequestOn id req = .ok u c') :
    c'.Standing id := by
  obtain ⟨fs, s, state, hs, hstate, rfl⟩ := stageRequestOn_ok hstage
  have hnew : s = .new c.peer.initialWindowSize c.ourRecvWindow := by
    obtain ⟨rfl, -, -, -, rfl⟩ := openStream_ok hopen
    simpa using hs.symm
  subst hnew
  refine standing_head hknown hopen hstate (fun hsome => ?_) fs _
  cases hbody : req.body.isEmpty with
  | true => simp [hbody, Stream.new] at hsome
  | false => rfl

/-! ## Reading -/

/-- An accepted frame, seen from a standing stream: it completes the response, or leaves the stream
underway, or is a GOAWAY that abandons it. -/
theorem standing_read {outcome : DispatchOutcome} (h : c.readAndDispatch false = .ok outcome c')
    (hknown : Known c) (hk : c.Standing k) :
    ∃ s', c'.streams[k]? = some s' ∧
      s'.Follows k (sinceOpened k c'.tls.log) c'.expectingContinuation ∧
      (outcome = .done k ∧ s'.responseComplete = true ∨
        outcome ≠ .done k ∧ (s'.Underway k c'.expectingContinuation ∨
          c'.Abandoned k ∧ s'.endStreamRecv = false)) := by
  have hid₀ : k ≠ 0 := by
    have := (hknown.streams k hk.present).1
    omega
  obtain ⟨s, hs, hunder, hstuck | hf⟩ := hk
  · exact absurd h (hstuck.read hknown)
  · obtain ⟨f, rest, s', hin, hs', hstep, hf', hstate, hout⟩ := follows_read h hs hid₀ hf
    refine ⟨s', hs', hf', hout.imp_right fun hout => ⟨hout.1, ?_⟩⟩
    cases hstep with
    | own hid ht =>
      subst hid
      refine .inl (hunder.takes hf.head_isSome ht ?_)
      have hopen := hout.2
      rw [hunder.incomplete] at hopen
      simpa [hid₀] using hopen
    | elsewhere hid hx hx' w hst =>
      have hrecv := hunder.not_remoteDone hx
      rcases hstate hid with hsame | hgone
      · simp only at hsame
        subst hsame
        exact .inl ⟨hunder.ended, fun hr => absurd hr (by simp [hrecv]), hunder.kept,
          hunder.incomplete, hunder.unsent⟩
      · exact .inr ⟨hgone, hunder.ended.trans hrecv⟩

theorem Edits.elsewhere {data block : Bool} (h : Edits data block id c c') (hne : k ≠ id) :
    c'.streams[k]? = c.streams[k]? := by
  induction h with
  | refl => rfl
  | tail _ hstep ih =>
    rw [← ih]
    cases hstep with
    | stream hs e => rw [getElem?_setStream, if_neg (Ne.symm hne)]
    | _ => rfl

theorem Edits.awaited {data block : Bool} (h : Edits data block id c c') :
    c'.expectingContinuation = c.expectingContinuation ∨ c'.expectingContinuation = none ∨
      c'.expectingContinuation = some id := by
  induction h with
  | refl => exact .inl rfl
  | tail _ hstep ih =>
    cases hstep with
    | expecting x hx hb => exact .inr (hx.imp_right fun hx => hx.1)
    | _ => exact ih

theorem dispatch_elsewhere {f : Frame} (sink : Bool) (hne : k ≠ f.streamId)
    (hx : c.expectingContinuation ≠ some k) (hs : c.streams[k]? = some s) :
    (c.dispatch f sink).state.expectingContinuation ≠ some k ∧
      ∃ w st, (c.dispatch f sink).state.streams[k]? =
          some { s with sendWindow := w, state := st } ∧
        (st = s.state ∨ f.streamId = 0 ∧ st = .closed) := by
  unfold dispatch
  split
  · rename_i hzero
    have hconn := (connEdits_processConnFrame c f).connAccepts
    refine ⟨by rwa [hconn.expecting], ?_⟩
    obtain ⟨-, hnone⟩ | ⟨t, w, st, ht, hst, hs'⟩ := hconn.streams k
    · rw [hs] at hnone
      cases hnone
    · rw [hs] at ht
      cases ht
      exact ⟨w, st, hs', hst.imp_right fun hst => ⟨hzero, hst.1⟩⟩
  · by_cases hw : f.typ = .windowUpdate
    · simp only [processStreamFrame, hw]
      unfold processStreamWindowUpdate
      split
      · exact ⟨hx, _, _, hs, .inl rfl⟩
      · split
        · exact ⟨hx, _, _, hs, .inl rfl⟩
        · split
          · exact ⟨hx, _, _, hs, .inl rfl⟩
          · refine ⟨hx, s.sendWindow, s.state, ?_, .inl rfl⟩
            simp only [Outcome.state, setStream]
            exact (getElem?_setStream c f.streamId k _).trans (by rw [if_neg (Ne.symm hne), hs])
    · have hedits := edits_processStreamFrame c f sink hw
      refine ⟨?_, s.sendWindow, s.state, (hedits.elsewhere hne).trans hs, .inl rfl⟩
      rcases hedits.awaited with h | h | h
      all_goals rw [h]
      · exact hx
      · exact Option.some_ne_none k |>.symm
      · exact fun heq => hne (Option.some.inj heq).symm

/-- A frame past the continuation gate, accepted or not, seen from another stream. -/
theorem processFrame_elsewhere {f : Frame} (sink : Bool) (hgate : c.continuationGate f = .ok ())
    (hne : k ≠ f.streamId) (hs : c.streams[k]? = some s) :
    c.expectingContinuation ≠ some k ∧
      (c.processFrame f sink).state.expectingContinuation ≠ some k ∧
      ∃ w st, (c.processFrame f sink).state.streams[k]? =
          some { s with sendWindow := w, state := st } ∧
        (st = s.state ∨ f.streamId = 0 ∧ st = .closed) := by
  have hx : c.expectingContinuation ≠ some k := fun hx =>
    hne (awaited_of_gate hgate hx).2.symm
  refine ⟨hx, ?_⟩
  obtain ⟨e, hp⟩ | ⟨e, b, hp⟩ | ⟨b, -, -, hp⟩ := c.processFrame_cases f sink
  all_goals rw [hp]
  · exact ⟨hx, _, _, hs, .inl rfl⟩
  · exact ⟨hx, _, _, hs, .inl rfl⟩
  · have hd := @dispatch_elsewhere { c with budget := b, madeProgress := false } k s f sink hne hx hs
    cases hr : { c with budget := b, madeProgress := false }.dispatch f sink with
    | error e c₁ =>
      rw [hr] at hd
      exact hd
    | ok outcome c₁ =>
      rw [hr] at hd
      obtain ⟨b', hb'⟩ := c₁.recordProgress_state outcome
      simp only [Outcome.andThen, Outcome.state] at hb' hd ⊢
      rw [hb']
      exact hd

/-- The ways a read fails: nothing but the transport changed, or the frame got past the
continuation gate. -/
theorem readAndDispatch_error {e : Error} (h : c.readAndDispatch false = .error e c') :
    (c'.streams = c.streams ∧ c'.expectingContinuation = c.expectingContinuation ∧
        c'.decoder = c.decoder) ∨
      ∃ f rest, c.tls.inbound = .frame f :: rest ∧ c.continuationGate f = .ok () ∧
        (c.received f rest).processFrame f false = .error e c' ∧
        ∃ out : List Frame, c'.tls.log = c.tls.log ++ WireEvent.recv f :: out.map .sent ∧
          ∀ g ∈ out, g.isReply := by
  obtain ⟨-, hr⟩ | ⟨kind, msg, rest, e', -, hr⟩ | ⟨f, rest, hin, hr⟩ :=
    c.readAndDispatch_cases false
  all_goals rw [hr] at h
  · cases h
    exact .inl ⟨rfl, rfl, rfl⟩
  · cases h
    exact .inl ⟨rfl, rfl, rfl⟩
  · cases hgate : c.continuationGate f with
    | error e' =>
      have hgate' : (c.received f rest).continuationGate f = .error e' := hgate
      unfold processFrame at h
      rw [hgate'] at h
      cases h
      exact .inl ⟨rfl, rfl, rfl⟩
    | ok _ =>
      refine .inr ⟨f, rest, hin, hgate, h, ?_⟩
      obtain ⟨out, hout, hreply⟩ := (carried_processFrame (c.received f rest) f false).log
      rw [h] at hout
      exact ⟨out, by rw [Outcome.state] at hout; rw [hout]; simp [received], hreply⟩

end Connection

namespace Mux

variable {n : Nat} {codecs : Codecs} {reqs : Fin n → Request} {m m' m'' : Mux n}
variable {P : Connection → Prop}

/-! ## The batch -/

/-- Every live stream is standing. -/
def Live (m : Mux n) : Prop := ∀ id : Nat, m.idToIdx[id]?.isSome → m.conn.Standing id

/-- Requests are given up: their streams go, and nothing else of the connection changes. -/
structure Trims (m m' : Mux n) : Prop where
  conn : m'.conn = { m.conn with streams := m'.conn.streams }
  mapped : ∀ (k : Nat) (i : Fin n), m'.idToIdx[k]? = some i → m.idToIdx[k]? = some i
  streams : ∀ k : Nat, m'.idToIdx[k]?.isSome → m'.conn.streams[k]? = m.conn.streams[k]?
  fewer : ∀ (k : Nat) (s : Stream), m'.conn.streams[k]? = some s → m.conn.streams[k]? = some s

theorem Trims.refl (m : Mux n) : Trims m m := ⟨rfl, fun _ _ h => h, fun _ _ => rfl, fun _ _ h => h⟩

theorem Trims.isSome (h : Trims m m') {k : Nat} (hk : m'.idToIdx[k]?.isSome) :
    m.idToIdx[k]?.isSome := by
  obtain ⟨i, hi⟩ := Option.isSome_iff_exists.mp hk
  simp [h.mapped k i hi]

theorem Trims.trans (h : Trims m m') (h' : Trims m' m'') : Trims m m'' := by
  refine ⟨?_, fun k i hk => h.mapped k i (h'.mapped k i hk),
    fun k hk => (h'.streams k hk).trans (h.streams k (h'.isSome hk)),
    fun k s hk => h.fewer k s (h'.fewer k s hk)⟩
  rw [h'.conn, h.conn]

theorem getElem?_erase_of_some {ids : Std.ExtTreeMap Nat (Fin n)} {id k : Nat} {i : Fin n}
    (h : (ids.erase id)[k]? = some i) : k ≠ id ∧ ids[k]? = some i := by
  rw [Std.ExtTreeMap.getElem?_erase] at h
  split at h
  · cases h
  · rename_i hne
    exact ⟨fun heq => hne (by simp [heq]), h⟩

/-- A stream is taken out of both maps. -/
theorem trims_erase (m : Mux n) (id : Nat) (results : Fin n → Option (Except Error Response)) :
    Trims m { m with
      idToIdx := m.idToIdx.erase id, conn := m.conn.removeStream id, results } := by
  refine ⟨rfl, fun k i hk => (getElem?_erase_of_some hk).2, fun k hk => ?_, fun k s hk => ?_⟩
  · obtain ⟨i, hi⟩ := Option.isSome_iff_exists.mp hk
    rw [Connection.getElem?_removeStream, if_neg (Ne.symm (getElem?_erase_of_some hi).1)]
  · rw [Connection.getElem?_removeStream] at hk
    split at hk
    · cases hk
    · exact hk

theorem failDoomed_trims (last : Nat) (m : Mux n) (id : Nat) :
    Trims m (failDoomed last m id) ∧ (failDoomed last m id).idToIdx[id]? = none := by
  unfold failDoomed
  split
  · rename_i hnone
    exact ⟨.refl m, hnone⟩
  · exact ⟨trims_erase m id _, by simp [setResult]⟩

/-- Streams that a GOAWAY abandoned are given up, unless their response is in. -/
theorem failGoawayDoomed_trims (m : Mux n) : Trims m m.failGoawayDoomed ∧
    ∀ k : Nat, m.failGoawayDoomed.idToIdx[k]?.isSome → m.conn.Abandoned k →
      ∃ s, m.conn.streams[k]? = some s ∧ s.endStreamRecv = true := by
  unfold failGoawayDoomed
  split
  · rename_i hnone
    refine ⟨.refl m, fun k _ hgone => ?_⟩
    obtain ⟨last, hlast, -⟩ := hgone
    rw [hnone] at hlast
    cases hlast
  · rename_i last hlast
    simp only
    generalize hdoomed : m.idToIdx.keys.filter _ = doomed
    have hfold : ∀ (ids : List Nat) (m₁ : Mux n), Trims m₁ (ids.foldl (failDoomed last) m₁) ∧
        ∀ k ∈ ids, (ids.foldl (failDoomed last) m₁).idToIdx[k]? = none := by
      intro ids
      induction ids with
      | nil => exact fun m₁ => ⟨.refl m₁, by simp⟩
      | cons id ids ih =>
        intro m₁
        obtain ⟨htrims, hgone⟩ := failDoomed_trims last m₁ id
        obtain ⟨htrims', hgone'⟩ := ih (failDoomed last m₁ id)
        refine ⟨htrims.trans htrims', fun k hk => ?_⟩
        rcases List.mem_cons.mp hk with rfl | hk
        · by_contra hne
          have := htrims'.isSome (k := k) (Option.isSome_iff_ne_none.mpr hne)
          simp [hgone] at this
        · exact hgone' k hk
    obtain ⟨htrims, hgone⟩ := hfold doomed m
    refine ⟨htrims, fun k hk hab => ?_⟩
    obtain ⟨last', hlast', hlt⟩ := hab
    rw [hlast] at hlast'
    cases hlast'
    by_contra hno
    have hmem : k ∈ doomed := by
      rw [← hdoomed, List.mem_filter, Std.ExtTreeMap.mem_keys, Std.ExtTreeMap.mem_iff_isSome_getElem?]
      refine ⟨htrims.isSome hk, ?_⟩
      simp only [hlt, decide_true, Bool.true_and, Bool.not_eq_true']
      cases hs : m.conn.streams[k]? with
      | none => rfl
      | some s =>
        rw [Option.any_some]
        cases hend : s.endStreamRecv with
        | true => exact absurd ⟨s, hs, hend⟩ hno
        | false => rfl
    rw [hgone k hmem] at hk
    cases hk

/-- A stream whose request goes on stays standing. -/
theorem Trims.standing (h : Trims m m') {k : Nat} (hk : m'.idToIdx[k]?.isSome)
    (hs : m.conn.Standing k) : m'.conn.Standing k := by
  rw [h.conn]
  refine hs.moved (show _ = _ ++ [].map WireEvent.sent by simp) (by simp) rfl ?_ fun s hs hunder => ?_
  · rintro ⟨a, hexp, hnone⟩
    refine ⟨a, hexp, ?_⟩
    simp only
    cases hs' : m'.conn.streams[a]? with
    | none => rfl
    | some s =>
      rw [h.fewer a s hs'] at hnone
      cases hnone
  · exact ⟨s, (h.streams k hk).trans hs, rfl, hunder⟩

theorem trims_spared (m : Mux n) : Trims m m.spared := by
  unfold spared
  split
  · exact (failGoawayDoomed_trims m).1
  · exact .refl m

/-- After an accepted frame the live streams are standing, up to the one it finished. -/
theorem spared_standing (hacc : Accounted m) (h : Live m) {outcome : DispatchOutcome}
    {conn : Connection} (hread : m.conn.readAndDispatch false = .ok outcome conn) {k : Nat}
    (hk : { m with conn }.spared.idToIdx[k]?.isSome) :
    ∃ s, { m with conn }.spared.conn.streams[k]? = some s ∧
      s.Follows k (sinceOpened k conn.tls.log) conn.expectingContinuation ∧
      (outcome = .done k ∧ s.responseComplete = true ∨
        outcome ≠ .done k ∧ { m with conn }.spared.conn.Standing k) := by
  have htrims := trims_spared { m with conn }
  have hmapped : m.idToIdx[k]?.isSome := htrims.isSome hk
  obtain ⟨s, hs, hfollows, hcases⟩ := Connection.standing_read hread hacc.known (h k hmapped)
  refine ⟨s, (htrims.streams k hk).trans hs, hfollows, ?_⟩
  rcases hcases with hdone | ⟨hne, hunder | ⟨hgone, hend⟩⟩
  · exact .inl hdone
  · refine .inr ⟨hne, htrims.standing hk ⟨s, hs, hunder, .inr hfollows⟩⟩
  · -- an abandoned stream has been given up
    exfalso
    have hsome : ({ m with conn } : Mux n).conn.goawayReceived.isSome := by
      obtain ⟨last, hlast, -⟩ := hgone
      simp [hlast]
    unfold spared at hk
    rw [if_pos hsome] at hk
    obtain ⟨t, ht, hend'⟩ := (failGoawayDoomed_trims { m with conn }).2 k hk hgone
    rw [show ({ m with conn } : Mux n).conn.streams[k]? = some s from hs] at ht
    cases ht
    rw [hend] at hend'
    cases hend'

theorem deliver_standing {id k : Nat} {idx : Fin n} {stream : Stream}
    (hk : (m.deliver codecs reqs id idx stream).idToIdx[k]?.isSome)
    (hs : k ≠ id → m.conn.Standing k) :
    (m.deliver codecs reqs id idx stream).conn.Standing k := by
  obtain ⟨i, hi⟩ := Option.isSome_iff_exists.mp hk
  obtain ⟨hne, -⟩ := getElem?_erase_of_some hi
  have hremoved := (hs hne).removed hne
  unfold deliver
  simp only [setResult]
  split
  · exact hremoved.wrote _ rfl
  · exact hremoved

/-- An accepted frame keeps the live streams standing. -/
theorem settle_live (hacc : Accounted m) (h : Live m) {outcome : DispatchOutcome}
    {conn : Connection} (hread : m.conn.readAndDispatch false = .ok outcome conn) :
    Live ({ m with conn }.settle codecs reqs outcome) := by
  have hstanding := @spared_standing n m hacc h outcome conn hread
  unfold settle handBack
  generalize { m with conn }.spared = m₁ at hstanding ⊢
  have hothers (id : Nat) (hout : outcome = .done id) {k : Nat} (hk : m₁.idToIdx[k]?.isSome)
      (hne : k ≠ id) : m₁.conn.Standing k := by
    obtain ⟨s, -, -, ⟨hdone, -⟩ | ⟨-, hs⟩⟩ := hstanding hk
    · rw [hout] at hdone
      cases hdone
      exact absurd rfl hne
    · exact hs
  intro k hk
  cases outcome with
  | «continue» =>
    obtain ⟨s, -, -, ⟨hdone, -⟩ | ⟨-, hs⟩⟩ := hstanding hk
    · cases hdone
    · exact hs
  | done id =>
    simp only at hk ⊢
    split at hk
    · rename_i hnone
      refine hothers id rfl hk ?_
      rintro rfl
      simp [hnone] at hk
    · rename_i idx hidx
      split at hk
      · obtain ⟨i, hi⟩ := Option.isSome_iff_exists.mp hk
        obtain ⟨hne, hi'⟩ := getElem?_erase_of_some hi
        exact hothers id rfl (by simp [hi']) hne
      · refine deliver_standing hk fun hne => ?_
        obtain ⟨i, hi⟩ := Option.isSome_iff_exists.mp hk
        exact hothers id rfl (by simp [(getElem?_erase_of_some hi).2]) hne

/-! ## Errors -/

theorem mem_culprits {e : Nat × Stream} : e ∈ m.culprits ↔ m.conn.streams[e.1]? = some e.2 ∧
    m.idToIdx[e.1]?.isSome ∧ e.2.state = .closed ∧ e.2.responseComplete = false := by
  unfold culprits
  rw [List.mem_filter]
  have hmem : e ∈ m.conn.streams.toList ↔ m.conn.streams[e.1]? = some e.2 := by
    obtain ⟨k, s⟩ := e
    exact Std.ExtTreeMap.mem_toList_iff_getElem?_eq_some
  rw [hmem, Std.ExtTreeMap.contains_eq_isSome_getElem?]
  simp [and_assoc]

/-- An error is put down to the stream it closed: the other live streams stay standing. -/
theorem stumble_live (hacc : Accounted m) (h : Live m) {e : Error} {conn : Connection}
    (hread : m.conn.readAndDispatch false = .error e conn) {id : Nat} {s : Stream}
    (hculprits : { m with conn }.culprits = [(id, s)]) {k : Nat} (hk : m.idToIdx[k]?.isSome)
    (hne : k ≠ id) : (conn.removeStream id).Standing k := by
  have hculprit : (id, s) ∈ { m with conn }.culprits := by simp [hculprits]
  obtain ⟨hs, hid, hclosed, hopen⟩ := mem_culprits.mp hculprit
  simp only at hs hid hclosed hopen
  have honly {j : Nat} {t : Stream} (hj : conn.streams[j]? = some t) (hm : m.idToIdx[j]?.isSome)
      (hc : t.state = .closed) (ho : t.responseComplete = false) : j = id := by
    have hmem : (j, t) ∈ { m with conn }.culprits := mem_culprits.mpr ⟨hj, hm, hc, ho⟩
    rw [hculprits] at hmem
    exact congrArg Prod.fst (List.mem_singleton.mp hmem)
  obtain ⟨s₀, hs₀, hunder₀, -⟩ := h id hid
  obtain ⟨t, ht, hunder, hfollows⟩ := h k hk
  obtain ⟨hstreams, hexp, -⟩ | ⟨f, rest, hin, hgate, hp, out, hlog, hreply⟩ :=
    Connection.readAndDispatch_error hread
  · -- nothing changed: the culprit is the awaited stream
    have hawaited : m.conn.expectingContinuation = some id := by
      rw [← hstreams] at hs₀
      rw [hs] at hs₀
      cases hs₀
      exact hunder₀.awaited (by simp [hclosed, StreamState.remoteDone])
    refine ⟨t, ?_, ?_, .inl ⟨id, ?_, by simp⟩⟩
    · rw [Connection.getElem?_removeStream, if_neg (Ne.symm hne), hstreams, ht]
    · rw [show (conn.removeStream id).expectingContinuation = m.conn.expectingContinuation from hexp]
      exact hunder
    · exact hexp.trans hawaited
  · have hgate' : (m.conn.received f rest).continuationGate f = .ok () := hgate
    have hconn : conn = ((m.conn.received f rest).processFrame f false).state := by rw [hp]; rfl
    -- the culprit is the frame's own stream, or was closed by a frame on stream 0
    have hown : id = f.streamId ∨ f.streamId = 0 := by
      by_contra hno
      obtain ⟨hid', hzero⟩ := not_or.mp hno
      obtain ⟨hx, -, w, st, hs', hst⟩ := Connection.processFrame_elsewhere false hgate' hid' hs₀
      rw [← hconn, hs] at hs'
      cases hs'
      rcases hst with hst | ⟨hzero', -⟩
      · simp only at hclosed
        rw [hclosed] at hst
        exact hx (hunder₀.awaited (by rw [← hst]; rfl))
      · exact hzero hzero'
    have hkf : k ≠ f.streamId := by
      have := (hacc.known.streams k (by simp [ht])).1
      omega
    obtain ⟨hx, hx', w, st, ht', hst⟩ := Connection.processFrame_elsewhere false hgate' hkf ht
    rw [← hconn] at hx' ht'
    have hrecv := hunder.not_remoteDone hx
    have hstate : st = t.state := by
      rcases hst with hst | ⟨-, hst⟩
      · exact hst
      · refine absurd (honly ht' hk hst ?_) hne
        rw [Stream.responseComplete_eq]
        simp [hunder.ended, hrecv]
    subst hstate
    refine ⟨{ t with sendWindow := w }, ?_, ?_, ?_⟩
    · rw [Connection.getElem?_removeStream, if_neg (Ne.symm hne)]
      exact ht'
    · exact ⟨hunder.ended, fun hr => absurd hr (by simp [hrecv]), hunder.kept, hunder.incomplete,
        hunder.unsent⟩
    · rcases hfollows with ⟨a, hexp, hnone⟩ | hfollows
      · -- past the gate the awaited stream is the frame's own, and it is gone
        exfalso
        obtain ⟨-, rfl⟩ := Connection.awaited_of_gate hgate hexp
        have hodd := (hacc.known.awaited _ hexp).1
        rcases hown with rfl | hzero
        · rw [hs₀] at hnone
          cases hnone
        · omega
      · right
        have hsince : sinceOpened k conn.tls.log =
            sinceOpened k m.conn.tls.log ++ [WireEvent.recv f] ++ out.map .sent := by
          unfold sinceOpened
          rw [hlog, Trace.since_append (Connection.not_opens_reply hreply f)]
          simp
        rw [show (conn.removeStream id).tls.log = conn.tls.log from rfl, hsince]
        exact (hfollows.other ⟨w, _, rfl⟩ (Ne.symm hkf) hx hx').sent out rfl

/-! ## Every move -/

theorem move_live (hacc : Accounted m) (h : Live m) (hm : Move codecs reqs P m m') : Live m' := by
  cases hm with
  | @refused idx rest e conn hq hopen =>
    cases Connection.openStream_error hopen
    exact h
  | @unsent idx rest id e conn conn' hq hopen hstage =>
    have hedits := @Connection.sendEdits_stageRequestOn id conn (reqs idx)
    rw [hstage] at hedits
    intro k hk
    obtain ⟨hopened, hne⟩ := (h k hk).opened hacc.known hopen
    exact (hopened.edited hne hedits).removed hne
  | @started idx rest id u conn conn' hq hopen hstage =>
    have hedits := @Connection.sendEdits_stageRequestOn id conn (reqs idx)
    rw [hstage] at hedits
    intro k hk
    by_cases hkid : k = id
    · subst hkid
      exact Connection.standing_staged hacc.known hopen hstage
    · rw [Std.ExtTreeMap.getElem?_insert, if_neg (by simpa using Ne.symm hkid)] at hk
      exact ((h k hk).opened hacc.known hopen).1.edited hkid hedits
  | pumped => exact fun k hk => Connection.standing_flushPending (h k hk)
  | @accepted outcome conn hp hread => exact settle_live hacc h hread
  | @stumbled m₁ e conn idx hp hread htake =>
    obtain ⟨id, s, hculprits, hidx, rfl⟩ := takeStreamError_some htake
    intro k hk
    obtain ⟨i, hi⟩ := Option.isSome_iff_exists.mp hk
    obtain ⟨hne, hi'⟩ := getElem?_erase_of_some hi
    have hmapped : m.idToIdx[k]? = some i := hi'
    exact stumble_live hacc h hread hculprits (by simp [hmapped]) hne

/-! ## Where responses come from -/

/-- A response that is handed back is made of frames of the stream opened for its request. -/
def Sourced (codecs : Codecs) (reqs : Fin n → Request) (m : Mux n) : Prop :=
  ∀ (i : Fin n) (resp : Response), m.results i = some (.ok resp) →
    ∃ id s log awaited, (id, i) ∈ m.opened ∧ log <+: m.conn.tls.log ∧
      s.Follows id (sinceOpened id log) awaited ∧
      buildResponseFromStream codecs s (reqs i).decompress = .ok resp

/-- No new response, and the log grows. -/
theorem Sourced.mono (h : Sourced codecs reqs m) (hlog : m.conn.tls.log <+: m'.conn.tls.log)
    (hopened : m.opened <+: m'.opened)
    (hres : ∀ i resp, m'.results i = some (.ok resp) → m.results i = some (.ok resp)) :
    Sourced codecs reqs m' := by
  intro i resp hi
  obtain ⟨id, s, log, awaited, hmem, hbegins, hfollows, hbuild⟩ := h i resp (hres i resp hi)
  exact ⟨id, s, log, awaited, hopened.subset hmem, hbegins.trans hlog, hfollows, hbuild⟩

theorem results_setResult_error {idx i : Fin n} {e : Error} {resp : Response}
    (h : (m.setResult idx (.error e)).results i = some (.ok resp)) :
    m.results i = some (.ok resp) := by
  by_cases hi : i = idx
  · subst hi
    simp at h
  · rwa [setResult_of_ne hi] at h

theorem readAndDispatch_log (c : Connection) (sink : Bool) :
    c.tls.log <+: (c.readAndDispatch sink).state.tls.log := by
  obtain ⟨-, hr⟩ | ⟨kind, msg, rest, e', -, hr⟩ | ⟨f, rest, hin, hr⟩ := c.readAndDispatch_cases sink
  all_goals rw [hr]
  · exact List.prefix_refl _
  · exact List.prefix_refl _
  · obtain ⟨out, hout, -⟩ := (Connection.carried_processFrame (c.received f rest) f sink).log
    rw [hout]
    exact ⟨.recv f :: out.map .sent, by simp [Connection.received]⟩

theorem failDoomed_results {last id : Nat} {i : Fin n} {resp : Response}
    (h : (failDoomed last m id).results i = some (.ok resp)) : m.results i = some (.ok resp) := by
  unfold failDoomed at h
  split at h
  · exact h
  · exact results_setResult_error h

theorem spared_results {i : Fin n} {resp : Response}
    (h : m.spared.results i = some (.ok resp)) : m.results i = some (.ok resp) := by
  unfold spared failGoawayDoomed at h
  split at h
  · rename_i hsome
    clear hsome
    split at h
    · exact h
    · rename_i last hlast
      clear hlast
      simp only at h
      generalize m.idToIdx.keys.filter _ = doomed at h
      induction doomed generalizing m with
      | nil => exact h
      | cons id doomed ih => exact failDoomed_results (ih h)
  · exact h

theorem deliver_log (id : Nat) (idx : Fin n) (stream : Stream) :
    m.conn.tls.log <+: (m.deliver codecs reqs id idx stream).conn.tls.log := by
  unfold deliver
  simp only [setResult]
  split
  · obtain ⟨fs, hw | ⟨e, hw⟩⟩ :=
      (m.conn.removeStream id).writeFrame_cases (rstStreamFrame id errNoError)
    all_goals rw [hw]
    · exact List.prefix_append _ _
    · exact List.prefix_refl _
  · exact List.prefix_refl _

/-- An accepted frame hands back at most the response of the stream it finished. -/
theorem settle_sourced (hacc : Accounted m) (h : Live m) (hs : Sourced codecs reqs m)
    {outcome : DispatchOutcome} {conn : Connection}
    (hread : m.conn.readAndDispatch false = .ok outcome conn) :
    Sourced codecs reqs ({ m with conn }.settle codecs reqs outcome) := by
  have hstanding := @spared_standing n m hacc h outcome conn hread
  have hlog : m.conn.tls.log <+: conn.tls.log := by
    have := readAndDispatch_log m.conn false
    rwa [hread] at this
  have htrims := trims_spared { m with conn }
  have hspared : Sourced codecs reqs { m with conn }.spared := by
    refine hs.mono ?_ (@settle_accounted n codecs reqs { m with conn } ?_ .continue).2.opened ?_
    · rw [htrims.conn]
      exact hlog
    · have hkeeps := m.conn.keepsStreams_readAndDispatch false
      rw [hread] at hkeeps
      exact hacc.conn hkeeps
    · intro i resp hi
      exact @spared_results n { m with conn } i resp hi
  have hopened : ∀ (id : Nat) (idx : Fin n), { m with conn }.spared.idToIdx[id]? = some idx →
      (id, idx) ∈ { m with conn }.spared.opened := by
    intro id idx hidx
    have hkeeps := m.conn.keepsStreams_readAndDispatch false
    rw [hread] at hkeeps
    have := (@settle_accounted n codecs reqs { m with conn } (hacc.conn hkeeps) .continue).1
    exact (this.mapped id idx hidx).2
  have hconnlog : { m with conn }.spared.conn.tls.log = conn.tls.log := by rw [htrims.conn]
  unfold settle handBack
  generalize { m with conn }.spared = m₁ at hstanding hspared hopened hconnlog ⊢
  cases outcome with
  | «continue» => exact hspared
  | done id =>
    simp only
    split
    · exact hspared
    · rename_i idx hidx
      split
      · exact hspared
      · rename_i stream hstream
        intro i resp hi
        by_cases hii : i = idx
        · subst hii
          obtain ⟨s, hs', hfollows, -⟩ := hstanding (k := id) (by simp [hidx])
          rw [hstream] at hs'
          cases hs'
          unfold deliver at hi
          simp only [setResult_self, Option.some.injEq] at hi
          refine ⟨id, stream, conn.tls.log, _, hopened id i hidx, ?_, hfollows, hi⟩
          rw [← hconnlog]
          exact deliver_log id i stream
        · unfold deliver at hi
          simp only at hi
          rw [setResult_of_ne hii] at hi
          obtain ⟨id', s, log, awaited, hmem, hbegins, hfollows, hbuild⟩ := hspared i resp hi
          exact ⟨id', s, log, awaited, hmem, hbegins.trans (deliver_log id idx stream), hfollows,
            hbuild⟩

theorem move_sourced (hacc : Accounted m) (h : Live m) (hs : Sourced codecs reqs m)
    (hm : Move codecs reqs P m m') : Sourced codecs reqs m' := by
  have hadv := (move_accounted hacc hm).2
  cases hm with
  | @refused idx rest e conn hq hopen =>
    cases Connection.openStream_error hopen
    exact hs.mono (List.prefix_refl _) hadv.opened fun i resp hi => results_setResult_error hi
  | @unsent idx rest id e conn conn' hq hopen hstage =>
    have hedits := @Connection.sendEdits_stageRequestOn id conn (reqs idx)
    rw [hstage] at hedits
    obtain ⟨out, hlog, -⟩ := hedits.log
    obtain ⟨-, -, -, -, rfl⟩ := Connection.openStream_ok hopen
    exact hs.mono ⟨_, hlog.symm⟩ hadv.opened fun i resp hi => results_setResult_error hi
  | @started idx rest id u conn conn' hq hopen hstage =>
    have hedits := @Connection.sendEdits_stageRequestOn id conn (reqs idx)
    rw [hstage] at hedits
    obtain ⟨out, hlog, -⟩ := hedits.log
    obtain ⟨-, -, -, -, rfl⟩ := Connection.openStream_ok hopen
    exact hs.mono ⟨_, hlog.symm⟩ hadv.opened fun i resp hi => hi
  | pumped =>
    obtain ⟨out, hlog, -⟩ := m.conn.pumpSteps_flushPending.log
    exact hs.mono ⟨_, hlog.symm⟩ hadv.opened fun i resp hi => hi
  | @accepted outcome conn hp hread => exact settle_sourced hacc h hs hread
  | @stumbled m₁ e conn idx hp hread htake =>
    obtain ⟨id, s, hculprits, hidx, rfl⟩ := takeStreamError_some htake
    have hlog := readAndDispatch_log m.conn false
    rw [hread] at hlog
    exact hs.mono hlog hadv.opened fun i resp hi => results_setResult_error hi

end Mux

end Rsurl.Http2
