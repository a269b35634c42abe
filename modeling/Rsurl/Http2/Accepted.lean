import Rsurl.Http2.Sections
import Rsurl.Http2.Sending

/-!
# What an accepted frame does

`Stream.Takes` lists everything a frame that is accepted can do to the stream it names, with the
decoder and the awaited stream before and after. A run of a connection that meets no error is a
sequence of these, so what a response is made of is an induction over it.
-/

namespace Rsurl.Http2

open Library Hpack

/-! ## Sections on a stream -/

/-- What an accepted section does to its stream. -/
inductive Stream.TakesSection (decoded : List Header) : Stream → Stream → Prop where
  | trailers {s : Stream} (final : s.finalStatus.isSome) (ended : s.endStreamRecv = true)
      (hlen : s.LengthMatches) : TakesSection decoded s s
  | interim {s : Stream} (final : s.finalStatus = none) (ended : s.endStreamRecv = false)
      (few : s.interimCount < maxInterimResponses) :
      TakesSection decoded s { s with interimCount := s.interimCount + 1 }
  | head {s s' : Stream} {info : ResponseFieldInfo} (final : s.finalStatus = none)
      (hinfo : validateResponseFields decoded false = .ok info) (status : 200 ≤ info.status)
      (hs' : s' = { s with
        finalStatus := some info.status
        expectedLen := info.contentLength
        responseHeaders := some decoded })
      (hlen : s.endStreamRecv = true → s'.LengthMatches) : TakesSection decoded s s'

/-- What an accepted frame does to the stream it names, to the decoder and to the awaited
stream. -/
inductive Stream.Takes (f : Frame) :
    Stream × Decoder × Option Nat → Stream × Decoder × Option Nat → Prop where
  /-- PRIORITY, an unknown type, or RST_STREAM on a closed stream. -/
  | ignored {s : Stream} {d : Decoder} {x : Option Nat} (typ : f.typ ≠ .data ∧ f.typ ≠ .headers ∧
      f.typ ≠ .continuation ∧ f.typ ≠ .windowUpdate) : Takes f (s, d, x) (s, d, x)
  | window {s : Stream} {d : Decoder} {x : Option Nat} (typ : f.typ = .windowUpdate)
      (w : StreamSendWindow) : Takes f (s, d, x) ({ s with sendWindow := w }, d, x)
  /-- RST_STREAM after the response: the peer does not want the rest of the request. -/
  | finished {s : Stream} {d : Decoder} {x : Option Nat} (typ : f.typ = .rstStream)
      (ended : s.endStreamRecv = true) (head : s.responseHeaders.isSome) :
      Takes f (s, d, x) ({ s with rxAny := true, state := .closed }, d, x)
  /-- A block on a closed stream, in one frame. -/
  | dropped {s : Stream} {d d' : Decoder} {block : Bytes} {decoded : List Header}
      (typ : f.typ = .headers) (closed : s.state = .closed) (endHeaders : f.endHeaders = true)
      (fragment : Connection.headersFragment f = .ok block)
      (hdec : d.decodeBlock block = .ok decoded d') : Takes f (s, d, none) (s, d', none)
  /-- The first fragment of a block on a closed stream. -/
  | dropping {s : Stream} {d : Decoder} {first : Bytes} (typ : f.typ = .headers)
      (closed : s.state = .closed) (endHeaders : f.endHeaders = false)
      (fragment : Connection.headersFragment f = .ok first) :
      Takes f (s, d, none)
        ({ s with headersBuf := s.headersBuf ++ first, discardHeaders := true }, d,
          some f.streamId)
  /-- A block on a live stream, in one frame. -/
  | whole {s s' : Stream} {d d' : Decoder} {first : Bytes} {newState : StreamState}
      {decoded : List Header} (typ : f.typ = .headers) (live : s.state ≠ .closed)
      (endHeaders : f.endHeaders = true) (fragment : Connection.headersFragment f = .ok first)
      (hstate : s.state.recvHeaders f.endStream = .ok newState)
      (hdec : d.decodeBlock (s.headersBuf ++ first) = .ok decoded d')
      (h : TakesSection decoded { s with
        rxAny := true, headersBuf := [], endStreamRecv := s.endStreamRecv || f.endStream,
        state := newState } s') : Takes f (s, d, none) (s', d', none)
  /-- The first fragment of a block on a live stream. -/
  | first {s : Stream} {d : Decoder} {first : Bytes} {newState : StreamState}
      (typ : f.typ = .headers) (live : s.state ≠ .closed) (endHeaders : f.endHeaders = false)
      (fragment : Connection.headersFragment f = .ok first)
      (hstate : s.state.recvHeaders f.endStream = .ok newState) :
      Takes f (s, d, none) ({ s with
        rxAny := true, headersBuf := s.headersBuf ++ first,
        endStreamRecv := s.endStreamRecv || f.endStream, state := newState }, d, some f.streamId)
  | more {s : Stream} {d : Decoder} (typ : f.typ = .continuation)
      (endHeaders : f.endHeaders = false) :
      Takes f (s, d, some f.streamId)
        ({ s with headersBuf := s.headersBuf ++ f.payload }, d, some f.streamId)
  /-- The end of a block that is ignored. -/
  | lastDropped {s : Stream} {d d' : Decoder} {decoded : List Header}
      (typ : f.typ = .continuation) (endHeaders : f.endHeaders = true)
      (discard : s.discardHeaders = true)
      (hdec : d.decodeBlock (s.headersBuf ++ f.payload) = .ok decoded d') :
      Takes f (s, d, some f.streamId)
        ({ s with headersBuf := [], discardHeaders := false }, d', none)
  | last {s s' : Stream} {d d' : Decoder} {decoded : List Header} (typ : f.typ = .continuation)
      (endHeaders : f.endHeaders = true) (discard : s.discardHeaders = false)
      (hdec : d.decodeBlock (s.headersBuf ++ f.payload) = .ok decoded d')
      (h : TakesSection decoded { s with headersBuf := [], discardHeaders := false } s') :
      Takes f (s, d, some f.streamId) (s', d', none)
  | data {s s' : Stream} {d : Decoder} {x : Option Nat} {payload : Bytes} {newState : StreamState}
      {w : RecvWindow} (typ : f.typ = .data) (hpayload : Connection.dataPayload f = .ok payload)
      (final : s.finalStatus.isSome) (hstate : s.state.recvData f.endStream = .ok newState)
      (hs' : s' = { s with
        rxAny := true, recvWindow := w, body := s.body ++ payload,
        endStreamRecv := s.endStreamRecv || f.endStream, state := newState })
      (hlen : s'.LengthMatches) (hfits : s'.body.length ≤ maxResponseBytes) :
      Takes f (s, d, x) (s', d, x)

namespace Connection

variable {c c' : Connection} {id : Nat}

/-- What an accepted frame on stream `f.streamId` does to the connection, windows and transport
apart. -/
structure Accepts (f : Frame) (c : Connection) (outcome : DispatchOutcome) (c' : Connection) :
    Prop where
  others : ∀ id : Nat, id ≠ f.streamId → c'.streams[id]? = c.streams[id]?
  goaway : c'.goawayReceived = c.goawayReceived
  gone : c.streams[f.streamId]? = none → c'.streams[f.streamId]? = none ∧
    c'.decoder = c.decoder ∧ c'.expectingContinuation = c.expectingContinuation ∧
    outcome = .continue ∧ f.typ ≠ .headers ∧ f.typ ≠ .continuation
  taken : ∀ s, c.streams[f.streamId]? = some s → ∃ s', c'.streams[f.streamId]? = some s' ∧
    Stream.Takes f (s, c.decoder, c.expectingContinuation)
      (s', c'.decoder, c'.expectingContinuation) ∧
    (outcome = .done f.streamId ∧ s'.responseComplete = true ∨
      outcome = .continue ∧ (s'.responseComplete = true → s.responseComplete = true))

theorem Accepts.of_stream {f : Frame} {s s' : Stream} {outcome : DispatchOutcome}
    (hs : c.streams[f.streamId]? = some s)
    (hstreams : c'.streams = (c.setStream f.streamId s').streams)
    (hgoaway : c'.goawayReceived = c.goawayReceived)
    (htakes : Stream.Takes f (s, c.decoder, c.expectingContinuation)
      (s', c'.decoder, c'.expectingContinuation))
    (houtcome : outcome = .done f.streamId ∧ s'.responseComplete = true ∨
      outcome = .continue ∧ (s'.responseComplete = true → s.responseComplete = true)) :
    Accepts f c outcome c' := by
  refine ⟨fun id hid => ?_, hgoaway, fun hnone => ?_, fun t ht => ?_⟩
  · rw [hstreams, getElem?_setStream, if_neg (Ne.symm hid)]
  · rw [hs] at hnone
    cases hnone
  · rw [hs] at ht
    cases ht
    exact ⟨s', by rw [hstreams]; simp, htakes, houtcome⟩

/-- A frame that leaves streams, decoder and the awaited stream alone. -/
theorem Accepts.kept {f : Frame} (hstreams : c'.streams = c.streams)
    (hgoaway : c'.goawayReceived = c.goawayReceived) (hdec : c'.decoder = c.decoder)
    (hexp : c'.expectingContinuation = c.expectingContinuation)
    (hnone : c.streams[f.streamId]? = none → f.typ ≠ .headers ∧ f.typ ≠ .continuation)
    (hsome : ∀ s, c.streams[f.streamId]? = some s → f.typ ≠ .data ∧ f.typ ≠ .headers ∧
      f.typ ≠ .continuation ∧ f.typ ≠ .windowUpdate) :
    Accepts f c .continue c' := by
  refine ⟨fun id _ => by rw [hstreams], hgoaway, fun h => ?_, fun s hs => ?_⟩
  · exact ⟨by rw [hstreams, h], hdec, hexp, rfl, hnone h⟩
  · refine ⟨s, by rw [hstreams, hs], ?_, .inr ⟨rfl, id⟩⟩
    rw [hdec, hexp]
    exact .ignored (hsome s hs)

theorem outcomeFor_cases {s' : Stream} (hs' : c'.streams[id]? = some s') :
    c'.outcomeFor id = .done id ∧ s'.responseComplete = true ∨
      c'.outcomeFor id = .continue ∧ s'.responseComplete = false := by
  unfold outcomeFor
  rw [hs', Option.any_some]
  cases s'.responseComplete with
  | true => exact .inl ⟨rfl, rfl⟩
  | false => exact .inr ⟨rfl, rfl⟩

theorem Accepts.of_outcomeFor {f : Frame} {s : Stream} (s' : Stream)
    (hs : c.streams[f.streamId]? = some s)
    (hstreams : c'.streams = (c.setStream f.streamId s').streams)
    (hgoaway : c'.goawayReceived = c.goawayReceived)
    (htakes : Stream.Takes f (s, c.decoder, c.expectingContinuation)
      (s', c'.decoder, c'.expectingContinuation)) :
    Accepts f c (c'.outcomeFor f.streamId) c' := by
  have hs' : c'.streams[f.streamId]? = some s' := by rw [hstreams]; simp
  refine .of_stream hs hstreams hgoaway htakes ?_
  obtain h | ⟨h, hopen⟩ := outcomeFor_cases hs'
  · exact .inl h
  · exact .inr ⟨h, by simp [hopen]⟩

/-! ## Header blocks -/

/-- The section of a completed block, on the stream it was collected on. -/
theorem Completed.on_stream {decoded : List Header} {s : Stream}
    (h : Completed id decoded c c') (hs : c.streams[id]? = some s) :
    ∃ s', s.TakesSection decoded s' ∧ c' = c.setStream id s' := by
  cases h with
  | gone hnone =>
    rw [hs] at hnone
    cases hnone
  | trailers ht final ended hlen =>
    rw [hs] at ht
    cases ht
    exact ⟨s, .trailers final ended hlen, (setStream_self hs).symm⟩
  | interim ht final ended few =>
    rw [hs] at ht
    cases ht
    exact ⟨_, .interim final ended few, rfl⟩
  | head ht final hinfo status hs' hlen =>
    rw [hs] at ht
    cases ht
    exact ⟨_, .head final hinfo status hs' hlen, rfl⟩

/-- A block that is completed on a stored stream. -/
theorem finishBlock_on_stream {block : Bytes} {discard : Bool} {outcome : DispatchOutcome}
    (h : c.finishBlock id block discard = .ok outcome c') {s : Stream}
    (hs : c.streams[id]? = some s) :
    ∃ decoded s', c.decoder.decodeBlock block = .ok decoded c'.decoder ∧
      outcome = c'.outcomeFor id ∧ c'.streams = (c.setStream id s').streams ∧
      c'.goawayReceived = c.goawayReceived ∧
      c'.expectingContinuation = c.expectingContinuation ∧
      (discard = true ∧ s' = s ∨ discard = false ∧ s.TakesSection decoded s') := by
  obtain ⟨decoded, d, hdec, houtcome, ⟨hdiscard, rfl⟩ | ⟨hdiscard, hdone⟩⟩ := finishBlock_ok h
  · refine ⟨decoded, s, hdec, houtcome, ?_, rfl, rfl, .inl ⟨hdiscard, rfl⟩⟩
    exact (streams_setStream_self hs).symm
  · obtain ⟨s', hsection, rfl⟩ := hdone.on_stream hs
    exact ⟨decoded, s', hdec, houtcome, rfl, rfl, rfl, .inr ⟨hdiscard, hsection⟩⟩

theorem accepts_processHeaders {f : Frame} {outcome : DispatchOutcome} (typ : f.typ = .headers)
    (hexp : c.expectingContinuation = none) (h : c.processHeaders f = .ok outcome c') :
    Accepts f c outcome c' := by
  unfold processHeaders at h
  split at h
  · cases h
  · rename_i frag hfrag
    split at h
    · cases h
    · rename_i s hs
      split at h
      · rename_i hclosed
        unfold headersOnClosed at h
        split at h
        · rename_i hend
          obtain ⟨decoded, c₁, hdec, h⟩ := Outcome.andThen_eq_ok.mp h
          cases h
          unfold decodeBlock at hdec
          cases hd : c.decoder.decodeBlock frag with
          | error e d =>
            rw [hd] at hdec
            cases hdec
          | ok fields d =>
            rw [hd] at hdec
            cases hdec
            refine .of_stream hs (streams_setStream_self hs).symm rfl ?_
              (.inr ⟨rfl, id⟩)
            simp only [hexp]
            exact .dropped typ hclosed hend hfrag hd
        · rename_i hend
          split at h
          · cases h
          · rename_i s₁ hpush
            cases pushHeaderFragment_ok hpush
            cases h
            refine .of_stream hs rfl rfl ?_ (.inr ⟨rfl, id⟩)
            simp only [hexp]
            exact .dropping typ hclosed (by simpa using hend) hfrag
      · rename_i hlive
        split at h
        · cases h
        · rename_i newState hstate
          simp only at h
          split at h
          · cases h
          · rename_i s₁ hpush
            cases pushHeaderFragment_ok hpush
            split at h
            · rename_i hend
              obtain ⟨decoded, s', hdec, rfl, hstreams, hgoaway, hexp', ⟨hd, -⟩ | ⟨-, hsection⟩⟩ :=
                finishBlock_on_stream h (getElem?_setStream_self c f.streamId _)
              · cases hd
              · refine .of_outcomeFor s' hs ?_ hgoaway ?_
                · rw [hstreams]
                  exact streams_setStream_setStream c f.streamId _ s'
                · rw [hexp', hexp]
                  exact .whole typ hlive hend hfrag hstate hdec hsection
            · rename_i hend
              cases h
              refine .of_outcomeFor _ hs rfl rfl ?_
              simp only [hexp]
              exact .first typ hlive (by simpa using hend) hfrag hstate

theorem accepts_processContinuation {f : Frame} {outcome : DispatchOutcome}
    (typ : f.typ = .continuation) (h : c.processContinuation f = .ok outcome c') :
    Accepts f c outcome c' := by
  unfold processContinuation at h
  split at h
  · cases h
  · rename_i hexp
    have hexp' : c.expectingContinuation = some f.streamId := by simpa using hexp
    split at h
    · cases h
    · rename_i s hs
      split at h
      · cases h
      · rename_i s₁ hpush
        cases pushHeaderFragment_ok hpush
        split at h
        · rename_i hend
          obtain ⟨decoded, s', hdec, rfl, hstreams, hgoaway, hexp₁, hcases⟩ :=
            finishBlock_on_stream h (getElem?_setStream_self c f.streamId _)
          refine .of_outcomeFor s' hs ?_ hgoaway ?_
          · rw [hstreams]
            exact streams_setStream_setStream c f.streamId _ s'
          · rw [hexp₁, hexp']
            obtain ⟨hdiscard, rfl⟩ | ⟨hdiscard, hsection⟩ := hcases
            · exact .lastDropped typ hend hdiscard hdec
            · exact .last typ hend hdiscard hdec hsection
        · rename_i hend
          cases h
          refine .of_outcomeFor _ hs rfl rfl ?_
          simp only [setStream, hexp']
          exact .more typ (by simpa using hend)

/-! ## DATA -/

theorem announce_ok {upd : Option Frame} {u : Unit} (h : c.announce upd = .ok u c') :
    ∃ fs, c' = c.wrote fs upd.toList := by
  unfold announce at h
  cases upd with
  | none =>
    cases h
    exact ⟨c.tls.faults, by simp [wrote]⟩
  | some f =>
    obtain ⟨fs, rfl⟩ := writeFrame_ok h
    exact ⟨fs, rfl⟩

/-- Both receive windows are topped up and the frames that say so are on the wire. -/
theorem replenishWindows_ok {u : Unit} (h : c.replenishWindows id = .ok u c') {s : Stream}
    (hs : c.streams[id]? = some s) :
    ∃ fs, c' = ({ c with connRecvWindow := (c.connRecvWindow.replenish 0).2 }.wrote fs
      ((c.connRecvWindow.replenish 0).1.toList ++ (s.recvWindow.replenish id).1.toList)).setStream
        id { s with recvWindow := (s.recvWindow.replenish id).2 } := by
  unfold replenishWindows at h
  simp only at h
  obtain ⟨_, c₁, hconn, h⟩ := Outcome.andThen_eq_ok.mp h
  obtain ⟨fs₁, rfl⟩ := announce_ok hconn
  have hs₁ : ({ c with connRecvWindow := (c.connRecvWindow.replenish 0).2 }.wrote fs₁
      (c.connRecvWindow.replenish 0).1.toList).streams[id]? = some s := hs
  rw [hs₁] at h
  obtain ⟨_, c₂, hstream, h⟩ := Outcome.andThen_eq_ok.mp h
  obtain ⟨fs₂, rfl⟩ := announce_ok hstream
  obtain ⟨fs₃, rfl⟩ := flush_ok h
  exact ⟨fs₃, by simp [wrote, withFaults, setStream]⟩

/-- DATA that is taken in: its bytes join the body, and the windows are topped up. -/
theorem acceptData_ok {f : Frame} {s : Stream} {newState : StreamState} {payload : Bytes}
    {outcome : DispatchOutcome} (h : c.acceptData f s newState payload false = .ok outcome c') :
    ∃ fs s', s' = { s with
        body := s.body ++ payload, endStreamRecv := s.endStreamRecv || f.endStream,
        state := newState } ∧ s'.LengthMatches ∧ s'.body.length ≤ maxResponseBytes ∧
      outcome = c'.outcomeFor f.streamId ∧ c' = ({ c with
        connRecvWindow := (c.connRecvWindow.replenish 0).2
        madeProgress := c.madeProgress || !payload.isEmpty }.wrote fs
          ((c.connRecvWindow.replenish 0).1.toList ++
            (s.recvWindow.replenish f.streamId).1.toList)).setStream f.streamId
        { s' with recvWindow := (s.recvWindow.replenish f.streamId).2 } := by
  unfold acceptData at h
  simp only [Bool.false_and, Bool.false_eq_true, if_false] at h
  split at h
  · cases h
  · rename_i hfits
    obtain ⟨_, c₁, hc₁, h⟩ := Outcome.andThen_eq_ok.mp h
    cases hc₁
    obtain ⟨_, c₂, hlen, h⟩ := Outcome.andThen_eq_ok.mp h
    obtain ⟨_, c₃, hwindows, h⟩ := Outcome.andThen_eq_ok.mp h
    cases h
    have hspec := checkContentLength_spec { c.setStream f.streamId { s with
      body := s.body ++ payload, endStreamRecv := s.endStreamRecv || f.endStream,
      state := newState } with madeProgress := c.madeProgress || !payload.isEmpty } f.streamId
    rw [hlen] at hspec
    obtain ⟨rfl, hmatch⟩ := hspec
    obtain ⟨fs, rfl⟩ := replenishWindows_ok hwindows (getElem?_setStream_self c f.streamId _)
    refine ⟨fs, _, rfl, hmatch _ (getElem?_setStream_self c f.streamId _), ?_, rfl, ?_⟩
    · have hmax : maxResponseBytes = 268435456 := rfl
      have hle : satAdd s.body.length payload.length ≤ maxResponseBytes := by simpa using hfits
      simp only [satAdd, List.length_append] at hle ⊢
      omega
    exact setStream_setStream ({ c with
      connRecvWindow := (c.connRecvWindow.replenish 0).2
      madeProgress := c.madeProgress || !payload.isEmpty }.wrote fs _) f.streamId _ _

theorem dropData_ok {outcome : DispatchOutcome} (h : c.dropData = .ok outcome c') :
    outcome = .continue ∧ ∃ fs, c' = { c with
      connRecvWindow := (c.connRecvWindow.replenish 0).2 }.wrote fs
        (c.connRecvWindow.replenish 0).1.toList := by
  unfold dropData at h
  split at h
  · rename_i w heq
    cases h
    refine ⟨rfl, c.tls.faults, ?_⟩
    have hsame : w = c.connRecvWindow := by
      unfold RecvWindow.replenish at heq
      simp only at heq
      split at heq
      · cases heq
      · exact (congrArg Prod.snd heq).symm
    simp [heq, hsame, wrote]
  · rename_i upd w heq
    obtain ⟨_, c₁, hw, h⟩ := Outcome.andThen_eq_ok.mp h
    obtain ⟨_, c₂, hf, h⟩ := Outcome.andThen_eq_ok.mp h
    cases h
    obtain ⟨fs, rfl⟩ := writeFrame_ok hw
    obtain ⟨fs', rfl⟩ := flush_ok hf
    exact ⟨rfl, fs', by simp [heq, wrote, withFaults, logged]⟩

/-- A DATA frame that is taken in, with the bill it pays. -/
structure DataTaken (f : Frame) (c c' : Connection) (s s' : Stream) : Prop where
  stream : c.streams[f.streamId]? = some s
  state : ∃ newState payload, s.state.recvData f.endStream = .ok newState ∧
    dataPayload f = .ok payload ∧ s' = { s with
      rxAny := true
      recvWindow := ((s.recvWindow.consume f.payload.length).replenish f.streamId).2
      body := s.body ++ payload
      endStreamRecv := s.endStreamRecv || f.endStream
      state := newState }
  final : s.finalStatus.isSome
  covered : 0 ≤ (s.recvWindow.consume f.payload.length).available
  length : s'.LengthMatches
  fits : s'.body.length ≤ maxResponseBytes
  conn : ∃ fs mp, c' = ({ c with
    connRecvWindow := ((c.connRecvWindow.consume f.payload.length).replenish 0).2
    madeProgress := mp }.wrote fs
      (((c.connRecvWindow.consume f.payload.length).replenish 0).1.toList ++
        ((s.recvWindow.consume f.payload.length).replenish f.streamId).1.toList)).setStream
          f.streamId s'

theorem processData_ok {f : Frame} {outcome : DispatchOutcome}
    (h : c.processData f false = .ok outcome c') :
    0 ≤ (c.connRecvWindow.consume f.payload.length).available ∧
      ((c.streams[f.streamId]? = none ∧ outcome = .continue ∧ ∃ fs, c' = { c with
          connRecvWindow := ((c.connRecvWindow.consume f.payload.length).replenish 0).2 }.wrote fs
            ((c.connRecvWindow.consume f.payload.length).replenish 0).1.toList) ∨
        outcome = c'.outcomeFor f.streamId ∧ ∃ s s', DataTaken f c c' s s') := by
  unfold processData at h
  simp only at h
  split at h
  · cases h
  · rename_i hconn
    refine ⟨Int.not_lt.mp hconn, ?_⟩
    split at h
    · rename_i hnone
      obtain ⟨houtcome, fs, hc'⟩ := dropData_ok h
      exact .inl ⟨hnone, houtcome, fs, hc'⟩
    · rename_i s hs
      split at h
      · cases h
      · split at h
        · cases h
        · rename_i newState hstate
          split at h
          · cases h
          · rename_i hstream
            split at h
            · cases h
            · rename_i payload hpayload
              split at h
              · cases h
              · rename_i hfinal
                obtain ⟨fs, s', rfl, hlen, hfits, rfl, rfl⟩ := acceptData_ok h
                refine .inr ⟨rfl, s, _, hs, ⟨newState, payload, hstate, hpayload, rfl⟩,
                  by simpa [Option.isSome_iff_ne_none] using hfinal, Int.not_lt.mp hstream, hlen,
                  hfits, fs,
                  c.madeProgress || !payload.isEmpty, ?_⟩
                exact setStream_setStream ({ c with
                  connRecvWindow := ((c.connRecvWindow.consume f.payload.length).replenish 0).2
                  madeProgress := c.madeProgress || !payload.isEmpty }.wrote fs _) f.streamId _ _

theorem accepts_processData {f : Frame} {outcome : DispatchOutcome} (typ : f.typ = .data)
    (h : c.processData f false = .ok outcome c') : Accepts f c outcome c' := by
  obtain ⟨-, ⟨hnone, rfl, fs, rfl⟩ | ⟨rfl, s, s', htaken⟩⟩ := processData_ok h
  · refine .kept rfl rfl rfl rfl (fun _ => by simp [typ]) fun s hs => ?_
    rw [hs] at hnone
    cases hnone
  · obtain ⟨newState, payload, hstate, hpayload, hs'⟩ := htaken.state
    obtain ⟨fs, mp, hc'⟩ := htaken.conn
    refine .of_outcomeFor s' htaken.stream ?_ ?_ ?_
    · rw [hc']
      rfl
    · rw [hc']
      rfl
    · rw [hc']
      exact .data typ hpayload htaken.final hstate hs' htaken.length htaken.fits

/-! ## Resets and windows -/

theorem accepts_processRst {f : Frame} {outcome : DispatchOutcome} (typ : f.typ = .rstStream)
    (h : c.processRst f = .ok outcome c') : Accepts f c outcome c' := by
  unfold processRst at h
  simp only at h
  split at h
  · rename_i hnone
    cases h
    exact .kept rfl rfl rfl rfl (fun _ => by simp [typ]) fun s _ => by simp [typ]
  · rename_i s hs
    split at h
    · cases h
      exact .kept rfl rfl rfl rfl (fun _ => by simp [typ]) fun s _ => by simp [typ]
    · split at h
      · rename_i hdone
        cases h
        refine .of_stream hs rfl rfl (.finished typ hdone.2.1 hdone.2.2) (.inl ⟨rfl, ?_⟩)
        simp [Stream.responseComplete, hdone.2.1, hdone.2.2]
      · split at h
        all_goals cases h

theorem accepts_processStreamWindowUpdate {f : Frame} {outcome : DispatchOutcome}
    (typ : f.typ = .windowUpdate) (h : c.processStreamWindowUpdate f = .ok outcome c') :
    Accepts f c outcome c' := by
  unfold processStreamWindowUpdate at h
  split at h
  · cases h
  · split at h
    · rename_i hnone
      cases h
      refine .kept rfl rfl rfl rfl (fun _ => by simp [typ]) fun s hs => ?_
      rw [hs] at hnone
      cases hnone
    · rename_i s hs
      split at h
      · cases h
      · rename_i w _
        cases h
        exact .of_stream hs rfl rfl (.window typ w) (.inr ⟨rfl, fun hc => hc⟩)

/-- Every accepted frame on a stream. -/
theorem accepts_processStreamFrame {f : Frame} {outcome : DispatchOutcome}
    (h : c.processStreamFrame f false = .ok outcome c') (hgate : c.continuationGate f = .ok ()) :
    Accepts f c outcome c' := by
  unfold processStreamFrame at h
  cases typ : f.typ with
  | data =>
    rw [typ] at h
    exact accepts_processData typ h
  | headers =>
    rw [typ] at h
    refine accepts_processHeaders typ ?_ h
    unfold continuationGate at hgate
    split at hgate
    · assumption
    · simp [typ] at hgate
  | continuation =>
    rw [typ] at h
    exact accepts_processContinuation typ h
  | rstStream =>
    rw [typ] at h
    simp only at h
    split at h
    · cases h
    · exact accepts_processRst typ h
  | windowUpdate =>
    rw [typ] at h
    exact accepts_processStreamWindowUpdate typ h
  | priority =>
    rw [typ] at h
    simp only at h
    split at h
    · cases h
    · cases h
      exact .kept rfl rfl rfl rfl (fun _ => by simp [typ]) fun s _ => by simp [typ]
  | unknown code =>
    rw [typ] at h
    cases h
    exact .kept rfl rfl rfl rfl (fun _ => by simp [typ]) fun s _ => by simp [typ]
  | _ =>
    rw [typ] at h
    cases h

/-! ## Whole frames -/

/-- A GOAWAY has told that stream `id` is not processed. -/
def Abandoned (c : Connection) (id : Nat) : Prop := ∃ last, c.goawayReceived = some last ∧ last < id

/-- What an accepted frame on stream 0 does: send windows move and GOAWAY closes streams. -/
structure ConnAccepts (c c' : Connection) : Prop where
  decoder : c'.decoder = c.decoder
  expecting : c'.expectingContinuation = c.expectingContinuation
  abandoned : ∀ id, c.Abandoned id → c'.Abandoned id
  streams : ∀ id : Nat, c'.streams[id]? = none ∧ c.streams[id]? = none ∨
    ∃ s w st, c.streams[id]? = some s ∧ (st = s.state ∨ st = .closed ∧ c'.Abandoned id) ∧
      c'.streams[id]? = some { s with sendWindow := w, state := st }

theorem ConnAccepts.refl (c : Connection) : ConnAccepts c c := by
  refine ⟨rfl, rfl, fun _ h => h, fun id => ?_⟩
  cases hs : c.streams[id]? with
  | none => exact .inl ⟨rfl, rfl⟩
  | some s => exact .inr ⟨s, s.sendWindow, s.state, rfl, .inl rfl, rfl⟩

theorem ConnAccepts.trans {c'' : Connection} (h : ConnAccepts c c') (h' : ConnAccepts c' c'') :
    ConnAccepts c c'' := by
  refine ⟨h'.decoder.trans h.decoder, h'.expecting.trans h.expecting,
    fun id hid => h'.abandoned id (h.abandoned id hid), fun id => ?_⟩
  obtain ⟨hn, hn'⟩ | ⟨s, w, st, hs, hst, hs'⟩ := h.streams id
  · obtain ⟨hm, -⟩ | ⟨s, w, st, hs, -⟩ := h'.streams id
    · exact .inl ⟨hm, hn'⟩
    · rw [hn] at hs
      cases hs
  · obtain ⟨-, hm⟩ | ⟨t, w', st', ht, hst', ht'⟩ := h'.streams id
    · rw [hs'] at hm
      cases hm
    · rw [hs'] at ht
      cases ht
      refine .inr ⟨s, w', st', hs, ?_, ht'⟩
      rcases hst' with rfl | hst'
      · exact hst.imp_right fun hst => ⟨hst.1, h'.abandoned _ hst.2⟩
      · exact .inr hst'

theorem ConnEdit.connAccepts (h : ConnEdit c c') : ConnAccepts c c' := by
  cases h with
  | streamWindow h w =>
    refine ⟨rfl, rfl, fun _ h => h, fun k => ?_⟩
    rw [getElem?_setStream]
    split
    · rename_i hk
      subst hk
      exact .inr ⟨_, w, _, h, .inl rfl, rfl⟩
    · exact (ConnAccepts.refl c).streams k
  | goaway last =>
    refine ⟨rfl, rfl, ?_, fun k => ?_⟩
    · rintro k ⟨before, hbefore, hk⟩
      exact ⟨min before last, by simp [applyGoaway, hbefore], by omega⟩
    · cases hs : c.streams[k]? with
      | none => exact .inl ⟨by simp [applyGoaway, hs], rfl⟩
      | some s =>
        by_cases hk : (c.goawayReceived.elim last (min · last)) < k
        · exact .inr ⟨s, s.sendWindow, .closed, rfl, .inr ⟨rfl, _, rfl, hk⟩, by
            simp [applyGoaway, hs, hk]⟩
        · exact .inr ⟨s, s.sendWindow, s.state, rfl, .inl rfl, by simp [applyGoaway, hs, hk]⟩
  | _ => exact ⟨rfl, rfl, fun _ h => h, (ConnAccepts.refl c).streams⟩

theorem ConnEdits.connAccepts (h : ConnEdits c c') : ConnAccepts c c' := by
  induction h with
  | refl => exact .refl c
  | tail _ hstep ih => exact ih.trans hstep.connAccepts

theorem processConnFrame_outcome {f : Frame} {outcome : DispatchOutcome}
    (h : c.processConnFrame f = .ok outcome c') : outcome = .continue := by
  unfold processConnFrame at h
  repeat' split at h
  all_goals first
    | cases h; done
    | cases h; rfl
    | skip
  · obtain ⟨_, _, -, h⟩ := Outcome.andThen_eq_ok.mp h
    cases h
    rfl
  · obtain ⟨_, _, -, h⟩ := Outcome.andThen_eq_ok.mp h
    obtain ⟨_, _, -, h⟩ := Outcome.andThen_eq_ok.mp h
    cases h
    rfl

/-- The ways an inbound frame is accepted. -/
theorem processFrame_ok {f : Frame} {outcome : DispatchOutcome}
    (h : c.processFrame f false = .ok outcome c') :
    c.continuationGate f = .ok () ∧
      ((f.streamId = 0 ∧ outcome = .continue ∧ ConnAccepts c c') ∨
        (f.streamId ≠ 0 ∧ Accepts f c outcome c')) := by
  obtain ⟨e, hp⟩ | ⟨e, b, hp⟩ | ⟨b, hgate, -, hp⟩ := c.processFrame_cases f false
  · rw [hp] at h
    cases h
  · rw [hp] at h
    cases h
  · refine ⟨hgate, ?_⟩
    rw [hp] at h
    obtain ⟨outcome', c₁, hd, h⟩ := Outcome.andThen_eq_ok.mp h
    have hrec := c₁.recordProgress_state outcome'
    rw [h] at hrec
    obtain ⟨b', rfl⟩ := hrec
    have houtcome : outcome = outcome' := by
      unfold recordProgress at h
      obtain ⟨_, _, -, h⟩ := Outcome.andThen_eq_ok.mp h
      cases h
      rfl
    subst houtcome
    unfold dispatch at hd
    split at hd
    · rename_i hzero
      have hconn := (connEdits_processConnFrame
        { c with budget := b, madeProgress := false } f).connAccepts
      rw [hd] at hconn
      exact .inl ⟨hzero, processConnFrame_outcome hd, hconn.decoder, hconn.expecting,
        hconn.abandoned, hconn.streams⟩
    · rename_i hid
      have hacc := accepts_processStreamFrame hd hgate
      exact .inr ⟨hid, hacc.others, hacc.goaway, hacc.gone, hacc.taken⟩

/-- No frame that a block is made of is accepted on stream 0. -/
theorem connFrame_typ {f : Frame} {outcome : DispatchOutcome} (hzero : f.streamId = 0)
    (h : c.processFrame f false = .ok outcome c') : f.typ ≠ .headers ∧ f.typ ≠ .continuation := by
  obtain ⟨e, hp⟩ | ⟨e, b, hp⟩ | ⟨b, -, -, hp⟩ := c.processFrame_cases f false
  all_goals rw [hp] at h
  · cases h
  · cases h
  · obtain ⟨o, c₁, hd, -⟩ := Outcome.andThen_eq_ok.mp h
    unfold dispatch at hd
    rw [if_pos hzero] at hd
    refine ⟨fun typ => ?_, fun typ => ?_⟩
    all_goals
      unfold processConnFrame at hd
      rw [typ] at hd
      cases hd

end Connection

end Rsurl.Http2
