import Rsurl.Http2.Multiplex

/-!
# Reachable connections

The states the operations of a connection produce, in any order, and the invariant on the header
block being collected: a stream holds fragments only while its CONTINUATION is awaited.
-/

namespace Rsurl.Http2

open Library

/-- The header block a stream is collecting, and whether it will be ignored. -/
def Stream.blockPart (s : Stream) : Bytes × Bool := (s.headersBuf, s.discardHeaders)

namespace Connection

variable {c c' c'' : Connection} {id : Nat} {data block : Bool}

inductive Reachable : Connection → Prop where
  | new {tls : Transport} {recvWindow : Nat} {c : Connection}
      (h : Connection.new tls recvWindow = .ok c) : Reachable c
  | processFrame {c : Connection} (h : Reachable c) (f : Frame) (sink : Bool) :
      Reachable (c.processFrame f sink).state
  | readAndDispatch {c : Connection} (h : Reachable c) (sink : Bool) :
      Reachable (c.readAndDispatch sink).state
  | openStream {c : Connection} (h : Reachable c) : Reachable c.openStream.state
  | writeRequestHeaders {c : Connection} (h : Reachable c) (id : Nat) (req : Request) :
      Reachable (c.writeRequestHeaders id req).state
  | stageRequestOn {c : Connection} (h : Reachable c) (id : Nat) (req : Request) :
      Reachable (c.stageRequestOn id req).state
  | sendData {c : Connection} (h : Reachable c) {id : Nat} {s : Stream}
      (hs : c.streams[id]? = some s) (chunk : Bytes) (isLast : Bool) :
      Reachable (c.sendData id s chunk isLast).state
  | abortSend {c : Connection} (h : Reachable c) (id : Nat) : Reachable (c.abortSend id).state
  | flushPending {c : Connection} (h : Reachable c) : Reachable c.flushPending.state
  | removeStream {c : Connection} (h : Reachable c) (id : Nat) : Reachable (c.removeStream id)
  | pruneCompletedStreams {c : Connection} (h : Reachable c) :
      Reachable c.pruneCompletedStreams

/-- The frames a connection starts with: our settings, and the raise of the connection's window. -/
def greeting (recvWindow : Nat) : List Frame :=
  let recvWindow := max ourInitialWindow (min recvWindow initialWindowSizeMax)
  ⟨.settings, 0, 0, be16 0x2 ++ be32 0 ++ be16 0x4 ++ be32 recvWindow⟩ ::
    if 0 < recvWindow - ourInitialWindow then
      [windowUpdateFrame 0 (recvWindow - ourInitialWindow)]
    else []

theorem transport_write_ok {tls tls' : Transport} {e : WireEvent} {u : Unit}
    (h : tls.write e = .ok u tls') : ∃ fs, tls' = { tls with faults := fs, log := tls.log ++ [e] } := by
  unfold Transport.write Transport.attempt at h
  split at h
  all_goals
    cases h
    try exact ⟨_, rfl⟩

theorem transport_writeFrame_ok {tls tls' : Transport} {f : Frame} {u : Unit}
    (h : tls.writeFrame f = .ok u tls') :
    ∃ fs, tls' = { tls with faults := fs, log := tls.log ++ [WireEvent.sent f] } := by
  unfold Transport.writeFrame at h
  split at h
  · cases h
  · exact transport_write_ok h

/-- What a connection starts as. -/
theorem new_ok {tls : Transport} {recvWindow : Nat} (h : Connection.new tls recvWindow = .ok c) :
    ∃ fs, c = {
      tls := { tls with
        faults := fs, log := tls.log ++ .preface :: (greeting recvWindow).map .sent }
      peer := .default
      connSendWindow := .new
      connRecvWindow := .new (max ourInitialWindow (min recvWindow initialWindowSizeMax) : Nat)
      ourRecvWindow := (max ourInitialWindow (min recvWindow initialWindowSizeMax) : Nat)
      decoder := .new
      encoder := .new
      streams := ∅
      nextStreamId := 1
      goawayReceived := none
      expectingContinuation := none
      budget := {}
      madeProgress := false } := by
  unfold Connection.new at h
  simp only at h
  split at h
  · cases h
  · rename_i u tls' hopened
    cases h
    obtain ⟨_, tls₁, hw₁, hopened⟩ := Outcome.andThen_eq_ok.mp hopened
    obtain ⟨_, tls₂, hw₂, hopened⟩ := Outcome.andThen_eq_ok.mp hopened
    obtain ⟨_, tls₃, hw₃, hflush⟩ := Outcome.andThen_eq_ok.mp hopened
    obtain ⟨fs₁, rfl⟩ := transport_write_ok hw₁
    obtain ⟨fs₂, rfl⟩ := transport_writeFrame_ok hw₂
    obtain ⟨fs₄, rfl⟩ : ∃ fs, tls' = { tls₃ with faults := fs } := by
      unfold Transport.flush Transport.attempt at hflush
      split at hflush
      all_goals
        cases hflush
        try exact ⟨_, rfl⟩
    refine ⟨fs₄, ?_⟩
    unfold greeting
    split at hw₃
    · rename_i hbump
      obtain ⟨fs₃, rfl⟩ := transport_writeFrame_ok hw₃
      simp [hbump]
    · rename_i hbump
      cases hw₃
      simp [hbump]

/-- A new connection whose writes all succeed and whose peer sends `inbound`. -/
def fresh (inbound : List Inbound) : Connection :=
  (Connection.new ⟨inbound, [], [], []⟩ ourInitialWindow).toOption.get rfl

theorem reachable_fresh (inbound : List Inbound) : Reachable (fresh inbound) :=
  @Reachable.new ⟨inbound, [], [], []⟩ ourInitialWindow _ rfl

/-- A new connection that has sent a GET request on stream 1. -/
def asked (inbound : List Inbound) : Connection :=
  ((fresh inbound).openStream.state.stageRequestOn 1 (.plain "GET" "example.com" "/")).state

theorem reachable_asked (inbound : List Inbound) : Reachable (asked inbound) :=
  (reachable_fresh inbound).openStream.stageRequestOn 1 _

/-! ## The block being collected -/

/-- Neither the collected blocks nor the awaited stream changed. -/
structure SameBlocks (c c' : Connection) : Prop where
  expecting : c'.expectingContinuation = c.expectingContinuation
  streams : ∀ id : Nat, c'.streams[id]?.map Stream.blockPart = c.streams[id]?.map Stream.blockPart

theorem SameBlocks.refl (c : Connection) : SameBlocks c c := ⟨rfl, fun _ => rfl⟩

theorem SameBlocks.trans (h : SameBlocks c c') (h' : SameBlocks c' c'') : SameBlocks c c'' :=
  ⟨h'.expecting.trans h.expecting, fun id => (h'.streams id).trans (h.streams id)⟩

theorem sameBlocks_setStream {s s' : Stream} (h : c.streams[id]? = some s)
    (hs : s'.blockPart = s.blockPart) : SameBlocks c (c.setStream id s') := by
  refine ⟨rfl, fun k => ?_⟩
  rw [getElem?_setStream]
  split
  · rename_i hk
    subst hk
    simp [h, hs]
  · rfl

theorem Edits.sameBlocks (h : Edits data false id c c') : SameBlocks c c' := by
  induction h with
  | refl => exact .refl c
  | tail _ hstep ih =>
    refine ih.trans ?_
    cases hstep with
    | stream h e =>
      exact sameBlocks_setStream h (by simp [Stream.blockPart, e.headersBuf, e.discardHeaders])
    | expecting x hx hb => cases hb
    | _ => exact ⟨rfl, fun _ => rfl⟩

theorem ConnEdits.sameBlocks (h : ConnEdits c c') : SameBlocks c c' := by
  induction h with
  | refl => exact .refl c
  | tail _ hstep ih =>
    refine ih.trans ?_
    cases hstep with
    | streamWindow h w => exact sameBlocks_setStream h rfl
    | goaway last =>
      refine ⟨rfl, fun k => ?_⟩
      simp only [applyGoaway, Std.ExtTreeMap.getElem?_map, Option.map_map]
      congr 1
      funext s
      simp only [Function.comp]
      split <;> rfl
    | _ => exact ⟨rfl, fun _ => rfl⟩

theorem Sends.sameBlocks (h : Sends c c') : SameBlocks c c' := by
  refine ⟨h.expectingContinuation, fun id => ?_⟩
  have hview := congrArg (Option.map Stream.blockPart) (h.streams id)
  rw [Option.map_map, Option.map_map] at hview
  exact hview

/-- Only the awaited stream holds a block. -/
def Tidy (c : Connection) : Prop :=
  ∀ (id : Nat) (s : Stream), c.streams[id]? = some s → c.expectingContinuation ≠ some id →
    s.blockPart = ([], false)

theorem Tidy.same (h : Tidy c) (hs : SameBlocks c c') : Tidy c' := by
  intro id s hid hexp
  have hview := hs.streams id
  rw [hid, Option.map_some] at hview
  obtain ⟨s₀, hs₀, hpart⟩ := Option.map_eq_some_iff.mp hview.symm
  rw [← hpart]
  exact h id s₀ hs₀ (by rwa [← hs.expecting])

/-- Storing a stream whose block is empty, or awaited from now on. -/
theorem Tidy.setStream (h : Tidy c) {s : Stream} {x : Option Nat}
    (hc : c.expectingContinuation = none ∨ c.expectingContinuation = some id)
    (hs : x = some id ∨ s.blockPart = ([], false)) :
    Tidy { c.setStream id s with expectingContinuation := x } := by
  intro k t hk hexp
  simp only [getElem?_setStream] at hk hexp
  split at hk
  · rename_i hidk
    subst hidk
    cases hk
    rcases hs with hs | hs
    · exact absurd hs hexp
    · exact hs
  · rename_i hidk
    refine h k t hk ?_
    rcases hc with hc | hc <;> simp [hc, hidk]

theorem tidy_processHeaders (h : Tidy c) (hexp : c.expectingContinuation = none) (f : Frame) :
    Tidy (c.processHeaders f).state := by
  unfold processHeaders
  split
  · exact h
  · split
    · exact h
    · rename_i s hs
      split
      · unfold headersOnClosed
        split
        · exact h.same (@Edits.sameBlocks _ _ f.streamId false
            (Edits.andThen (edits_decodeBlock c _) fun _ _ _ => .refl))
        · split
          · exact h
          · exact h.setStream (.inl hexp) (.inl rfl)
      · split
        · exact h
        · simp only
          split
          · exact h.same (sameBlocks_setStream hs rfl)
          · rename_i s' hpush
            cases pushHeaderFragment_ok hpush
            split
            · refine Tidy.same ?_ (@Edits.sameBlocks _ _ _ false (edits_finishBlock _ _ _))
              refine h.setStream (.inl hexp) (.inr ?_)
              have hblock := h f.streamId s hs (by simp [hexp])
              simp only [Stream.blockPart, Prod.mk.injEq] at hblock ⊢
              exact ⟨trivial, hblock.2⟩
            · exact h.setStream (.inl hexp) (.inl rfl)

theorem tidy_processContinuation (h : Tidy c) (f : Frame) :
    Tidy (c.processContinuation f).state := by
  unfold processContinuation
  split
  · exact h
  · rename_i hexp
    have hexp' : c.expectingContinuation = some f.streamId := by simpa using hexp
    split
    · exact h
    · rename_i s hs
      split
      · exact h
      · split
        · refine Tidy.same ?_ (@Edits.sameBlocks _ _ _ false (edits_finishBlock _ _ _))
          exact h.setStream (.inr hexp') (.inr rfl)
        · refine h.setStream (.inr hexp') (.inl ?_)
          exact hexp'

theorem tidy_dispatch (h : Tidy c) {f : Frame} (hgate : c.continuationGate f = .ok ())
    (sink : Bool) : Tidy (c.dispatch f sink).state := by
  unfold dispatch
  split
  · exact h.same (connEdits_processConnFrame c f).sameBlocks
  · by_cases hw : f.typ = .windowUpdate
    · simp only [processStreamFrame, hw]
      exact h.same (connEdits_processStreamWindowUpdate c f).sameBlocks
    · by_cases hh : f.typ = .headers
      · simp only [processStreamFrame, hh]
        refine tidy_processHeaders h ?_ f
        unfold continuationGate at hgate
        split at hgate
        · assumption
        · simp [hh] at hgate
      · by_cases hc : f.typ = .continuation
        · simp only [processStreamFrame, hc]
          exact tidy_processContinuation h f
        · have hedits := edits_processStreamFrame c f sink hw
          have hblock : (f.typ == .headers || f.typ == .continuation) = false := by simp [hh, hc]
          rw [hblock] at hedits
          exact h.same hedits.sameBlocks

theorem sameBlocks_budget (c : Connection) (b : FloodBudget) :
    SameBlocks c { c with budget := b } := ⟨rfl, fun _ => rfl⟩

theorem tidy_processFrame (h : Tidy c) (f : Frame) (sink : Bool) :
    Tidy (c.processFrame f sink).state := by
  obtain ⟨e, hp⟩ | ⟨e, b, hp⟩ | ⟨b, hgate, -, hp⟩ := c.processFrame_cases f sink
  all_goals rw [hp]
  · exact h
  · exact h.same (sameBlocks_budget c b)
  · have hstart : Tidy { c with budget := b, madeProgress := false } :=
      h.same ⟨rfl, fun _ => rfl⟩
    have hd := tidy_dispatch hstart hgate sink
    cases hr : { c with budget := b, madeProgress := false }.dispatch f sink with
    | error e c₁ =>
      rw [hr] at hd
      exact hd
    | ok outcome c₁ =>
      rw [hr] at hd
      obtain ⟨b', hb'⟩ := c₁.recordProgress_state outcome
      simp only [Outcome.andThen, Outcome.state] at hb' hd ⊢
      rw [hb']
      exact hd.same (sameBlocks_budget c₁ b')

theorem tidy_readAndDispatch (h : Tidy c) (sink : Bool) :
    Tidy (c.readAndDispatch sink).state := by
  obtain ⟨-, hr⟩ | ⟨kind, msg, rest, e, -, hr⟩ | ⟨f, rest, -, hr⟩ := c.readAndDispatch_cases sink
  all_goals rw [hr]
  · exact h
  · exact h.same ⟨rfl, fun _ => rfl⟩
  · have hreceived : Tidy (c.received f rest) := h.same ⟨rfl, fun _ => rfl⟩
    exact tidy_processFrame hreceived f sink

/-- Streams may be dropped. -/
theorem Tidy.of_streams (h : Tidy c) (hexp : c'.expectingContinuation = c.expectingContinuation)
    (hs : ∀ (id : Nat) (s : Stream), c'.streams[id]? = some s → c.streams[id]? = some s) :
    Tidy c' :=
  fun id s hid hne => h id s (hs id s hid) (by rwa [← hexp])

theorem tidy_openStream (h : Tidy c) : Tidy c.openStream.state := by
  cases hopen : c.openStream with
  | error e c₁ =>
    cases openStream_error hopen
    exact h
  | ok id c₁ =>
    obtain ⟨-, -, -, -, rfl⟩ := openStream_ok hopen
    intro k s hk hexp
    simp only [Outcome.state, Std.ExtTreeMap.getElem?_insert] at hk hexp
    split at hk
    · cases hk
      rfl
    · exact h k s hk hexp

theorem sends_abortSend (c : Connection) (id : Nat) :
    SameBlocks c (c.abortSend id).state := by
  unfold abortSend
  obtain ⟨fs, hw | ⟨e, hw⟩⟩ := c.writeFrame_cases (rstStreamFrame id errNoError)
  all_goals rw [hw]
  · obtain ⟨fs', hf | ⟨e, hf⟩⟩ :=
      ((c.withFaults fs).logged (.sent (rstStreamFrame id errNoError))).flush_cases
    all_goals
      simp only [Outcome.andThen, hf]
    · split
      · exact ⟨rfl, fun _ => rfl⟩
      · rename_i s hs
        refine SameBlocks.trans ?_ (sameBlocks_setStream hs rfl)
        exact ⟨rfl, fun _ => rfl⟩
    · exact ⟨rfl, fun _ => rfl⟩
  · exact ⟨rfl, fun _ => rfl⟩

/-- In a reachable state only the awaited stream holds a header block. -/
theorem Reachable.tidy (h : Reachable c) : Tidy c := by
  induction h with
  | new h =>
    obtain ⟨fs, rfl⟩ := new_ok h
    intro id s hid
    simp at hid
  | processFrame _ f sink ih => exact tidy_processFrame ih f sink
  | readAndDispatch _ sink ih => exact tidy_readAndDispatch ih sink
  | openStream _ ih => exact tidy_openStream ih
  | writeRequestHeaders _ id req ih =>
    exact ih.same (sendEdits_writeRequestHeaders _ req).sends.sameBlocks
  | stageRequestOn _ id req ih => exact ih.same (sendEdits_stageRequestOn _ req).sends.sameBlocks
  | sendData _ hs chunk isLast ih =>
    exact ih.same (sendEdits_sendData hs chunk isLast).sends.sameBlocks
  | abortSend _ id ih => exact ih.same (sends_abortSend _ id)
  | flushPending _ ih => exact ih.same (sends_flushPending _).sameBlocks
  | removeStream _ id ih =>
    refine ih.of_streams rfl fun k s hk => ?_
    rw [getElem?_removeStream] at hk
    split at hk
    · cases hk
    · exact hk
  | pruneCompletedStreams _ ih =>
    refine ih.of_streams rfl fun k s hk => ?_
    rw [Connection.pruneCompletedStreams, Std.ExtTreeMap.getElem?_filter'] at hk
    exact (Option.filter_eq_some_iff.mp hk).1

/-! ## Stream ids -/

/-- Streams in the map and the awaited stream have ids that were handed out, and ids are odd. -/
structure Known (c : Connection) : Prop where
  next : c.nextStreamId % 2 = 1
  streams : ∀ id : Nat, c.streams[id]?.isSome → id % 2 = 1 ∧ id < c.nextStreamId
  awaited : ∀ id : Nat, c.expectingContinuation = some id → id % 2 = 1 ∧ id < c.nextStreamId

/-- No id is handed out, and the awaited stream is one that was known. -/
structure SameIds (c c' : Connection) : Prop where
  next : c'.nextStreamId = c.nextStreamId
  streams : ∀ id : Nat, c'.streams[id]?.isSome → c.streams[id]?.isSome
  awaited : ∀ id : Nat, c'.expectingContinuation = some id →
    c.expectingContinuation = some id ∨ c.streams[id]?.isSome

theorem SameIds.refl (c : Connection) : SameIds c c := ⟨rfl, fun _ h => h, fun _ h => .inl h⟩

theorem SameIds.trans (h : SameIds c c') (h' : SameIds c' c'') : SameIds c c'' := by
  refine ⟨h'.next.trans h.next, fun id hid => h.streams id (h'.streams id hid), fun id hid => ?_⟩
  rcases h'.awaited id hid with hid | hid
  · exact h.awaited id hid
  · exact .inr (h.streams id hid)

theorem Known.same (h : Known c) (hs : SameIds c c') : Known c' := by
  refine ⟨by rw [hs.next]; exact h.next, fun id hid => ?_, fun id hid => ?_⟩
  · rw [hs.next]
    exact h.streams id (hs.streams id hid)
  · rw [hs.next]
    rcases hs.awaited id hid with hid | hid
    · exact h.awaited id hid
    · exact h.streams id hid

theorem sameIds_setStream {s : Stream} (h : c.streams[id]?.isSome) :
    SameIds c (c.setStream id s) := by
  refine ⟨rfl, fun k hk => ?_, fun _ hk => .inl hk⟩
  rw [getElem?_setStream] at hk
  split at hk
  · rename_i hik
    rwa [← hik]
  · exact hk

theorem FrameStep.sameIds {f : Frame} (h : FrameStep f c c') : SameIds c c' := by
  rcases h with h | h
  · cases h with
    | stream h e => exact sameIds_setStream (by simp [h])
    | expecting x hx hb =>
      refine ⟨rfl, fun _ hk => hk, fun k hk => ?_⟩
      rcases hx with hx | ⟨hx, hid⟩
      · rw [hx] at hk
        cases hk
      · rw [hx] at hk
        cases hk
        exact .inr hid
    | _ => exact ⟨rfl, fun _ hk => hk, fun _ hk => .inl hk⟩
  · cases h with
    | streamWindow h w => exact sameIds_setStream (by simp [h])
    | goaway last =>
      refine ⟨rfl, fun k hk => ?_, fun _ hk => .inl hk⟩
      simpa [applyGoaway, Std.ExtTreeMap.getElem?_map] using hk
    | _ => exact ⟨rfl, fun _ hk => hk, fun _ hk => .inl hk⟩

theorem Sends.sameIds (h : Sends c c') : SameIds c c' := by
  refine ⟨h.nextStreamId, fun k hk => ?_, fun k hk => .inl ?_⟩
  · have hview := congrArg Option.isSome (h.streams k)
    rw [Option.isSome_map, Option.isSome_map] at hview
    rwa [← hview]
  · rwa [← h.expectingContinuation]

theorem FrameSteps.sameIds {f : Frame} (h : FrameSteps f c c') : SameIds c c' := by
  induction h with
  | refl => exact .refl c
  | tail _ hstep ih => exact ih.trans hstep.sameIds

theorem sameIds_processFrame (c : Connection) (f : Frame) (sink : Bool) :
    SameIds c (c.processFrame f sink).state :=
  (frameSteps_processFrame c f sink).sameIds

theorem sameIds_readAndDispatch (c : Connection) (sink : Bool) :
    SameIds c (c.readAndDispatch sink).state := by
  obtain ⟨-, hr⟩ | ⟨kind, msg, rest, e, -, hr⟩ | ⟨f, rest, -, hr⟩ := c.readAndDispatch_cases sink
  all_goals rw [hr]
  · exact .refl c
  · exact ⟨rfl, fun _ hk => hk, fun _ hk => .inl hk⟩
  · have hreceived : SameIds c (c.received f rest) := ⟨rfl, fun _ hk => hk, fun _ hk => .inl hk⟩
    exact hreceived.trans (sameIds_processFrame _ f sink)

theorem known_openStream (h : Known c) : Known c.openStream.state := by
  cases hopen : c.openStream with
  | error e c₁ =>
    cases openStream_error hopen
    exact h
  | ok id c₁ =>
    obtain ⟨rfl, -, -, -, rfl⟩ := openStream_ok hopen
    have hnext := h.next
    refine ⟨?_, fun k hk => ?_, fun k hk => ?_⟩
    · simp only [Outcome.state]
      omega
    · simp only [Outcome.state, Std.ExtTreeMap.getElem?_insert, Nat.compare_eq_eq] at hk ⊢
      split at hk
      · omega
      · have := h.streams k hk
        omega
    · have := h.awaited k hk
      simp only [Outcome.state]
      omega

theorem sameIds_abortSend (c : Connection) (id : Nat) : SameIds c (c.abortSend id).state := by
  unfold abortSend
  obtain ⟨fs, hw | ⟨e, hw⟩⟩ := c.writeFrame_cases (rstStreamFrame id errNoError)
  all_goals rw [hw]
  · obtain ⟨fs', hf | ⟨e, hf⟩⟩ :=
      ((c.withFaults fs).logged (.sent (rstStreamFrame id errNoError))).flush_cases
    all_goals
      simp only [Outcome.andThen, hf]
    · split
      · exact ⟨rfl, fun _ hk => hk, fun _ hk => .inl hk⟩
      · rename_i s hs
        refine SameIds.trans ?_ (sameIds_setStream (by simp [hs]))
        exact ⟨rfl, fun _ hk => hk, fun _ hk => .inl hk⟩
    · exact ⟨rfl, fun _ hk => hk, fun _ hk => .inl hk⟩
  · exact ⟨rfl, fun _ hk => hk, fun _ hk => .inl hk⟩

theorem Reachable.known (h : Reachable c) : Known c := by
  induction h with
  | new h =>
    obtain ⟨fs, rfl⟩ := new_ok h
    exact ⟨rfl, by simp, by simp⟩
  | processFrame _ f sink ih => exact ih.same (sameIds_processFrame _ f sink)
  | readAndDispatch _ sink ih => exact ih.same (sameIds_readAndDispatch _ sink)
  | openStream _ ih => exact known_openStream ih
  | writeRequestHeaders _ id req ih =>
    exact ih.same (sendEdits_writeRequestHeaders _ req).sends.sameIds
  | stageRequestOn _ id req ih => exact ih.same (sendEdits_stageRequestOn _ req).sends.sameIds
  | sendData _ hs chunk isLast ih =>
    exact ih.same (sendEdits_sendData hs chunk isLast).sends.sameIds
  | abortSend _ id ih => exact ih.same (sameIds_abortSend _ id)
  | flushPending _ ih => exact ih.same (sends_flushPending _).sameIds
  | removeStream _ id ih =>
    refine ih.same ⟨rfl, fun k hk => ?_, fun _ hk => .inl hk⟩
    rw [getElem?_removeStream] at hk
    split at hk
    · cases hk
    · exact hk
  | pruneCompletedStreams _ ih =>
    refine ih.same ⟨rfl, fun k hk => ?_, fun _ hk => .inl hk⟩
    rw [Connection.pruneCompletedStreams, Std.ExtTreeMap.getElem?_filter'] at hk
    obtain ⟨s, hs⟩ := Option.isSome_iff_exists.mp hk
    simp [(Option.filter_eq_some_iff.mp hs).1]

end Connection

end Rsurl.Http2
