import Rsurl.Http2.Driver

/-!
# What sending may change

The counterpart of `Dispatch` for the operations that write requests: `SendEdit` lists their
changes, and everything the connection has received is left alone by them.
-/

namespace Rsurl.Http2

open Library Hpack

/-- The peer has ended its side of the stream, or the stream is over. -/
def StreamState.remoteDone : StreamState → Bool
  | .closed | .halfClosedRemote => true
  | _ => false

theorem StreamState.remoteDone_sendData {s s' : StreamState} {endStream : Bool}
    (h : s.sendData endStream = .ok s') : s'.remoteDone = s.remoteDone := by
  cases s <;> cases endStream <;> simp [sendData] at h <;> subst h <;> rfl

/-- What a stream has received: its sending side and its send window are left out, and of its
state only whether the peer is done. -/
def Stream.recvPart (s : Stream) : Stream :=
  { s with
    state := if s.state.remoteDone then .closed else .open
    sendWindow := ⟨0, 0⟩
    pendingBody := none
    headRequest := false }

theorem Stream.responseComplete_eq (s : Stream) :
    s.responseComplete =
      (s.state.remoteDone && s.endStreamRecv && s.responseHeaders.isSome) := by
  unfold Stream.responseComplete StreamState.remoteDone
  cases s.state <;> rfl

namespace Connection

variable {c c' c'' : Connection} {id : Nat}

/-- One change made while frames of stream `id` are written. -/
inductive SendEdit (id : Nat) : Connection → Connection → Prop where
  | stream {c : Connection} {s s' : Stream} (h : c.streams[id]? = some s)
      (e : s'.recvPart = s.recvPart) : SendEdit id c (c.setStream id s')
  | encoder (c : Connection) (encoder : Encoder) : SendEdit id c { c with encoder }
  | sendWindow (c : Connection) (w : ConnSendWindow) :
      SendEdit id c { c with connSendWindow := w }
  | faults (c : Connection) (fs : List (Option (IoErrorKind × String))) :
      SendEdit id c (c.withFaults fs)
  | wrote (c : Connection) (f : Frame) (hid : f.streamId = id) (hf : f.typ ≠ .windowUpdate) :
      SendEdit id c (c.logged (.sent f))

abbrev SendEdits (id : Nat) : Connection → Connection → Prop :=
  Relation.ReflTransGen (SendEdit id)

theorem SendEdit.edits (h : SendEdit id c c') : SendEdits id c c' := .single h

theorem SendEdits.andThen {α β : Type} {r : Outcome Connection α}
    {f : α → Connection → Outcome Connection β} (hr : SendEdits id c r.state)
    (hf : ∀ a c₁, r = .ok a c₁ → SendEdits id c₁ (f a c₁).state) :
    SendEdits id c (r.andThen f).state := by
  cases r with
  | ok a c₁ => exact hr.trans (hf a c₁ rfl)
  | error e c₁ => exact hr

theorem sendEdits_flush (c : Connection) : SendEdits id c c.flush.state := by
  obtain ⟨fs, h⟩ := c.flush_state
  rw [h]
  exact (SendEdit.faults c fs).edits

theorem sendEdits_writeFrame (c : Connection) {f : Frame} (hid : f.streamId = id)
    (hf : f.typ ≠ .windowUpdate) : SendEdits id c (c.writeFrame f).state := by
  obtain ⟨fs, h | ⟨e, h⟩⟩ := c.writeFrame_cases f <;> rw [h]
  · exact (SendEdit.faults c fs).edits.trans (SendEdit.wrote _ f hid hf).edits
  · exact (SendEdit.faults c fs).edits

theorem sendEdits_setStream {s s' : Stream} (h : c.streams[id]? = some s)
    (e : s'.recvPart = s.recvPart) : SendEdits id c (c.setStream id s') :=
  .single (.stream h e)

/-! ## Requests -/

/-- Only HEADERS and CONTINUATION frames, all on the request's stream. -/
theorem mem_continuationFrames {streamId limit fuel : Nat} {block : Bytes} {f : Frame}
    (h : f ∈ continuationFrames streamId limit fuel block) :
    f.streamId = streamId ∧ f.typ = .continuation ∧ f.endStream = false := by
  induction fuel generalizing block with
  | zero => cases h
  | succ fuel ih =>
    unfold continuationFrames at h
    split at h
    · cases h
    · rcases List.mem_cons.mp h with rfl | h
      · refine ⟨rfl, rfl, ?_⟩
        simp only [Frame.endStream, Frame.hasFlag]
        split <;> decide
      · exact ih h

theorem mem_fragmentHeaderBlock {streamId limit : Nat} {block : Bytes} {endStream : Bool}
    {f : Frame} (h : f ∈ fragmentHeaderBlock streamId block limit endStream) :
    f.streamId = streamId ∧ (f.typ = .headers ∨ f.typ = .continuation) := by
  unfold fragmentHeaderBlock at h
  rcases List.mem_cons.mp h with rfl | h
  · exact ⟨rfl, .inl rfl⟩
  · obtain ⟨hid, htyp, -⟩ := mem_continuationFrames h
    exact ⟨hid, .inr htyp⟩

theorem sendEdits_forEach_write (frames : List Frame) (c : Connection)
    (h : ∀ f ∈ frames, f.streamId = id ∧ f.typ ≠ .windowUpdate) :
    SendEdits id c (Outcome.forEach frames (fun f c => c.writeFrame f) c).state := by
  induction frames generalizing c with
  | nil => exact .refl
  | cons f rest ih =>
    rw [Outcome.forEach]
    obtain ⟨hid, hf⟩ := h f List.mem_cons_self
    refine SendEdits.andThen (sendEdits_writeFrame c hid hf) fun _ c₁ _ => ?_
    exact ih c₁ fun g hg => h g (List.mem_cons_of_mem f hg)

theorem sendEdits_writeRequestHeaders (c : Connection) (req : Request) :
    SendEdits id c (c.writeRequestHeaders id req).state := by
  unfold writeRequestHeaders
  refine SendEdits.andThen ?_ fun _ c₁ _ => ?_
  · unfold sendPriorityHint
    split
    · exact .refl
    · exact sendEdits_writeFrame c rfl (by simp)
  · simp only
    refine .trans (SendEdit.encoder c₁ (buildHeaderBlock c₁.encoder req).1).edits ?_
    refine SendEdits.andThen (sendEdits_forEach_write _ _ fun f hf => ?_) fun _ c₂ _ => ?_
    · obtain ⟨hid, htyp⟩ := mem_fragmentHeaderBlock hf
      exact ⟨hid, by rcases htyp with h | h <;> simp [h]⟩
    · split
      · exact .refl
      · rename_i s hs
        split
        · exact .refl
        · rename_i state hstate
          refine sendEdits_setStream hs ?_
          simp only [Stream.recvPart, StreamState.remoteDone_sendData hstate]

theorem sendEdits_stageRequestOn (c : Connection) (req : Request) :
    SendEdits id c (c.stageRequestOn id req).state := by
  unfold stageRequestOn
  refine SendEdits.andThen (sendEdits_writeRequestHeaders c req) fun hasBody c₁ _ => ?_
  split
  · split
    · exact .refl
    · rename_i s hs
      exact sendEdits_setStream hs rfl
  · exact .refl

/-- Frames written one after the other: what is out when a write fails is a first part of them. -/
theorem writeFrames_prefix (frames : List Frame) (c : Connection) :
    ∃ fs out, out <+: frames ∧
      (Outcome.forEach frames (fun f c => c.writeFrame f) c).state = c.wrote fs out := by
  induction frames generalizing c with
  | nil => exact ⟨c.tls.faults, [], List.prefix_refl _, (wrote_nil c).symm⟩
  | cons f rest ih =>
    rw [Outcome.forEach]
    obtain ⟨fs, hw | ⟨e, hw⟩⟩ := c.writeFrame_cases f
    all_goals rw [hw]
    · obtain ⟨fs', out, hbegins, hstate⟩ := ih ((c.withFaults fs).logged (.sent f))
      refine ⟨fs', f :: out, List.prefix_cons_inj f |>.mpr hbegins, ?_⟩
      simp only [Outcome.andThen, hstate]
      simp [wrote, logged, withFaults]
    · exact ⟨fs, [], List.nil_prefix, by simp [wrote, withFaults]⟩

theorem sendPriorityHint_cases (c : Connection) (id : Nat) (priority : Priority) :
    ∃ fs, c.sendPriorityHint id priority = .ok () (c.wrote fs
        (match priorityWeightByte priority with
          | none => []
          | some weight => [⟨.priority, 0, id, [0, 0, 0, 0, weight]⟩])) ∨
      ∃ e, c.sendPriorityHint id priority = .error e (c.withFaults fs) := by
  unfold sendPriorityHint
  cases priorityWeightByte priority with
  | none => exact ⟨c.tls.faults, .inl (by rw [wrote_nil])⟩
  | some weight =>
    obtain ⟨fs, hw | ⟨e, hw⟩⟩ := c.writeFrame_cases ⟨.priority, 0, id, [0, 0, 0, 0, weight]⟩
    all_goals simp only [hw]
    · exact ⟨fs, .inl rfl⟩
    · exact ⟨fs, .inr ⟨e, rfl⟩⟩

theorem log_andThen {α β : Type} {r : Outcome Connection α}
    {f : α → Connection → Outcome Connection β} (hf : ∀ a c, (f a c).state.tls.log = c.tls.log) :
    (r.andThen f).state.tls.log = r.state.tls.log := by
  cases r with
  | ok a c => exact hf a c
  | error e c => rfl

/-- What is on the wire of a request's head, whether or not all of it could be written. -/
theorem writeRequestHeaders_log (c : Connection) (id : Nat) (req : Request) :
    ∃ out, out <+: c.headFrames id req ∧
      (c.writeRequestHeaders id req).state.tls.log = c.tls.log ++ out.map .sent := by
  unfold writeRequestHeaders headFrames
  obtain ⟨fs, hw | ⟨e, hw⟩⟩ := c.sendPriorityHint_cases id req.priority
  all_goals rw [hw]
  · clear hw
    generalize hhint : (match priorityWeightByte req.priority with
      | none => []
      | some weight => [(⟨.priority, 0, id, [0, 0, 0, 0, weight]⟩ : Frame)]) = hint
    obtain ⟨fs', out, hbegins, hstate⟩ := writeFrames_prefix
      (fragmentHeaderBlock id (buildHeaderBlock c.encoder req).2 c.sendFrameLimit req.body.isEmpty)
      { c.wrote fs hint with encoder := (buildHeaderBlock c.encoder req).1 }
    refine ⟨hint ++ out, ?_, ?_⟩
    · rw [← hhint]
      exact (List.prefix_append_right_inj _).mpr hbegins
    · rw [Outcome.ok_andThen]
      simp only [Bool.not_not]
      rw [log_andThen]
      · have hlog := congrArg (fun c => c.tls.log) hstate
        refine hlog.trans ?_
        simp [wrote]
      · intro _ c₁
        repeat' split
        all_goals rfl
  · exact ⟨[], List.nil_prefix, by simp [withFaults]⟩

theorem stageRequestOn_log (c : Connection) (id : Nat) (req : Request) :
    ∃ out, out <+: c.headFrames id req ∧
      (c.stageRequestOn id req).state.tls.log = c.tls.log ++ out.map .sent := by
  obtain ⟨out, hbegins, hlog⟩ := c.writeRequestHeaders_log id req
  refine ⟨out, hbegins, ?_⟩
  rw [← hlog]
  unfold stageRequestOn
  cases c.writeRequestHeaders id req with
  | error e c₁ => rfl
  | ok hasBody c₁ =>
    simp only [Outcome.andThen]
    split
    · split <;> rfl
    · rfl

theorem sendEdits_sendData {s : Stream} (hs : c.streams[id]? = some s) (chunk : Bytes)
    (isLast : Bool) : SendEdits id c (c.sendData id s chunk isLast).state := by
  unfold sendData
  refine SendEdits.andThen (sendEdits_writeFrame c rfl (by simp)) fun _ c₁ hc₁ => ?_
  have hs₁ : c₁.streams[id]? = some s := by
    obtain ⟨fs, hw | ⟨e, hw⟩⟩ := c.writeFrame_cases
      ⟨.data, if isLast then flagEndStream else 0, id, chunk⟩
    all_goals
      rw [hw] at hc₁
      cases hc₁
    exact hs
  refine .trans (SendEdit.sendWindow c₁ (c₁.connSendWindow.consume chunk.length)).edits ?_
  simp only
  split
  · exact sendEdits_setStream hs₁ rfl
  · rename_i state hstate
    refine sendEdits_setStream hs₁ ?_
    simp only [Stream.recvPart, StreamState.remoteDone_sendData hstate]

/-! ## Everything sending leaves alone -/

/-- The receiving side of two connections is the same; `c'` has written more. -/
structure Sends (c c' : Connection) : Prop where
  inbound : c'.tls.inbound = c.tls.inbound
  sunk : c'.tls.sunk = c.tls.sunk
  peer : c'.peer = c.peer
  connRecvWindow : c'.connRecvWindow = c.connRecvWindow
  ourRecvWindow : c'.ourRecvWindow = c.ourRecvWindow
  decoder : c'.decoder = c.decoder
  nextStreamId : c'.nextStreamId = c.nextStreamId
  goawayReceived : c'.goawayReceived = c.goawayReceived
  expectingContinuation : c'.expectingContinuation = c.expectingContinuation
  budget : c'.budget = c.budget
  streams : ∀ id : Nat, c'.streams[id]?.map Stream.recvPart = c.streams[id]?.map Stream.recvPart
  log : ∃ out : List Frame, c'.tls.log = c.tls.log ++ out.map .sent ∧
    ∀ f ∈ out, f.typ ≠ .windowUpdate

theorem Sends.refl (c : Connection) : Sends c c :=
  ⟨rfl, rfl, rfl, rfl, rfl, rfl, rfl, rfl, rfl, rfl, fun _ => rfl, [], by simp⟩

theorem Sends.trans (h : Sends c c') (h' : Sends c' c'') : Sends c c'' := by
  obtain ⟨out, hout, hf⟩ := h.log
  obtain ⟨out', hout', hf'⟩ := h'.log
  refine ⟨h'.inbound.trans h.inbound, h'.sunk.trans h.sunk, h'.peer.trans h.peer,
    h'.connRecvWindow.trans h.connRecvWindow, h'.ourRecvWindow.trans h.ourRecvWindow,
    h'.decoder.trans h.decoder, h'.nextStreamId.trans h.nextStreamId,
    h'.goawayReceived.trans h.goawayReceived,
    h'.expectingContinuation.trans h.expectingContinuation, h'.budget.trans h.budget,
    fun id => (h'.streams id).trans (h.streams id), out ++ out', ?_, ?_⟩
  · rw [hout', hout, List.map_append, List.append_assoc]
  · intro f hmem
    rcases List.mem_append.mp hmem with hmem | hmem
    · exact hf f hmem
    · exact hf' f hmem

theorem SendEdit.sends (h : SendEdit id c c') : Sends c c' := by
  cases h with
  | stream h e =>
    refine ⟨rfl, rfl, rfl, rfl, rfl, rfl, rfl, rfl, rfl, rfl, fun k => ?_, [], by
      simp [setStream], by simp⟩
    rw [getElem?_setStream]
    split
    · rename_i hk
      subst hk
      simp [h, e]
    · rfl
  | wrote f hid hf =>
    exact ⟨rfl, rfl, rfl, rfl, rfl, rfl, rfl, rfl, rfl, rfl, fun _ => rfl, [f], rfl, by
      simpa using hf⟩
  | _ => exact ⟨rfl, rfl, rfl, rfl, rfl, rfl, rfl, rfl, rfl, rfl, fun _ => rfl, [], by
      simp [withFaults]⟩

theorem SendEdits.sends (h : SendEdits id c c') : Sends c c' := by
  induction h with
  | refl => exact .refl c
  | tail _ hstep ih => exact ih.trans hstep.sends

theorem sends_sendData {s s₁ : Stream} {c₁ : Connection} (hs : c.streams[id]? = some s)
    {chunk : Bytes} {isLast : Bool} (h : c.sendData id s chunk isLast = .ok s₁ c₁)
    (pending : Option PendingBody) :
    Sends c (c₁.setStream id { s₁ with pendingBody := pending }) := by
  have hsends := (sendEdits_sendData hs chunk isLast).sends
  rw [h] at hsends
  obtain ⟨fs, state, -, -, hc₁⟩ := sendData_ok h
  have hs₁ : c₁.streams[id]? = some s₁ := by simp [hc₁]
  exact hsends.trans (SendEdit.stream hs₁ (by rfl)).sends

theorem sends_pump (limit streamId : Nat) (c : Connection) :
    Sends c (Loop.run (pumpTurn limit streamId) (unsent · streamId)
      (pumpTurn_lowers limit streamId) c).state := by
  refine Loop.run_rule (pumpTurn_lowers limit streamId) (fun c r => Sends c r.state) ?_ ?_ c
  · intro c r h
    obtain hc | ⟨s, pb, hs, -, -, hc⟩ | ⟨s, pb, n, hchunk, ⟨e, c₁, hsend, hc⟩ | ⟨s₁, c₁, -, hsend, hc⟩ |
      ⟨s₁, c₁, -, -, hc⟩⟩ := pumpTurn_cases limit streamId c
    all_goals rw [hc] at h
    all_goals cases h
    · exact .refl c
    · exact (SendEdit.stream hs (by rfl)).sends
    · have hsends := (sendEdits_sendData hchunk.stream ((pb.bytes.drop pb.sent).take n)
        (n == (pb.bytes.drop pb.sent).length)).sends
      rw [hsend] at hsends
      exact hsends
    · exact sends_sendData hchunk.stream hsend none
  · intro c c' r h hr
    obtain hc | ⟨s, pb, -, -, -, hc⟩ | ⟨s, pb, n, hchunk, ⟨e, c₁, -, hc⟩ | ⟨s₁, c₁, -, -, hc⟩ |
      ⟨s₁, c₁, -, hsend, hc⟩⟩ := pumpTurn_cases limit streamId c
    all_goals rw [hc] at h
    all_goals cases h
    exact (sends_sendData hchunk.stream hsend _).trans hr

theorem sends_flushPending (c : Connection) : Sends c c.flushPending.state := by
  have hpump : Sends c c.pumpPendingSends.state := by
    unfold pumpPendingSends
    refine Outcome.post_state (Outcome.post_forEach _ (I := Sends c) ?_ (.refl c))
    intro id _ c₁ hc₁
    have := hc₁.trans (sends_pump c.sendFrameLimit id c₁)
    cases h : Loop.run (pumpTurn c.sendFrameLimit id) (unsent · id) (pumpTurn_lowers _ id) c₁ with
    | ok _ c₂ => rw [h] at this; exact this
    | error _ c₂ => rw [h] at this; exact this
  unfold flushPending
  cases h : c.pumpPendingSends with
  | ok _ c₁ =>
    rw [h] at hpump
    exact hpump.trans (@sendEdits_flush 0 c₁).sends
  | error _ c₁ =>
    rw [h] at hpump
    exact hpump

end Connection

end Rsurl.Http2
