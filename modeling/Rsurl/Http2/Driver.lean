import Rsurl.Http2.Request
import Rsurl.Http2.Response

/-!
# One request at a time

Sending a request under flow control, reading until its stream is done, and the exchange made of
the two. The two nested loops of the sender are one loop here: a turn either writes the next
DATA chunk or, while a window is used up, reads a frame.
-/

namespace Rsurl.Http2

open Library

namespace Connection

/-! ## Sending -/

/-- The response is complete before the body is out: stop sending, keep the connection. -/
def abortSend (c : Connection) (streamId : Nat) : Outcome Connection Unit :=
  (c.writeFrame (rstStreamFrame streamId errNoError)).andThen fun _ c =>
  c.flush.andThen fun _ c =>
  match c.streams[streamId]? with
  | none => .ok () c
  | some s => .ok () (c.setStream streamId { s with state := .closed })

theorem abortSend_ok {c c' : Connection} {id : Nat} {u : Unit} (h : c.abortSend id = .ok u c') :
    ∃ fs, (c.streams[id]? = none ∧ c' = c.wrote fs [rstStreamFrame id errNoError]) ∨
      ∃ s, c.streams[id]? = some s ∧ c' = (c.wrote fs [rstStreamFrame id errNoError]).setStream id
        { s with state := .closed } := by
  unfold abortSend at h
  obtain ⟨_, c₁, hw, h⟩ := Outcome.andThen_eq_ok.mp h
  obtain ⟨_, c₂, hf, h⟩ := Outcome.andThen_eq_ok.mp h
  obtain ⟨fs, rfl⟩ := writeFrame_ok hw
  obtain ⟨fs', rfl⟩ := flush_ok hf
  refine ⟨fs', ?_⟩
  split at h
  · rename_i hnone
    cases h
    exact .inl ⟨hnone, rfl⟩
  · rename_i s hs
    cases h
    exact .inr ⟨s, hs, rfl⟩

def sendTurn (streamId : Nat) (st : Connection × Bytes) :
    Loop.Turn (Connection × Bytes) (Outcome Connection Unit) :=
  let (c, remaining) := st
  if remaining.isEmpty then .done c.flush
  else match c.streams[streamId]? with
    | none => .done (.error (.badResponse s!"stream {streamId} disappeared mid-send") c)
    | some s =>
      let budget := s.sendBudget c.connSendWindow
      if 0 < budget then
        let n := nextDataChunkSize c.sendFrameLimit budget remaining.length
        match c.sendData streamId s (remaining.take n) (remaining.drop n).isEmpty with
        | .error e c => .done (.error e c)
        | .ok _ c => .next (c, remaining.drop n)
      else match c.checkNotAbandoned streamId with
        | .error e => .done (.error e c)
        | .ok _ => match c.readAndDispatch false with
          | .error e c => .done (.error e c)
          | .ok .continue c => .next (c, remaining)
          | .ok (.done id) c =>
            if id = streamId then .done (c.abortSend streamId) else .next (c, remaining)

/-- What a DATA write does to the connection when it succeeds. -/
theorem sendData_ok {c c' : Connection} {streamId : Nat} {s s' : Stream} {chunk : Bytes}
    {isLast : Bool} (h : c.sendData streamId s chunk isLast = .ok s' c') :
    ∃ fs state, s.state.sendData isLast = .ok state ∧
      s' = { s with sendWindow := s.sendWindow.consume chunk.length, state } ∧
      c' = { (c.withFaults fs).logged (.sent
          ⟨.data, if isLast then flagEndStream else 0, streamId, chunk⟩) with
        connSendWindow := c.connSendWindow.consume chunk.length }.setStream streamId s' := by
  unfold sendData at h
  obtain ⟨fs, hw | ⟨e, hw⟩⟩ := c.writeFrame_cases
    ⟨.data, if isLast then flagEndStream else 0, streamId, chunk⟩
  · rw [hw] at h
    simp only [Outcome.andThen] at h
    split at h
    · cases h
    · rename_i state hstate
      cases h
      exact ⟨fs, state, hstate, rfl, rfl⟩
  · rw [hw] at h
    cases h

theorem sendFrameLimit_pos (c : Connection) : 0 < c.sendFrameLimit := by
  have hmin := c.peer.frame_ge
  have : maxFrameSizeMin = 16384 := rfl
  have : maxFramePayload = 1048576 := rfl
  unfold sendFrameLimit
  omega

theorem sendTurn_lowers (streamId : Nat) :
    Loop.Lowers (sendTurn streamId) fun st => st.1.tls.inbound.length + st.2.length := by
  rintro ⟨c, remaining⟩ ⟨c', remaining'⟩ h
  unfold sendTurn at h
  simp only at h
  split at h
  · cases h
  · rename_i hne
    have hpos : 0 < remaining.length := by simpa [List.length_pos_iff] using hne
    split at h
    · cases h
    · split at h
      · rename_i s _ hbudget
        split at h
        · cases h
        · rename_i s' c₁ hsend
          cases h
          obtain ⟨fs, state, -, -, rfl⟩ := sendData_ok hsend
          have := nextDataChunkSize_pos c.sendFrameLimit_pos hbudget hpos
          simp only [setStream, logged, withFaults, List.length_drop]
          omega
      · split at h
        · cases h
        · split at h
          · cases h
          · rename_i hread
            cases h
            have := readAndDispatch_inbound hread
            simp only
            omega
          · rename_i hread
            split at h
            · cases h
            · cases h
              have := readAndDispatch_inbound hread
              simp only
              omega

def sendRequestOn (c : Connection) (streamId : Nat) (req : Request) : Outcome Connection Unit :=
  (c.writeRequestHeaders streamId req).andThen fun hasBody c =>
  if hasBody then Loop.run (sendTurn streamId) _ (sendTurn_lowers streamId) (c, req.body)
  else c.flush

/-! ## Reading -/

def driveTurn (streamId : Nat) (sink : Bool) (c : Connection) :
    Loop.Turn Connection (Outcome Connection Stream) :=
  match c.streams[streamId]? with
  | none => .done (.error (.badResponse s!"stream {streamId} not registered") c)
  | some s =>
    if s.responseComplete then .done (.ok s (c.removeStream streamId))
    else match c.checkNotAbandoned streamId with
      | .error e => .done (.error e c)
      | .ok _ => match c.readAndDispatch sink with
        | .error e c => .done (.error e c)
        | .ok .continue c => .next c
        | .ok (.done id) c =>
          if id = streamId then match c.streams[streamId]? with
            | some s => .done (.ok s (c.removeStream streamId))
            -- `unwrap`: a finished stream is registered
            | none => .done (.error (.badResponse s!"stream {streamId} not registered") c)
          else .next c

theorem driveTurn_lowers (streamId : Nat) (sink : Bool) :
    Loop.Lowers (driveTurn streamId sink) fun c => c.tls.inbound.length := by
  intro c c' h
  unfold driveTurn at h
  split at h
  · cases h
  · split at h
    · cases h
    · split at h
      · cases h
      · split at h
        · cases h
        · rename_i hread
          cases h
          exact readAndDispatch_inbound hread
        · rename_i hread
          split at h
          · split at h <;> cases h
          · cases h
            exact readAndDispatch_inbound hread

def driveUntilStreamDoneTo (c : Connection) (streamId : Nat) (sink : Bool) :
    Outcome Connection Stream :=
  Loop.run (driveTurn streamId sink) _ (driveTurn_lowers streamId sink) c

def driveUntilStreamDone (c : Connection) (streamId : Nat) : Outcome Connection Stream :=
  c.driveUntilStreamDoneTo streamId false

/-! ## The exchange -/

def runOneRequest (codecs : Codecs) (c : Connection) (req : Request) :
    Outcome Connection Response :=
  c.openStream.andThen fun streamId c =>
  (c.sendRequestOn streamId req).andThen fun _ c =>
  (c.driveUntilStreamDone streamId).andThen fun stream c =>
  let c := c.pruneCompletedStreams
  .ofExcept (buildResponseFromStream codecs stream req.decompress) c

end Connection

end Rsurl.Http2
