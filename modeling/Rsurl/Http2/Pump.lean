import Rsurl.Http2.Reachable

/-!
# The pump, chunk by chunk

`pumpPendingSends` visits every parked body. `PumpStep` lists what it does on the way: a chunk of a
body goes out on a DATA frame, within both windows and the frame limit, or a body that is out is
dropped.
-/

namespace Rsurl.Http2

open Library

namespace Connection

variable {c c' : Connection} {limit id : Nat}

/-- The DATA frame of a chunk. -/
def dataFrame (id : Nat) (chunk : Bytes) (isLast : Bool) : Frame :=
  ⟨.data, if isLast then flagEndStream else 0, id, chunk⟩

@[simp] theorem endStream_dataFrame (id : Nat) (chunk : Bytes) (isLast : Bool) :
    (dataFrame id chunk isLast).endStream = isLast := by
  cases isLast <;> simp [dataFrame, Frame.endStream, Frame.hasFlag, flagEndStream]

/-- The connection once a DATA frame is on the wire, with the windows billed. -/
def dataSent (c : Connection) (fs : List (Option (IoErrorKind × String))) (id : Nat)
    (chunk : Bytes) (isLast : Bool) : Connection :=
  { (c.withFaults fs).logged (.sent (dataFrame id chunk isLast)) with
    connSendWindow := c.connSendWindow.consume chunk.length }

/-- Everything a DATA write does: it fails before the frame is out, or the frame is out and both
windows are billed. -/
theorem sendData_cases (c : Connection) (id : Nat) (s : Stream) (chunk : Bytes) (isLast : Bool) :
    ∃ fs, (∃ e, c.sendData id s chunk isLast = .error e (c.withFaults fs)) ∨
      (∃ e, s.state.sendData isLast = .error e ∧ c.sendData id s chunk isLast =
        .error e ((c.dataSent fs id chunk isLast).setStream id
          { s with sendWindow := s.sendWindow.consume chunk.length })) ∨
      ∃ state, s.state.sendData isLast = .ok state ∧ c.sendData id s chunk isLast =
        .ok { s with sendWindow := s.sendWindow.consume chunk.length, state }
          ((c.dataSent fs id chunk isLast).setStream id
            { s with sendWindow := s.sendWindow.consume chunk.length, state }) := by
  unfold sendData
  obtain ⟨fs, hw | ⟨e, hw⟩⟩ := c.writeFrame_cases (dataFrame id chunk isLast)
  · refine ⟨fs, .inr ?_⟩
    rw [show (⟨.data, if isLast then flagEndStream else 0, id, chunk⟩ : Frame) =
      dataFrame id chunk isLast from rfl, hw]
    simp only [Outcome.andThen]
    cases hstate : s.state.sendData isLast with
    | error e => exact .inl ⟨e, rfl, rfl⟩
    | ok state => exact .inr ⟨state, rfl, rfl⟩
  · refine ⟨fs, .inl ⟨e, ?_⟩⟩
    rw [show (⟨.data, if isLast then flagEndStream else 0, id, chunk⟩ : Frame) =
      dataFrame id chunk isLast from rfl, hw]
    rfl

/-- What is left of a body once `n` more bytes of it are out. -/
def PendingBody.after (pb : PendingBody) (n : Nat) : Option PendingBody :=
  if n = (pb.bytes.drop pb.sent).length then none else some { pb with sent := pb.sent + n }

/-- One step of the pump. -/
inductive PumpStep (limit : Nat) : Connection → Connection → Prop where
  | faults (c : Connection) (fs : List (Option (IoErrorKind × String))) :
      PumpStep limit c (c.withFaults fs)
  /-- A body that is out is dropped. -/
  | unparked {c : Connection} {id : Nat} {s : Stream} {pb : PendingBody}
      (hs : c.streams[id]? = some s) (hpending : s.pendingBody = some pb)
      (hout : pb.bytes.drop pb.sent = []) :
      PumpStep limit c (c.setStream id { s with pendingBody := none })
  | chunk {c : Connection} {id n : Nat} {s : Stream} {pb : PendingBody} {state : StreamState}
      (fs : List (Option (IoErrorKind × String))) (h : PumpChunk limit id c s pb n)
      (hstate : s.state.sendData (n == (pb.bytes.drop pb.sent).length) = .ok state) :
      PumpStep limit c ((c.dataSent fs id ((pb.bytes.drop pb.sent).take n)
        (n == (pb.bytes.drop pb.sent).length)).setStream id { s with
          sendWindow := s.sendWindow.consume n
          state
          pendingBody := PendingBody.after pb n })
  /-- The frame is out, but the stream was in no state to send it. -/
  | misplaced {c : Connection} {id n : Nat} {s : Stream} {pb : PendingBody} {e : Error}
      (fs : List (Option (IoErrorKind × String))) (h : PumpChunk limit id c s pb n)
      (hstate : s.state.sendData (n == (pb.bytes.drop pb.sent).length) = .error e) :
      PumpStep limit c ((c.dataSent fs id ((pb.bytes.drop pb.sent).take n)
        (n == (pb.bytes.drop pb.sent).length)).setStream id { s with
          sendWindow := s.sendWindow.consume n })

abbrev PumpSteps (limit : Nat) : Connection → Connection → Prop :=
  Relation.ReflTransGen (PumpStep limit)

theorem PumpChunk.length_take {n : Nat} {s : Stream} {pb : PendingBody}
    (h : PumpChunk limit id c s pb n) : ((pb.bytes.drop pb.sent).take n).length = n := by
  have hle := h.le
  simp only [List.length_take]
  omega

/-- Whatever a turn of the pump does is a step. -/
theorem pumpTurn_step (limit id : Nat) (c : Connection) :
    (∃ r : Outcome Connection Unit, pumpTurn limit id c = .done r ∧ PumpSteps limit c r.state) ∨
      ∃ c', pumpTurn limit id c = .next c' ∧ PumpStep limit c c' := by
  obtain hc | ⟨s, pb, hs, hpending, hout, hc⟩ | ⟨s, pb, n, hchunk, hcases⟩ := pumpTurn_cases limit id c
  · exact .inl ⟨_, hc, .refl⟩
  · exact .inl ⟨_, hc, .single (.unparked hs hpending hout)⟩
  · have hlen := hchunk.length_take
    obtain ⟨fs, hsend⟩ := sendData_cases c id s ((pb.bytes.drop pb.sent).take n)
      (n == (pb.bytes.drop pb.sent).length)
    rw [hlen] at hsend
    rcases hcases with ⟨e, c₁, herr, hc⟩ | ⟨s₁, c₁, hlast, hok, hc⟩ | ⟨s₁, c₁, hlt, hok, hc⟩
    · refine .inl ⟨_, hc, ?_⟩
      rw [herr] at hsend
      obtain ⟨e', h⟩ | ⟨e', hstate, h⟩ | ⟨state, hstate, h⟩ := hsend
      · cases h
        exact .single (.faults c fs)
      · cases h
        exact .single (.misplaced fs hchunk hstate)
      · cases h
    · refine .inl ⟨_, hc, ?_⟩
      have hsame : (pb.bytes.drop pb.sent).take n = pb.bytes.drop pb.sent :=
        List.take_of_length_le hlast.ge
      have hbeq : (n == (pb.bytes.drop pb.sent).length) = true := by simpa using hlast
      rw [← hsame] at hok
      rw [hbeq, hok] at hsend
      obtain ⟨e', h⟩ | ⟨e', hstate, h⟩ | ⟨state, hstate, h⟩ := hsend
      · cases h
      · cases h
      · cases h
        have hstep := @PumpStep.chunk _ _ _ _ _ _ state fs hchunk (by rw [hbeq, hstate])
        rw [hbeq] at hstep
        simp only [PendingBody.after, if_pos hlast] at hstep
        refine .single ?_
        rw [setStream_setStream]
        exact hstep
    · refine .inr ⟨_, hc, ?_⟩
      have hne : n ≠ (pb.bytes.drop pb.sent).length := by omega
      have hbeq : (n == (pb.bytes.drop pb.sent).length) = false := by simpa using hne
      rw [hbeq, hok] at hsend
      obtain ⟨e', h⟩ | ⟨e', hstate, h⟩ | ⟨state, hstate, h⟩ := hsend
      · cases h
      · cases h
      · cases h
        have hstep := @PumpStep.chunk _ _ _ _ _ _ state fs hchunk (by rw [hbeq, hstate])
        rw [hbeq] at hstep
        simp only [PendingBody.after, if_neg hne] at hstep
        rw [setStream_setStream]
        exact hstep

theorem pumpSteps_pump (limit id : Nat) (c : Connection) :
    PumpSteps limit c (Loop.run (pumpTurn limit id) (unsent · id) (pumpTurn_lowers limit id) c).state := by
  refine Loop.run_rule (pumpTurn_lowers limit id) (fun c r => PumpSteps limit c r.state) ?_ ?_ c
  · intro c r h
    obtain ⟨r', hr', hsteps⟩ | ⟨c', hc', -⟩ := pumpTurn_step limit id c
    · rw [hr'] at h
      cases h
      exact hsteps
    · rw [hc'] at h
      cases h
  · intro c c' r h hr
    obtain ⟨r', hr', -⟩ | ⟨c₁, hc₁, hstep⟩ := pumpTurn_step limit id c
    · rw [hr'] at h
      cases h
    · rw [hc₁] at h
      cases h
      exact .head hstep hr

theorem pumpSteps_pumpPendingSends (c : Connection) :
    PumpSteps c.sendFrameLimit c c.pumpPendingSends.state := by
  unfold pumpPendingSends
  refine Outcome.post_state (Outcome.post_forEach _ (I := PumpSteps c.sendFrameLimit c) ?_ .refl)
  intro id _ c₁ hc₁
  have := hc₁.trans (pumpSteps_pump c.sendFrameLimit id c₁)
  cases h : Loop.run (pumpTurn c.sendFrameLimit id) (unsent · id) (pumpTurn_lowers _ id) c₁ with
  | ok _ c₂ => rw [h] at this; exact this
  | error _ c₂ => rw [h] at this; exact this

theorem pumpSteps_flushPending (c : Connection) :
    PumpSteps c.sendFrameLimit c c.flushPending.state := by
  have hpump := c.pumpSteps_pumpPendingSends
  unfold flushPending
  cases h : c.pumpPendingSends with
  | ok _ c₁ =>
    rw [h] at hpump
    obtain ⟨fs, hfs⟩ := c₁.flush_state
    simp only [Outcome.andThen]
    rw [hfs]
    exact hpump.tail (.faults c₁ fs)
  | error _ c₁ =>
    rw [h] at hpump
    exact hpump

/-- The pump writes DATA frames only. -/
theorem PumpStep.log (h : PumpStep limit c c') :
    ∃ out : List Frame, c'.tls.log = c.tls.log ++ out.map .sent ∧ ∀ f ∈ out, f.typ = .data := by
  cases h with
  | faults fs => exact ⟨[], by simp [withFaults]⟩
  | unparked hs hpending hout => exact ⟨[], by simp [setStream]⟩
  | @chunk id n s pb state fs hchunk hstate =>
    exact ⟨[dataFrame id ((pb.bytes.drop pb.sent).take n) (n == (pb.bytes.drop pb.sent).length)],
      rfl, by simp [dataFrame]⟩
  | @misplaced id n s pb e fs hchunk hstate =>
    exact ⟨[dataFrame id ((pb.bytes.drop pb.sent).take n) (n == (pb.bytes.drop pb.sent).length)],
      rfl, by simp [dataFrame]⟩

theorem PumpSteps.log (h : PumpSteps limit c c') :
    ∃ out : List Frame, c'.tls.log = c.tls.log ++ out.map .sent ∧ ∀ f ∈ out, f.typ = .data := by
  induction h with
  | refl => exact ⟨[], by simp⟩
  | tail _ hstep ih =>
    obtain ⟨out, hlog, hout⟩ := ih
    obtain ⟨out', hlog', hout'⟩ := hstep.log
    refine ⟨out ++ out', by rw [hlog', hlog]; simp, fun f hf => ?_⟩
    rcases List.mem_append.mp hf with hf | hf
    · exact hout f hf
    · exact hout' f hf

end Connection

end Rsurl.Http2
