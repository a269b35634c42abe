import Rsurl.Http2.Dispatch

/-!
# Connections that behave alike

Two connections are alike when they differ at most in the input still to be read, the log, the
flood budgets and how much of the connection's receive window is left. The end of a header block
does the same to both.
-/

namespace Rsurl.Http2

open Library Hpack

namespace Connection

/-- Same state up to budgets, log, unread input and the connection's receive window. -/
structure Alike (c c' : Connection) : Prop where
  faults : c'.tls.faults = c.tls.faults
  sunk : c'.tls.sunk = c.tls.sunk
  peer : c'.peer = c.peer
  connSendWindow : c'.connSendWindow = c.connSendWindow
  connInitial : c'.connRecvWindow.initial = c.connRecvWindow.initial
  ourRecvWindow : c'.ourRecvWindow = c.ourRecvWindow
  decoder : c'.decoder = c.decoder
  encoder : c'.encoder = c.encoder
  streams : c'.streams = c.streams
  nextStreamId : c'.nextStreamId = c.nextStreamId
  goawayReceived : c'.goawayReceived = c.goawayReceived
  expectingContinuation : c'.expectingContinuation = c.expectingContinuation

variable {c c' c'' : Connection} {id : Nat}

theorem Alike.refl (c : Connection) : Alike c c := by
  constructor <;> rfl

theorem Alike.trans (h : Alike c c') (h' : Alike c' c'') : Alike c c'' := by
  constructor
  · exact h'.faults.trans h.faults
  · exact h'.sunk.trans h.sunk
  · exact h'.peer.trans h.peer
  · exact h'.connSendWindow.trans h.connSendWindow
  · exact h'.connInitial.trans h.connInitial
  · exact h'.ourRecvWindow.trans h.ourRecvWindow
  · exact h'.decoder.trans h.decoder
  · exact h'.encoder.trans h.encoder
  · exact h'.streams.trans h.streams
  · exact h'.nextStreamId.trans h.nextStreamId
  · exact h'.goawayReceived.trans h.goawayReceived
  · exact h'.expectingContinuation.trans h.expectingContinuation

theorem Alike.setStream (h : Alike c c') (id : Nat) (s : Stream) :
    Alike (c.setStream id s) (c'.setStream id s) :=
  { h with streams := by simp only [Connection.setStream, h.streams] }

theorem Alike.writeFrame (h : Alike c c') (f : Frame) :
    Outcome.Rel Alike (c.writeFrame f) (c'.writeFrame f) := by
  unfold Connection.writeFrame Transport.writeFrame Transport.write Transport.attempt
  rw [h.faults]
  split
  · exact .error { h with }
  · split
    · exact .ok { h with }
    · exact .ok { h with faults := rfl }
    · exact .error { h with faults := rfl }

theorem Alike.flush (h : Alike c c') : Outcome.Rel Alike c.flush c'.flush := by
  unfold Connection.flush Transport.flush Transport.attempt
  rw [h.faults]
  split
  · exact .ok { h with }
  · exact .ok { h with faults := rfl }
  · exact .error { h with faults := rfl }

theorem Alike.decodeBlock (h : Alike c c') (block : Bytes) :
    Outcome.Rel Alike (c.decodeBlock block) (c'.decodeBlock block) := by
  unfold Connection.decodeBlock
  rw [h.decoder]
  cases c.decoder.decodeBlock block with
  | ok fields d => exact .ok { h with decoder := rfl }
  | error e d => exact .error { h with decoder := rfl }

theorem Alike.outcomeFor (h : Alike c c') (id : Nat) : c'.outcomeFor id = c.outcomeFor id := by
  simp only [Connection.outcomeFor, h.streams]

theorem Alike.done (h : Alike c c') (id : Nat) :
    Outcome.Rel Alike (.ok (c.outcomeFor id) c : Outcome Connection DispatchOutcome)
      (.ok (c'.outcomeFor id) c') := by
  rw [h.outcomeFor]
  exact .ok h

theorem Alike.streamError {α : Type} (h : Alike c c') (id : Nat) (msg : String) :
    Outcome.Rel Alike (c.streamError (α := α) id msg) (c'.streamError id msg) := by
  have hclose : Alike (c.closeStream id) (c'.closeStream id) := by
    unfold closeStream
    rw [h.streams]
    split
    · exact h.setStream id _
    · exact h
  unfold Connection.streamError sendReset
  refine .error ?_
  have hwrite := hclose.writeFrame (rstStreamFrame id errProtocol)
  revert hwrite
  generalize (c.closeStream id).writeFrame (rstStreamFrame id errProtocol) = r
  generalize (c'.closeStream id).writeFrame (rstStreamFrame id errProtocol) = r'
  rintro (⟨h₁⟩ | ⟨h₁⟩)
  · exact h₁.flush.state
  · exact h₁

/-! ## Header blocks -/

theorem Alike.checkContentLength (h : Alike c c') (id : Nat) :
    Outcome.Rel Alike (c.checkContentLength id) (c'.checkContentLength id) := by
  unfold Connection.checkContentLength
  rw [h.streams]
  repeat' split
  all_goals first
    | exact .ok h
    | exact h.streamError id _

theorem Alike.completeHeaderBlock (h : Alike c c') (id : Nat) (decoded : List Header) :
    Outcome.Rel Alike (c.completeHeaderBlock id decoded) (c'.completeHeaderBlock id decoded) := by
  unfold Connection.completeHeaderBlock
  rw [h.streams]
  split
  · exact .ok h
  · split
    · unfold completeTrailers
      repeat' split
      · exact h.streamError id _
      · exact h.streamError id _
      · exact h.checkContentLength id
    · split
      · exact h.streamError id _
      · split
        · unfold completeInterim
          repeat' split
          · exact h.streamError id _
          · exact h.streamError id _
          · exact (h.setStream id _).streamError id _
          · exact .ok (h.setStream id _)
        · unfold completeHead
          split
          · exact (h.setStream id _).checkContentLength id
          · exact .ok (h.setStream id _)

theorem Alike.finishBlock (h : Alike c c') (id : Nat) (block : Bytes) (discard : Bool) :
    Outcome.Rel Alike (c.finishBlock id block discard) (c'.finishBlock id block discard) := by
  unfold Connection.finishBlock
  refine (h.decodeBlock block).andThen fun decoded c₁ c₁' h₁ => ?_
  have hprog : Alike { c₁ with madeProgress := true } { c₁' with madeProgress := true } :=
    { h₁ with }
  refine Outcome.Rel.andThen (R := Alike) ?_ fun _ c₂ c₂' h₂ => h₂.done id
  split
  · exact .ok hprog
  · exact hprog.completeHeaderBlock id decoded

end Connection

end Rsurl.Http2
