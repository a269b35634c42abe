import Rsurl.Http2.ContentLength

/-!
# The steps of an exchange

A successful exchange opens its stream, writes the head of its request, and then takes steps: it
writes a part of the body, reads a frame, or gives up on the rest of the body. It ends with its
stream complete, which is then taken out of the map.
-/

namespace Rsurl.Http2

open Library

namespace Connection

variable {c c' : Connection} {id : Nat} {P : Connection → Prop}

/-- One step of an exchange: the connection, and what is left of the body. `P` holds of every
connection a frame is read from. -/
inductive ExchangeStep (id : Nat) (P : Connection → Prop) :
    Connection × Bytes → Connection × Bytes → Prop where
  | chunk {c c' : Connection} {s s' : Stream} {rem : Bytes} {n : Nat}
      (hs : c.streams[id]? = some s) (hbudget : 0 < s.sendBudget c.connSendWindow)
      (hn : n = nextDataChunkSize c.sendFrameLimit (s.sendBudget c.connSendWindow) rem.length)
      (hsend : c.sendData id s (rem.take n) (rem.drop n).isEmpty = .ok s' c') :
      ExchangeStep id P (c, rem) (c', rem.drop n)
  | read {c c' : Connection} {rem : Bytes} {outcome : DispatchOutcome} (hp : P c)
      (h : c.readAndDispatch false = .ok outcome c') : ExchangeStep id P (c, rem) (c', rem)
  /-- The response is complete before the body is out. -/
  | stopped {c c' : Connection} {rem : Bytes} {u : Unit} (h : c.abortSend id = .ok u c') :
      ExchangeStep id P (c, rem) (c', rem)
  | flushed {c c' : Connection} {rem : Bytes} {u : Unit} (h : c.flush = .ok u c') :
      ExchangeStep id P (c, rem) (c', rem)

abbrev ExchangeSteps (id : Nat) (P : Connection → Prop) :
    Connection × Bytes → Connection × Bytes → Prop :=
  Relation.ReflTransGen (ExchangeStep id P)

/-! ## Sending -/

theorem sendTurn_step {st st' : Connection × Bytes} (h : sendTurn id st = .next st') (hp : P st.1) :
    ExchangeStep id P st st' := by
  obtain ⟨c, rem⟩ := st
  unfold sendTurn at h
  simp only at h
  split at h
  · cases h
  · split at h
    · cases h
    · rename_i s hs
      split at h
      · rename_i hbudget
        split at h
        · cases h
        · rename_i hsend
          cases h
          exact .chunk hs hbudget rfl hsend
      · split at h
        · cases h
        · split at h
          · cases h
          · rename_i hread
            cases h
            exact .read hp hread
          · rename_i hread
            split at h
            · cases h
            · cases h
              exact .read hp hread

theorem sendTurn_done {st : Connection × Bytes} {u : Unit}
    (h : sendTurn id st = .done (.ok u c')) (hp : P st.1) :
    ExchangeSteps id P st (c', st.2) := by
  obtain ⟨c, rem⟩ := st
  unfold sendTurn at h
  simp only at h
  split at h
  · exact .single (.flushed (Loop.Turn.done.inj h))
  · split at h
    · cases h
    · split at h
      · split at h <;> cases h
      · split at h
        · cases h
        · split at h
          · cases h
          · cases h
          · rename_i hread
            split at h
            · exact .head (.read hp hread) (.single (.stopped (Loop.Turn.done.inj h)))
            · cases h

/-- What is sent after the head, when all of it goes out or the response is complete first. -/
theorem sendRequestOn_steps {c₁ c₂ : Connection} {req : Request} {u : Unit}
    (hopen : c.openStream = .ok id c₁) (hsend : c₁.sendRequestOn id req = .ok u c₂)
    (hp : ∀ st ∈ c.readStates req, P st.2) :
    ∃ hasBody c₁' rem, c₁.writeRequestHeaders id req = .ok hasBody c₁' ∧
      ExchangeSteps id P (c₁', req.body) (c₂, rem) := by
  unfold sendRequestOn at hsend
  obtain ⟨hasBody, c₁', hhead, hsend⟩ := Outcome.andThen_eq_ok.mp hsend
  cases hasBody with
  | false => exact ⟨false, c₁', req.body, hhead, .single (.flushed hsend)⟩
  | true =>
    have hfree : ∀ st ∈ Loop.visited (sendTurn id)
        (fun st => st.1.tls.inbound.length + st.2.length) (c₁', req.body), P st.1 := by
      intro st hst
      apply hp (id, st.1)
      simp only [readStates, hopen, hhead]
      exact List.mem_append_left _ (List.mem_map_of_mem (f := fun st => (id, st.1)) hst)
    obtain ⟨st, hmem, hI, hdone⟩ := Loop.run_visited (sendTurn_lowers id)
      (I := ExchangeSteps id P (c₁', req.body)) .refl
      fun t ht hI t' hnext => hI.tail (sendTurn_step hnext (hfree t ht))
    rw [if_pos rfl] at hsend
    rw [hsend] at hdone
    exact ⟨true, c₁', st.2, hhead, hI.trans (sendTurn_done hdone (hfree _ hmem))⟩

/-! ## Reading -/

/-- A read says a stream is done only if its response is complete. -/
theorem complete_of_done (h : c.readAndDispatch false = .ok (.done id) c') {s : Stream}
    (hs : c'.streams[id]? = some s) : s.responseComplete = true := by
  obtain ⟨f, rest, -, hp, -⟩ := readAndDispatch_ok h
  obtain ⟨-, ⟨-, hout, -⟩ | ⟨-, hacc⟩⟩ := processFrame_ok hp
  · cases hout
  · cases hf : (c.received f rest).streams[f.streamId]? with
    | none => cases (hacc.gone hf).2.2.2.1
    | some t =>
      obtain ⟨t', ht', -, ⟨hout, hc⟩ | ⟨hout, -⟩⟩ := hacc.taken t hf
      · cases hout
        rw [hs] at ht'
        cases ht'
        exact hc
      · cases hout

theorem driveTurn_step (rem : Bytes) (h : driveTurn id false c = .next c') (hp : P c) :
    ExchangeStep id P (c, rem) (c', rem) := by
  unfold driveTurn at h
  split at h
  · cases h
  · split at h
    · cases h
    · split at h
      · cases h
      · split at h
        · cases h
        · rename_i hread
          cases h
          exact .read hp hread
        · rename_i hread
          split at h
          · split at h <;> cases h
          · cases h
            exact .read hp hread

theorem driveTurn_done {s : Stream} (rem : Bytes) (h : driveTurn id false c = .done (.ok s c'))
    (hp : P c) :
    ∃ c₁, ExchangeSteps id P (c, rem) (c₁, rem) ∧ c₁.streams[id]? = some s ∧
      s.responseComplete = true ∧ c' = c₁.removeStream id := by
  unfold driveTurn at h
  split at h
  · cases h
  · rename_i t hid
    split at h
    · rename_i hcomplete
      cases h
      exact ⟨c, .refl, hid, hcomplete, rfl⟩
    · split at h
      · cases h
      · split at h
        · cases h
        · cases h
        · rename_i c₁ hread
          split at h
          · rename_i hdone
            split at h
            · rename_i s₁ hs₁
              cases h
              subst hdone
              exact ⟨c₁, .single (.read hp hread), hs₁, complete_of_done hread hs₁, rfl⟩
            · cases h
          · cases h

/-- A successful exchange: its stream is opened, the head of the request is written, and steps
lead to a state in which the response is complete. -/
theorem exchange_steps {codecs : Codecs} {req : Request} {resp : Response}
    (h : c.runOneRequest codecs req = .ok resp c') (hp : ∀ st ∈ c.readStates req, P st.2) :
    ∃ id c₁ hasBody c₂ c₃ rem s, c.openStream = .ok id c₁ ∧
      c₁.writeRequestHeaders id req = .ok hasBody c₂ ∧
      ExchangeSteps id P (c₂, req.body) (c₃, rem) ∧ c₃.streams[id]? = some s ∧
      s.responseComplete = true ∧ c' = (c₃.removeStream id).pruneCompletedStreams ∧
      buildResponseFromStream codecs s req.decompress = .ok resp := by
  obtain ⟨id, c₁, c₂, s, c₃, hopen, hsend, hdrive, rfl, hbuild⟩ := runOneRequest_ok h
  obtain ⟨hasBody, c₁', rem, hhead, hsteps⟩ := sendRequestOn_steps hopen hsend hp
  have hfree : ∀ t ∈ Loop.visited (driveTurn id false) (fun c => c.tls.inbound.length) c₂, P t := by
    intro t ht
    apply hp (id, t)
    simp only [readStates, hopen, hsend]
    exact List.mem_append_right _ (List.mem_map_of_mem (f := fun c => (id, c)) ht)
  obtain ⟨t, hmem, hI, hdone⟩ := Loop.run_visited (driveTurn_lowers id false)
    (I := fun t => ExchangeSteps id P (c₁', req.body) (t, rem)) hsteps
    fun t ht hI t' hnext => hI.tail (driveTurn_step rem hnext (hfree t ht))
  unfold driveUntilStreamDone driveUntilStreamDoneTo at hdrive
  rw [hdrive] at hdone
  obtain ⟨c₄, hlast, hs, hcomplete, rfl⟩ := driveTurn_done rem hdone (hfree t hmem)
  exact ⟨id, c₁, hasBody, c₁', c₄, rem, s, hopen, hhead, hI.trans hlast, hs, hcomplete, rfl, hbuild⟩

end Connection

end Rsurl.Http2
