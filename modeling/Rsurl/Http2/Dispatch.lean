import Rsurl.Http2.Connection

/-!
# What a dispatched frame may change

`Edit` lists the changes a frame on a stream can make to its connection, one constructor each.
The handlers are sequences of edits, so a fact about every handler is an induction over `Edits`
with one small case per constructor, and no proof about a run unfolds a handler for it. The
indices `data` and `block` tell the edits only DATA frames make, and those only header blocks
make.
-/

namespace Rsurl.Http2

open Library Hpack

namespace Connection

variable {c c' : Connection} {id : Nat} {data block : Bool}

@[simp] theorem getElem?_setStream (c : Connection) (id k : Nat) (s : Stream) :
    (c.setStream id s).streams[k]? = if id = k then some s else c.streams[k]? := by
  simp [setStream, Std.ExtTreeMap.getElem?_insert]

@[simp] theorem getElem?_removeStream (c : Connection) (id k : Nat) :
    (c.removeStream id).streams[k]? = if id = k then none else c.streams[k]? := by
  simp [removeStream, Std.ExtTreeMap.getElem?_erase]

theorem getElem?_setStream_self (c : Connection) (id : Nat) (s : Stream) :
    (c.setStream id s).streams[id]? = some s := by
  simp

theorem setStream_setStream (c : Connection) (id : Nat) (s s' : Stream) :
    (c.setStream id s).setStream id s' = c.setStream id s' := by
  unfold setStream
  congr 1
  ext k t
  simp only [Std.ExtTreeMap.getElem?_insert]
  split <;> rfl

theorem setStream_self {s : Stream} (h : c.streams[id]? = some s) : c.setStream id s = c := by
  unfold setStream
  congr 1
  ext k t
  simp only [Std.ExtTreeMap.getElem?_insert, Nat.compare_eq_eq]
  split
  · rename_i hk
    rw [← hk, h]
  · rfl

theorem streams_setStream_self {s : Stream} (h : c.streams[id]? = some s) :
    (c.setStream id s).streams = c.streams :=
  congrArg Connection.streams (setStream_self h)

theorem streams_setStream_setStream (c : Connection) (id : Nat) (s s' : Stream) :
    ((c.setStream id s).setStream id s').streams = (c.setStream id s').streams :=
  congrArg Connection.streams (setStream_setStream c id s s')

/-! ## The transport -/

def withFaults (c : Connection) (faults : List (Option (IoErrorKind × String))) : Connection :=
  { c with tls := { c.tls with faults } }

def logged (c : Connection) (e : WireEvent) : Connection :=
  { c with tls := { c.tls with log := c.tls.log ++ [e] } }

theorem flush_cases (c : Connection) :
    ∃ fs, c.flush = .ok () (c.withFaults fs) ∨ ∃ e, c.flush = .error e (c.withFaults fs) := by
  unfold flush Transport.flush Transport.attempt
  split
  · exact ⟨c.tls.faults, .inl rfl⟩
  · exact ⟨_, .inl rfl⟩
  · exact ⟨_, .inr ⟨_, rfl⟩⟩

theorem flush_state (c : Connection) : ∃ fs, c.flush.state = c.withFaults fs := by
  obtain ⟨fs, h | ⟨e, h⟩⟩ := c.flush_cases <;> exact ⟨fs, by rw [h]; rfl⟩

/-- A write either fails and leaves no frame, or logs its frame. -/
theorem writeFrame_cases (c : Connection) (f : Frame) :
    ∃ fs, c.writeFrame f = .ok () ((c.withFaults fs).logged (.sent f)) ∨
      ∃ e, c.writeFrame f = .error e (c.withFaults fs) := by
  unfold writeFrame Transport.writeFrame Transport.write Transport.attempt
  split
  · exact ⟨c.tls.faults, .inr ⟨_, rfl⟩⟩
  · split
    · exact ⟨c.tls.faults, .inl rfl⟩
    · exact ⟨_, .inl rfl⟩
    · exact ⟨_, .inr ⟨_, rfl⟩⟩

theorem writeFrame_ok {f : Frame} {u : Unit} (h : c.writeFrame f = .ok u c') :
    ∃ fs, c' = (c.withFaults fs).logged (.sent f) := by
  obtain ⟨fs, hw | ⟨e, hw⟩⟩ := c.writeFrame_cases f
  all_goals
    rw [hw] at h
    cases h
  exact ⟨fs, rfl⟩

theorem flush_ok {u : Unit} (h : c.flush = .ok u c') : ∃ fs, c' = c.withFaults fs := by
  obtain ⟨fs, hf | ⟨e, hf⟩⟩ := c.flush_cases
  all_goals
    rw [hf] at h
    cases h
  exact ⟨fs, rfl⟩

/-- The connection after writing the frames `out`. -/
def wrote (c : Connection) (fs : List (Option (IoErrorKind × String))) (out : List Frame) :
    Connection :=
  { c with tls := { c.tls with faults := fs, log := c.tls.log ++ out.map .sent } }

theorem wrote_nil (c : Connection) : c.wrote c.tls.faults [] = c := by
  simp [wrote]

theorem wrote_wrote (c : Connection) (fs fs' : List (Option (IoErrorKind × String)))
    (out out' : List Frame) : (c.wrote fs out).wrote fs' out' = c.wrote fs' (out ++ out') := by
  simp [wrote]

/-- Frames written one after the other. -/
theorem writeFrames_ok {frames : List Frame} {u : Unit} {c c' : Connection}
    (h : Outcome.forEach frames (fun f c => c.writeFrame f) c = .ok u c') :
    ∃ fs, c' = c.wrote fs frames := by
  induction frames generalizing c with
  | nil =>
    cases h
    exact ⟨_, (wrote_nil _).symm⟩
  | cons f rest ih =>
    rw [Outcome.forEach] at h
    obtain ⟨_, c₁, hf, h⟩ := Outcome.andThen_eq_ok.mp h
    obtain ⟨fs, rfl⟩ := writeFrame_ok hf
    obtain ⟨fs', rfl⟩ := ih h
    exact ⟨fs', wrote_wrote c fs fs' [f] rest⟩

/-! ## Edits -/

end Connection

/-- A change of a stream's response side. Only DATA moves the receive window, and only HEADERS
and CONTINUATION touch the block being collected. -/
structure Stream.Edit (data block : Bool) (s s' : Stream) : Prop where
  sendWindow : s'.sendWindow = s.sendWindow
  pendingBody : s'.pendingBody = s.pendingBody
  headRequest : s'.headRequest = s.headRequest
  recvInitial : s'.recvWindow.initial = s.recvWindow.initial
  recvWindow : data = false → s'.recvWindow = s.recvWindow
  headersBuf : block = false → s'.headersBuf = s.headersBuf
  discardHeaders : block = false → s'.discardHeaders = s.discardHeaders

namespace Connection

variable {c c' : Connection} {id : Nat} {data block : Bool}

/-- One change made while a frame on stream `id` is dispatched. -/
inductive Edit (data block : Bool) (id : Nat) : Connection → Connection → Prop where
  | stream {c : Connection} {s s' : Stream} (h : c.streams[id]? = some s)
      (e : s.Edit data block s') : Edit data block id c (c.setStream id s')
  | decoder (c : Connection) (decoder : Decoder) : Edit data block id c { c with decoder }
  | expecting (c : Connection) (x : Option Nat)
      (hx : x = none ∨ x = some id ∧ c.streams[id]?.isSome) (hb : block = true) :
      Edit data block id c { c with expectingContinuation := x }
  | progress (c : Connection) (madeProgress : Bool) : Edit data block id c { c with madeProgress }
  | faults (c : Connection) (fs : List (Option (IoErrorKind × String))) :
      Edit data block id c (c.withFaults fs)
  | reset (c : Connection) : Edit data block id c (c.logged (.sent (rstStreamFrame id errProtocol)))
  | recvWindow (c : Connection) (w : RecvWindow) (hw : w.initial = c.connRecvWindow.initial)
      (hd : data = true) : Edit data block id c { c with connRecvWindow := w }
  | announced (c : Connection) (target inc : Nat) (ht : target = 0 ∨ target = id)
      (hd : data = true) : Edit data block id c (c.logged (.sent (windowUpdateFrame target inc)))
  | sink (c : Connection) (bytes : Bytes) (hd : data = true) :
      Edit data block id c { c with tls := { c.tls with sunk := c.tls.sunk ++ bytes } }

abbrev Edits (data block : Bool) (id : Nat) : Connection → Connection → Prop :=
  Relation.ReflTransGen (Edit data block id)

theorem Edit.edits (h : Edit data block id c c') : Edits data block id c c' := .single h

theorem Edits.andThen {α β : Type} {r : Outcome Connection α}
    {f : α → Connection → Outcome Connection β} (hr : Edits data block id c r.state)
    (hf : ∀ a c₁, r = .ok a c₁ → Edits data block id c₁ (f a c₁).state) :
    Edits data block id c (r.andThen f).state := by
  cases r with
  | ok a c₁ => exact hr.trans (hf a c₁ rfl)
  | error e c₁ => exact hr

theorem edits_flush (c : Connection) : Edits data block id c c.flush.state := by
  obtain ⟨fs, h⟩ := c.flush_state
  rw [h]
  exact (Edit.faults c fs).edits

theorem edits_reset (c : Connection) :
    Edits data block id c (c.writeFrame (rstStreamFrame id errProtocol)).state := by
  obtain ⟨fs, h | ⟨e, h⟩⟩ := c.writeFrame_cases (rstStreamFrame id errProtocol) <;> rw [h]
  · exact (Edit.faults c fs).edits.trans (Edit.reset _).edits
  · exact (Edit.faults c fs).edits

theorem edits_setStream {s s' : Stream} (h : c.streams[id]? = some s) (e : s.Edit data block s') :
    Edits data block id c (c.setStream id s') :=
  .single (.stream h e)

theorem edits_closeStream (c : Connection) : Edits data block id c (c.closeStream id) := by
  unfold closeStream
  split
  · rename_i s hs
    exact edits_setStream hs ⟨rfl, rfl, rfl, rfl, fun _ => rfl, fun _ => rfl, fun _ => rfl⟩
  · exact .refl

theorem edits_sendReset (c : Connection) : Edits data block id c (c.sendReset id) := by
  have hreset := @edits_reset id data block c
  unfold sendReset
  split
  · rename_i h
    rw [h] at hreset
    exact hreset.trans (edits_flush _)
  · rename_i h
    rw [h] at hreset
    exact hreset

theorem edits_streamError {α : Type} (c : Connection) (msg : String) :
    Edits data block id c (c.streamError (α := α) id msg).state :=
  (edits_closeStream c).trans (edits_sendReset _)

theorem edits_decodeBlock (c : Connection) (bytes : Bytes) :
    Edits data block id c (c.decodeBlock bytes).state := by
  unfold decodeBlock
  cases c.decoder.decodeBlock bytes with
  | ok fields d => exact (Edit.decoder c d).edits
  | error e d => exact (Edit.decoder c d).edits

/-! ## Header blocks -/

theorem edits_checkContentLength (c : Connection) :
    Edits data block id c (c.checkContentLength id).state := by
  unfold checkContentLength
  repeat' split
  all_goals first
    | exact .refl
    | exact edits_streamError c _

theorem edits_completeHeaderBlock (c : Connection) (decoded : List Header) :
    Edits data block id c (c.completeHeaderBlock id decoded).state := by
  unfold completeHeaderBlock
  split
  · exact .refl
  · rename_i s hs
    split
    · unfold completeTrailers
      repeat' split
      · exact edits_streamError c _
      · exact edits_streamError c _
      · exact edits_checkContentLength c
    · split
      · exact edits_streamError c _
      · split
        · unfold completeInterim
          repeat' split
          · exact edits_streamError c _
          · exact edits_streamError c _
          · refine .trans ?_ (edits_streamError _ _)
            exact edits_setStream hs ⟨rfl, rfl, rfl, rfl, fun _ => rfl, fun _ => rfl, fun _ => rfl⟩
          · exact edits_setStream hs ⟨rfl, rfl, rfl, rfl, fun _ => rfl, fun _ => rfl, fun _ => rfl⟩
        · unfold completeHead
          split
          · refine .trans ?_ (edits_checkContentLength _)
            exact edits_setStream hs ⟨rfl, rfl, rfl, rfl, fun _ => rfl, fun _ => rfl, fun _ => rfl⟩
          · exact edits_setStream hs ⟨rfl, rfl, rfl, rfl, fun _ => rfl, fun _ => rfl, fun _ => rfl⟩

theorem edits_finishBlock (c : Connection) (bytes : Bytes) (discard : Bool) :
    Edits data block id c (c.finishBlock id bytes discard).state := by
  unfold finishBlock
  refine (edits_decodeBlock c bytes).andThen fun decoded c₁ _ => ?_
  refine (Edit.progress c₁ true).edits.trans ?_
  refine Edits.andThen ?_ fun _ c₂ _ => .refl
  split
  · exact .refl
  · exact edits_completeHeaderBlock _ decoded

theorem pushHeaderFragment_ok {s s' : Stream} {frag : Bytes}
    (h : s.pushHeaderFragment frag = .ok s') :
    s' = { s with headersBuf := s.headersBuf ++ frag } := by
  unfold Stream.pushHeaderFragment at h
  split at h
  · cases h
  · cases h
    rfl

theorem edits_processHeaders (c : Connection) (f : Frame) :
    Edits data true f.streamId c (c.processHeaders f).state := by
  unfold processHeaders
  split
  · exact .refl
  · split
    · exact .refl
    · rename_i frag _ s hs
      split
      · unfold headersOnClosed
        split
        · exact Edits.andThen (edits_decodeBlock c _) fun _ _ _ => .refl
        · split
          · exact .refl
          · rename_i s' hpush
            cases pushHeaderFragment_ok hpush
            refine .trans ?_ (Edit.expecting _ _ (.inr ⟨rfl, by simp⟩) rfl).edits
            exact edits_setStream hs ⟨rfl, rfl, rfl, rfl, fun _ => rfl, by simp, by simp⟩
      · split
        · exact .refl
        · simp only
          split
          · exact edits_setStream hs ⟨rfl, rfl, rfl, rfl, fun _ => rfl, by simp, by simp⟩
          · rename_i s' hpush
            cases pushHeaderFragment_ok hpush
            split
            · refine .trans ?_ (edits_finishBlock _ _ _)
              refine .trans ?_ (Edit.expecting _ _ (.inl rfl) rfl).edits
              exact edits_setStream hs ⟨rfl, rfl, rfl, rfl, fun _ => rfl, by simp, by simp⟩
            · refine .trans ?_ (Edit.expecting _ _ (.inr ⟨rfl, by simp⟩) rfl).edits
              exact edits_setStream hs ⟨rfl, rfl, rfl, rfl, fun _ => rfl, by simp, by simp⟩

theorem edits_processContinuation (c : Connection) (f : Frame) :
    Edits data true f.streamId c (c.processContinuation f).state := by
  unfold processContinuation
  split
  · exact .refl
  · split
    · exact .refl
    · rename_i s hs
      split
      · exact .refl
      · rename_i s' hpush
        cases pushHeaderFragment_ok hpush
        split
        · refine .trans ?_ (edits_finishBlock _ _ _)
          refine .trans ?_ (Edit.expecting _ _ (.inl rfl) rfl).edits
          exact edits_setStream hs ⟨rfl, rfl, rfl, rfl, fun _ => rfl, by simp, by simp⟩
        · exact edits_setStream hs ⟨rfl, rfl, rfl, rfl, fun _ => rfl, by simp, by simp⟩

theorem edits_processRst (c : Connection) (f : Frame) :
    Edits data block f.streamId c (c.processRst f).state := by
  unfold processRst
  simp only
  split
  · exact .refl
  · rename_i s hs
    split
    · exact .refl
    · split
      · exact edits_setStream hs ⟨rfl, rfl, rfl, rfl, fun _ => rfl, fun _ => rfl, fun _ => rfl⟩
      · split
        all_goals exact edits_setStream hs ⟨rfl, rfl, rfl, rfl, fun _ => rfl, fun _ => rfl, fun _ => rfl⟩

/-! ## DATA -/

theorem replenish_initial (w : RecvWindow) (n : Nat) : (w.replenish n).2.initial = w.initial := by
  unfold RecvWindow.replenish
  simp only
  split <;> rfl

theorem replenish_frame {w : RecvWindow} {n : Nat} {f : Frame} (h : (w.replenish n).1 = some f) :
    ∃ inc, f = windowUpdateFrame n inc := by
  unfold RecvWindow.replenish at h
  simp only at h
  split at h
  · cases h
    exact ⟨_, rfl⟩
  · cases h

theorem edits_writeUpdate (c : Connection) {target : Nat} (inc : Nat)
    (ht : target = 0 ∨ target = id) :
    Edits true block id c (c.writeFrame (windowUpdateFrame target inc)).state := by
  obtain ⟨fs, h | ⟨e, h⟩⟩ := c.writeFrame_cases (windowUpdateFrame target inc) <;> rw [h]
  · exact (Edit.faults c fs).edits.trans (Edit.announced _ target inc ht rfl).edits
  · exact (Edit.faults c fs).edits

theorem edits_announce (c : Connection) (w : RecvWindow) {target : Nat}
    (ht : target = 0 ∨ target = id) :
    Edits true block id c (c.announce (w.replenish target).1).state := by
  unfold announce
  split
  · rename_i f hf
    obtain ⟨inc, rfl⟩ := replenish_frame hf
    exact edits_writeUpdate c inc ht
  · exact .refl

theorem edits_replenishWindows (c : Connection) :
    Edits true block id c (c.replenishWindows id).state := by
  unfold replenishWindows
  simp only
  refine .trans (Edit.recvWindow c _ (replenish_initial _ 0) rfl).edits ?_
  refine (edits_announce _ _ (.inl rfl)).andThen fun _ c₁ _ => ?_
  split
  · exact edits_flush c₁
  · rename_i s hs
    refine Edits.andThen (.trans ?_ (edits_announce _ _ (.inr rfl))) fun _ c₂ _ => edits_flush c₂
    exact edits_setStream hs ⟨rfl, rfl, rfl, replenish_initial _ id, by simp, fun _ => rfl,
      fun _ => rfl⟩

theorem edits_writeSink (c : Connection) (bytes : Bytes) :
    Edits true block id c (c.writeSink bytes).state := by
  obtain ⟨fs, h | ⟨e, h⟩⟩ := c.flush_cases
  all_goals
    unfold flush Transport.flush at h
    unfold writeSink
    rw [h]
  · exact (Edit.faults c fs).edits.trans (Edit.sink _ bytes rfl).edits
  · exact (Edit.faults c fs).edits

theorem edits_acceptData {f : Frame} {s : Stream} (hs : c.streams[f.streamId]? = some s)
    (newState : StreamState) (payload : Bytes) (sink : Bool) :
    Edits true block f.streamId c (c.acceptData f s newState payload sink).state := by
  unfold acceptData
  simp only
  split
  · exact .refl
  · refine Edits.andThen ?_ fun _ c₁ hc₁ => ?_
    · split
      · exact edits_writeSink c payload
      · exact .refl
    · have hs₁ : c₁.streams[f.streamId]? = some s := by
        split at hc₁
        · obtain ⟨fs, h | ⟨e, h⟩⟩ := c.flush_cases
          all_goals
            unfold flush Transport.flush at h
            unfold writeSink at hc₁
            rw [h] at hc₁
            cases hc₁
          exact hs
        · cases hc₁
          exact hs
      refine Edits.andThen (.trans ?_ (edits_checkContentLength _)) fun _ c₂ _ => ?_
      · refine .trans ?_ (Edit.progress _ _).edits
        refine edits_setStream hs₁ ?_
        split <;> exact ⟨rfl, rfl, rfl, rfl, by simp, fun _ => rfl, fun _ => rfl⟩
      · exact Edits.andThen (edits_replenishWindows c₂) fun _ c₃ _ => .refl

theorem edits_dropData (c : Connection) : Edits true block id c c.dropData.state := by
  unfold dropData
  split
  · exact .refl
  · rename_i upd w heq
    have hinit := replenish_initial c.connRecvWindow 0
    rw [heq] at hinit
    obtain ⟨inc, rfl⟩ := replenish_frame (congrArg Prod.fst heq)
    refine .trans (Edit.recvWindow c w hinit rfl).edits ?_
    exact (edits_writeUpdate _ inc (.inl rfl)).andThen fun _ c₁ _ =>
      (edits_flush c₁).andThen fun _ _ _ => .refl

theorem edits_processData (c : Connection) (f : Frame) (sink : Bool) :
    Edits true block f.streamId c (c.processData f sink).state := by
  unfold processData
  simp only
  refine .trans (Edit.recvWindow c (c.connRecvWindow.consume f.payload.length) rfl rfl).edits ?_
  split
  · exact .refl
  · split
    · exact edits_dropData _
    · rename_i s hs
      split
      · exact .refl
      · split
        · exact .refl
        · have hbill : Edits true block f.streamId
              { c with connRecvWindow := c.connRecvWindow.consume f.payload.length }
              ({ c with connRecvWindow := c.connRecvWindow.consume f.payload.length }.setStream
                f.streamId { s with
                  rxAny := true, recvWindow := s.recvWindow.consume f.payload.length }) :=
            edits_setStream hs ⟨rfl, rfl, rfl, rfl, by simp, fun _ => rfl, fun _ => rfl⟩
          split
          · exact hbill
          · split
            · exact hbill
            · split
              · exact hbill.trans (edits_streamError _ _)
              · exact hbill.trans (edits_acceptData (by simp) _ _ _)

/-! ## The sending side of frames -/

/-- One change made by SETTINGS, PING, GOAWAY, WINDOW_UPDATE or the flood budgets. -/
inductive ConnEdit : Connection → Connection → Prop where
  | peer (c : Connection) (peer : PeerSettings) : ConnEdit c { c with peer }
  | sendWindow (c : Connection) (w : ConnSendWindow) : ConnEdit c { c with connSendWindow := w }
  | streamWindow {c : Connection} {id : Nat} {s : Stream} (h : c.streams[id]? = some s)
      (w : StreamSendWindow) : ConnEdit c (c.setStream id { s with sendWindow := w })
  | encoder (c : Connection) (encoder : Encoder) : ConnEdit c { c with encoder }
  | goaway (c : Connection) (last : Nat) : ConnEdit c (c.applyGoaway last)
  | progress (c : Connection) (madeProgress : Bool) : ConnEdit c { c with madeProgress }
  | budget (c : Connection) (budget : FloodBudget) : ConnEdit c { c with budget }
  | faults (c : Connection) (fs : List (Option (IoErrorKind × String))) :
      ConnEdit c (c.withFaults fs)
  | replied (c : Connection) (f : Frame) (hf : f.typ = .settings ∨ f.typ = .ping) :
      ConnEdit c (c.logged (.sent f))

abbrev ConnEdits : Connection → Connection → Prop := Relation.ReflTransGen ConnEdit

theorem ConnEdit.edits (h : ConnEdit c c') : ConnEdits c c' := .single h

theorem ConnEdits.andThen {α β : Type} {r : Outcome Connection α}
    {f : α → Connection → Outcome Connection β} (hr : ConnEdits c r.state)
    (hf : ∀ a c₁, r = .ok a c₁ → ConnEdits c₁ (f a c₁).state) :
    ConnEdits c (r.andThen f).state := by
  cases r with
  | ok a c₁ => exact hr.trans (hf a c₁ rfl)
  | error e c₁ => exact hr

theorem connEdits_flush (c : Connection) : ConnEdits c c.flush.state := by
  obtain ⟨fs, h⟩ := c.flush_state
  rw [h]
  exact (ConnEdit.faults c fs).edits

theorem connEdits_reply (c : Connection) {f : Frame} (hf : f.typ = .settings ∨ f.typ = .ping) :
    ConnEdits c (c.writeFrame f).state := by
  obtain ⟨fs, h | ⟨e, h⟩⟩ := c.writeFrame_cases f <;> rw [h]
  · exact (ConnEdit.faults c fs).edits.trans (ConnEdit.replied _ f hf).edits
  · exact (ConnEdit.faults c fs).edits

theorem connEdits_applyInitialWindow (c : Connection) (newInitial : Nat) :
    ConnEdits c (c.applyInitialWindow newInitial).state := by
  unfold applyInitialWindow
  generalize c.streams.keys = ids
  induction ids generalizing c with
  | nil => exact .refl
  | cons id ids ih =>
    rw [Outcome.forEach]
    refine ConnEdits.andThen ?_ fun _ c₁ _ => ih c₁
    split
    · exact .refl
    · rename_i s hs
      split
      · exact .refl
      · exact (ConnEdit.streamWindow hs _).edits

theorem connEdits_applySettings (c : Connection) (payload : Bytes) :
    ConnEdits c (c.applySettings payload).state := by
  unfold applySettings
  simp only
  refine ConnEdits.andThen ?_ fun _ c₁ _ => ?_
  · cases c.peer.applySettingsPayload payload with
    | ok _ p => exact (ConnEdit.peer c p).edits
    | error _ p => exact (ConnEdit.peer c p).edits
  · refine ConnEdits.andThen ?_ fun _ c₂ _ => ?_
    · split
      · exact connEdits_applyInitialWindow c₁ _
      · exact .refl
    · refine ConnEdits.andThen (.trans ?_ (connEdits_reply _ (.inl rfl))) fun _ c₃ _ =>
        connEdits_flush c₃
      split
      · exact (ConnEdit.encoder c₂ _).edits
      · exact .refl

theorem connEdits_processConnFrame (c : Connection) (f : Frame) :
    ConnEdits c (c.processConnFrame f).state := by
  unfold processConnFrame
  cases f.typ with
  | settings =>
    simp only
    split
    · split <;> exact .refl
    · exact (connEdits_applySettings c _).andThen fun _ _ _ => .refl
  | ping =>
    simp only
    split
    · exact .refl
    · split
      · exact .refl
      · exact ConnEdits.andThen (connEdits_reply c (.inr rfl)) fun _ c₁ _ =>
          ConnEdits.andThen (connEdits_flush c₁) fun _ _ _ => .refl
  | goaway =>
    simp only
    split
    · exact .refl
    · exact (ConnEdit.goaway c _).edits
  | windowUpdate =>
    simp only
    split
    · exact .refl
    · split
      · exact .refl
      · rename_i w _
        exact (ConnEdit.sendWindow c w).edits.trans (ConnEdit.progress _ true).edits
  | _ => exact .refl

theorem connEdits_processStreamWindowUpdate (c : Connection) (f : Frame) :
    ConnEdits c (c.processStreamWindowUpdate f).state := by
  unfold processStreamWindowUpdate
  split
  · exact .refl
  · split
    · exact .refl
    · rename_i s hs
      split
      · exact .refl
      · rename_i w _
        exact (ConnEdit.streamWindow hs w).edits.trans (ConnEdit.progress _ true).edits

/-! ## Whole frames -/

theorem edits_processStreamFrame (c : Connection) (f : Frame) (sink : Bool)
    (hf : f.typ ≠ .windowUpdate) :
    Edits (f.typ == .data) (f.typ == .headers || f.typ == .continuation) f.streamId c (c.processStreamFrame f sink).state := by
  unfold processStreamFrame
  cases htyp : f.typ with
  | data => exact edits_processData c f sink
  | headers => exact edits_processHeaders c f
  | continuation => exact edits_processContinuation c f
  | rstStream =>
    simp only
    split
    · exact .refl
    · exact edits_processRst c f
  | priority =>
    simp only
    split <;> exact .refl
  | windowUpdate => exact absurd htyp hf
  | _ => exact .refl

/-- The ways a frame gets past the continuation gate and the flood budget. -/
theorem processFrame_cases (c : Connection) (f : Frame) (sink : Bool) :
    (∃ e, c.processFrame f sink = .error e c) ∨
      (∃ e b, c.processFrame f sink = .error e { c with budget := b }) ∨
      ∃ b, c.continuationGate f = .ok () ∧
        c.budget.recordControlFrame f = .ok () b ∧
        c.processFrame f sink =
          ({ c with budget := b, madeProgress := false }.dispatch f sink).andThen
            fun outcome c => c.recordProgress outcome := by
  unfold processFrame
  cases c.continuationGate f with
  | error e => exact .inl ⟨e, rfl⟩
  | ok _ =>
    cases c.budget.recordControlFrame f with
    | error e b => exact .inr (.inl ⟨e, b, rfl⟩)
    | ok _ b => exact .inr (.inr ⟨b, rfl, rfl, rfl⟩)

theorem recordProgress_state (c : Connection) (outcome : DispatchOutcome) :
    ∃ b, (c.recordProgress outcome).state = { c with budget := b } := by
  unfold recordProgress
  cases c.budget.recordProgress (c.madeProgress || outcome != .continue) with
  | ok _ b => exact ⟨b, rfl⟩
  | error _ b => exact ⟨b, rfl⟩

/-- One change made while frame `f` is processed. -/
inductive FrameStep (f : Frame) (c c' : Connection) : Prop where
  | stream (h : Edit (f.typ == .data) (f.typ == .headers || f.typ == .continuation) f.streamId c c')
  | conn (h : ConnEdit c c')

abbrev FrameSteps (f : Frame) : Connection → Connection → Prop :=
  Relation.ReflTransGen (FrameStep f)

theorem ConnEdits.frameSteps {f : Frame} (h : ConnEdits c c') : FrameSteps f c c' := by
  induction h with
  | refl => exact .refl
  | tail _ hstep ih => exact ih.tail (.conn hstep)

theorem Edits.frameSteps {f : Frame}
    (h : Edits (f.typ == .data) (f.typ == .headers || f.typ == .continuation) f.streamId c c') :
    FrameSteps f c c' := by
  induction h with
  | refl => exact .refl
  | tail _ hstep ih => exact ih.tail (.stream hstep)

theorem frameSteps_dispatch (c : Connection) (f : Frame) (sink : Bool) :
    FrameSteps f c (c.dispatch f sink).state := by
  unfold dispatch
  split
  · exact (connEdits_processConnFrame c f).frameSteps
  · by_cases hf : f.typ = .windowUpdate
    · simp only [processStreamFrame, hf]
      exact (connEdits_processStreamWindowUpdate c f).frameSteps
    · exact (edits_processStreamFrame c f sink hf).frameSteps

/-- Whatever a frame does is a sequence of steps, whether it is accepted or not. -/
theorem frameSteps_processFrame (c : Connection) (f : Frame) (sink : Bool) :
    FrameSteps f c (c.processFrame f sink).state := by
  obtain ⟨e, h⟩ | ⟨e, b, h⟩ | ⟨b, -, -, h⟩ := c.processFrame_cases f sink <;> rw [h]
  · exact .refl
  · exact .single (.conn (.budget c b))
  · have hstart : FrameSteps f c { c with budget := b, madeProgress := false } :=
      .tail (.single (.conn (.budget c b))) (.conn (.progress _ false))
    have hd := frameSteps_dispatch { c with budget := b, madeProgress := false } f sink
    refine hstart.trans (hd.trans ?_)
    cases { c with budget := b, madeProgress := false }.dispatch f sink with
    | error e c₁ => exact .refl
    | ok outcome c₁ =>
      obtain ⟨b', hb'⟩ := c₁.recordProgress_state outcome
      simp only [Outcome.andThen, Outcome.state] at hb' ⊢
      rw [hb']
      exact .single (.conn (.budget c₁ b'))

end Connection

/-! ## What every frame carries over -/

/-- The part of a stream no inbound frame touches. -/
def Stream.sendPart (s : Stream) : Option PendingBody × Bool × Int :=
  (s.pendingBody, s.headRequest, s.recvWindow.initial)

/-- A frame the client writes in answer to an inbound frame. -/
def Frame.isReply (f : Frame) : Bool :=
  match f.typ with
  | .settings | .ping | .windowUpdate | .rstStream => true
  | _ => false

namespace Connection

variable {c c' c'' : Connection} {id : Nat} {data block : Bool}

/-- What no inbound frame changes: unread input, the id counter, the advertised windows, the
streams in the map and their sending side. The log grows by replies only. -/
structure Carried (c c' : Connection) : Prop where
  inbound : c'.tls.inbound = c.tls.inbound
  nextStreamId : c'.nextStreamId = c.nextStreamId
  ourRecvWindow : c'.ourRecvWindow = c.ourRecvWindow
  connInitial : c'.connRecvWindow.initial = c.connRecvWindow.initial
  streams : ∀ id : Nat, c'.streams[id]?.map Stream.sendPart = c.streams[id]?.map Stream.sendPart
  log : ∃ out : List Frame, c'.tls.log = c.tls.log ++ out.map .sent ∧ ∀ f ∈ out, f.isReply

theorem Carried.refl (c : Connection) : Carried c c :=
  ⟨rfl, rfl, rfl, rfl, fun _ => rfl, [], by simp⟩

theorem Carried.trans (h : Carried c c') (h' : Carried c' c'') : Carried c c'' := by
  obtain ⟨out, hout, hreply⟩ := h.log
  obtain ⟨out', hout', hreply'⟩ := h'.log
  refine ⟨h'.inbound.trans h.inbound, h'.nextStreamId.trans h.nextStreamId,
    h'.ourRecvWindow.trans h.ourRecvWindow, h'.connInitial.trans h.connInitial,
    fun id => (h'.streams id).trans (h.streams id), out ++ out', ?_, ?_⟩
  · rw [hout', hout, List.map_append, List.append_assoc]
  · intro f hf
    rcases List.mem_append.mp hf with hf | hf
    · exact hreply f hf
    · exact hreply' f hf

theorem carried_logged (c : Connection) {f : Frame} (hf : f.isReply) :
    Carried c (c.logged (.sent f)) :=
  ⟨rfl, rfl, rfl, rfl, fun _ => rfl, [f], rfl, by simpa using hf⟩

theorem carried_setStream {s s' : Stream} (h : c.streams[id]? = some s)
    (hs : s'.sendPart = s.sendPart) : Carried c (c.setStream id s') := by
  refine ⟨rfl, rfl, rfl, rfl, fun k => ?_, [], by simp [setStream], by simp⟩
  rw [getElem?_setStream]
  split
  · rename_i hk
    subst hk
    simp [h, hs]
  · rfl

theorem Edit.carried (h : Edit data block id c c') : Carried c c' := by
  cases h with
  | stream h e =>
    refine carried_setStream h ?_
    simp only [Stream.sendPart, e.pendingBody, e.headRequest, e.recvInitial]
  | reset => exact carried_logged c rfl
  | announced target inc => exact carried_logged c rfl
  | recvWindow w hw => exact ⟨rfl, rfl, rfl, hw, fun _ => rfl, [], by simp⟩
  | _ => exact ⟨rfl, rfl, rfl, rfl, fun _ => rfl, [], by simp [withFaults]⟩

theorem ConnEdit.carried (h : ConnEdit c c') : Carried c c' := by
  cases h with
  | streamWindow h w => exact carried_setStream h rfl
  | replied f hf =>
    refine carried_logged c ?_
    rcases hf with hf | hf <;> simp [Frame.isReply, hf]
  | goaway last =>
    refine ⟨rfl, rfl, rfl, rfl, fun k => ?_, [], by simp [applyGoaway], by simp⟩
    simp only [applyGoaway, Std.ExtTreeMap.getElem?_map, Option.map_map]
    congr 1
    funext s
    simp only [Function.comp]
    split <;> rfl
  | _ => exact ⟨rfl, rfl, rfl, rfl, fun _ => rfl, [], by simp [withFaults]⟩

theorem FrameSteps.carried {f : Frame} (h : FrameSteps f c c') : Carried c c' := by
  induction h with
  | refl => exact .refl c
  | tail _ hstep ih =>
    rcases hstep with hstep | hstep
    · exact ih.trans hstep.carried
    · exact ih.trans hstep.carried

theorem carried_processFrame (c : Connection) (f : Frame) (sink : Bool) :
    Carried c (c.processFrame f sink).state :=
  (frameSteps_processFrame c f sink).carried

/-! ## Reading -/

/-- The connection once a frame has been read. -/
def received (c : Connection) (f : Frame) (rest : List Inbound) : Connection :=
  { c with tls := { c.tls with inbound := rest, log := c.tls.log ++ [.recv f] } }

/-- The connection once a read has failed. -/
def readFailed (c : Connection) (rest : List Inbound) : Connection :=
  { c with tls := { c.tls with inbound := rest } }

theorem readAndDispatch_cases (c : Connection) (sink : Bool) :
    (c.tls.inbound = [] ∧ c.readAndDispatch sink = .error .unexpectedEof c) ∨
      (∃ kind msg rest e, c.tls.inbound = .failed kind msg :: rest ∧
        c.readAndDispatch sink = .error e (c.readFailed rest)) ∨
      ∃ f rest, c.tls.inbound = .frame f :: rest ∧
        c.readAndDispatch sink = (c.received f rest).processFrame f sink := by
  unfold readAndDispatch Transport.readFrame
  cases hin : c.tls.inbound with
  | nil => exact .inl ⟨rfl, rfl⟩
  | cons item rest =>
    cases item with
    | failed kind msg =>
      refine .inr (.inl ⟨kind, msg, rest, ?_⟩)
      cases kind
      case unexpectedEof => exact ⟨.unexpectedEof, rfl, rfl⟩
      all_goals exact ⟨_, rfl, rfl⟩
    | frame f => exact .inr (.inr ⟨f, rest, rfl, rfl⟩)

theorem readAndDispatch_inbound_le (c : Connection) (sink : Bool) :
    (c.readAndDispatch sink).state.tls.inbound.length ≤ c.tls.inbound.length := by
  obtain ⟨-, h⟩ | ⟨kind, msg, rest, e, hin, h⟩ | ⟨f, rest, hin, h⟩ := c.readAndDispatch_cases sink
  all_goals rw [h]
  · exact le_rfl
  · simp [hin, readFailed]
  · rw [(carried_processFrame _ f sink).inbound]
    simp [hin, received]

theorem readAndDispatch_inbound {sink : Bool} {outcome : DispatchOutcome}
    (h : c.readAndDispatch sink = .ok outcome c') :
    c'.tls.inbound.length < c.tls.inbound.length := by
  obtain ⟨-, h'⟩ | ⟨kind, msg, rest, e, hin, h'⟩ | ⟨f, rest, hin, h'⟩ :=
    c.readAndDispatch_cases sink
  all_goals rw [h'] at h
  · cases h
  · cases h
  · have hc := (carried_processFrame (c.received f rest) f sink).inbound
    rw [h] at hc
    simp only [Outcome.state] at hc
    simp [hc, hin, received]

end Connection

end Rsurl.Http2
