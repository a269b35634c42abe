import Rsurl.Http2.Accepted
import Rsurl.Http2.Reachable

/-!
# Send windows

What an inbound frame does to the windows the peer grants: WINDOW_UPDATE raises one of them,
SETTINGS shifts every stream's window by the change of the initial size, and no other frame
touches them.
-/

namespace Rsurl.Http2

open Library

/-- What a frame grants stream `id`, 0 being the connection. -/
def Frame.grants (id : Nat) (f : Frame) : Nat :=
  if f.typ = .windowUpdate ∧ f.streamId = id then (parseWindowUpdate f.payload).toOption.getD 0
  else 0

theorem Frame.grants_ok {f : Frame} {inc : Nat} (typ : f.typ = .windowUpdate)
    (h : parseWindowUpdate f.payload = .ok inc) : f.grants f.streamId = inc := by
  simp [grants, typ, h, Except.toOption]

namespace StreamSendWindow

variable {w w' : StreamSendWindow}

/-- The window after the initial size became `newInitial`. -/
def rebased (w : StreamSendWindow) (newInitial : Int) : StreamSendWindow :=
  ⟨w.available + (newInitial - w.initialPeerWindow), newInitial⟩

theorem applyInitialWindowChange_ok {newInitial : Nat}
    (h : w.applyInitialWindowChange newInitial = .ok w') :
    w' = w.rebased newInitial ∧ w'.available ≤ windowMax := by
  unfold applyInitialWindowChange at h
  simp only at h
  split at h
  · cases h
  · cases h
    exact ⟨rfl, Int.not_lt.mp ‹_›⟩

theorem applyWindowUpdate_ok {inc : Nat} (h : w.applyWindowUpdate inc = .ok w') :
    0 < inc ∧ w' = { w with available := w.available + inc } ∧ w'.available ≤ windowMax := by
  unfold applyWindowUpdate at h
  split at h
  · cases h
  · simp only at h
    split at h
    · cases h
    · cases h
      exact ⟨by omega, rfl, Int.not_lt.mp ‹_›⟩

end StreamSendWindow

theorem ConnSendWindow.applyWindowUpdate_ok {w w' : ConnSendWindow} {inc : Nat}
    (h : w.applyWindowUpdate inc = .ok w') :
    0 < inc ∧ w'.available = w.available + inc ∧ w'.available ≤ windowMax := by
  unfold applyWindowUpdate at h
  split at h
  · cases h
  · simp only at h
    split at h
    · cases h
    · cases h
      exact ⟨by omega, rfl, Int.not_lt.mp ‹_›⟩

namespace Connection

variable {c c' c'' : Connection} {id : Nat} {data block : Bool}

/-! ## Frames that leave the windows alone -/

structure SameWindows (c c' : Connection) : Prop where
  peer : c'.peer = c.peer
  conn : c'.connSendWindow = c.connSendWindow
  streams : ∀ id : Nat, c'.streams[id]?.map Stream.sendWindow = c.streams[id]?.map Stream.sendWindow

theorem SameWindows.refl (c : Connection) : SameWindows c c := ⟨rfl, rfl, fun _ => rfl⟩

theorem SameWindows.trans (h : SameWindows c c') (h' : SameWindows c' c'') : SameWindows c c'' :=
  ⟨h'.peer.trans h.peer, h'.conn.trans h.conn, fun id => (h'.streams id).trans (h.streams id)⟩

theorem sameWindows_setStream {s s' : Stream} (h : c.streams[id]? = some s)
    (hs : s'.sendWindow = s.sendWindow) : SameWindows c (c.setStream id s') := by
  refine ⟨rfl, rfl, fun k => ?_⟩
  rw [getElem?_setStream]
  split
  · rename_i hk
    subst hk
    simp [h, hs]
  · rfl

theorem Edits.sameWindows (h : Edits data block id c c') :
    SameWindows c c' ∧ c'.budget = c.budget := by
  induction h with
  | refl => exact ⟨.refl c, rfl⟩
  | tail _ hstep ih =>
    obtain ⟨hsame, hbudget⟩ := ih
    cases hstep with
    | stream h e => exact ⟨hsame.trans (sameWindows_setStream h e.sendWindow), hbudget⟩
    | _ => exact ⟨hsame.trans ⟨rfl, rfl, fun _ => rfl⟩, hbudget⟩

/-! ## SETTINGS -/

/-- Every stream measures its window against the peer's initial size. -/
def Uniform (c : Connection) : Prop :=
  ∀ (id : Nat) (s : Stream), c.streams[id]? = some s →
    s.sendWindow.initialPeerWindow = c.peer.initialWindowSize

theorem Uniform.same (h : Uniform c) (hs : SameWindows c c') : Uniform c' := by
  intro id s hid
  have hview := hs.streams id
  rw [hid, Option.map_some] at hview
  obtain ⟨s₀, hid₀, heq⟩ := Option.map_eq_some_iff.mp hview.symm
  rw [← heq, hs.peer]
  exact h id s₀ hid₀

/-- The streams of a list are rebased one after the other; nothing else changes. -/
theorem forEach_rebase {newInitial : Nat} (ids : List Nat) (hids : ids.Nodup) {u : Unit}
    (h : Outcome.forEach ids (fun id c =>
      match c.streams[id]? with
      | none => .ok () c
      | some s => match s.sendWindow.applyInitialWindowChange newInitial with
        | .error e => .error e c
        | .ok w => .ok () (c.setStream id { s with sendWindow := w })) c = .ok u c') :
    (∃ streams, c' = { c with streams }) ∧
      (∀ k : Nat, k ∉ ids → c'.streams[k]? = c.streams[k]?) ∧
      ∀ k ∈ ids, ∀ s, c.streams[k]? = some s → ∃ s', c'.streams[k]? = some s' ∧
        s'.sendWindow = s.sendWindow.rebased newInitial ∧ s'.sendWindow.available ≤ windowMax := by
  induction ids generalizing c with
  | nil =>
    cases h
    exact ⟨⟨_, rfl⟩, fun _ _ => rfl, by simp⟩
  | cons id ids ih =>
    rw [Outcome.forEach] at h
    obtain ⟨_, c₁, hstep, hrest⟩ := Outcome.andThen_eq_ok.mp h
    obtain ⟨hnot, hnodup⟩ := List.nodup_cons.mp hids
    obtain ⟨⟨streams, hc'⟩, hout, hin⟩ := ih hnodup hrest
    have hone : (∃ streams, c₁ = { c with streams }) ∧
        (∀ k : Nat, k ≠ id → c₁.streams[k]? = c.streams[k]?) ∧
        ∀ s, c.streams[id]? = some s → ∃ s', c₁.streams[id]? = some s' ∧
          s'.sendWindow = s.sendWindow.rebased newInitial ∧
          s'.sendWindow.available ≤ windowMax := by
      split at hstep
      · rename_i hnone
        cases hstep
        exact ⟨⟨_, rfl⟩, fun _ _ => rfl, fun s hs => by simp [hnone] at hs⟩
      · rename_i s hs
        split at hstep
        · cases hstep
        · rename_i w hw
          cases hstep
          obtain ⟨rfl, hmax⟩ := StreamSendWindow.applyInitialWindowChange_ok hw
          refine ⟨⟨_, rfl⟩, fun k hk => ?_, fun t ht => ?_⟩
          · rw [getElem?_setStream, if_neg (Ne.symm hk)]
          · rw [hs] at ht
            cases ht
            exact ⟨_, getElem?_setStream_self _ _ _, rfl, hmax⟩
    obtain ⟨⟨streams₁, hc₁⟩, hout₁, hin₁⟩ := hone
    refine ⟨⟨streams, by rw [hc', hc₁]⟩, fun k hk => ?_, fun k hk s hs => ?_⟩
    · rw [List.mem_cons, not_or] at hk
      rw [hout k hk.2, hout₁ k hk.1]
    · rcases List.mem_cons.mp hk with rfl | hk
      · obtain ⟨s', hs', hw⟩ := hin₁ s hs
        exact ⟨s', (hout k hnot).trans hs', hw⟩
      · have hne : k ≠ id := fun heq => hnot (heq ▸ hk)
        exact hin k hk s ((hout₁ k hne).trans hs)

/-- What an accepted SETTINGS payload does to the windows. -/
structure Rebased (c c' : Connection) : Prop where
  conn : c'.connSendWindow = c.connSendWindow
  budget : c'.budget = c.budget
  streams : ∀ (id : Nat) (s : Stream), c.streams[id]? = some s → ∃ s', c'.streams[id]? = some s' ∧
    s'.sendWindow = s.sendWindow.rebased c'.peer.initialWindowSize ∧
    (s.sendWindow.available ≤ windowMax → s'.sendWindow.available ≤ windowMax)

theorem applySettings_ok {payload : Bytes} {u : Unit} (hc : Uniform c)
    (h : c.applySettings payload = .ok u c') :
    Rebased c c' ∧ c'.madeProgress = c.madeProgress := by
  unfold applySettings at h
  simp only at h
  obtain ⟨_, c₁, hpeer, h⟩ := Outcome.andThen_eq_ok.mp h
  obtain ⟨_, c₂, hshift, h⟩ := Outcome.andThen_eq_ok.mp h
  obtain ⟨_, c₃, hack, hflush⟩ := Outcome.andThen_eq_ok.mp h
  obtain ⟨peer, rfl⟩ : ∃ peer, c₁ = { c with peer } := by
    cases hp : c.peer.applySettingsPayload payload with
    | error e p =>
      rw [hp] at hpeer
      cases hpeer
    | ok _ p =>
      rw [hp] at hpeer
      cases hpeer
      exact ⟨p, rfl⟩
  have hrebased : (∃ streams, c₂ = { c with peer, streams }) ∧ ∀ (id : Nat) (s : Stream),
      c.streams[id]? = some s → ∃ s', c₂.streams[id]? = some s' ∧
        s'.sendWindow = s.sendWindow.rebased peer.initialWindowSize ∧
        (s.sendWindow.available ≤ windowMax → s'.sendWindow.available ≤ windowMax) := by
    split at hshift
    · unfold applyInitialWindow at hshift
      obtain ⟨⟨streams, hc₂⟩, -, hin⟩ := forEach_rebase _ Std.ExtTreeMap.nodup_keys hshift
      refine ⟨⟨streams, hc₂⟩, fun id s hs => ?_⟩
      have hmem : id ∈ c.streams.keys := by
        rw [Std.ExtTreeMap.mem_keys, Std.ExtTreeMap.mem_iff_isSome_getElem?]
        simp [hs]
      obtain ⟨s', hs', hw, hmax⟩ := hin id hmem s hs
      exact ⟨s', hs', hw, fun _ => hmax⟩
    · rename_i hsame
      cases hshift
      have heq : (peer.initialWindowSize : Int) = c.peer.initialWindowSize := by
        simpa using hsame
      refine ⟨⟨_, rfl⟩, fun id s hs => ⟨s, hs, ?_, fun hmax => hmax⟩⟩
      rw [heq, ← hc id s hs]
      simp [StreamSendWindow.rebased]
  obtain ⟨⟨streams, rfl⟩, hstreams⟩ := hrebased
  obtain ⟨fs, rfl⟩ := writeFrame_ok hack
  obtain ⟨fs', rfl⟩ := flush_ok hflush
  split
  all_goals exact ⟨⟨rfl, rfl, hstreams⟩, rfl⟩

/-! ## Any frame -/

/-- What an accepted frame does to the send windows. -/
inductive Regrants (f : Frame) (c c' : Connection) : Prop where
  | same (h : SameWindows c c')
      (hgone : f.typ = .windowUpdate → f.streamId ≠ 0 ∧ c.streams[f.streamId]? = none)
  | conn (hid : f.streamId = 0) (hpos : 0 < f.grants 0)
      (havail : c'.connSendWindow.available = c.connSendWindow.available + f.grants 0)
      (hmax : c'.connSendWindow.available ≤ windowMax) (hpeer : c'.peer = c.peer)
      (hstreams : c'.streams = c.streams)
  | stream {s : Stream} (hs : c.streams[f.streamId]? = some s) (hid : f.streamId ≠ 0)
      (hpos : 0 < f.grants f.streamId)
      (hmax : s.sendWindow.available + f.grants f.streamId ≤ windowMax) (hpeer : c'.peer = c.peer)
      (hconn : c'.connSendWindow = c.connSendWindow)
      (hstreams : c'.streams = (c.setStream f.streamId { s with
        sendWindow := { s.sendWindow with
          available := s.sendWindow.available + f.grants f.streamId } }).streams)
  | settings (typ : f.typ = .settings) (hack : f.ack = false) (h : Rebased c c')

theorem processConnFrame_windows {f : Frame} {outcome : DispatchOutcome} (hc : Uniform c)
    (hid : f.streamId = 0) (h : c.processConnFrame f = .ok outcome c') :
    Regrants f c c' ∧ c'.budget = c.budget := by
  unfold processConnFrame at h
  cases htyp : f.typ with
  | settings =>
    simp only [htyp] at h
    split at h
    · split at h
      · cases h
        exact ⟨.same (.refl c) (by simp [htyp]), rfl⟩
      · cases h
    · rename_i hack
      obtain ⟨_, c₁, hset, h⟩ := Outcome.andThen_eq_ok.mp h
      cases h
      have hrebased := (applySettings_ok hc hset).1
      exact ⟨.settings htyp (by simpa using hack) hrebased, hrebased.budget⟩
  | ping =>
    simp only [htyp] at h
    split at h
    · cases h
    · split at h
      · cases h
        exact ⟨.same (.refl c) (by simp [htyp]), rfl⟩
      · obtain ⟨_, c₁, hw, h⟩ := Outcome.andThen_eq_ok.mp h
        obtain ⟨_, c₂, hf, h⟩ := Outcome.andThen_eq_ok.mp h
        cases h
        obtain ⟨fs, rfl⟩ := writeFrame_ok hw
        obtain ⟨fs', rfl⟩ := flush_ok hf
        exact ⟨.same ⟨rfl, rfl, fun _ => rfl⟩ (by simp [htyp]), rfl⟩
  | goaway =>
    simp only [htyp] at h
    split at h
    · cases h
    · cases h
      refine ⟨.same ⟨rfl, rfl, fun k => ?_⟩ (by simp [htyp]), rfl⟩
      simp only [applyGoaway, Std.ExtTreeMap.getElem?_map, Option.map_map]
      congr 1
      funext s
      simp only [Function.comp]
      split <;> rfl
  | windowUpdate =>
    simp only [htyp] at h
    split at h
    · cases h
    · rename_i inc hinc
      split at h
      · cases h
      · rename_i w hw
        cases h
        obtain ⟨hpos, havail, hmax⟩ := ConnSendWindow.applyWindowUpdate_ok hw
        have hgrants : f.grants 0 = inc := by
          have := Frame.grants_ok htyp hinc
          rwa [hid] at this
        exact ⟨.conn hid (by omega) (by rw [hgrants]; exact havail) hmax rfl rfl, rfl⟩
  | unknown code =>
    simp only [htyp] at h
    cases h
    exact ⟨.same (.refl c) (by simp [htyp]), rfl⟩
  | _ =>
    simp only [htyp] at h
    cases h

theorem processStreamFrame_windows {f : Frame} {sink : Bool} {outcome : DispatchOutcome}
    (hid : f.streamId ≠ 0) (h : c.processStreamFrame f sink = .ok outcome c') :
    Regrants f c c' ∧ c'.budget = c.budget := by
  by_cases htyp : f.typ = .windowUpdate
  · simp only [processStreamFrame, htyp, processStreamWindowUpdate] at h
    split at h
    · cases h
    · rename_i inc hinc
      have hgrants := Frame.grants_ok htyp hinc
      split at h
      · rename_i hnone
        cases h
        exact ⟨.same (.refl c) fun _ => ⟨hid, hnone⟩, rfl⟩
      · rename_i s hs
        split at h
        · cases h
        · rename_i w hw
          cases h
          obtain ⟨hpos, rfl, hmax⟩ := StreamSendWindow.applyWindowUpdate_ok hw
          exact ⟨.stream hs hid (by omega) (by rw [hgrants]; exact hmax) rfl rfl
            (by rw [hgrants]), rfl⟩
  · have hedits := edits_processStreamFrame c f sink htyp
    rw [h] at hedits
    exact ⟨.same hedits.sameWindows.1 fun typ => absurd typ htyp, hedits.sameWindows.2⟩

theorem dispatch_windows {f : Frame} {sink : Bool} {outcome : DispatchOutcome} (hc : Uniform c)
    (h : c.dispatch f sink = .ok outcome c') : Regrants f c c' ∧ c'.budget = c.budget := by
  unfold dispatch at h
  split at h
  · exact processConnFrame_windows hc ‹_› h
  · exact processStreamFrame_windows ‹_› h

theorem Regrants.uniform {f : Frame} (h : Regrants f c c') (hids : SameIds c c') (hc : Uniform c) :
    Uniform c' := by
  cases h with
  | same h hgone => exact hc.same h
  | conn hid hpos havail hmax hpeer hstreams =>
    intro k s hk
    rw [hstreams] at hk
    rw [hpeer]
    exact hc k s hk
  | @stream s hs hid hpos hmax hpeer hconn hstreams =>
    intro k t hk
    rw [hstreams, getElem?_setStream] at hk
    rw [hpeer]
    split at hk
    · cases hk
      exact hc _ s hs
    · exact hc k t hk
  | settings typ hack h =>
    intro k t hk
    obtain ⟨s, hs⟩ := Option.isSome_iff_exists.mp (hids.streams k (by simp [hk]))
    obtain ⟨s', hs', hw, -⟩ := h.streams k s hs
    rw [hk] at hs'
    cases hs'
    rw [hw]
    rfl

end Connection

end Rsurl.Http2
