import Rsurl.Http2.Exchange
import Rsurl.Http2.SendWindows
import Rsurl.Http2.Standing

/-!
# A peer cannot keep an exchange going

Every frame that an exchange accepts and that does not end it uses something up. A frame without
progress uses the flood budget. Progress is a raised window, whose headroom only SETTINGS can give
back, and SETTINGS frames are counted; or a finished header block, of which there are finitely
many before the trailers; or body bytes, which are capped. One number puts these together.
-/

namespace Rsurl.Http2

open Library Hpack Text

/-! ## Flood budgets -/

theorem FloodBudget.recordControlFrame_ok {b b' : FloodBudget} {f : Frame} {u : Unit}
    (h : b.recordControlFrame f = .ok u b') :
    b'.noProgress = b.noProgress ∧
      (f.typ = .settings ∧ f.ack = false ∧ b'.settings = b.settings + 1 ∧
          b'.settings ≤ maxSettingsFrames ∨
        ¬(f.typ = .settings ∧ f.ack = false) ∧ b'.settings = b.settings) := by
  unfold recordControlFrame at h
  split at h
  · rename_i typ
    split at h
    · rename_i hack
      cases h
      exact ⟨rfl, .inr ⟨by simp [hack], rfl⟩⟩
    · rename_i hack
      simp only at h
      split at h
      · cases h
      · cases h
        exact ⟨rfl, .inl ⟨typ, by simpa using hack, rfl, Nat.not_lt.mp ‹_›⟩⟩
  · rename_i typ
    split at h
    · cases h
      exact ⟨rfl, .inr ⟨by simp [typ], rfl⟩⟩
    · simp only at h
      split at h
      · cases h
      · cases h
        exact ⟨rfl, .inr ⟨by simp [typ], rfl⟩⟩
  · rename_i typ
    simp only at h
    split at h
    · cases h
    · cases h
      exact ⟨rfl, .inr ⟨by simp [typ], rfl⟩⟩
  · rename_i typ _ _
    cases h
    exact ⟨rfl, .inr ⟨fun hs => typ hs.1, rfl⟩⟩

theorem FloodBudget.recordProgress_ok {b b' : FloodBudget} {made : Bool} {u : Unit}
    (h : b.recordProgress made = .ok u b') :
    b'.settings = b.settings ∧
      (made = true ∧ b'.noProgress = 0 ∨
        made = false ∧ b'.noProgress = b.noProgress + 1 ∧ b'.noProgress ≤ maxNoProgressFrames) := by
  unfold recordProgress at h
  split at h
  · rename_i hmade
    cases h
    exact ⟨rfl, .inl ⟨hmade, rfl⟩⟩
  · rename_i hmade
    simp only at h
    split at h
    · cases h
    · cases h
      exact ⟨rfl, .inr ⟨by simpa using hmade, rfl, Nat.not_lt.mp ‹_›⟩⟩

namespace Connection

variable {c c' : Connection} {id : Nat} {f : Frame} {outcome : DispatchOutcome}

/-- An accepted frame between its two bills. -/
theorem processFrame_billed (h : c.processFrame f false = .ok outcome c') :
    ∃ b c₁ b', c.budget.recordControlFrame f = .ok () b ∧
      { c with budget := b, madeProgress := false }.dispatch f false = .ok outcome c₁ ∧
      c₁.budget.recordProgress (c₁.madeProgress || outcome != .continue) = .ok () b' ∧
      c' = { c₁ with budget := b' } := by
  obtain ⟨e, hp⟩ | ⟨e, b, hp⟩ | ⟨b, -, hbill, hp⟩ := c.processFrame_cases f false
  all_goals rw [hp] at h
  · cases h
  · cases h
  · obtain ⟨o, c₁, hd, h⟩ := Outcome.andThen_eq_ok.mp h
    unfold recordProgress at h
    obtain ⟨_, c₂, hrec, h⟩ := Outcome.andThen_eq_ok.mp h
    cases h
    cases hb : c₁.budget.recordProgress (c₁.madeProgress || outcome != .continue) with
    | error e b' =>
      rw [hb] at hrec
      cases hrec
    | ok _ b' =>
      rw [hb] at hrec
      cases hrec
      exact ⟨b, c₁, b', hbill, hd, hb, rfl⟩

/-! ## What counts as progress -/

/-- The frames that can make progress: a raised window, a finished block, body bytes. -/
def Advancing (c : Connection) (f : Frame) : Prop :=
  f.typ = .windowUpdate ∧ (f.streamId = 0 ∨ c.streams[f.streamId]?.isSome) ∨
    (f.typ = .headers ∨ f.typ = .continuation) ∧ f.endHeaders = true ∨
    f.typ = .data ∧ c.streams[f.streamId]?.isSome ∧
      ∃ payload, dataPayload f = .ok payload ∧ payload ≠ []

theorem processHeaders_idle (h : c.processHeaders f = .ok outcome c') (hf : f.endHeaders = false) :
    c'.madeProgress = c.madeProgress := by
  unfold processHeaders at h
  split at h
  · cases h
  · split at h
    · cases h
    · split at h
      · simp only [headersOnClosed, hf, Bool.false_eq_true, if_false] at h
        split at h
        · cases h
        · cases h
          rfl
      · split at h
        · cases h
        · simp only at h
          split at h
          · cases h
          · simp only [hf, Bool.false_eq_true, if_false] at h
            cases h
            rfl

theorem processContinuation_idle (h : c.processContinuation f = .ok outcome c')
    (hf : f.endHeaders = false) : c'.madeProgress = c.madeProgress := by
  unfold processContinuation at h
  split at h
  · cases h
  · split at h
    · cases h
    · split at h
      · cases h
      · simp only [hf, Bool.false_eq_true, if_false] at h
        cases h
        rfl

theorem processData_idle (h : c.processData f false = .ok outcome c')
    (hf : c.streams[f.streamId]?.isSome → ∀ payload, dataPayload f = .ok payload → payload = []) :
    c'.madeProgress = c.madeProgress := by
  unfold processData at h
  simp only at h
  split at h
  · cases h
  · split at h
    · obtain ⟨-, fs, rfl⟩ := dropData_ok h
      rfl
    · rename_i s hs
      have hsome : c.streams[f.streamId]?.isSome := by
        rw [Option.isSome_iff_exists]
        exact ⟨s, hs⟩
      split at h
      · cases h
      · split at h
        · cases h
        · split at h
          · cases h
          · split at h
            · cases h
            · rename_i payload hpayload
              split at h
              · cases h
              · obtain ⟨fs, s', -, -, -, -, rfl⟩ := acceptData_ok h
                simp [hf hsome payload hpayload, setStream, wrote]

theorem processConnFrame_idle (hc : Uniform c) (h : c.processConnFrame f = .ok outcome c')
    (hf : f.typ ≠ .windowUpdate) : c'.madeProgress = c.madeProgress := by
  unfold processConnFrame at h
  cases htyp : f.typ with
  | settings =>
    simp only [htyp] at h
    split at h
    · split at h
      all_goals cases h
      rfl
    · obtain ⟨_, c₁, hset, h⟩ := Outcome.andThen_eq_ok.mp h
      cases h
      exact (applySettings_ok hc hset).2
  | ping =>
    simp only [htyp] at h
    split at h
    · cases h
    · split at h
      · cases h
        rfl
      · obtain ⟨_, c₁, hw, h⟩ := Outcome.andThen_eq_ok.mp h
        obtain ⟨_, c₂, hfl, h⟩ := Outcome.andThen_eq_ok.mp h
        cases h
        obtain ⟨fs, rfl⟩ := writeFrame_ok hw
        obtain ⟨fs', rfl⟩ := flush_ok hfl
        rfl
  | goaway =>
    simp only [htyp] at h
    split at h
    all_goals cases h
    rfl
  | windowUpdate => exact absurd htyp hf
  | unknown code =>
    simp only [htyp] at h
    cases h
    rfl
  | _ =>
    simp only [htyp] at h
    cases h

theorem processRst_idle (h : c.processRst f = .ok outcome c') :
    c'.madeProgress = c.madeProgress := by
  unfold processRst at h
  simp only at h
  repeat' split at h
  all_goals
    cases h
    try rfl

/-- A frame that is not advancing makes no progress. -/
theorem dispatch_idle (hc : Uniform c) (h : c.dispatch f false = .ok outcome c')
    (hf : ¬c.Advancing f) : c'.madeProgress = c.madeProgress := by
  simp only [Advancing, not_or, not_and] at hf
  obtain ⟨hwindow, hblock, hdata⟩ := hf
  unfold dispatch at h
  split at h
  · rename_i hid
    exact processConnFrame_idle hc h fun typ => (hwindow typ).1 hid
  · unfold processStreamFrame at h
    cases htyp : f.typ with
    | headers =>
      simp only [htyp] at h
      exact processHeaders_idle h (by simpa using hblock (.inl htyp))
    | continuation =>
      simp only [htyp] at h
      exact processContinuation_idle h (by simpa using hblock (.inr htyp))
    | data =>
      simp only [htyp] at h
      refine processData_idle h fun hsome payload hpayload => ?_
      by_contra hne
      exact hdata htyp hsome ⟨payload, hpayload, hne⟩
    | windowUpdate =>
      have hnone : c.streams[f.streamId]? = none := by
        simpa using (hwindow htyp).2
      simp only [htyp, processStreamWindowUpdate, hnone] at h
      split at h
      all_goals cases h
      rfl
    | rstStream =>
      simp only [htyp] at h
      split at h
      · cases h
      · exact processRst_idle h
    | priority =>
      simp only [htyp] at h
      split at h
      all_goals cases h
      rfl
    | unknown code =>
      simp only [htyp] at h
      cases h
      rfl
    | _ =>
      simp only [htyp] at h
      cases h

end Connection

/-! ## What a response may still take in -/

namespace Stream

variable {s s' : Stream} {f : Frame} {d d' : Decoder} {x x' : Option Nat}

/-- Interim heads, the final head and body bytes that may still come. -/
def room (s : Stream) : Nat :=
  (maxInterimResponses - s.interimCount) + (if s.finalStatus.isNone then 1 else 0) +
    (maxResponseBytes - s.body.length)

theorem TakesSection.room {decoded : List Header} (h : s.TakesSection decoded s')
    (hopen : ¬(s.finalStatus.isSome ∧ s.endStreamRecv = true)) : s'.room < s.room := by
  cases h with
  | trailers final ended hlen => exact absurd ⟨final, ended⟩ hopen
  | interim final ended few =>
    simp only [Stream.room]
    omega
  | head final hinfo status hs' hlen =>
    subst hs'
    simp [Stream.room, final]

/-- Every frame a response takes in leaves no more room, and one that brings something less. -/
theorem takes_room (h : s.Underway f.streamId x)
    (hhead : s.finalStatus.isSome → s.responseHeaders.isSome)
    (ht : Takes f (s, d, x) (s', d', x')) (hopen : s'.responseComplete = false) :
    s'.room ≤ s.room ∧
      ((f.typ = .headers ∨ f.typ = .continuation) ∧ f.endHeaders = true ∨
        f.typ = .data ∧ (∃ payload, Connection.dataPayload f = .ok payload ∧ payload ≠ []) →
        s'.room < s.room) := by
  have hsection {s₀ : Stream} {decoded : List Header} (hs₀ : s₀.TakesSection decoded s')
      (hsame : s₀.room = s.room)
      (hend : s₀.endStreamRecv = true → s₀.state.remoteDone = true)
      (hhead₀ : s₀.finalStatus.isSome → s₀.responseHeaders.isSome) : s'.room < s.room := by
    rw [← hsame]
    refine hs₀.room fun ⟨final, ended⟩ => ?_
    rw [hs₀.complete hhead₀ (hend ended) ended] at hopen
    cases hopen
  cases ht with
  | ignored typ => exact ⟨le_rfl, by simp [typ]⟩
  | window typ w => exact ⟨le_rfl, by simp [typ]⟩
  | finished typ ended head => exact ⟨le_rfl, by simp [typ]⟩
  | dropped typ closed endHeaders fragment hdec =>
    have := h.awaited (by simp [closed, StreamState.remoteDone])
    cases this
  | dropping typ closed endHeaders fragment => exact ⟨le_rfl, by simp [typ, endHeaders]⟩
  | first typ live endHeaders fragment hstate => exact ⟨le_rfl, by simp [typ, endHeaders]⟩
  | more typ endHeaders => exact ⟨le_rfl, by simp [typ, endHeaders]⟩
  | whole typ live endHeaders fragment hstate hdec hs₀ =>
    obtain ⟨hbefore, hafter, -⟩ := StreamState.recvHeaders_live hstate live
    have hlt := hsection hs₀ rfl (by simp [h.ended, hbefore, hafter]) hhead
    exact ⟨hlt.le, fun _ => hlt⟩
  | last typ endHeaders discard hdec hs₀ =>
    have hlt := hsection hs₀ rfl (fun hend => h.ended ▸ hend) hhead
    exact ⟨hlt.le, fun _ => hlt⟩
  | lastDropped typ endHeaders discard hdec =>
    rw [h.kept] at discard
    cases discard
  | @data _ _ _ _ payload _ _ typ hpayload final hstate hs' hlen hfits =>
    subst hs'
    simp only [List.length_append] at hfits
    refine ⟨by simp only [Stream.room, List.length_append]; omega, ?_⟩
    rintro (⟨htyp | htyp, -⟩ | ⟨-, payload', hpayload', hne⟩)
    · simp [typ] at htyp
    · simp [typ] at htyp
    · rw [hpayload] at hpayload'
      cases hpayload'
      have : 0 < payload.length := List.length_pos_iff.mpr hne
      simp only [Stream.room, List.length_append]
      omega

end Stream

/-! ## One read -/

/-- How far a window may still be raised. -/
def headroom (available : Int) : Nat := (windowMax - available).toNat

namespace Connection

variable {c c' : Connection} {id : Nat} {f : Frame} {outcome : DispatchOutcome}

/-- What the peer can still do that counts as progress, stream `s` being the only one. -/
def reserve (c : Connection) (s : Stream) : Nat :=
  (maxSettingsFrames - c.budget.settings) * 2 ^ 31 + headroom c.connSendWindow.available +
    headroom s.sendWindow.available + s.room

/-- A bound on the frames the peer can still have accepted. -/
def potential (c : Connection) (s : Stream) : Nat :=
  (maxNoProgressFrames + 1) * c.reserve s + (maxNoProgressFrames - c.budget.noProgress)

/-- The one stream of an exchange, which is underway. -/
structure Driven (id : Nat) (c : Connection) : Prop where
  known : Known c
  uniform : Uniform c
  only : ∀ k : Nat, c.streams[k]?.isSome → k = id
  standing : c.Standing id
  unparked : ∀ s, c.streams[id]? = some s → s.pendingBody = none

/-- The only stream of an exchange is the one a frame that brings something is for. -/
theorem Driven.own (hd : Driven id c) {c₁ : Connection} (hstreams : c₁.streams = c.streams)
    (h : c₁.processFrame f false = .ok outcome c')
    (hf : (f.typ = .headers ∨ f.typ = .continuation) ∨ c.streams[f.streamId]?.isSome) :
    f.streamId = id := by
  rcases hf with hf | hf
  · obtain ⟨-, ⟨hzero, -⟩ | ⟨-, hacc⟩⟩ := processFrame_ok h
    · obtain ⟨hh, hc⟩ := connFrame_typ hzero h
      rcases hf with hf | hf
      · exact absurd hf hh
      · exact absurd hf hc
    · cases hs : c₁.streams[f.streamId]? with
      | none =>
        obtain ⟨-, -, -, -, hh, hc⟩ := hacc.gone hs
        rcases hf with hf | hf
        · exact absurd hf hh
        · exact absurd hf hc
      | some s => exact hd.only _ (by rw [← hstreams, hs]; rfl)
  · exact hd.only _ hf

theorem Driven.continues (hd : Driven id c) {c₁ : Connection} (hstreams : c₁.streams = c.streams)
    (h : c₁.processFrame f false = .ok outcome c') (hout : outcome ≠ .done id) :
    outcome = .continue := by
  obtain ⟨-, ⟨-, hcontinue, -⟩ | ⟨-, hacc⟩⟩ := processFrame_ok h
  · exact hcontinue
  · cases hs : c₁.streams[f.streamId]? with
    | none => exact (hacc.gone hs).2.2.2.1
    | some s =>
      obtain ⟨s', -, -, ⟨hdone, -⟩ | ⟨hcontinue, -⟩⟩ := hacc.taken s hs
      · have hid : f.streamId = id := hd.only _ (by rw [← hstreams, hs]; rfl)
        rw [hid] at hdone
        exact absurd hdone hout
      · exact hcontinue

theorem headroom_lt {a b : Int} (h : a < b) (hb : b ≤ windowMax) : headroom b < headroom a := by
  unfold headroom
  omega

/-- The initial size is within 31 bits, so SETTINGS gives back less than one SETTINGS frame is
worth. -/
theorem headroom_rebased (w : StreamSendWindow) (new : Nat) (p : PeerSettings)
    (hw : w.initialPeerWindow = p.initialWindowSize) :
    headroom (w.rebased new).available < headroom w.available + 2 ^ 31 := by
  have hle := p.window_le
  have hmax : initialWindowSizeMax = 2147483647 := rfl
  unfold headroom StreamSendWindow.rebased
  simp only
  omega

/-- A read that does not finish the exchange's response uses up some of the potential. -/
theorem read_lowers {s : Stream} (hd : Driven id c) (hs : c.streams[id]? = some s)
    (h : c.readAndDispatch false = .ok outcome c') (hout : outcome ≠ .done id) :
    ∃ s', c'.streams[id]? = some s' ∧ c'.potential s' < c.potential s ∧ Uniform c' := by
  have hids := sameIds_readAndDispatch c false
  rw [h] at hids
  have hid₀ : id ≠ 0 := by
    have := (hd.known.streams id (by simp [hs])).1
    omega
  obtain ⟨t, ht, hunder, hstuck | hfollows⟩ := hd.standing
  · exact absurd h (hstuck.read hd.known)
  rw [hs] at ht
  cases ht
  obtain ⟨f, rest, s', hin, hs', hstep, -, -, hcomplete⟩ := follows_read h hs hid₀ hfollows
  obtain ⟨f', rest', hin', hp, -⟩ := readAndDispatch_ok h
  rw [hin] at hin'
  cases hin'
  refine ⟨s', hs', ?_⟩
  -- the bills
  obtain ⟨b, c₁, b', hbill, hdispatch, hprogress, hc'⟩ := processFrame_billed hp
  have hopen : s'.responseComplete = true → f.streamId = 0 := by
    rcases hcomplete with hdone | ⟨-, hkept⟩
    · exact absurd hdone.1 hout
    · intro hc
      rcases hkept hc with hc | hc
      · rw [hunder.incomplete] at hc
        cases hc
      · exact hc
  -- the windows
  have huniform : Uniform { c.received f rest with budget := b, madeProgress := false } := hd.uniform
  obtain ⟨hgrants, hbudget⟩ := dispatch_windows huniform hdispatch
  -- the room
  have hroom : s'.room ≤ s.room ∧
      ((f.typ = .headers ∨ f.typ = .continuation) ∧ f.endHeaders = true ∨
        f.typ = .data ∧ c.streams[f.streamId]?.isSome ∧
          (∃ payload, dataPayload f = .ok payload ∧ payload ≠ []) → s'.room < s.room) := by
    cases hstep with
    | own hid htakes =>
      subst hid
      have hincomplete : s'.responseComplete = false := by
        cases hc : s'.responseComplete with
        | false => rfl
        | true => exact absurd (hopen hc) hid₀
      obtain ⟨hle, hlt⟩ := Stream.takes_room hunder hfollows.head_isSome htakes hincomplete
      exact ⟨hle, fun hf => hlt (hf.imp_right fun hf => ⟨hf.1, hf.2.2⟩)⟩
    | elsewhere hid hx hx' w hst =>
      refine ⟨le_rfl, fun hf => absurd (hd.own (show (c.received f rest).streams = _ from rfl) hp ?_) hid⟩
      rcases hf with hf | hf
      · exact .inl hf.1
      · exact .inr hf.2.1
  have hs₁ : c₁.streams[id]? = some s' := by
    rw [hc'] at hs'
    exact hs'
  have hconn : c'.connSendWindow = c₁.connSendWindow := by rw [hc']
  have hwindows : (f.typ = .settings ∧ f.ack = false ∧
        headroom c'.connSendWindow.available = headroom c.connSendWindow.available ∧
        headroom s'.sendWindow.available < headroom s.sendWindow.available + 2 ^ 31) ∨
      (headroom c'.connSendWindow.available + headroom s'.sendWindow.available ≤
          headroom c.connSendWindow.available + headroom s.sendWindow.available ∧
        (f.typ = .windowUpdate ∧ (f.streamId = 0 ∨ c.streams[f.streamId]?.isSome) →
          headroom c'.connSendWindow.available + headroom s'.sendWindow.available <
            headroom c.connSendWindow.available + headroom s.sendWindow.available)) := by
    rw [hconn]
    cases hgrants with
    | same hsame hgone =>
      have hview : some s'.sendWindow = some s.sendWindow := by
        have := hsame.streams id
        rw [hs₁] at this
        exact this.trans (congrArg (Option.map Stream.sendWindow) hs)
      refine .inr ⟨?_, fun ⟨typ, hf⟩ => ?_⟩
      · rw [Option.some.inj hview, hsame.conn]
        exact le_rfl
      · obtain ⟨hne, hnone⟩ := hgone typ
        rcases hf with hf | hf
        · exact absurd hf hne
        · rw [show c.streams[f.streamId]? = none from hnone] at hf
          cases hf
    | conn hid hpos havail hmax hpeer hstreams =>
      have heq : s' = s := by
        rw [hstreams] at hs₁
        exact Option.some.inj (hs₁.symm.trans hs)
      have hlt : headroom c₁.connSendWindow.available < headroom c.connSendWindow.available := by
        refine headroom_lt ?_ hmax
        rw [havail]
        simp only [received]
        omega
      rw [heq]
      exact .inr ⟨by omega, fun _ => by omega⟩
    | @stream t ht hne hpos hmax hpeer hconn₁ hstreams =>
      have hid : f.streamId = id := hd.only _ (by
        rw [show c.streams[f.streamId]? = some t from ht]
        rfl)
      rw [hid] at hstreams hpos hmax ht
      have hst : s = t := Option.some.inj (hs.symm.trans ht)
      subst hst
      rw [hstreams, getElem?_setStream_self] at hs₁
      cases hs₁
      have hlt : headroom (s.sendWindow.available + f.grants id) < headroom s.sendWindow.available :=
        headroom_lt (by omega) hmax
      rw [hconn₁]
      simp only [received]
      exact .inr ⟨by omega, fun _ => by omega⟩
    | settings typ hack hrebased =>
      obtain ⟨s₂, hs₂, hw, -⟩ := hrebased.streams id s hs
      rw [hs₁] at hs₂
      cases hs₂
      refine .inl ⟨typ, hack, by rw [hrebased.conn]; rfl, ?_⟩
      rw [hw]
      exact headroom_rebased _ _ c.peer (hd.uniform id s hs)
  have huniform' : Uniform c' := by
    have hids₁ : SameIds { c.received f rest with budget := b, madeProgress := false } c₁ :=
      ⟨by rw [hc'] at hids; exact hids.next, fun k hk => by rw [hc'] at hids; exact hids.streams k hk,
        fun k hk => by rw [hc'] at hids; exact hids.awaited k hk⟩
    rw [hc']
    exact hgrants.uniform hids₁ huniform
  refine ⟨?_, huniform'⟩
  have hcontinue : outcome = .continue := hd.continues (show (c.received f rest).streams = _ from rfl)
    hp hout
  have hbill' : c.budget.recordControlFrame f = .ok () b := hbill
  have hbudget' : c₁.budget = b := hbudget
  obtain ⟨hnp, hsettings⟩ := FloodBudget.recordControlFrame_ok hbill'
  obtain ⟨hsettings', hmade⟩ := FloodBudget.recordProgress_ok hprogress
  rw [hbudget'] at hsettings' hmade
  have hb' : c'.budget = b' := by rw [hc']
  have hmax : maxSettingsFrames = 2000 := rfl
  have hfloor : maxNoProgressFrames = 10000 := rfl
  -- either the reserve shrinks, or nothing grows and the flood budget is billed
  have hlower : c'.reserve s' < c.reserve s ∨
      c'.reserve s' ≤ c.reserve s ∧ c'.budget.noProgress = c.budget.noProgress + 1 ∧
        c'.budget.noProgress ≤ maxNoProgressFrames := by
    unfold reserve
    rw [hb']
    rcases hwindows with ⟨typ, hack, hconn', hstream⟩ | ⟨hle, hlt⟩
    · rcases hsettings with ⟨-, -, hcount, hfew⟩ | ⟨hnot, -⟩
      · have hcount' : b'.settings = c.budget.settings + 1 := hsettings'.trans hcount
        refine .inl ?_
        have := hroom.1
        omega
      · exact absurd ⟨typ, hack⟩ hnot
    · have hcount : maxSettingsFrames - b'.settings ≤ maxSettingsFrames - c.budget.settings := by
        rcases hsettings with ⟨-, -, hcount, -⟩ | ⟨-, hcount⟩
        · have : b'.settings = c.budget.settings + 1 := hsettings'.trans hcount
          omega
        · have : b'.settings = c.budget.settings := hsettings'.trans hcount
          omega
      have hroom_le := hroom.1
      rcases hmade with ⟨hmade, -⟩ | ⟨-, hnone, hfew⟩
      · refine .inl ?_
        have hadvancing : c.Advancing f := by
          by_contra hnot
          have hidle := dispatch_idle huniform hdispatch hnot
          rw [hidle, hcontinue] at hmade
          cases hmade
        rcases hadvancing with hwindow | hblock | hdata
        · have := hlt hwindow
          omega
        · have := hroom.2 (.inl hblock)
          omega
        · have := hroom.2 (.inr hdata)
          omega
      · exact .inr ⟨by omega, by omega, hfew⟩
  unfold potential
  simp only [hfloor] at hlower ⊢
  omega

theorem driven_read (hd : Driven id c) (h : c.readAndDispatch false = .ok outcome c')
    (hout : outcome ≠ .done id) : Driven id c' ∨ c'.Abandoned id := by
  obtain ⟨s, hs⟩ := Option.isSome_iff_exists.mp hd.standing.present
  obtain ⟨-, -, -, huniform⟩ := read_lowers hd hs h hout
  have hids := sameIds_readAndDispatch c false
  rw [h] at hids
  obtain ⟨s', hs', hfollows, hdone | ⟨-, hunder | hgone⟩⟩ := standing_read h hd.known hd.standing
  · exact absurd hdone.1 hout
  · refine .inl ⟨hd.known.same hids, huniform, fun k hk => hd.only k (hids.streams k hk),
      ⟨s', hs', hunder, .inr hfollows⟩, fun t ht => ?_⟩
    obtain ⟨f, rest, -, hp, -⟩ := readAndDispatch_ok h
    have hcarried := (carried_processFrame (c.received f rest) f false).streams id
    rw [hp, Outcome.state, ht, show (c.received f rest).streams = c.streams from rfl, hs] at hcarried
    have hparts : t.sendPart = s.sendPart := Option.some.inj hcarried
    exact (congrArg Prod.fst hparts).trans (hd.unparked s hs)
  · exact .inr hgone.1

theorem readAndDispatch_takes_one (c : Connection) :
    c.tls.inbound.length ≤ (c.readAndDispatch false).state.tls.inbound.length + 1 := by
  obtain ⟨-, h⟩ | ⟨kind, msg, rest, e, hin, h⟩ | ⟨f, rest, hin, h⟩ := c.readAndDispatch_cases false
  all_goals rw [h]
  · simp [Outcome.state]
  · simp [hin, readFailed, Outcome.state]
  · rw [(carried_processFrame _ f false).inbound]
    simp [hin, received]

/-! ## Reading to the end -/

/-- A response is read to its end, or not, within the potential. -/
theorem drive_bounded {s : Stream} (hd : Driven id c ∨ c.Abandoned id)
    (hs : c.streams[id]? = some s) :
    c.tls.inbound.length ≤
      (c.driveUntilStreamDone id).state.tls.inbound.length + c.potential s + 1 := by
  unfold driveUntilStreamDone driveUntilStreamDoneTo
  refine Loop.run_rule (driveTurn_lowers id false) (fun c r => ∀ s, c.streams[id]? = some s →
    Driven id c ∨ c.Abandoned id →
    c.tls.inbound.length ≤ r.state.tls.inbound.length + c.potential s + 1) ?_ ?_ c s hs hd
  · intro c r h s hs hd
    have hone := c.readAndDispatch_takes_one
    unfold driveTurn at h
    rw [hs] at h
    simp only at h
    split at h
    · cases h
      simp [Outcome.state, removeStream]
      omega
    · split at h
      · cases h
        simp [Outcome.state]
        omega
      · split at h
        · rename_i hread
          cases h
          rw [hread] at hone
          simp only [Outcome.state] at hone ⊢
          omega
        · cases h
        · rename_i hread
          rw [hread] at hone
          split at h
          · split at h
            all_goals
              cases h
              simp only [Outcome.state, removeStream] at hone ⊢
              omega
          · cases h
  · intro c c' r h hr s hs hd
    unfold driveTurn at h
    rw [hs] at h
    simp only at h
    split at h
    · cases h
    · split at h
      · cases h
      · rename_i hnot
        have hdriven : Driven id c := by
          rcases hd with hd | ⟨last, hlast, hlt⟩
          · exact hd
          · simp [checkNotAbandoned, hlast, hlt] at hnot
        have hnext {outcome : DispatchOutcome} (hread : c.readAndDispatch false = .ok outcome c')
            (hout : outcome ≠ .done id) :
            c.tls.inbound.length ≤ r.state.tls.inbound.length + c.potential s + 1 := by
          have hone := c.readAndDispatch_takes_one
          rw [hread] at hone
          obtain ⟨s', hs', hlower, -⟩ := read_lowers hdriven hs hread hout
          have hrest := hr s' hs' (driven_read hdriven hread hout)
          simp only [Outcome.state] at hone hrest ⊢
          omega
        split at h
        · cases h
        · rename_i hread
          cases h
          exact hnext hread (by simp)
        · rename_i k c₁ hread
          split at h
          · split at h <;> cases h
          · rename_i hne
            cases h
            exact hnext hread (by simpa using hne)

/-! ## Sending the body -/

theorem Driven.flushed {u : Unit} (hd : Driven id c) (h : c.flush = .ok u c') :
    Driven id c' := by
  obtain ⟨fs, rfl⟩ := flush_ok h
  exact ⟨hd.known.same ⟨rfl, fun _ hk => hk, fun _ hk => .inl hk⟩, hd.uniform, hd.only, hd.standing,
    hd.unparked⟩

/-- A chunk of the body takes from both windows what can then be granted again. -/
theorem sent_potential {s s' : Stream} {chunk : Bytes} {isLast : Bool}
    (h : c.sendData id s chunk isLast = .ok s' c') :
    c'.streams[id]? = some s' ∧
      c'.potential s' ≤ c.potential s + 2 * (maxNoProgressFrames + 1) * chunk.length := by
  obtain ⟨fs, state, -, rfl, rfl⟩ := sendData_ok h
  refine ⟨getElem?_setStream_self _ _ _, ?_⟩
  have hfloor : maxNoProgressFrames = 10000 := rfl
  simp only [potential, reserve, headroom, setStream, logged, withFaults, ConnSendWindow.consume,
    StreamSendWindow.consume, Stream.room, hfloor]
  omega

theorem Driven.sent {s s' : Stream} {chunk : Bytes} {isLast : Bool} (hd : Driven id c)
    (hs : c.streams[id]? = some s) (h : c.sendData id s chunk isLast = .ok s' c') :
    Driven id c' := by
  have hsends : Sends c c' := by
    have := (sendEdits_sendData hs chunk isLast).sends
    rwa [h] at this
  obtain ⟨hs', -⟩ := sent_potential h
  obtain ⟨fs, state, hstate, rfl, hc'⟩ := sendData_ok h
  have hdone := StreamState.remoteDone_sendData hstate
  refine ⟨hd.known.same hsends.sameIds, ?_, fun k hk => hd.only k (hsends.sameIds.streams k hk), ?_,
    ?_⟩
  · intro k t hk
    rw [hc'] at hk
    rw [hsends.peer]
    simp only [getElem?_setStream] at hk
    split at hk
    · cases hk
      exact hd.uniform id s hs
    · exact hd.uniform k t hk
  · refine hd.standing.moved
      (show _ = _ ++ [dataFrame id chunk isLast].map WireEvent.sent by rw [hc']; rfl)
      (by simp [opens, dataFrame]) hsends.expectingContinuation ?_ fun t ht hunder => ?_
    · rintro ⟨a, hexp, hnone⟩
      refine ⟨a, hsends.expectingContinuation.trans hexp, ?_⟩
      have hview := hsends.streams a
      rw [hnone, Option.map_none, Option.map_eq_none_iff] at hview
      exact hview
    · rw [hs] at ht
      cases ht
      refine ⟨_, hs', rfl, hunder.ended.trans hdone.symm, fun hr => hunder.awaited (hdone ▸ hr),
        hunder.kept, ?_, fun hp => ?_⟩
      · have hopen := hunder.incomplete
        rw [Stream.responseComplete_eq] at hopen ⊢
        rw [hdone]
        exact hopen
      · rw [hd.unparked s hs] at hp
        cases hp
  · intro t ht
    rw [hs'] at ht
    cases ht
    exact hd.unparked s hs

/-- A bound on the frames the peer can still have accepted while `rem` is to be sent. -/
def load (c : Connection) (s : Stream) (rem : Bytes) : Nat :=
  c.potential s + (2 * (maxNoProgressFrames + 1) + 1) * rem.length

/-- How a body that is sent to its end, or as far as the response allows, leaves the exchange. -/
def Delivered (id : Nat) (c : Connection) (bound : Nat) (c' : Connection) : Prop :=
  ∃ s', c'.streams[id]? = some s' ∧
    (s'.responseComplete = true ∨ (Driven id c' ∨ c'.Abandoned id) ∧
      c.tls.inbound.length + c'.potential s' ≤ c'.tls.inbound.length + bound)

theorem stopped_complete {u : Unit} {s : Stream} (h : c.abortSend id = .ok u c')
    (hs : c.streams[id]? = some s) (hcomplete : s.responseComplete = true) :
    ∃ s', c'.streams[id]? = some s' ∧ s'.responseComplete = true := by
  obtain ⟨fs, ⟨hnone, -⟩ | ⟨t, ht, rfl⟩⟩ := abortSend_ok h
  · rw [hs] at hnone
    cases hnone
  · rw [hs] at ht
    cases ht
    refine ⟨_, getElem?_setStream_self _ _ _, ?_⟩
    rw [Stream.responseComplete_eq] at hcomplete ⊢
    simp only [Bool.and_eq_true] at hcomplete
    simp [hcomplete.1.2, hcomplete.2, StreamState.remoteDone]

theorem abortSend_inbound (c : Connection) (id : Nat) :
    (c.abortSend id).state.tls.inbound = c.tls.inbound := by
  unfold abortSend
  obtain ⟨fs, hw | ⟨e, hw⟩⟩ := c.writeFrame_cases (rstStreamFrame id errNoError)
  all_goals rw [hw]
  · obtain ⟨fs', hf | ⟨e, hf⟩⟩ :=
      ((c.withFaults fs).logged (.sent (rstStreamFrame id errNoError))).flush_cases
    all_goals simp only [Outcome.andThen, hf]
    · split <;> rfl
    · rfl
  · rfl

/-- Sending the body reads within the load, whatever comes of it. -/
theorem send_bounded {s : Stream} {rem : Bytes} (hd : Driven id c ∨ c.Abandoned id)
    (hs : c.streams[id]? = some s) :
    c.tls.inbound.length ≤ (Loop.run (sendTurn id) _ (sendTurn_lowers id)
        (c, rem)).state.tls.inbound.length + c.load s rem + 1 ∧
      ∀ u c', Loop.run (sendTurn id) _ (sendTurn_lowers id) (c, rem) = .ok u c' →
        Delivered id c (c.load s rem) c' := by
  refine Loop.run_rule (sendTurn_lowers id) (fun st r => ∀ s, st.1.streams[id]? = some s →
    Driven id st.1 ∨ st.1.Abandoned id →
    st.1.tls.inbound.length ≤ r.state.tls.inbound.length + st.1.load s st.2 + 1 ∧
      ∀ u c', r = .ok u c' → Delivered id st.1 (st.1.load s st.2) c') ?_ ?_ (c, rem) s hs hd
  · rintro ⟨c, rem⟩ r h s hs hd
    simp only at hs hd ⊢
    have hone := c.readAndDispatch_takes_one
    unfold sendTurn at h
    simp only [hs] at h
    split at h
    · cases h
      obtain ⟨fs, hstate⟩ := c.flush_state
      refine ⟨?_, fun u c' hok => ?_⟩
      · rw [hstate]
        simp only [withFaults]
        omega
      · have hflush := hok
        obtain ⟨fs', rfl⟩ := flush_ok hok
        refine ⟨s, hs, .inr ⟨hd.imp (fun hd => hd.flushed hflush) fun hab => hab, ?_⟩⟩
        simp only [load, withFaults]
        have : (c.withFaults fs').potential s = c.potential s := rfl
        simp only [withFaults] at this
        omega
    · split at h
      · split at h
        · rename_i hsend
          have hsends := (sendEdits_sendData hs (rem.take (nextDataChunkSize c.sendFrameLimit
            (s.sendBudget c.connSendWindow) rem.length)) (rem.drop (nextDataChunkSize
            c.sendFrameLimit (s.sendBudget c.connSendWindow) rem.length)).isEmpty).sends.inbound
          rw [hsend] at hsends
          cases h
          refine ⟨?_, fun u c' hok => by cases hok⟩
          simp only [Outcome.state] at hsends ⊢
          rw [hsends]
          omega
        · cases h
      · split at h
        · cases h
          exact ⟨by simp only [Outcome.state]; omega, fun u c' hok => by cases hok⟩
        · split at h
          · rename_i hread
            cases h
            rw [hread] at hone
            exact ⟨by simp only [Outcome.state] at hone ⊢; omega, fun u c' hok => by cases hok⟩
          · cases h
          · rename_i c₁ hread
            split at h
            · rename_i hid
              cases h
              rw [hread] at hone
              refine ⟨?_, fun u c' hok => ?_⟩
              · rw [abortSend_inbound]
                simp only [Outcome.state] at hone
                omega
              · rw [hid] at hread
                have hsome : c₁.streams[id]?.isSome := by
                  have := (keepsStreams_readAndDispatch c false).streams id (by simp [hs])
                  rwa [hread] at this
                obtain ⟨s₁, hs₁⟩ := Option.isSome_iff_exists.mp hsome
                obtain ⟨s', hs', hc'⟩ := stopped_complete hok hs₁ (complete_of_done hread hs₁)
                exact ⟨s', hs', .inl hc'⟩
            · cases h
  · rintro ⟨c, rem⟩ ⟨c', rem'⟩ r h hr s hs hd
    simp only at hs hd hr ⊢
    unfold sendTurn at h
    simp only [hs] at h
    split at h
    · cases h
    · rename_i hne
      have hlen : 0 < rem.length := by simpa [List.length_pos_iff] using hne
      -- what holds of the rest of the loop carries back over a turn
      have hback {s' : Stream} (hs' : c'.streams[id]? = some s')
          (hd' : Driven id c' ∨ c'.Abandoned id)
          (hle : c.tls.inbound.length + c'.load s' rem' ≤
            c'.tls.inbound.length + c.load s rem) :
          c.tls.inbound.length ≤ r.state.tls.inbound.length + c.load s rem + 1 ∧
            ∀ u c'', r = .ok u c'' → Delivered id c (c.load s rem) c'' := by
        obtain ⟨hbound, hok⟩ := hr s' hs' hd'
        refine ⟨by omega, fun u c'' hr => ?_⟩
        obtain ⟨t, ht, hdone⟩ := hok u c'' hr
        refine ⟨t, ht, hdone.imp_right fun hdone => ⟨hdone.1, ?_⟩⟩
        have := hdone.2
        omega
      split at h
      · rename_i hbudget
        split at h
        · cases h
        · rename_i s₁ c₁ hsend
          cases h
          obtain ⟨hs₁, hpotential⟩ := sent_potential hsend
          refine hback hs₁ ?_ ?_
          · rcases hd with hd | hd
            · exact .inl (hd.sent hs hsend)
            · obtain ⟨fs, state, -, -, rfl⟩ := sendData_ok hsend
              exact .inr hd
          · have hpos := nextDataChunkSize_pos c.sendFrameLimit_pos hbudget hlen
            have hle := nextDataChunkSize_le c.sendFrameLimit (s.sendBudget c.connSendWindow)
              rem.length
            have hin : c'.tls.inbound = c.tls.inbound := by
              obtain ⟨fs, state, -, -, rfl⟩ := sendData_ok hsend
              rfl
            have hfloor : maxNoProgressFrames = 10000 := rfl
            rw [hin]
            simp only [load, hfloor, List.length_take, List.length_drop] at hpotential ⊢
            omega
      · split at h
        · cases h
        · rename_i hnot
          have hdriven : Driven id c := by
            rcases hd with hd | ⟨last, hlast, hlt⟩
            · exact hd
            · simp [checkNotAbandoned, hlast, hlt] at hnot
          have hnext {outcome : DispatchOutcome} {c₁ : Connection}
              (hread : c.readAndDispatch false = .ok outcome c₁) (hout : outcome ≠ .done id)
              (hc₁ : c₁ = c') (hrem : rem = rem') :
              c.tls.inbound.length ≤ r.state.tls.inbound.length + c.load s rem + 1 ∧
                ∀ u c'', r = .ok u c'' → Delivered id c (c.load s rem) c'' := by
            subst hc₁
            subst hrem
            have hone := c.readAndDispatch_takes_one
            rw [hread] at hone
            obtain ⟨s', hs', hlower, -⟩ := read_lowers hdriven hs hread hout
            refine hback hs' (driven_read hdriven hread hout) ?_
            simp only [Outcome.state, load] at hone ⊢
            omega
          split at h
          · cases h
          · rename_i hread
            cases h
            exact hnext hread (by simp) rfl rfl
          · rename_i k c₁ hread
            split at h
            · cases h
            · rename_i hid
              cases h
              exact hnext hread (by simpa using hid) rfl rfl

/-! ## The whole exchange -/

/-- The connection, with `inbound` about to come in. -/
def receiving (c : Connection) (inbound : List Inbound) : Connection :=
  { c with tls := { c.tls with inbound } }

/-- A bound on the frames an exchange reads. -/
def frameBound (c : Connection) (req : Request) : Nat :=
  c.load (.new c.peer.initialWindowSize c.ourRecvWindow) req.body + 1

/-- The head of a request is out on a connection without other streams. -/
theorem driven_opened {c₁ c₂ : Connection} {req : Request} {hasBody : Bool} (hk : Known c)
    (hidle : c.streams = ∅) (hopen : c.openStream = .ok id c₁)
    (hhead : c₁.writeRequestHeaders id req = .ok hasBody c₂) :
    Driven id c₂ ∧ ∃ s, c₂.streams[id]? = some s ∧
      c₂.potential s = c.potential (.new c.peer.initialWindowSize c.ourRecvWindow) := by
  have hsends : Sends c₁ c₂ := by
    have := (@sendEdits_writeRequestHeaders id c₁ req).sends
    rwa [hhead] at this
  have hk₁ : Known c₁ := by
    have := known_openStream hk
    rwa [hopen] at this
  obtain ⟨-, fs, s, state, hs, hstate, hc₂⟩ := writeRequestHeaders_ok hhead
  have hnew : s = .new c.peer.initialWindowSize c.ourRecvWindow := by
    obtain ⟨rfl, -, -, -, rfl⟩ := openStream_ok hopen
    simpa using hs.symm
  subst hnew
  have hstanding := standing_head hk hopen hstate
      (show (none : Option PendingBody).isSome → _ by simp) fs
    (eqIgnoreAsciiCase (effectiveMethod req) "HEAD") (e := (buildHeaderBlock c₁.encoder req).1)
  have hs₂ : c₂.streams[id]? = some { Stream.new c.peer.initialWindowSize c.ourRecvWindow with
      state, headRequest := eqIgnoreAsciiCase (effectiveMethod req) "HEAD" } := by
    rw [hc₂]
    exact getElem?_setStream_self _ _ _
  have honly : ∀ k : Nat, c₂.streams[k]?.isSome → k = id := by
    intro k hk₂
    have hk₁ := hsends.sameIds.streams k hk₂
    obtain ⟨rfl, -, -, -, rfl⟩ := openStream_ok hopen
    simp only [Std.ExtTreeMap.getElem?_insert, Nat.compare_eq_eq, hidle] at hk₁
    split at hk₁
    · exact Eq.symm ‹_›
    · simp at hk₁
  refine ⟨⟨hk₁.same hsends.sameIds, ?_, honly, ?_, ?_⟩, _, hs₂, ?_⟩
  · intro k t ht
    have hid := honly k (by simp [ht])
    subst hid
    rw [hs₂] at ht
    cases ht
    rw [hsends.peer]
    obtain ⟨-, -, -, -, rfl⟩ := openStream_ok hopen
    rfl
  · rw [hc₂]
    exact hstanding
  · intro t ht
    rw [hs₂] at ht
    cases ht
    rfl
  · have hbudget : c₂.budget = c.budget := by
      rw [hsends.budget]
      obtain ⟨-, -, -, -, rfl⟩ := openStream_ok hopen
      rfl
    have hconn : c₂.connSendWindow = c.connSendWindow := by
      rw [hc₂]
      obtain ⟨-, -, -, -, rfl⟩ := openStream_ok hopen
      rfl
    simp only [potential, reserve, hbudget, hconn, Stream.room]

theorem drive_complete {s : Stream} (hs : c.streams[id]? = some s)
    (hcomplete : s.responseComplete = true) :
    (c.driveUntilStreamDone id).state.tls.inbound = c.tls.inbound := by
  unfold driveUntilStreamDone driveUntilStreamDoneTo
  rw [Loop.run_done (a := .ok s (c.removeStream id))]
  · rfl
  · simp [driveTurn, hs, hcomplete]

/-- An exchange on a connection without other streams reads no more frames than its bound. -/
theorem exchange_bounded {c₁ : Connection} (hk : Known c) (hidle : c.streams = ∅)
    (hopen : c.openStream = .ok id c₁) (req : Request) :
    c.tls.inbound.length ≤ (c₁.sendRequestOn id req).state.tls.inbound.length + c.frameBound req ∧
      ∀ c₂, c₁.sendRequestOn id req = .ok () c₂ → c.tls.inbound.length ≤
        (c₂.driveUntilStreamDone id).state.tls.inbound.length + c.frameBound req := by
  have hin₁ : c₁.tls.inbound = c.tls.inbound := by
    obtain ⟨-, -, -, -, rfl⟩ := openStream_ok hopen
    rfl
  have hhead := (@sendEdits_writeRequestHeaders id c₁ req).sends.inbound
  unfold sendRequestOn
  cases hw : c₁.writeRequestHeaders id req with
  | error e c₂ =>
    rw [hw] at hhead
    simp only [Outcome.state] at hhead
    refine ⟨?_, fun c₃ h => by cases h⟩
    simp only [Outcome.andThen, Outcome.state, hhead, hin₁]
    omega
  | ok hasBody c₂ =>
    rw [hw] at hhead
    simp only [Outcome.state] at hhead
    obtain ⟨hdriven, s, hs, hpotential⟩ := driven_opened hk hidle hopen hw
    have hin : c₂.tls.inbound = c.tls.inbound := hhead.trans hin₁
    have hload : c₂.load s req.body + 1 = c.frameBound req := by
      simp only [frameBound, load, hpotential]
    -- reading goes on from wherever sending stopped
    have hdrive {c₃ : Connection} (h : Delivered id c₂ (c₂.load s req.body) c₃)
        (hle : c₂.tls.inbound.length ≤ c₃.tls.inbound.length + c₂.load s req.body + 1) :
        c.tls.inbound.length ≤
          (c₃.driveUntilStreamDone id).state.tls.inbound.length + c.frameBound req := by
      obtain ⟨s', hs', hcomplete | ⟨hd, hsum⟩⟩ := h
      · rw [drive_complete hs' hcomplete, ← hin]
        omega
      · have := drive_bounded hd hs'
        rw [← hin]
        omega
    simp only [Outcome.andThen]
    cases hasBody with
    | true =>
      obtain ⟨hle, hok⟩ := @send_bounded _ _ _ req.body (.inl hdriven) hs
      rw [if_pos rfl]
      refine ⟨by rw [← hin]; omega, fun c₃ h => ?_⟩
      rw [h] at hle
      exact hdrive (hok () c₃ h) hle
    | false =>
      simp only [Bool.false_eq_true, if_false]
      obtain ⟨fs, hstate⟩ := c₂.flush_state
      have hflushed : c₂.flush.state.tls.inbound = c₂.tls.inbound := by rw [hstate]; rfl
      refine ⟨by rw [hflushed, ← hin]; omega, fun c₃ h => ?_⟩
      have hd₃ := hdriven.flushed h
      rw [h] at hflushed
      obtain ⟨fs', rfl⟩ := flush_ok h
      have hsame : (c₂.withFaults fs').potential s = c₂.potential s := rfl
      refine hdrive ⟨s, hs, .inr ⟨.inl hd₃, ?_⟩⟩ ?_
      all_goals
        simp only [Outcome.state] at hflushed
        rw [hflushed]
      · simp only [hsame, load]
        omega
      · omega

/-- Whatever the peer sends, an exchange ends: it reads no more frames than its bound, be it while
the body is sent or while the response is read, and so returns out of any infinite sequence. -/
theorem exchange_terminates (hc : Reachable c) (hidle : c.streams = ∅) (codecs : Codecs)
    (req : Request) :
    (∀ inbound, inbound.length ≤ ((c.receiving inbound).runOneRequest codecs
        req).state.tls.inbound.length + c.frameBound req) ∧
      (∀ inbound id c₁ c₂, (c.receiving inbound).openStream = .ok id c₁ →
        c₁.sendRequestOn id req = .ok () c₂ → inbound.length ≤
          (c₂.driveUntilStreamDone id).state.tls.inbound.length + c.frameBound req) ∧
      ∀ peer : Nat → Frame, ∃ n, ((c.receiving ((List.range n).map fun i =>
        .frame (peer i))).runOneRequest codecs req).state.tls.inbound ≠ [] := by
  have hk (inbound : List Inbound) : Known (c.receiving inbound) :=
    hc.known.same ⟨rfl, fun _ h => h, fun _ h => .inl h⟩
  have hrun (inbound : List Inbound) : inbound.length ≤ ((c.receiving inbound).runOneRequest codecs
      req).state.tls.inbound.length + c.frameBound req := by
    unfold runOneRequest
    cases hopen : (c.receiving inbound).openStream with
    | error e c₁ =>
      cases openStream_error hopen
      simp [Outcome.andThen, Outcome.state, receiving]
    | ok id c₁ =>
      obtain ⟨hsend, hdrive⟩ := exchange_bounded (hk inbound) hidle hopen req
      simp only [Outcome.andThen]
      cases hs : c₁.sendRequestOn id req with
      | error e c₂ =>
        rw [hs] at hsend
        exact hsend
      | ok _ c₂ =>
        have := hdrive c₂ hs
        simp only
        cases hd : c₂.driveUntilStreamDone id with
        | error e c₃ =>
          rw [hd] at this
          exact this
        | ok s c₃ =>
          rw [hd] at this
          simp only
          cases buildResponseFromStream codecs s req.decompress with
          | error e => exact this
          | ok resp => exact this
  refine ⟨hrun, fun inbound id c₁ c₂ hopen hsend => ?_, fun peer => ?_⟩
  · exact (exchange_bounded (hk inbound) hidle hopen req).2 c₂ hsend
  · refine ⟨c.frameBound req + 1, fun hnil => ?_⟩
    have := hrun ((List.range (c.frameBound req + 1)).map fun i => .frame (peer i))
    rw [hnil, List.length_map, List.length_range, List.length_nil] at this
    omega

/-- A peer that sends nothing but PING frames. -/
theorem exchange_terminates_pings :
    ∃ n, (((fresh []).receiving ((List.range n).map fun _ =>
      .frame ⟨.ping, 0, 0, [0, 0, 0, 0, 0, 0, 0, 0]⟩)).runOneRequest .unavailable
        (.plain "GET" "example.com" "/")).state.tls.inbound ≠ [] :=
  (exchange_terminates (reachable_fresh []) rfl .unavailable (.plain "GET" "example.com" "/")).2.2
    fun _ => ⟨.ping, 0, 0, [0, 0, 0, 0, 0, 0, 0, 0]⟩

end Connection

end Rsurl.Http2
