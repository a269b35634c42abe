import Rsurl.Http2.Standing

/-!
# A whole batch

What holds of every run of the multiplexed driver: each request is in one place at every turn and
moves forward only, its HEADERS are written on one stream, streams are opened in order and never
above the boundary of a GOAWAY, and a response is made of the frames of its own stream.
-/

namespace Rsurl.Http2

open Library

/-! ## Boundaries -/

namespace Connection

variable {c c' : Connection} {id : Nat}

theorem FrameSteps.abandoned {f : Frame} (h : FrameSteps f c c') (hid : c.Abandoned id) :
    c'.Abandoned id := by
  induction h with
  | refl => exact hid
  | tail _ hstep ih =>
    rcases hstep with hstep | hstep
    · cases hstep <;> exact ih
    · exact hstep.connAccepts.abandoned id ih

theorem readAndDispatch_abandoned (sink : Bool) (hid : c.Abandoned id) :
    (c.readAndDispatch sink).state.Abandoned id := by
  obtain ⟨-, hr⟩ | ⟨kind, msg, rest, e', -, hr⟩ | ⟨f, rest, hin, hr⟩ := c.readAndDispatch_cases sink
  all_goals rw [hr]
  · exact hid
  · exact hid
  · exact (frameSteps_processFrame (c.received f rest) f sink).abandoned hid

/-- The boundary a GOAWAY frame names. -/
def lastStreamId (f : Frame) : Nat := mask31 (fromBe (f.payload.take 4))

/-- An accepted GOAWAY abandons every stream above its boundary. -/
theorem goaway_accepted {f : Frame} {rest : List Inbound} {outcome : DispatchOutcome}
    (hin : c.tls.inbound = .frame f :: rest) (htyp : f.typ = .goaway)
    (h : c.readAndDispatch false = .ok outcome c') :
    outcome = .continue ∧ ∀ k, lastStreamId f < k → c'.Abandoned k := by
  obtain ⟨g, rest', hin', hp, -⟩ := readAndDispatch_ok h
  rw [hin] at hin'
  cases hin'
  obtain ⟨e, hc⟩ | ⟨e, b, hc⟩ | ⟨b, -, -, hc⟩ := (c.received f rest).processFrame_cases f false
  all_goals rw [hc] at hp
  · cases hp
  · cases hp
  · obtain ⟨o, c₁, hd, hrec⟩ := Outcome.andThen_eq_ok.mp hp
    have hbudget := c₁.recordProgress_state o
    rw [hrec] at hbudget
    obtain ⟨b', rfl⟩ := hbudget
    unfold dispatch at hd
    split at hd
    · unfold processConnFrame at hd
      rw [htyp] at hd
      simp only at hd
      split at hd
      · cases hd
      · cases hd
        refine ⟨?_, fun k hk => ?_⟩
        · unfold recordProgress at hrec
          obtain ⟨_, _, -, hrec⟩ := Outcome.andThen_eq_ok.mp hrec
          cases hrec
          rfl
        · unfold lastStreamId at hk
          refine ⟨_, rfl, ?_⟩
          simp only [received]
          cases c.goawayReceived with
          | none => exact hk
          | some before => exact (min_le_right _ _).trans_lt hk
    · unfold processStreamFrame at hd
      rw [htyp] at hd
      cases hd

end Connection

namespace Mux

variable {n : Nat} {codecs : Codecs} {reqs : Fin n → Request} {m m' m'' : Mux n}
variable {P : Connection → Prop}

/-- Requests move forward only, and no stream is opened above a boundary. -/
structure Forward (m m' : Mux n) : Prop extends Advances m m' where
  abandoned : ∀ id, m.conn.Abandoned id → m'.conn.Abandoned id
  within : ∀ e ∈ m'.opened, e ∉ m.opened → ¬m.conn.Abandoned e.1

theorem Forward.refl (m : Mux n) : Forward m m :=
  ⟨.refl m, fun _ h => h, fun _ h hn => absurd h hn⟩

theorem Forward.trans (h : Forward m m') (h' : Forward m' m'') : Forward m m'' := by
  refine ⟨h.toAdvances.trans h'.toAdvances, fun id hid => h'.abandoned id (h.abandoned id hid), ?_⟩
  intro e he hnot hgone
  by_cases hmem : e ∈ m'.opened
  · exact h.within e hmem hnot hgone
  · exact h'.within e he hmem (h.abandoned e.1 hgone)

/-- Nothing is opened. -/
theorem Forward.of_opened (h : Advances m m') (hopened : m'.opened = m.opened)
    (habandoned : ∀ id, m.conn.Abandoned id → m'.conn.Abandoned id) : Forward m m' :=
  ⟨h, habandoned, fun _ he hnot => absurd (hopened ▸ he) hnot⟩

theorem opened_spared (m : Mux n) : m.spared.opened = m.opened := by
  unfold spared failGoawayDoomed
  split
  · rename_i hsome
    clear hsome
    split
    · rfl
    · rename_i last hlast
      clear hlast
      simp only
      generalize m.idToIdx.keys.filter _ = doomed
      induction doomed generalizing m with
      | nil => rfl
      | cons id doomed ih =>
        refine (ih (failDoomed last m id)).trans ?_
        unfold failDoomed
        split <;> rfl
  · rfl

theorem deliver_goaway (id : Nat) (idx : Fin n) (stream : Stream) :
    (m.deliver codecs reqs id idx stream).conn.goawayReceived = m.conn.goawayReceived := by
  unfold deliver
  simp only [setResult]
  split
  · obtain ⟨fs, hw | ⟨e, hw⟩⟩ :=
      (m.conn.removeStream id).writeFrame_cases (rstStreamFrame id errNoError)
    all_goals
      rw [hw]
      rfl
  · rfl

theorem handBack_spec (m : Mux n) (outcome : DispatchOutcome) :
    (m.handBack codecs reqs outcome).opened = m.opened ∧
      (m.handBack codecs reqs outcome).conn.goawayReceived = m.conn.goawayReceived := by
  unfold handBack
  repeat' split
  · exact ⟨rfl, rfl⟩
  · exact ⟨rfl, rfl⟩
  · exact ⟨rfl, rfl⟩
  · exact ⟨rfl, deliver_goaway _ _ _⟩

/-- Every move is forward. -/
theorem move_forward (hacc : Accounted m) (hm : Move codecs reqs P m m') : Forward m m' := by
  have hadv := (move_accounted hacc hm).2
  have hopening {idx : Fin n} {id : Nat} {conn : Connection}
      (hopen : m.conn.openStream = .ok id conn) :
      ∀ e ∈ m.opened ++ [(id, idx)], e ∉ m.opened → ¬m.conn.Abandoned e.1 := by
    intro e he hnot hgone
    obtain rfl : e = (id, idx) := by simpa [hnot] using he
    obtain ⟨-, -, hwithin, -⟩ := Connection.openStream_ok hopen
    obtain ⟨last, hlast, hlt⟩ := hgone
    exact absurd (hwithin last hlast) (by simpa using hlt)
  cases hm with
  | @refused idx rest e conn hq hopen =>
    cases Connection.openStream_error hopen
    exact .of_opened hadv rfl fun _ h => h
  | @unsent idx rest id e conn conn' hq hopen hstage =>
    have hsends := (@Connection.sendEdits_stageRequestOn id conn (reqs idx)).sends.goawayReceived
    rw [hstage] at hsends
    refine ⟨hadv, fun k hk => ?_, hopening hopen⟩
    obtain ⟨last, hlast, hlt⟩ := hk
    obtain ⟨-, -, -, -, rfl⟩ := Connection.openStream_ok hopen
    exact ⟨last, hsends.trans hlast, hlt⟩
  | @started idx rest id u conn conn' hq hopen hstage =>
    have hsends := (@Connection.sendEdits_stageRequestOn id conn (reqs idx)).sends.goawayReceived
    rw [hstage] at hsends
    refine ⟨hadv, fun k hk => ?_, hopening hopen⟩
    obtain ⟨last, hlast, hlt⟩ := hk
    obtain ⟨-, -, -, -, rfl⟩ := Connection.openStream_ok hopen
    exact ⟨last, hsends.trans hlast, hlt⟩
  | pumped =>
    refine .of_opened hadv rfl fun k hk => ?_
    obtain ⟨last, hlast, hlt⟩ := hk
    exact ⟨last, (Connection.sends_flushPending m.conn).goawayReceived.trans hlast, hlt⟩
  | @accepted outcome conn hp hread =>
    obtain ⟨hopened, hgoaway⟩ := @handBack_spec n codecs reqs { m with conn }.spared outcome
    refine .of_opened hadv (hopened.trans (opened_spared _)) fun k hk => ?_
    have hconn := m.conn.readAndDispatch_abandoned false hk
    rw [hread] at hconn
    obtain ⟨last, hlast, hlt⟩ := hconn
    refine ⟨last, hgoaway.trans ?_, hlt⟩
    rw [(trims_spared { m with conn }).conn]
    exact hlast
  | @stumbled m₁ e conn idx hp hread htake =>
    obtain ⟨id, s, hculprits, hidx, rfl⟩ := takeStreamError_some htake
    refine .of_opened hadv rfl fun k hk => ?_
    have hconn := m.conn.readAndDispatch_abandoned false hk
    rw [hread] at hconn
    exact hconn

/-! ## HEADERS on the wire -/

end Mux

/-- The stream a HEADERS frame is written on. -/
def WireEvent.headersOn : WireEvent → Option Nat
  | .sent f => if f.typ = .headers then some f.streamId else none
  | _ => none

/-- The streams HEADERS frames were written on, in order. -/
def headersSent (log : List WireEvent) : List Nat := log.filterMap WireEvent.headersOn

theorem headersSent_append (log more : List WireEvent) :
    headersSent (log ++ more) = headersSent log ++ headersSent more :=
  List.filterMap_append

/-- Frames of other types open no stream. -/
theorem headersSent_eq_nil {out : List Frame} (h : ∀ f ∈ out, f.typ ≠ .headers) :
    headersSent (out.map .sent) = [] := by
  unfold headersSent
  rw [List.filterMap_eq_nil_iff]
  intro e he
  obtain ⟨f, hf, rfl⟩ := List.mem_map.mp he
  simp [WireEvent.headersOn, h f hf]

theorem headersSent_recv (f : Frame) (log : List WireEvent) :
    headersSent (.recv f :: log) = headersSent log := rfl

/-- A request's head has one HEADERS frame. -/
theorem headersSent_headFrames {c : Connection} {id : Nat} {req : Request} {out : List Frame}
    (h : out <+: c.headFrames id req) : (headersSent (out.map .sent)).Sublist [id] := by
  obtain ⟨hint, f, rest, heq, hhint, htyp, hid, hrest⟩ := Connection.headFrames_split c id req
  obtain ⟨more, hmore⟩ := h
  have hall : headersSent ((c.headFrames id req).map .sent) = [id] := by
    rw [heq, List.map_append, headersSent_append, headersSent_eq_nil, List.map_cons, List.nil_append]
    · have htail := @headersSent_eq_nil rest fun g hg => by simp [(hrest g hg).1]
      unfold headersSent at htail ⊢
      rw [List.filterMap_cons_some (b := id)]
      · rw [htail]
      · simp [WireEvent.headersOn, htyp, hid]
    · intro g hg
      simp [(hhint g hg).1]
  rw [← hall, ← hmore, List.map_append, headersSent_append]
  exact List.sublist_append_left _ _

theorem headersSent_replies {out : List Frame} (h : ∀ f ∈ out, f.isReply) :
    headersSent (out.map .sent) = [] := by
  refine headersSent_eq_nil fun f hf htyp => ?_
  have := h f hf
  simp [Frame.isReply, htyp] at this

namespace Mux

variable {n : Nat} {codecs : Codecs} {reqs : Fin n → Request} {m m' m'' : Mux n}
variable {P : Connection → Prop} {c : Connection}

/-- HEADERS written since the batch began are on streams opened for requests, once on each. -/
def Written (c : Connection) (m : Mux n) : Prop :=
  ∃ log, m.conn.tls.log = c.tls.log ++ log ∧
    (headersSent log).Sublist (m.opened.map Prod.fst)

theorem Written.more (h : Written c m) {log : List WireEvent}
    (hlog : m'.conn.tls.log = m.conn.tls.log ++ log) (hnone : headersSent log = [])
    (hopened : m'.opened = m.opened) : Written c m' := by
  obtain ⟨before, hbefore, hsub⟩ := h
  refine ⟨before ++ log, by rw [hlog, hbefore, List.append_assoc], ?_⟩
  rw [headersSent_append, hnone, List.append_nil, hopened]
  exact hsub

theorem Written.opened (h : Written c m) {conn : Connection} {id : Nat} {idx : Fin n} {req : Request}
    {out : List Frame} (hout : out <+: conn.headFrames id req)
    (hlog : m'.conn.tls.log = m.conn.tls.log ++ out.map .sent)
    (hopened : m'.opened = m.opened ++ [(id, idx)]) : Written c m' := by
  obtain ⟨before, hbefore, hsub⟩ := h
  refine ⟨before ++ out.map .sent, by rw [hlog, hbefore, List.append_assoc], ?_⟩
  rw [headersSent_append, hopened, List.map_append]
  exact hsub.append (headersSent_headFrames hout)

theorem readAndDispatch_headers (c : Connection) (sink : Bool) :
    ∃ log, (c.readAndDispatch sink).state.tls.log = c.tls.log ++ log ∧ headersSent log = [] := by
  obtain ⟨-, hr⟩ | ⟨kind, msg, rest, e', -, hr⟩ | ⟨f, rest, hin, hr⟩ := c.readAndDispatch_cases sink
  all_goals rw [hr]
  · exact ⟨[], by simp, rfl⟩
  · exact ⟨[], by simp [Connection.readFailed], rfl⟩
  · obtain ⟨out, hout, hreply⟩ := (Connection.carried_processFrame (c.received f rest) f sink).log
    exact ⟨.recv f :: out.map .sent, by rw [hout]; simp [Connection.received],
      (headersSent_recv f _).trans (headersSent_replies hreply)⟩

theorem deliver_headers (id : Nat) (idx : Fin n) (stream : Stream) :
    ∃ log, (m.deliver codecs reqs id idx stream).conn.tls.log = m.conn.tls.log ++ log ∧
      headersSent log = [] := by
  unfold deliver
  simp only [setResult]
  split
  · obtain ⟨fs, hw | ⟨e, hw⟩⟩ :=
      (m.conn.removeStream id).writeFrame_cases (rstStreamFrame id errNoError)
    all_goals rw [hw]
    · exact ⟨[.sent (rstStreamFrame id errNoError)], rfl, rfl⟩
    · exact ⟨[], by simp [Connection.removeStream, Connection.withFaults], rfl⟩
  · exact ⟨[], by simp [Connection.removeStream], rfl⟩

theorem move_written (h : Written c m) (hm : Move codecs reqs P m m') : Written c m' := by
  cases hm with
  | @refused idx rest e conn hq hopen =>
    cases Connection.openStream_error hopen
    exact h.more (show _ = _ ++ [] by simp [setResult]) rfl rfl
  | @unsent idx rest id e conn conn' hq hopen hstage =>
    obtain ⟨out, hout, hlog⟩ := conn.stageRequestOn_log id (reqs idx)
    rw [hstage] at hlog
    refine h.opened hout ?_ rfl
    obtain ⟨-, -, -, -, rfl⟩ := Connection.openStream_ok hopen
    exact hlog
  | @started idx rest id u conn conn' hq hopen hstage =>
    obtain ⟨out, hout, hlog⟩ := conn.stageRequestOn_log id (reqs idx)
    rw [hstage] at hlog
    refine h.opened hout ?_ rfl
    obtain ⟨-, -, -, -, rfl⟩ := Connection.openStream_ok hopen
    exact hlog
  | pumped =>
    obtain ⟨out, hlog, hout⟩ := m.conn.pumpSteps_flushPending.log
    exact h.more hlog (headersSent_eq_nil fun f hf => by simp [hout f hf]) rfl
  | @accepted outcome conn hp hread =>
    obtain ⟨log, hlog, hnone⟩ := readAndDispatch_headers m.conn false
    rw [hread] at hlog
    have hspared : Written c { m with conn }.spared := by
      refine h.more ?_ hnone (opened_spared _)
      rw [(trims_spared { m with conn }).conn]
      exact hlog
    unfold settle handBack
    generalize { m with conn }.spared = m₁ at hspared ⊢
    repeat' split
    · exact hspared
    · exact hspared
    · exact hspared
    · obtain ⟨log', hlog', hnone'⟩ := deliver_headers _ _ _
      exact hspared.more hlog' hnone' rfl
  | @stumbled m₁ e conn idx hp hread htake =>
    obtain ⟨log, hlog, hnone⟩ := readAndDispatch_headers m.conn false
    rw [hread] at hlog
    obtain ⟨id, s, hculprits, hidx, rfl⟩ := takeStreamError_some htake
    exact h.more hlog hnone rfl

/-! ## Giving up -/

/-- Failing the requests of a list: those without a result get the error, nothing else changes. -/
theorem foldl_failOutstanding (err : Error) (l : List (Fin n)) (m : Mux n) :
    (∀ i, (l.foldl (failOutstanding err) m).results i =
        if m.results i = none ∧ i ∈ l then some (.error err) else m.results i) ∧
      l.foldl (failOutstanding err) m =
        { m with results := (l.foldl (failOutstanding err) m).results } := by
  induction l generalizing m with
  | nil => simp
  | cons idx l ih =>
    obtain ⟨hres, hrest⟩ := ih (failOutstanding err m idx)
    have hstep : failOutstanding err m idx =
        { m with results := (failOutstanding err m idx).results } := by
      unfold failOutstanding
      split <;> rfl
    refine ⟨fun i => ?_, ?_⟩
    · rw [List.foldl_cons, hres]
      unfold failOutstanding
      by_cases hnone : m.results idx = none
      · simp only [hnone, Option.isNone_none, if_true]
        by_cases hi : i = idx
        · subst hi
          simp [hnone]
        · rw [setResult_of_ne hi]
          simp [hi]
      · have : (m.results idx).isNone = false := by
          rw [Option.isNone_eq_false_iff, Option.isSome_iff_ne_none]
          exact hnone
        simp only [this, Bool.false_eq_true, if_false]
        by_cases hi : i = idx
        · subst hi
          simp [hnone]
        · simp [hi]
    · rw [List.foldl_cons, hrest, hstep]

theorem failAllOutstanding_spec (hacc : Accounted m) (err : Error) :
    (∀ i, (m.failAllOutstanding err).results i =
        if m.results i = none then some (.error err) else m.results i) ∧
      m.failAllOutstanding err = { m with results := (m.failAllOutstanding err).results } := by
  unfold failAllOutstanding
  obtain ⟨hres, hrest⟩ := foldl_failOutstanding err (m.idToIdx.toList.map Prod.snd ++ m.queue) m
  refine ⟨fun i => ?_, hrest⟩
  rw [hres]
  by_cases hnone : m.results i = none
  · have hmem : i ∈ m.idToIdx.toList.map Prod.snd ++ m.queue := by
      rcases hacc.placed i hnone with hq | ⟨id, hid⟩
      · exact List.mem_append_right _ hq
      · refine List.mem_append_left _ ?_
        exact List.mem_map.mpr ⟨(id, i), Std.ExtTreeMap.mem_toList_iff_getElem?_eq_some.mpr hid, rfl⟩
    simp [hnone, hmem]
  · simp [hnone]

/-- How a way out of the loop relates to the state it starts in. -/
theorem ends_forward (hacc : Accounted m) (h : Ends codecs reqs P m m') :
    Forward m m' ∧ m'.opened = m.opened ∧
      (∀ i resp, m'.results i = some (.ok resp) → m.results i = some (.ok resp)) ∧
      ∃ log, m'.conn.tls.log = m.conn.tls.log ++ log ∧ headersSent log = [] := by
  have hfail {m₁ m₂ : Mux n} {p : Fin n → Prop} {err : Error}
      (hres : ∀ i, (p i → m₁.results i = none → m₂.results i = some (.error err)) ∧
        (¬(p i ∧ m₁.results i = none) → m₂.results i = m₁.results i)) :
      (∀ i r, m₁.results i = some r → m₂.results i = some r) ∧
        ∀ i resp, m₂.results i = some (.ok resp) → m₁.results i = some (.ok resp) := by
    refine ⟨fun i r hr => ?_, fun i resp hr => ?_⟩
    · rw [(hres i).2 (by simp [hr]), hr]
    · by_cases hp : p i ∧ m₁.results i = none
      · rw [(hres i).1 hp.1 hp.2] at hr
        cases hr
      · rwa [(hres i).2 hp] at hr
  cases h with
  | finished h => exact ⟨.refl m, rfl, fun _ _ h => h, [], by simp, rfl⟩
  | starved hidle e =>
    obtain ⟨hres, hrest⟩ := foldl_failOutstanding e m.queue m
    obtain ⟨hkept, hok⟩ := @hfail m (m.queue.foldl (failOutstanding e) m) (· ∈ m.queue) e
      fun i => ⟨fun hp hn => by rw [hres, if_pos ⟨hn, hp⟩],
        fun hn => by rw [hres, if_neg fun h => hn ⟨h.2, h.1⟩]⟩
    rw [hrest] at hkept hok ⊢
    exact ⟨.of_opened ⟨hkept, List.nil_suffix, List.prefix_refl _⟩ rfl fun _ h => h, rfl, hok,
      [], by simp, rfl⟩
  | broken hlive => exact ⟨.refl m, rfl, fun _ _ h => h, [], by simp, rfl⟩
  | gaveUp e =>
    obtain ⟨hres, hrest⟩ := failAllOutstanding_spec hacc e
    obtain ⟨hkept, hok⟩ := @hfail m (m.failAllOutstanding e) (fun _ => True) e
      fun i => ⟨fun _ hn => by rw [hres, if_pos hn],
        fun hn => by rw [hres, if_neg fun h => hn ⟨trivial, h⟩]⟩
    rw [hrest] at hkept hok ⊢
    exact ⟨.of_opened ⟨hkept, List.suffix_refl _, List.prefix_refl _⟩ rfl fun _ h => h, rfl, hok,
      [], by simp, rfl⟩
  | @fatal e conn hlive hp hread htake =>
    have hkeeps : Connection.KeepsStreams m.conn conn := by
      have := m.conn.keepsStreams_readAndDispatch false
      rwa [hread] at this
    obtain ⟨log, hlog, hnone⟩ := readAndDispatch_headers m.conn false
    rw [hread] at hlog
    obtain ⟨hres, hrest⟩ := failAllOutstanding_spec (hacc.conn hkeeps) e
    obtain ⟨hkept, hok⟩ := @hfail { m with conn } ({ m with conn }.failAllOutstanding e)
      (fun _ => True) e
      fun i => ⟨fun _ hn => by rw [hres, if_pos hn],
        fun hn => by rw [hres, if_neg fun h => hn ⟨trivial, h⟩]⟩
    rw [hrest] at hkept hok ⊢
    refine ⟨.of_opened ⟨hkept, List.suffix_refl _, List.prefix_refl _⟩ rfl fun k hk => ?_, rfl, hok,
      log, hlog, hnone⟩
    have hconn := m.conn.readAndDispatch_abandoned false hk
    rw [hread] at hconn
    exact hconn

/-! ## The whole run -/

/-- What every move keeps. -/
structure Kept (codecs : Codecs) (reqs : Fin n → Request) (c : Connection) (m : Mux n) : Prop where
  accounted : Accounted m
  live : Live m
  sourced : Sourced codecs reqs m
  written : Written c m

theorem kept_init (codecs : Codecs) (reqs : Fin n → Request) (hc : c.Known) :
    Kept codecs reqs c (init c n) := by
  refine ⟨⟨List.nodup_finRange n, ?_, ?_, ?_, List.nodup_nil, List.Pairwise.nil, ?_, hc, ?_⟩, ?_, ?_,
    [], ?_, ?_⟩
  · exact fun i _ => ⟨rfl, by simp [init]⟩
  · intro id i h
    simp [init] at h
  · exact fun i _ => .inl (List.mem_finRange i)
  · simp [init]
  · intro id h
    simp [init] at h
  · intro id h
    simp [init] at h
  · intro i resp h
    cases h
  · simp [init]
  · exact List.nil_sublist _

theorem Kept.move (h : Kept codecs reqs c m) (hm : Move codecs reqs P m m') :
    Kept codecs reqs c m' :=
  ⟨(move_accounted h.accounted hm).1, move_live h.accounted h.live hm,
    move_sourced h.accounted h.live h.sourced hm, move_written h.written hm⟩

theorem Kept.moves (h : Kept codecs reqs c m) (hm : Moves codecs reqs P m m') :
    Kept codecs reqs c m' ∧ Forward m m' := by
  induction hm with
  | refl => exact ⟨h, .refl m⟩
  | tail _ hstep ih => exact ⟨ih.1.move hstep, ih.2.trans (move_forward ih.1.accounted hstep)⟩

theorem reads_trivial (reqs : Fin n → Request) (m : Mux n) : m.Reads reqs fun _ => True :=
  fun _ _ _ => trivial

/-- Each request is in exactly one place: queued, mapped from one stream that is in the
connection's map, or done. -/
def OnePlace (m : Mux n) (i : Fin n) : Prop :=
  (i ∈ m.queue ∧ (∀ id : Nat, m.idToIdx[id]? ≠ some i) ∧ m.results i = none) ∨
    (i ∉ m.queue ∧ (∃! id : Nat, m.idToIdx[id]? = some i ∧ m.conn.streams[id]?.isSome) ∧
      m.results i = none) ∨
    (i ∉ m.queue ∧ (∀ id : Nat, m.idToIdx[id]? ≠ some i) ∧ (m.results i).isSome)

theorem Accounted.onePlace (h : Accounted m) (i : Fin n) : m.OnePlace i := by
  cases hi : m.results i with
  | some r =>
    refine .inr (.inr ⟨fun hq => ?_, fun id hid => ?_, by simp [hi]⟩)
    · simp [(h.queued i hq).1] at hi
    · simp [(h.mapped id i hid).1] at hi
  | none =>
    rcases h.placed i hi with hq | ⟨id, hid⟩
    · refine .inl ⟨hq, fun id hid => ?_, hi⟩
      exact (h.queued i hq).2 _ (h.mapped id i hid).2 rfl
    · refine .inr (.inl ⟨fun hq => ?_, ⟨id, ⟨hid, h.live id (by simp [hid])⟩, ?_⟩, hi⟩)
      · exact (h.queued i hq).2 _ (h.mapped id i hid).2 rfl
      · exact fun id' hid' => h.mapped_unique hid'.1 hid

theorem forward_prune {conn : Connection} (h : Forward m m')
    (hgoaway : conn.goawayReceived = m'.conn.goawayReceived) : Forward m { m' with conn } :=
  ⟨⟨h.results, h.queue, h.opened⟩, fun id hid => by
    obtain ⟨last, hlast, hlt⟩ := h.abandoned id hid
    exact ⟨last, hgoaway.trans hlast, hlt⟩, h.within⟩

/-- The frame loop moves forward only. -/
theorem loop_forward (h : Kept codecs reqs c m) :
    (Loop.visited (turn codecs reqs) variant m).Pairwise Forward ∧
      ∀ t ∈ Loop.visited (turn codecs reqs) variant m,
        Forward t (Loop.run (turn codecs reqs) variant (turn_lowers codecs reqs) m) := by
  obtain ⟨hpair, -, last, hlast, hdone, hto⟩ := Loop.visited_pairwise (turn_lowers codecs reqs)
    Forward.refl (fun _ _ _ => Forward.trans) h
    fun t ht t' hnext => ht.moves (turn_next hnext (reads_trivial reqs t))
  refine ⟨hpair, fun t ht => ?_⟩
  obtain ⟨m₁, hmoves, hends⟩ := turn_done hdone (reads_trivial reqs last)
  obtain ⟨hkept₁, hforward₁⟩ := hlast.moves hmoves
  exact (hto t ht).trans (hforward₁.trans (ends_forward hkept₁.accounted hends).1)

/-- The turns of a run are in order, and the run ends after them. -/
theorem turns_forward (codecs : Codecs) (reqs : Fin n → Request) (hc : c.Known) :
    (turns codecs reqs c).Pairwise Forward ∧ (∀ m ∈ turns codecs reqs c, Kept codecs reqs c m) ∧
      ∀ m ∈ turns codecs reqs c, Forward m (run codecs reqs c) := by
  have hkept : ∀ m ∈ turns codecs reqs c, Kept codecs reqs c m :=
    turns_rule (kept_init codecs reqs hc) (fun m m' hm hmove => hm.move hmove)
      fun m _ => reads_trivial reqs m
  have hstart := ((kept_init codecs reqs hc).moves (moves_init codecs reqs (fun _ => True) c)).1
  have hall : (turns codecs reqs c).Pairwise Forward ∧
      ∀ m ∈ turns codecs reqs c, Forward m (run codecs reqs c) := by
    unfold turns run
    simp only
    cases hf : (startQueued reqs (List.finRange n) (init c n)).flushPending with
    | error e m => simp
    | ok u m =>
      rw [hf] at hstart
      obtain ⟨hpair, hto⟩ := loop_forward hstart
      exact ⟨hpair, fun m' hm' => forward_prune (hto m' hm') rfl⟩
  exact ⟨hall.1, hkept, hall.2⟩

theorem flushPending_keeps (m : Mux n) : m.flushPending.state.opened = m.opened ∧
    ∀ id, m.conn.Abandoned id → m.flushPending.state.conn.Abandoned id := by
  have hgoaway := (Connection.sends_flushPending m.conn).goawayReceived
  unfold flushPending
  cases hf : m.conn.flushPending with
  | ok _ conn =>
    rw [hf] at hgoaway
    exact ⟨rfl, fun id ⟨last, hlast, hlt⟩ => ⟨last, hgoaway.trans hlast, hlt⟩⟩
  | error _ conn =>
    rw [hf] at hgoaway
    exact ⟨rfl, fun id ⟨last, hlast, hlt⟩ => ⟨last, hgoaway.trans hlast, hlt⟩⟩

/-- Streams opened after a GOAWAY was accepted are within its boundary. -/
theorem opened_after_goaway {reqs : Fin n → Request} (hc : c.Known) {m₁ : Mux n}
    (hm : m ∈ turns codecs reqs c) (hun : m.unfinished = true) (hwake : m.wake reqs = .ok m₁)
    {f : Frame} {rest : List Inbound} {outcome : DispatchOutcome} {conn : Connection}
    (hin : m₁.conn.tls.inbound = .frame f :: rest) (htyp : f.typ = .goaway)
    (hread : m₁.conn.readAndDispatch false = .ok outcome conn) :
    ∀ e ∈ (run codecs reqs c).opened, e ∈ m₁.opened ∨ e.1 ≤ Connection.lastStreamId f := by
  obtain ⟨rfl, hgone⟩ := Connection.goaway_accepted hin htyp hread
  have hkept := (turns_forward codecs reqs hc).2.1 m hm
  have hturn : m.turn codecs reqs = { m₁ with conn }.proceed codecs reqs .continue := by
    unfold turn
    rw [hun, hwake]
    simp only [Bool.not_true, Bool.false_eq_true, if_false, hread]
  obtain ⟨hopened, habandoned⟩ := flushPending_keeps { m₁ with conn }.spared
  rw [opened_spared] at hopened
  have hbound (k : Nat) (hk : Connection.lastStreamId f < k) :
      { m₁ with conn }.spared.flushPending.state.conn.Abandoned k := by
    refine habandoned k ?_
    rw [(trims_spared { m₁ with conn }).conn]
    exact hgone k hk
  unfold turns at hm
  unfold run
  simp only
  cases hf : (startQueued reqs (List.finRange n) (init c n)).flushPending with
  | error e _ =>
    rw [hf] at hm
    cases hm
  | ok u s =>
    rw [hf] at hm
    simp only
    rw [Loop.run_of_mem_visited (turn_lowers codecs reqs) hm]
    cases hflush : { m₁ with conn }.spared.flushPending with
    | error e m₂ =>
      rw [@proceed_of_error n codecs reqs { m₁ with conn } .continue m₂ e hflush] at hturn
      rw [hflush] at hopened
      rw [Loop.run_done hturn]
      intro e he
      refine .inl ?_
      rw [← hopened]
      unfold failAllOutstanding at he
      rw [(foldl_failOutstanding _ _ m₂).2] at he
      exact he
    | ok _ m₂ =>
      rw [@proceed_of_ok n codecs reqs { m₁ with conn } .continue m₂ _ hflush] at hturn
      rw [hflush] at hopened hbound
      have hkept₂ := (hkept.moves (turn_next hturn (reads_trivial reqs m))).1
      have hforward := (loop_forward hkept₂).2 m₂ (by
        unfold Loop.visited
        rw [Loop.trail]
        exact List.mem_cons_self)
      rw [Loop.run_next hturn]
      intro e he
      by_cases hmem : e ∈ m₂.opened
      · exact .inl (hopened ▸ hmem)
      · refine .inr (Nat.le_of_not_lt fun hlt => ?_)
        exact hforward.within e he hmem (hbound e.1 hlt)

/-- What a run leaves behind. -/
theorem run_kept (codecs : Codecs) (reqs : Fin n → Request) (hc : c.Known) :
    (∀ e ∈ (run codecs reqs c).opened, e.1 % 2 = 1) ∧
      ((run codecs reqs c).opened.map Prod.fst).Pairwise (· < ·) ∧
      ((run codecs reqs c).opened.map Prod.snd).Nodup ∧
      Written c (run codecs reqs c) ∧ Sourced codecs reqs (run codecs reqs c) := by
  obtain ⟨m₁, m₂, hkept, hends, hrun⟩ :=
    @run_ends _ codecs _ reqs c (Kept codecs reqs c) (kept_init codecs reqs hc)
      (fun m m' hm hmove => hm.move hmove) fun m _ => reads_trivial reqs m
  obtain ⟨hforward, hopened, hok, log, hlog, hnone⟩ := ends_forward hkept.accounted hends
  have hwritten : Written c m₂ := hkept.written.more hlog hnone hopened
  have hsourced : Sourced codecs reqs m₂ :=
    hkept.sourced.mono ⟨log, hlog.symm⟩ hforward.opened hok
  have hids : ∀ e ∈ m₂.opened, e.1 % 2 = 1 := by
    rw [hopened]
    exact fun e he => (hkept.accounted.ids e he).1
  have hincr : (m₂.opened.map Prod.fst).Pairwise (· < ·) := by
    rw [hopened]
    exact hkept.accounted.increasing
  have honce : (m₂.opened.map Prod.snd).Nodup := by
    rw [hopened]
    exact hkept.accounted.once
  rcases hrun with hrun | hrun <;> rw [hrun]
  · exact ⟨hids, hincr, honce, hwritten, hsourced⟩
  · exact ⟨hids, hincr, honce, hwritten, hsourced⟩

end Mux

namespace Connection

/-- Requests of a batch are accounted for: at every turn of the frame loop each is in one place,
they move forward only, HEADERS go out on one stream for each, streams have odd ids in increasing
order and none is opened above the boundary of a GOAWAY accepted before; there is one result for
each request, and a response is made of frames of the stream opened for its request. -/
theorem batch_accounted {c : Connection} (hc : Reachable c) (codecs : Codecs)
    (reqs : List Request) :
    (∀ m ∈ Mux.turns codecs reqs.get c, ∀ i, m.OnePlace i) ∧
      (Mux.turns codecs reqs.get c).Pairwise Mux.Forward ∧
      (∀ m ∈ Mux.turns codecs reqs.get c, Mux.Forward m (Mux.run codecs reqs.get c)) ∧
      (∀ e ∈ (Mux.run codecs reqs.get c).opened, e.1 % 2 = 1) ∧
      ((Mux.run codecs reqs.get c).opened.map Prod.fst).Pairwise (· < ·) ∧
      ((Mux.run codecs reqs.get c).opened.map Prod.snd).Nodup ∧
      Mux.Written c (Mux.run codecs reqs.get c) ∧
      (∀ m ∈ Mux.turns codecs reqs.get c, ∀ m₁ f rest outcome conn, m.unfinished = true →
        m.wake reqs.get = .ok m₁ → m₁.conn.tls.inbound = .frame f :: rest → f.typ = .goaway →
        m₁.conn.readAndDispatch false = .ok outcome conn →
        ∀ e ∈ (Mux.run codecs reqs.get c).opened, e ∈ m₁.opened ∨ e.1 ≤ lastStreamId f) ∧
      (c.runMultiplexed codecs reqs).1.length = reqs.length ∧
      ∀ (i : Fin reqs.length) (resp : Response),
        (c.runMultiplexed codecs reqs).1[i.val]? = some (.ok resp) →
        ∃ id s log awaited, (id, i) ∈ (Mux.run codecs reqs.get c).opened ∧
          log <+: (c.runMultiplexed codecs reqs).2.tls.log ∧
          s.Follows id (sinceOpened id log) awaited ∧
          buildResponseFromStream codecs s (reqs.get i).decompress = .ok resp := by
  have hk := hc.known
  obtain ⟨hpair, hkept, hforward⟩ := Mux.turns_forward codecs reqs.get hk
  obtain ⟨hodd, hincr, honce, hwritten, hsourced⟩ := Mux.run_kept codecs reqs.get hk
  refine ⟨fun m hm i => (hkept m hm).accounted.onePlace i, hpair, hforward, hodd, hincr, honce,
    hwritten, ?_, ?_, ?_⟩
  · intro m hm m₁ f rest outcome conn hun hwake hin htyp hread
    exact Mux.opened_after_goaway hk hm hun hwake hin htyp hread
  · simp [runMultiplexed, Mux.collectResults]
  · intro i resp hi
    refine hsourced i resp ?_
    have hfin : (List.finRange reqs.length)[i.val]? = some i := by
      rw [List.getElem?_eq_getElem (by simp)]
      simp
    simp only [runMultiplexed, Mux.collectResults, List.getElem?_map, hfin, Option.map_some] at hi
    cases hr : (Mux.run codecs reqs.get c).results i with
    | none => simp [hr] at hi
    | some r => simpa [hr] using hi

/-- Two requests at once, and the responses to both. -/
def twoReplies : List Inbound :=
  [.frame ⟨.settings, 0, 0, []⟩, .frame ⟨.headers, 5, 3, [0x88]⟩, .frame ⟨.headers, 5, 1, [0x89]⟩]

def twoRequests : List Request :=
  [.plain "GET" "example.com" "/a", .plain "GET" "example.com" "/b"]

theorem batch_accounted_two :
    ((fresh twoReplies).runMultiplexed .unavailable twoRequests).1.length = 2 ∧
      ∃ id s log awaited,
        (id, (1 : Fin 2)) ∈ (Mux.run .unavailable twoRequests.get (fresh twoReplies)).opened ∧
        log <+: ((fresh twoReplies).runMultiplexed .unavailable twoRequests).2.tls.log ∧
        s.Follows id (sinceOpened id log) awaited ∧
        buildResponseFromStream .unavailable s true =
          .ok ⟨200, "", "HTTP/2", [], [], ""⟩ := by
  obtain ⟨-, -, -, -, -, -, -, -, hlen, hsourced⟩ :=
    batch_accounted (reachable_fresh twoReplies) .unavailable twoRequests
  exact ⟨hlen, hsourced (1 : Fin 2) _ (by decide +kernel)⟩

/-- A GOAWAY that says streams above 1 are not processed. -/
def goawayAtOne : Frame := ⟨.goaway, 0, 0, [0, 0, 0, 1, 0, 0, 0, 0]⟩

/-- A connection whose peer allows one stream at a time. -/
def oneAtATime (inbound : List Inbound) : Connection :=
  ((fresh (.frame ⟨.settings, 0, 0, [0, 3, 0, 0, 0, 1]⟩ :: inbound)).readAndDispatch false).state

/-- A fatal error leaves a request both mapped and done, and a GOAWAY that comes inside a header
block is refused: a stream above its boundary is opened later. -/
theorem batch_accounting_gaps :
    (Mux.run .unavailable twoRequests.get (fresh [.frame ⟨.data, 0, 0, []⟩])).idToIdx[1]? =
        some (0 : Fin 2) ∧
      ((Mux.run .unavailable twoRequests.get (fresh [.frame ⟨.data, 0, 0, []⟩])).results
        (0 : Fin 2)).isSome = true ∧
      headersSent ((Mux.run .unavailable twoRequests.get (oneAtATime
        [.frame ⟨.headers, 1, 1, []⟩, .frame goawayAtOne])).conn.tls.log.dropWhile
          (· != .recv goawayAtOne)) = [3] ∧
      lastStreamId goawayAtOne = 1 := by
  decide +kernel

end Connection

end Rsurl.Http2
