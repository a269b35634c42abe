import Rsurl.Http2.Sending

/-!
# Many requests at a time

The multiplexed driver: queued requests are started up to the peer's concurrency limit, one frame
loop serves every live stream, and a stream's end or error is routed back to its request. The
field `opened` is history only: the stream opened for each request, in order.
-/

namespace Rsurl.Http2

open Library

/-- The driver's state for `n` requests. -/
structure Mux (n : Nat) where
  conn : Connection
  results : Fin n → Option (Except Error Response)
  idToIdx : Std.ExtTreeMap Nat (Fin n)
  queue : List (Fin n)
  opened : List (Nat × Fin n)

namespace Mux

variable {n : Nat}

def setResult (m : Mux n) (idx : Fin n) (r : Except Error Response) : Mux n :=
  { m with results := Function.update m.results idx (some r) }

@[simp] theorem setResult_self (m : Mux n) (idx : Fin n) (r : Except Error Response) :
    (m.setResult idx r).results idx = some r := by
  simp [setResult]

theorem setResult_of_ne {i idx : Fin n} (h : i ≠ idx) (m : Mux n) (r : Except Error Response) :
    (m.setResult idx r).results i = m.results i := by
  simp [setResult, Function.update_of_ne h]

def unfinished (m : Mux n) : Bool := (List.finRange n).any fun idx => (m.results idx).isNone

/-- Start queued requests until the concurrency limit or the end of the queue. -/
def startQueued (reqs : Fin n → Request) : List (Fin n) → Mux n → Mux n
  | [], m => { m with queue := [] }
  | idx :: rest, m =>
    if m.conn.peer.maxConcurrentStreams ≤ m.conn.streams.size then { m with queue := idx :: rest }
    else match m.conn.openStream with
      | .error e conn => startQueued reqs rest ({ m with conn }.setResult idx (.error e))
      | .ok id conn =>
        let m := { m with opened := m.opened ++ [(id, idx)] }
        match conn.stageRequestOn id (reqs idx) with
        | .error e conn =>
          startQueued reqs rest ({ m with conn := conn.removeStream id }.setResult idx (.error e))
        | .ok _ conn =>
          startQueued reqs rest { m with conn, idToIdx := m.idToIdx.insert id idx }

/-- Live streams that were forced closed without a complete response. -/
def culprits (m : Mux n) : List (Nat × Stream) :=
  m.conn.streams.toList.filter fun e =>
    m.idToIdx.contains e.1 && e.2.state == .closed && !e.2.responseComplete

/-- Attribute a dispatch error to the one stream it closed, if there is exactly one. -/
def takeStreamError (m : Mux n) : Option (Fin n × Mux n) :=
  match m.culprits with
  | [(id, _)] => match m.idToIdx[id]? with
    | none => none
    | some idx => some (idx,
        { m with idToIdx := m.idToIdx.erase id, conn := m.conn.removeStream id })
  | _ => none

def failDoomed (last : Nat) (m : Mux n) (id : Nat) : Mux n :=
  match m.idToIdx[id]? with
  | none => m
  | some idx =>
    { m with idToIdx := m.idToIdx.erase id, conn := m.conn.removeStream id }.setResult idx
      (.error (.badResponse s!"stream {id} abandoned by GOAWAY (last-stream-id={last})"))

/-- Fail the streams a GOAWAY abandoned, except those whose response is in. -/
def failGoawayDoomed (m : Mux n) : Mux n :=
  match m.conn.goawayReceived with
  | none => m
  | some last =>
    let doomed := m.idToIdx.keys.filter fun id =>
      decide (last < id) &&
        !m.conn.streams[id]?.any fun s => s.endStreamRecv && s.responseHeaders.isSome
    doomed.foldl (failDoomed last) m

def failOutstanding (err : Error) (m : Mux n) (idx : Fin n) : Mux n :=
  if (m.results idx).isNone then m.setResult idx (.error err) else m

/-- Fail every request that has no result yet. -/
def failAllOutstanding (m : Mux n) (err : Error) : Mux n :=
  (m.idToIdx.toList.map Prod.snd ++ m.queue).foldl (failOutstanding err) m

def flushPending (m : Mux n) : Outcome (Mux n) Unit :=
  m.conn.flushPending.mapState fun conn => { m with conn }

/-- Hand a finished stream's response to its request; what is unsent of its body is given up. -/
def deliver (codecs : Codecs) (reqs : Fin n → Request) (m : Mux n) (id : Nat) (idx : Fin n)
    (stream : Stream) : Mux n :=
  let conn := m.conn.removeStream id
  let conn := if stream.pendingBody.isSome then
      (conn.writeFrame (rstStreamFrame id errNoError)).state
    else conn
  { m with conn, idToIdx := m.idToIdx.erase id }.setResult idx
    (buildResponseFromStream codecs stream (reqs idx).decompress)

def finish (codecs : Codecs) (reqs : Fin n → Request) (m : Mux n) (id : Nat) : Mux n :=
  match m.idToIdx[id]? with
  | none => m
  | some idx => match m.conn.streams[id]? with
    -- `expect`: a finished stream is registered
    | none => { m with idToIdx := m.idToIdx.erase id }
    | some stream => startQueued reqs m.queue (m.deliver codecs reqs id idx stream)

/-- Nothing is in flight: start queued work, or give up on the rest of the queue. `error` is a
`break` out of the frame loop. -/
def wake (reqs : Fin n → Request) (m : Mux n) : Except (Mux n) (Mux n) :=
  if !m.idToIdx.isEmpty then .ok m
  else if m.queue.isEmpty then .error m
  else
    let m := m.startQueued reqs m.queue
    if m.idToIdx.isEmpty then
      let gone := Error.badResponse "no usable stream to issue request (GOAWAY?)"
      .error { m.queue.foldl (failOutstanding gone) m with queue := [] }
    else match m.flushPending with
      | .error _ m => .error m
      | .ok _ m => .ok m

/-- A dispatch error: either one request fails and the others go on, or all fail. -/
def recover (reqs : Fin n → Request) (m : Mux n) (e : Error) : Loop.Turn (Mux n) (Mux n) :=
  match m.takeStreamError with
  | none => .done (m.failAllOutstanding e)
  | some (idx, m) =>
    let m := m.setResult idx (.error e)
    let m := m.startQueued reqs m.queue
    match m.flushPending with
    | .error fe m => .done (m.failAllOutstanding fe)
    | .ok _ m => .next m

def reap (codecs : Codecs) (reqs : Fin n → Request) (m : Mux n) (outcome : DispatchOutcome) :
    Mux n :=
  match outcome with
  | .continue => m
  | .done id => m.finish codecs reqs id

/-- A dispatched frame: reap what it finished or doomed, and send what it unblocked. -/
def proceed (codecs : Codecs) (reqs : Fin n → Request) (m : Mux n) (outcome : DispatchOutcome) :
    Loop.Turn (Mux n) (Mux n) :=
  let m := if m.conn.goawayReceived.isSome then m.failGoawayDoomed else m
  match (m.reap codecs reqs outcome).flushPending with
  | .error _ m =>
    .done (m.failAllOutstanding (.badResponse "write error pumping multiplexed sends"))
  | .ok _ m => .next m

/-- One turn of the frame loop; the value is the state after a `break`. -/
def turn (codecs : Codecs) (reqs : Fin n → Request) (m : Mux n) : Loop.Turn (Mux n) (Mux n) :=
  if !m.unfinished then .done m
  else match m.wake reqs with
    | .error m => .done m
    | .ok m => match m.conn.readAndDispatch false with
      | .error e conn => { m with conn }.recover reqs e
      | .ok outcome conn => { m with conn }.proceed codecs reqs outcome

/-! ## The loop ends -/

/-- Requests left to start, counted twice, and streams left to finish. -/
def work (m : Mux n) : Nat := 2 * m.queue.length + m.idToIdx.size

/-- Frames left to read and work left to do. -/
def variant (m : Mux n) : Nat := m.conn.tls.inbound.length + m.work

/-- No input is read and no work is added. -/
structure Settles (m m' : Mux n) : Prop where
  inbound : m'.conn.tls.inbound = m.conn.tls.inbound
  work : m'.work ≤ m.work

theorem Settles.refl (m : Mux n) : Settles m m := ⟨rfl, le_rfl⟩

theorem Settles.trans {m m' m'' : Mux n} (h : Settles m m') (h' : Settles m' m'') :
    Settles m m'' := ⟨h'.inbound.trans h.inbound, h'.work.trans h.work⟩

end Mux

namespace Connection

theorem openStream_error {c c' : Connection} {e : Error} (h : c.openStream = .error e c') :
    c' = c := by
  unfold openStream at h
  repeat' split at h
  all_goals cases h
  all_goals rfl

/-- What opening a stream does: the next id gets a fresh stream. -/
theorem openStream_ok {c c' : Connection} {id : Nat} (h : c.openStream = .ok id c') :
    id = c.nextStreamId ∧ id < 0x80000000 ∧ (∀ last, c.goawayReceived = some last → id ≤ last) ∧
      c.streams.size < c.peer.maxConcurrentStreams ∧
      c' = { c with
        nextStreamId := id + 2
        streams := c.streams.insert id (.new c.peer.initialWindowSize c.ourRecvWindow) } := by
  unfold openStream at h
  repeat' split at h
  all_goals try cases h
  rename_i hfull hspace hgone
  have hmin : min (c.nextStreamId + 2) (2 ^ 32 - 1) = c.nextStreamId + 2 := by omega
  refine ⟨rfl, by omega, ?_, by omega, by rw [hmin]⟩
  intro last hlast
  simpa [hlast] using hgone

end Connection

namespace Mux

variable {n : Nat}

theorem settles_startQueued (reqs : Fin n → Request) (q : List (Fin n)) (m : Mux n) :
    (startQueued reqs q m).conn.tls.inbound = m.conn.tls.inbound ∧
      (startQueued reqs q m).work ≤ 2 * q.length + m.idToIdx.size := by
  fun_induction startQueued reqs q m with
  | case1 m => exact ⟨rfl, le_rfl⟩
  | case2 idx rest m hfull => exact ⟨rfl, le_rfl⟩
  | case3 idx rest m hfull e conn hopen ih =>
    cases Connection.openStream_error hopen
    refine ⟨ih.1, ih.2.trans ?_⟩
    simp only [setResult, List.length_cons]
    omega
  | case4 idx rest m hfull id conn hopen m' e conn' hstage ih =>
    have hsends := (@Connection.sendEdits_stageRequestOn id conn (reqs idx)).sends.inbound
    rw [hstage] at hsends
    obtain ⟨-, -, -, -, rfl⟩ := Connection.openStream_ok hopen
    refine ⟨ih.1.trans hsends, ih.2.trans ?_⟩
    simp only [setResult, List.length_cons, m']
    omega
  | case5 idx rest m hfull id conn hopen m' u conn' hstage ih =>
    have hsends := (@Connection.sendEdits_stageRequestOn id conn (reqs idx)).sends.inbound
    rw [hstage] at hsends
    obtain ⟨-, -, -, -, rfl⟩ := Connection.openStream_ok hopen
    refine ⟨ih.1.trans hsends, ih.2.trans ?_⟩
    have := @Std.ExtTreeMap.size_insert_le _ _ _ m.idToIdx _ id idx
    simp only [List.length_cons, m']
    omega

theorem settles_flushPending (m : Mux n) : Settles m m.flushPending.state := by
  have h := (Connection.sends_flushPending m.conn).inbound
  unfold flushPending
  cases hf : m.conn.flushPending with
  | ok _ conn => rw [hf] at h; exact ⟨h, le_rfl⟩
  | error _ conn => rw [hf] at h; exact ⟨h, le_rfl⟩

theorem settles_failGoawayDoomed (m : Mux n) : Settles m m.failGoawayDoomed := by
  unfold failGoawayDoomed
  split
  · exact .refl m
  · rename_i last hlast
    clear hlast
    simp only
    generalize m.idToIdx.keys.filter _ = doomed
    induction doomed generalizing m with
    | nil => exact .refl m
    | cons id doomed ih =>
      refine Settles.trans ?_ (ih (failDoomed last m id))
      unfold failDoomed
      split
      · exact .refl m
      · refine ⟨rfl, ?_⟩
        have := @Std.ExtTreeMap.size_erase_le _ _ _ m.idToIdx _ id
        simp only [work, setResult]
        omega

theorem writeFrame_inbound (c : Connection) (f : Frame) :
    (c.writeFrame f).state.tls.inbound = c.tls.inbound := by
  obtain ⟨fs, h | ⟨e, h⟩⟩ := c.writeFrame_cases f <;> rw [h] <;> rfl

theorem settles_deliver (codecs : Codecs) (reqs : Fin n → Request) (m : Mux n) (id : Nat)
    (idx : Fin n) (stream : Stream) : Settles m (m.deliver codecs reqs id idx stream) := by
  have herase := @Std.ExtTreeMap.size_erase_le _ _ _ m.idToIdx _ id
  unfold deliver
  refine ⟨?_, ?_⟩
  · simp only [setResult]
    split
    · exact writeFrame_inbound _ _
    · rfl
  · simp only [work, setResult]
    omega

theorem settles_start {m m' : Mux n} (reqs : Fin n → Request) (h : Settles m m') :
    Settles m (startQueued reqs m'.queue m') := by
  obtain ⟨hin, hwork⟩ := settles_startQueued reqs m'.queue m'
  exact h.trans ⟨hin, hwork⟩

theorem settles_finish (codecs : Codecs) (reqs : Fin n → Request) (m : Mux n) (id : Nat) :
    Settles m (m.finish codecs reqs id) := by
  unfold finish
  split
  · exact .refl m
  · rename_i idx _
    split
    · have herase := @Std.ExtTreeMap.size_erase_le _ _ _ m.idToIdx _ id
      refine ⟨rfl, ?_⟩
      simp only [work]
      omega
    · rename_i stream _
      exact settles_start reqs (settles_deliver codecs reqs m id idx stream)

theorem settles_wake {reqs : Fin n → Request} {m m' : Mux n} (h : m.wake reqs = .ok m') :
    Settles m m' := by
  unfold wake at h
  split at h
  · cases h
    exact .refl m
  · split at h
    · cases h
    · simp only at h
      split at h
      · cases h
      · split at h
        · cases h
        · rename_i hf
          cases h
          have := settles_flushPending (startQueued reqs m.queue m)
          rw [hf] at this
          exact (settles_start reqs (.refl m)).trans this

/-- A stream error takes a live stream out. -/
theorem takeStreamError_some {m m' : Mux n} {idx : Fin n} (h : m.takeStreamError = some (idx, m')) :
    ∃ id s, m.culprits = [(id, s)] ∧ m.idToIdx[id]? = some idx ∧
      m' = { m with idToIdx := m.idToIdx.erase id, conn := m.conn.removeStream id } := by
  unfold takeStreamError at h
  split at h
  · rename_i id s hc
    split at h
    · cases h
    · rename_i hidx
      cases h
      exact ⟨id, s, hc, hidx, rfl⟩
  · cases h

theorem work_takeStreamError {m m' : Mux n} {idx : Fin n}
    (h : m.takeStreamError = some (idx, m')) : m'.work < m.work := by
  obtain ⟨id, s, -, hidx, rfl⟩ := takeStreamError_some h
  have hmem : m.idToIdx.contains id = true := by
    rw [Std.ExtTreeMap.contains_eq_isSome_getElem?, hidx]
    rfl
  have hsize := @Std.ExtTreeMap.size_erase _ _ _ m.idToIdx _ id
  have hpos : m.idToIdx.size ≠ 0 := by
    intro hzero
    have hempty := Std.ExtTreeMap.eq_empty_iff_size_eq_zero.mpr hzero
    simp [hempty] at hmem
  simp only [work]
  rw [if_pos hmem] at hsize
  omega

theorem lowers_recover {reqs : Fin n → Request} {m m' : Mux n} {e : Error}
    (h : m.recover reqs e = .next m') :
    m'.conn.tls.inbound = m.conn.tls.inbound ∧ m'.work < m.work := by
  unfold recover at h
  split at h
  · cases h
  · rename_i idx m₁ htake
    have hwork := work_takeStreamError htake
    obtain ⟨id, s, -, -, hm₁⟩ := takeStreamError_some htake
    have hin : m₁.conn.tls.inbound = m.conn.tls.inbound := by rw [hm₁]; rfl
    simp only at h
    split at h
    · cases h
    · rename_i hf
      cases h
      have hstart := settles_start reqs (.refl (m₁.setResult idx (.error e)))
      have hflush := settles_flushPending
        (startQueued reqs (m₁.setResult idx (.error e)).queue (m₁.setResult idx (.error e)))
      rw [hf] at hflush
      have := hstart.trans hflush
      exact ⟨this.inbound.trans hin, this.work.trans_lt hwork⟩

theorem settles_proceed {codecs : Codecs} {reqs : Fin n → Request} {m m' : Mux n}
    {outcome : DispatchOutcome} (h : m.proceed codecs reqs outcome = .next m') :
    Settles m m' := by
  unfold proceed at h
  have hdoomed : Settles m (if m.conn.goawayReceived.isSome then m.failGoawayDoomed else m) := by
    split
    · exact settles_failGoawayDoomed m
    · exact .refl m
  generalize (if m.conn.goawayReceived.isSome then m.failGoawayDoomed else m) = m₁ at h hdoomed
  have hreap : Settles m₁ (m₁.reap codecs reqs outcome) := by
    cases outcome with
    | «continue» => exact .refl m₁
    | done id => exact settles_finish codecs reqs m₁ id
  simp only at h
  split at h
  · cases h
  · rename_i hf
    cases h
    have hflush := settles_flushPending (m₁.reap codecs reqs outcome)
    rw [hf] at hflush
    exact (hdoomed.trans hreap).trans hflush

theorem turn_lowers (codecs : Codecs) (reqs : Fin n → Request) :
    Loop.Lowers (turn codecs reqs) variant := by
  intro m m' h
  unfold turn at h
  split at h
  · cases h
  · split at h
    · cases h
    · rename_i m₁ hwake
      have hw := settles_wake hwake
      have hin : m₁.conn.tls.inbound.length = m.conn.tls.inbound.length := by rw [hw.inbound]
      have hwork := hw.work
      split at h
      · rename_i e conn hread
        have hle := m₁.conn.readAndDispatch_inbound_le false
        rw [hread] at hle
        obtain ⟨hin', hwork'⟩ := lowers_recover h
        have : m₁.work = { m₁ with conn }.work := rfl
        simp only [variant, Outcome.state, hin'] at hle ⊢
        omega
      · rename_i outcome conn hread
        have hlt := Connection.readAndDispatch_inbound hread
        have hp := settles_proceed h
        have hin' := congrArg List.length hp.inbound
        have hwork' := hp.work
        have : m₁.work = { m₁ with conn }.work := rfl
        simp only [variant] at hin' ⊢
        omega

/-! ## The batch -/

/-- Before anything is started. -/
def init (c : Connection) (n : Nat) : Mux n where
  conn := c
  results := fun _ => none
  idToIdx := ∅
  queue := List.finRange n
  opened := []

/-- The whole run: prime, then the frame loop, then drop finished streams. -/
def run (codecs : Codecs) (reqs : Fin n → Request) (c : Connection) : Mux n :=
  let m := startQueued reqs (List.finRange n) (init c n)
  match m.flushPending with
  | .error e m => m.failAllOutstanding e
  | .ok _ m =>
    let m := Loop.run (turn codecs reqs) variant (turn_lowers codecs reqs) m
    { m with conn := m.conn.pruneCompletedStreams }

def collectResults (m : Mux n) : List (Except Error Response) :=
  (List.finRange n).map fun idx => (m.results idx).getD
    (.error (.badResponse "internal: multiplexed request produced no result"))

end Mux

/-- Run requests concurrently over one connection: one result per request, in order. -/
def Connection.runMultiplexed (codecs : Codecs) (c : Connection) (reqs : List Request) :
    List (Except Error Response) × Connection :=
  let m := Mux.run codecs reqs.get c
  (m.collectResults, m.conn)

end Rsurl.Http2
