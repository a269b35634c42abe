import Rsurl.Http2.Received

/-!
# `content-length` over a whole exchange

The length of a response is checked when the peer ends its stream: on DATA, and on the section
that completes with END_STREAM. A trailer section that is cut over several frames ends the stream
with its first frame, before the section is complete, and is the one way past the check.
-/

namespace Rsurl.Http2

open Library Hpack Text

/-! ## One stream -/

namespace Stream

variable {s s' : Stream} {f : Frame}

/-- Once the response has ended, its length has been checked. -/
def Checked (s : Stream) : Prop :=
  s.endStreamRecv = true → s.responseHeaders.isSome = true → s.LengthMatches

/-- The DATA received is what `content-length` promises for the whole response. -/
def lengthAgrees (s : Stream) : Bool := s.bodiless || s.expectedLen.all (s.received == ·)

/-- The frame ends a response by the first part of its trailers, before the length is checked and
although it does not agree. -/
def truncatedBy (s : Stream) (f : Frame) : Bool :=
  f.typ == .headers && f.endStream && !f.endHeaders && s.state != .closed &&
    s.responseHeaders.isSome && !s.lengthAgrees

theorem Checked.takesSection {decoded : List Header} (h : s.TakesSection decoded s') :
    s'.Checked := by
  intro hend hhead
  cases h with
  | trailers final ended hlen => exact hlen
  | interim final ended =>
    rw [ended] at hend
    cases hend
  | head final hinfo status hs' hlen =>
    subst hs'
    exact hlen hend

theorem lengthMatches_of_agrees (h : s.lengthAgrees = true) : s.LengthMatches := by
  unfold lengthAgrees at h
  rcases (Bool.or_eq_true _ _).mp h with h | h
  · exact .inl h
  · refine .inr fun n hn => ?_
    rw [hn, Option.all_some] at h
    have hrecv : s.received = n := eq_of_beq h
    exact ⟨hrecv.le, fun _ => hrecv⟩

/-- Every frame keeps the check, the one that truncates apart. -/
theorem Checked.takes {d d' : Decoder} {x x' : Option Nat} (h : s.Checked)
    (ht : Takes f (s, d, x) (s', d', x')) (hf : s.truncatedBy f = false) : s'.Checked := by
  cases ht with
  | whole typ live endHeaders fragment hstate hdec hsection =>
    exact Checked.takesSection hsection
  | last typ endHeaders discard hdec hsection => exact Checked.takesSection hsection
  | data typ hpayload final hstate hs' hlen => exact fun _ _ => hlen
  | first typ live endHeaders fragment hstate =>
    intro hend hhead
    cases hstream : f.endStream with
    | false =>
      rw [hstream, Bool.or_false] at hend
      have hmatch := h hend hhead
      rw [Bool.or_false]
      exact hmatch
    | true =>
      have hagrees : s.lengthAgrees = true := by
        simpa [truncatedBy, typ, hstream, endHeaders, live, hhead] using hf
      exact lengthMatches_of_agrees hagrees
  | _ => exact h

theorem Checked.step {id : Nat} {d d' : Decoder} {x x' : Option Nat} (h : s.Checked)
    (hstep : Step id f (s, d, x) (s', d', x'))
    (hf : f.streamId = id → s.truncatedBy f = false) : s'.Checked := by
  cases hstep with
  | own hid ht => exact h.takes ht (hf hid)
  | elsewhere => exact h

theorem TakesSection.headRequest {decoded : List Header} (h : s.TakesSection decoded s') :
    s'.headRequest = s.headRequest := by
  cases h with
  | head final hinfo status hs' hlen => rw [hs']
  | _ => rfl

theorem Step.headRequest {id : Nat} {d d' : Decoder} {x x' : Option Nat}
    (h : Step id f (s, d, x) (s', d', x')) : s'.headRequest = s.headRequest := by
  cases h with
  | own hid ht =>
    cases ht with
    | whole typ live endHeaders fragment hstate hdec hsection => exact hsection.headRequest
    | last typ endHeaders discard hdec hsection => exact hsection.headRequest
    | data typ hpayload final hstate hs' hlen => rw [hs']
    | _ => rfl
  | elsewhere => rfl

end Stream

/-! ## One exchange -/

namespace Connection

variable {c c' : Connection} {id : Nat} {head : Bool}

/-- Stream `id` is in the map, is made of what came in for it, and its length is checked. -/
def Tracked (id : Nat) (head : Bool) (c : Connection) : Prop :=
  ∃ s, c.streams[id]? = some s ∧
    s.Follows id (sinceOpened id c.tls.log) c.expectingContinuation ∧ s.Checked ∧
    s.headRequest = head

/-- The next frame to be read truncates the response on stream `id`. -/
def truncates (c : Connection) (id : Nat) : Bool :=
  match c.tls.inbound, c.streams[id]? with
  | .frame f :: _, some s => f.streamId == id && s.truncatedBy f
  | _, _ => false

theorem tracked_read {outcome : DispatchOutcome} (h : c.readAndDispatch false = .ok outcome c')
    (ht : Tracked id head c) (hid₀ : id ≠ 0) (hno : c.truncates id = false) :
    Tracked id head c' ∧
      (outcome = .done id → ∀ s, c'.streams[id]? = some s → s.responseComplete = true) := by
  obtain ⟨s, hs, hf, hchecked, hhead⟩ := ht
  obtain ⟨f, rest, s', hin, hs', hstep, hf', -, hout⟩ := follows_read h hs hid₀ hf
  refine ⟨⟨s', hs', hf', hchecked.step hstep ?_, hstep.headRequest.trans hhead⟩, ?_⟩
  · intro hid
    simpa [truncates, hin, hs, hid] using hno
  · rintro rfl t ht
    rw [hs'] at ht
    cases ht
    rcases hout with ⟨-, hc⟩ | ⟨hne, -⟩
    · exact hc
    · exact absurd rfl hne

/-- Writing frames that do not open the stream keeps it tracked. -/
theorem Tracked.wrote (h : Tracked id head c) (out : List Frame)
    (hlog : c'.tls.log = c.tls.log ++ out.map .sent)
    (hexp : c'.expectingContinuation = c.expectingContinuation)
    (hout : ∀ f ∈ out, f.typ ≠ .headers)
    (hs : ∀ s, c.streams[id]? = some s → ∃ s', c'.streams[id]? = some s' ∧
      s'.contents = s.contents ∧ s'.endStreamRecv = s.endStreamRecv ∧
      s'.headRequest = s.headRequest) : Tracked id head c' := by
  obtain ⟨s, hid, hf, hchecked, hhead⟩ := h
  obtain ⟨s', hid', hcontents, hend, hhead'⟩ := hs s hid
  refine ⟨s', hid', ?_, ?_, hhead'.trans hhead⟩
  · have hsince : sinceOpened id c'.tls.log = sinceOpened id c.tls.log ++ out.map .sent := by
      unfold sinceOpened
      rw [hlog, Trace.since_append]
      intro e he
      obtain ⟨g, hg, rfl⟩ := List.mem_map.mp he
      simp [opens, hout g hg]
    rw [hsince, hexp]
    exact hf.sent out hcontents
  · simp only [Stream.contents, Prod.mk.injEq] at hcontents
    obtain ⟨hbody, hstreamed, -, hheaders, hstatus, hlen⟩ := hcontents
    unfold Stream.Checked Stream.LengthMatches Stream.bodiless Stream.received
    rw [hend, hheaders, hhead', hstatus, hlen, hbody, hstreamed]
    exact hchecked

theorem tracked_flush {u : Unit} (h : c.flush = .ok u c') (ht : Tracked id head c) :
    Tracked id head c' := by
  obtain ⟨fs, rfl⟩ := flush_ok h
  exact ht

theorem tracked_abortSend {u : Unit} (h : c.abortSend id = .ok u c') (ht : Tracked id head c) :
    Tracked id head c' := by
  obtain ⟨fs, ⟨-, rfl⟩ | ⟨s, hs, rfl⟩⟩ := abortSend_ok h
  · exact ht.wrote _ rfl rfl (by simp [rstStreamFrame]) fun s hs => ⟨s, hs, rfl, rfl, rfl⟩
  · refine ht.wrote [rstStreamFrame id errNoError] rfl rfl (by simp [rstStreamFrame]) ?_
    intro t ht
    rw [hs] at ht
    cases ht
    exact ⟨_, getElem?_setStream_self _ _ _, rfl, rfl, rfl⟩

/-- The head of a request has been written: the stream is new and nothing came in for it. -/
theorem tracked_opened {c₁ c₂ : Connection} {req : Request} {hasBody : Bool} (hk : Known c)
    (hopen : c.openStream = .ok id c₁) (hhead : c₁.writeRequestHeaders id req = .ok hasBody c₂) :
    Tracked id (eqIgnoreAsciiCase (effectiveMethod req) "HEAD") c₂ := by
  obtain ⟨rfl, -, -, -, rfl⟩ := openStream_ok hopen
  obtain ⟨-, fs, s, state, hs, hstate, rfl⟩ := writeRequestHeaders_ok hhead
  have hnew : s = .new c.peer.initialWindowSize c.ourRecvWindow := by
    simpa using hs.symm
  refine ⟨_, getElem?_setStream_self _ _ _, ?_, ?_, rfl⟩
  · refine follows_headFrames _ req ?_ c.peer.initialWindowSize c.ourRecvWindow ?_ c.tls.log
    · intro hx
      exact absurd (hk.awaited _ hx).2 (lt_irrefl _)
    · rw [hnew] at hstate ⊢
      simp only [Stream.recvPart, StreamState.remoteDone_sendData hstate]
  · rw [hnew]
    intro hend
    cases hend

theorem tracked_sendTurn {rem rem' : Bytes} (hid₀ : id ≠ 0) (ht : Tracked id head c)
    (hno : c.truncates id = false) (h : sendTurn id (c, rem) = .next (c', rem')) :
    Tracked id head c' := by
  unfold sendTurn at h
  simp only at h
  split at h
  · cases h
  · split at h
    · cases h
    · rename_i s hs
      split at h
      · split at h
        · cases h
        · rename_i hsend
          cases h
          obtain ⟨fs, state, -, rfl, rfl⟩ := sendData_ok hsend
          refine ht.wrote [_] rfl rfl (by simp) ?_
          intro t ht
          rw [hs] at ht
          cases ht
          exact ⟨_, getElem?_setStream_self _ _ _, rfl, rfl, rfl⟩
      · split at h
        · cases h
        · split at h
          · cases h
          · rename_i hread
            cases h
            exact (tracked_read hread ht hid₀ hno).1
          · rename_i hread
            split at h
            · cases h
            · cases h
              exact (tracked_read hread ht hid₀ hno).1

theorem tracked_sendTurn_done {rem : Bytes} {u : Unit} (hid₀ : id ≠ 0) (ht : Tracked id head c)
    (hno : c.truncates id = false) (h : sendTurn id (c, rem) = .done (.ok u c')) :
    Tracked id head c' := by
  unfold sendTurn at h
  simp only at h
  split at h
  · exact tracked_flush (Loop.Turn.done.inj h) ht
  · split at h
    · cases h
    · split at h
      · split at h
        · cases h
        · cases h
      · split at h
        · cases h
        · split at h
          · cases h
          · cases h
          · rename_i hread
            split at h
            · exact tracked_abortSend (Loop.Turn.done.inj h) (tracked_read hread ht hid₀ hno).1
            · cases h

/-- The states in which an exchange may read a frame, with its stream. -/
def readStates (c : Connection) (req : Request) : List (Nat × Connection) :=
  match c.openStream with
  | .error _ _ => []
  | .ok id c =>
    (match c.writeRequestHeaders id req with
      | .ok true c => (Loop.visited (sendTurn id)
          (fun st => st.1.tls.inbound.length + st.2.length) (c, req.body)).map fun st => (id, st.1)
      | _ => []) ++
    (match c.sendRequestOn id req with
      | .ok _ c => (Loop.visited (driveTurn id false) (fun c => c.tls.inbound.length) c).map
          fun c => (id, c)
      | .error _ _ => [])

/-- No frame the exchange reads truncates the response. -/
def neverTruncated (c : Connection) (req : Request) : Bool :=
  (c.readStates req).all fun st => !st.2.truncates st.1

theorem tracked_sendRequestOn {c₁ c₂ : Connection} {req : Request} {u : Unit} (hk : Known c)
    (hid₀ : id ≠ 0) (hopen : c.openStream = .ok id c₁)
    (hsend : c₁.sendRequestOn id req = .ok u c₂) (hno : c.neverTruncated req = true) :
    Tracked id (eqIgnoreAsciiCase (effectiveMethod req) "HEAD") c₂ := by
  unfold sendRequestOn at hsend
  obtain ⟨hasBody, c₁', hhead, hsend⟩ := Outcome.andThen_eq_ok.mp hsend
  have htracked := tracked_opened hk hopen hhead
  cases hasBody with
  | false => exact tracked_flush hsend htracked
  | true =>
    have hfree : ∀ st ∈ Loop.visited (sendTurn id)
        (fun st => st.1.tls.inbound.length + st.2.length) (c₁', req.body),
        st.1.truncates id = false := by
      intro st hst
      have hmem : (id, st.1) ∈ c.readStates req := by
        simp only [readStates, hopen, hhead]
        exact List.mem_append_left _ (List.mem_map_of_mem (f := fun st => (id, st.1)) hst)
      simpa using List.all_eq_true.mp hno _ hmem
    obtain ⟨⟨c₃, rem⟩, hmem, hI, hdone⟩ := Loop.run_visited (sendTurn_lowers id)
      (I := fun st => Tracked id (eqIgnoreAsciiCase (effectiveMethod req) "HEAD") st.1) htracked
      fun t ht hI t' hnext => tracked_sendTurn hid₀ hI (hfree t ht) hnext
    rw [if_pos rfl] at hsend
    rw [hsend] at hdone
    exact tracked_sendTurn_done hid₀ hI (hfree _ hmem) hdone

theorem tracked_driveTurn (hid₀ : id ≠ 0) (ht : Tracked id head c)
    (hno : c.truncates id = false) (h : driveTurn id false c = .next c') :
    Tracked id head c' := by
  unfold driveTurn at h
  split at h
  · cases h
  · split at h
    · cases h
    · split at h
      · cases h
      · split at h
        · cases h
        · rename_i hread
          cases h
          exact (tracked_read hread ht hid₀ hno).1
        · rename_i hread
          split at h
          · split at h <;> cases h
          · cases h
            exact (tracked_read hread ht hid₀ hno).1

/-- A stream is handed back complete, from a state in which it is tracked. -/
theorem tracked_driveTurn_done {s : Stream} (hid₀ : id ≠ 0) (ht : Tracked id head c)
    (hno : c.truncates id = false) (h : driveTurn id false c = .done (.ok s c')) :
    ∃ c₁, Tracked id head c₁ ∧ c₁.streams[id]? = some s ∧ s.responseComplete = true ∧
      c' = c₁.removeStream id := by
  unfold driveTurn at h
  split at h
  · cases h
  · rename_i t hid
    split at h
    · rename_i hcomplete
      cases h
      exact ⟨c, ht, hid, hcomplete, rfl⟩
    · split at h
      · cases h
      · split at h
        · cases h
        · cases h
        · rename_i c₁ hread
          obtain ⟨ht₁, hcomplete⟩ := tracked_read hread ht hid₀ hno
          split at h
          · rename_i hdone
            split at h
            · rename_i s₁ hs₁
              cases h
              exact ⟨c₁, ht₁, hs₁, hcomplete (by rw [hdone]) s hs₁, rfl⟩
            · cases h
          · cases h

/-- A successful exchange, step by step. -/
theorem runOneRequest_ok {codecs : Codecs} {req : Request} {resp : Response}
    (h : c.runOneRequest codecs req = .ok resp c') :
    ∃ id c₁ c₂ s c₃, c.openStream = .ok id c₁ ∧ c₁.sendRequestOn id req = .ok () c₂ ∧
      c₂.driveUntilStreamDone id = .ok s c₃ ∧ c' = c₃.pruneCompletedStreams ∧
      buildResponseFromStream codecs s req.decompress = .ok resp := by
  unfold runOneRequest at h
  obtain ⟨id, c₁, hopen, h⟩ := Outcome.andThen_eq_ok.mp h
  obtain ⟨_, c₂, hsend, h⟩ := Outcome.andThen_eq_ok.mp h
  obtain ⟨s, c₃, hdrive, h⟩ := Outcome.andThen_eq_ok.mp h
  refine ⟨id, c₁, c₂, s, c₃, hopen, hsend, hdrive, ?_⟩
  simp only at h
  cases hb : buildResponseFromStream codecs s req.decompress with
  | error e =>
    rw [hb] at h
    cases h
  | ok r =>
    rw [hb] at h
    cases h
    exact ⟨rfl, rfl⟩

/-- A response that is returned has as many body bytes on the wire as its head promises, unless a
frame truncated it. -/
theorem content_length_enforced {codecs : Codecs} {req : Request} {resp : Response}
    (hc : Reachable c) (h : c.runOneRequest codecs req = .ok resp c')
    (hno : c.neverTruncated req = true)
    (hmethod : eqIgnoreAsciiCase (effectiveMethod req) "HEAD" = false) :
    ∃ id s head info, c.openStream.result = .ok id ∧
      buildResponseFromStream codecs s req.decompress = .ok resp ∧
      s.HeadFrom id (sinceOpened id c'.tls.log) head info ∧ resp.status = info.status ∧
      s.body = dataReceived id (sinceOpened id c'.tls.log) ∧
      (resp.status ≠ 204 → resp.status ≠ 304 → ∀ n, info.contentLength = some n →
        (dataReceived id (sinceOpened id c'.tls.log)).length = n) := by
  obtain ⟨id, c₁, c₂, s, c₃, hopen, hsend, hdrive, rfl, hbuild⟩ := runOneRequest_ok h
  have hk := hc.known
  have hid₀ : id ≠ 0 := by
    obtain ⟨rfl, -⟩ := openStream_ok hopen
    have := hk.next
    omega
  have htracked := tracked_sendRequestOn hk hid₀ hopen hsend hno
  have hfree : ∀ t ∈ Loop.visited (driveTurn id false) (fun c => c.tls.inbound.length) c₂,
      t.truncates id = false := by
    intro t ht
    have hmem : (id, t) ∈ c.readStates req := by
      simp only [readStates, hopen, hsend]
      exact List.mem_append_right _ (List.mem_map_of_mem (f := fun c => (id, c)) ht)
    simpa using List.all_eq_true.mp hno _ hmem
  obtain ⟨t, hmem, hI, hdone⟩ := Loop.run_visited (driveTurn_lowers id false)
    (I := Tracked id (eqIgnoreAsciiCase (effectiveMethod req) "HEAD")) htracked
    fun t ht hI t' hnext => tracked_driveTurn hid₀ hI (hfree t ht) hnext
  unfold driveUntilStreamDone driveUntilStreamDoneTo at hdrive
  rw [hdrive] at hdone
  obtain ⟨c₄, ⟨s', hs', hfollows, hchecked, hhead⟩, hs, hcomplete, rfl⟩ :=
    tracked_driveTurn_done hid₀ hI (hfree t hmem) hdone
  rw [hs] at hs'
  cases hs'
  rw [Stream.responseComplete_eq] at hcomplete
  simp only [Bool.and_eq_true] at hcomplete
  obtain ⟨⟨-, hend⟩, hsome⟩ := hcomplete
  obtain ⟨hnone, -⟩ | ⟨fields, info, hfrom⟩ := hfollows.head
  · simp [hnone] at hsome
  · obtain ⟨clean, hsplit⟩ := buildResponseFromStream_status hbuild
    rw [hfrom.responseHeaders] at hsplit
    have hstatus := status_of_valid hfrom.valid hsplit
    refine ⟨id, s, fields, info, by rw [hopen]; rfl, hbuild, hfrom, hstatus, hfollows.body, ?_⟩
    intro h204 h304 n hn
    have hbodiless : s.bodiless = false := by
      rw [hstatus] at h204 h304
      simp [Stream.bodiless, hhead, hmethod, hfrom.finalStatus, h204, h304]
    rcases hchecked hend hsome with hb | hlen
    · rw [hbodiless] at hb
      cases hb
    · have hrecv := (hlen n (hfrom.expectedLen.trans hn)).2 hend
      rw [Stream.received, hfollows.streamed, hfollows.body] at hrecv
      exact hrecv

/-- A head that promises five bytes, and the five bytes. -/
def wholeReply : List Inbound :=
  [.frame ⟨.settings, 0, 0, []⟩, .frame ⟨.headers, 4, 1, [0x88, 0x5c, 1, 0x35]⟩,
    .frame ⟨.data, 1, 1, [1, 2, 3, 4, 5]⟩]

theorem content_length_enforced_whole :
    ∃ resp c', (fresh wholeReply).runOneRequest .unavailable (.plain "GET" "example.com" "/") =
        .ok resp c' ∧
      ∃ id s head info, (fresh wholeReply).openStream.result = .ok id ∧
        buildResponseFromStream .unavailable s true = .ok resp ∧
        s.HeadFrom id (sinceOpened id c'.tls.log) head info ∧ resp.status = info.status ∧
        s.body = dataReceived id (sinceOpened id c'.tls.log) ∧
        (resp.status ≠ 204 → resp.status ≠ 304 → ∀ n, info.contentLength = some n →
          (dataReceived id (sinceOpened id c'.tls.log)).length = n) := by
  obtain ⟨resp, c', hrun, -⟩ := Outcome.exists_of_okAnd (r := (fresh wholeReply).runOneRequest
    .unavailable (.plain "GET" "example.com" "/")) (p := fun _ _ => true) (by decide +kernel)
  exact ⟨resp, c', hrun, content_length_enforced (reachable_fresh wholeReply) hrun
    (by decide +kernel) (by decide +kernel)⟩

/-- A head that promises ten bytes, five bytes, and the first part of a trailer section that ends
the stream. -/
def truncatedReply : List Inbound :=
  [.frame ⟨.settings, 0, 0, []⟩, .frame ⟨.headers, 4, 1, [0x88, 0x5c, 2, 0x31, 0x30]⟩,
    .frame ⟨.data, 0, 1, [1, 2, 3, 4, 5]⟩, .frame ⟨.headers, 1, 1, []⟩]

/-- The truncated response is returned as if it were whole. -/
theorem content_length_missed :
    ∃ resp c', (fresh truncatedReply).runOneRequest .unavailable
        (.plain "GET" "example.com" "/") = .ok resp c' ∧
      resp.status = 200 ∧ resp.headers = [("content-length", "10")] ∧
      (dataReceived 1 (sinceOpened 1 c'.tls.log)).length = 5 := by
  obtain ⟨resp, c', hrun, htest⟩ := Outcome.exists_of_okAnd (r := (fresh truncatedReply).runOneRequest
    .unavailable (.plain "GET" "example.com" "/")) (p := fun resp c' => resp.status == 200 &&
      resp.headers == [("content-length", "10")] &&
      (dataReceived 1 (sinceOpened 1 c'.tls.log)).length == 5) (by decide +kernel)
  simp only [Bool.and_eq_true, beq_iff_eq] at htest
  exact ⟨resp, c', hrun, htest.1.1, htest.1.2, htest.2⟩

end Connection

end Rsurl.Http2
