import Rsurl.Http2.Moves

/-!
# Where each request of a batch is

A request waits in the queue, then is mapped from the stream opened for it, then has a result.
`Accounted` says that at every turn each request is in exactly one of these places, and `Advances`
that it never moves back.
-/

namespace Rsurl.Http2

open Library

namespace Connection

variable {c c' c'' : Connection}

/-- No id is handed out and no stream is lost. -/
structure KeepsStreams (c c' : Connection) : Prop where
  ids : SameIds c c'
  streams : ∀ id : Nat, c.streams[id]?.isSome → c'.streams[id]?.isSome

theorem KeepsStreams.trans (h : KeepsStreams c c') (h' : KeepsStreams c' c'') :
    KeepsStreams c c'' :=
  ⟨h.ids.trans h'.ids, fun id hid => h'.streams id (h.streams id hid)⟩

theorem Sends.keepsStreams (h : Sends c c') : KeepsStreams c c' := by
  refine ⟨h.sameIds, fun id hid => ?_⟩
  have hview := congrArg Option.isSome (h.streams id)
  rw [Option.isSome_map, Option.isSome_map] at hview
  rwa [hview]

theorem keepsStreams_processFrame (c : Connection) (f : Frame) (sink : Bool) :
    KeepsStreams c (c.processFrame f sink).state := by
  refine ⟨sameIds_processFrame c f sink, fun id hid => ?_⟩
  have hview := congrArg Option.isSome ((carried_processFrame c f sink).streams id)
  rw [Option.isSome_map, Option.isSome_map] at hview
  rwa [hview]

theorem keepsStreams_readAndDispatch (c : Connection) (sink : Bool) :
    KeepsStreams c (c.readAndDispatch sink).state := by
  obtain ⟨-, hr⟩ | ⟨kind, msg, rest, e, -, hr⟩ | ⟨f, rest, -, hr⟩ := c.readAndDispatch_cases sink
  all_goals rw [hr]
  · exact ⟨.refl c, fun _ h => h⟩
  · exact ⟨⟨rfl, fun _ h => h, fun _ h => .inl h⟩, fun _ h => h⟩
  · have hreceived : KeepsStreams c (c.received f rest) :=
      ⟨⟨rfl, fun _ h => h, fun _ h => .inl h⟩, fun _ h => h⟩
    exact hreceived.trans (keepsStreams_processFrame _ f sink)

theorem sameIds_removeStream (c : Connection) (id : Nat) : SameIds c (c.removeStream id) := by
  refine ⟨rfl, fun k hk => ?_, fun _ hk => .inl hk⟩
  rw [getElem?_removeStream] at hk
  split at hk
  · cases hk
  · exact hk

theorem writeFrame_keepsStreams (c : Connection) (f : Frame) :
    KeepsStreams c (c.writeFrame f).state := by
  obtain ⟨fs, h | ⟨e, h⟩⟩ := c.writeFrame_cases f <;> rw [h]
  all_goals exact ⟨⟨rfl, fun _ h => h, fun _ h => .inl h⟩, fun _ h => h⟩

end Connection

namespace Mux

variable {n : Nat} {codecs : Codecs} {reqs : Fin n → Request} {m m' m'' : Mux n}
variable {P : Connection → Prop}

/-- Every request is in one place: queued, mapped from one live stream, or done. The streams
opened for them have odd ids in increasing order, one for each request at most. -/
structure Accounted (m : Mux n) : Prop where
  nodup : m.queue.Nodup
  queued : ∀ i ∈ m.queue, m.results i = none ∧ ∀ e ∈ m.opened, e.2 ≠ i
  mapped : ∀ (id : Nat) (i : Fin n), m.idToIdx[id]? = some i →
    m.results i = none ∧ (id, i) ∈ m.opened
  placed : ∀ i, m.results i = none → i ∈ m.queue ∨ ∃ id : Nat, m.idToIdx[id]? = some i
  once : (m.opened.map Prod.snd).Nodup
  increasing : (m.opened.map Prod.fst).Pairwise (· < ·)
  ids : ∀ e ∈ m.opened, e.1 % 2 = 1 ∧ e.1 < m.conn.nextStreamId
  known : m.conn.Known
  live : ∀ id : Nat, m.idToIdx[id]?.isSome → m.conn.streams[id]?.isSome

/-- Results stay, the queue is only taken from, and streams opened are only added to. -/
structure Advances (m m' : Mux n) : Prop where
  results : ∀ i r, m.results i = some r → m'.results i = some r
  queue : m'.queue <:+ m.queue
  opened : m.opened <+: m'.opened

theorem Advances.refl (m : Mux n) : Advances m m :=
  ⟨fun _ _ h => h, List.suffix_refl _, List.prefix_refl _⟩

theorem Advances.trans (h : Advances m m') (h' : Advances m' m'') :
    Advances m m'' :=
  ⟨fun i r hr => h'.results i r (h.results i r hr), h'.queue.trans h.queue,
    h.opened.trans h'.opened⟩

/-- A request is mapped from one stream only. -/
theorem Accounted.mapped_unique (h : Accounted m) {id id' : Nat} {i : Fin n}
    (hid : m.idToIdx[id]? = some i) (hid' : m.idToIdx[id']? = some i) : id = id' := by
  have hmem := (h.mapped id i hid).2
  have hmem' := (h.mapped id' i hid').2
  have heq := (List.inj_on_of_nodup_map h.once) hmem hmem' rfl
  exact congrArg Prod.fst heq

/-- The connection moves on without losing a stream. -/
theorem Accounted.conn (h : Accounted m) {conn : Connection}
    (hc : Connection.KeepsStreams m.conn conn) : Accounted { m with conn } :=
  { h with
    ids := fun e he => by rw [hc.ids.next]; exact h.ids e he
    known := h.known.same hc.ids
    live := fun id hid => hc.streams id (h.live id hid) }

/-- A live request gets its result and its stream goes. -/
theorem Accounted.resolve (h : Accounted m) {id : Nat} {idx : Fin n}
    (hid : m.idToIdx[id]? = some idx) {conn : Connection}
    (hc : Connection.SameIds m.conn conn)
    (hlive : ∀ k : Nat, k ≠ id → m.conn.streams[k]?.isSome → conn.streams[k]?.isSome)
    (r : Except Error Response) :
    Accounted ({ m with conn, idToIdx := m.idToIdx.erase id }.setResult idx r) := by
  have hopened := (h.mapped id idx hid).2
  have hother (k : Nat) (i : Fin n) : (m.idToIdx.erase id)[k]? = some i →
      k ≠ id ∧ i ≠ idx ∧ m.idToIdx[k]? = some i := by
    intro hk
    rw [Std.ExtTreeMap.getElem?_erase] at hk
    split at hk
    · cases hk
    · rename_i hne
      have hne' : k ≠ id := fun heq => hne (by simp [heq])
      refine ⟨hne', ?_, hk⟩
      rintro rfl
      exact hne' (h.mapped_unique hk hid)
  refine ⟨h.nodup, ?_, ?_, ?_, h.once, h.increasing, ?_, h.known.same hc, ?_⟩
  · intro i hi
    obtain ⟨hnone, hfree⟩ := h.queued i hi
    have hne : i ≠ idx := fun heq => hfree _ hopened (by rw [heq])
    exact ⟨(setResult_of_ne hne _ r).trans hnone, hfree⟩
  · intro k i hk
    obtain ⟨-, hne, hk⟩ := hother k i hk
    obtain ⟨hnone, hmem⟩ := h.mapped k i hk
    exact ⟨(setResult_of_ne hne _ r).trans hnone, hmem⟩
  · intro i hi
    have hne : i ≠ idx := by
      rintro rfl
      simp at hi
    rw [setResult_of_ne hne] at hi
    rcases h.placed i hi with hq | ⟨k, hk⟩
    · exact .inl hq
    · refine .inr ⟨k, ?_⟩
      have hkne : k ≠ id := by
        rintro rfl
        rw [hid] at hk
        exact hne (Option.some.inj hk).symm
      simp [setResult, Std.ExtTreeMap.getElem?_erase, Ne.symm hkne, hk]
  · intro e he
    simp only [setResult] at he ⊢
    rw [hc.next]
    exact h.ids e he
  · intro k hk
    obtain ⟨i, hi⟩ := Option.isSome_iff_exists.mp hk
    obtain ⟨hkne, -, hk'⟩ := hother k i hi
    exact hlive k hkne (h.live k (by simp [hk']))

theorem advances_setResult {idx : Fin n} (h : m.results idx = none) (r : Except Error Response) :
    Advances m (m.setResult idx r) := by
  refine ⟨fun i r' hr => ?_, List.suffix_refl _, List.prefix_refl _⟩
  have hne : i ≠ idx := by
    rintro rfl
    rw [h] at hr
    cases hr
  exact (setResult_of_ne hne m r).trans hr

/-! ## Every move -/

theorem failDoomed_accounted (last : Nat) (h : Accounted m) (id : Nat) :
    Accounted (failDoomed last m id) ∧ Advances m (failDoomed last m id) := by
  unfold failDoomed
  split
  · exact ⟨h, .refl m⟩
  · rename_i idx hidx
    refine ⟨h.resolve hidx (Connection.sameIds_removeStream _ id) ?_ _, ?_⟩
    · intro k hk hs
      rwa [Connection.getElem?_removeStream, if_neg (Ne.symm hk)]
    · have hnone := (h.mapped id idx hidx).1
      exact ⟨(@advances_setResult n { m with
        idToIdx := m.idToIdx.erase id, conn := m.conn.removeStream id } idx hnone _).results,
        List.suffix_refl _, List.prefix_refl _⟩

theorem failGoawayDoomed_accounted (h : Accounted m) :
    Accounted m.failGoawayDoomed ∧ Advances m m.failGoawayDoomed := by
  unfold failGoawayDoomed
  split
  · exact ⟨h, .refl m⟩
  · rename_i last hlast
    clear hlast
    simp only
    generalize m.idToIdx.keys.filter _ = doomed
    induction doomed generalizing m with
    | nil => exact ⟨h, .refl m⟩
    | cons id doomed ih =>
      obtain ⟨hstep, hadv⟩ := failDoomed_accounted last h id
      obtain ⟨hrest, hadv'⟩ := ih hstep
      exact ⟨hrest, hadv.trans hadv'⟩

theorem deliver_accounted (h : Accounted m) {id : Nat} {idx : Fin n}
    (hidx : m.idToIdx[id]? = some idx) (stream : Stream) :
    Accounted (m.deliver codecs reqs id idx stream) ∧
      Advances m (m.deliver codecs reqs id idx stream) := by
  unfold deliver
  simp only
  generalize hconn : (if stream.pendingBody.isSome then
    ((m.conn.removeStream id).writeFrame (rstStreamFrame id errNoError)).state
    else m.conn.removeStream id) = conn
  have hkeeps : Connection.KeepsStreams (m.conn.removeStream id) conn := by
    rw [← hconn]
    split
    · exact Connection.writeFrame_keepsStreams _ _
    · exact ⟨.refl _, fun _ hk => hk⟩
  refine ⟨h.resolve hidx ((Connection.sameIds_removeStream _ id).trans hkeeps.ids) ?_ _, ?_⟩
  · intro k hk hs
    refine hkeeps.streams k ?_
    rwa [Connection.getElem?_removeStream, if_neg (Ne.symm hk)]
  · have hnone := (h.mapped id idx hidx).1
    exact ⟨(@advances_setResult n { m with idToIdx := m.idToIdx.erase id, conn } idx hnone _).results,
      List.suffix_refl _, List.prefix_refl _⟩

theorem settle_accounted (h : Accounted m) (outcome : DispatchOutcome) :
    Accounted (m.settle codecs reqs outcome) ∧ Advances m (m.settle codecs reqs outcome) := by
  have hdoomed : Accounted m.spared ∧ Advances m m.spared := by
    unfold spared
    split
    · exact failGoawayDoomed_accounted h
    · exact ⟨h, .refl m⟩
  unfold settle handBack
  generalize m.spared = m₁ at hdoomed ⊢
  obtain ⟨hacc, hadv⟩ := hdoomed
  cases outcome with
  | «continue» => exact ⟨hacc, hadv⟩
  | done id =>
    simp only
    split
    · exact ⟨hacc, hadv⟩
    · rename_i idx hidx
      split
      · -- a stream that is mapped is in the connection's map
        rename_i hnone
        have := hacc.live id (by simp [hidx])
        simp [hnone] at this
      · rename_i stream _
        obtain ⟨hacc', hadv'⟩ := @deliver_accounted n codecs reqs m₁ hacc id idx hidx stream
        exact ⟨hacc', hadv.trans hadv'⟩

/-- A request leaves the queue: the entry before the rest. -/
theorem Accounted.head (h : Accounted m) {idx : Fin n} {rest : List (Fin n)}
    (hq : m.queue = idx :: rest) :
    idx ∉ rest ∧ rest.Nodup ∧ m.results idx = none ∧ (∀ e ∈ m.opened, e.2 ≠ idx) ∧
      ∀ i ∈ rest, m.results i = none ∧ ∀ e ∈ m.opened, e.2 ≠ i := by
  have hnodup := h.nodup
  rw [hq, List.nodup_cons] at hnodup
  have hqueued := h.queued
  rw [hq] at hqueued
  obtain ⟨hnone, hfree⟩ := hqueued idx List.mem_cons_self
  exact ⟨hnodup.1, hnodup.2, hnone, hfree, fun i hi => hqueued i (List.mem_cons_of_mem idx hi)⟩

/-- The next request takes the next id: the list of streams opened stays in order. -/
theorem Accounted.opened_append (h : Accounted m) {idx : Fin n} {rest : List (Fin n)}
    (hq : m.queue = idx :: rest) {id : Nat} {conn : Connection}
    (hopen : m.conn.openStream = .ok id conn) :
    ((m.opened ++ [(id, idx)]).map Prod.snd).Nodup ∧
      ((m.opened ++ [(id, idx)]).map Prod.fst).Pairwise (· < ·) ∧
      ∀ e ∈ m.opened ++ [(id, idx)], e.1 % 2 = 1 ∧ e.1 < conn.nextStreamId := by
  obtain ⟨-, -, -, hfree, -⟩ := h.head hq
  obtain ⟨hid, -, -, -, rfl⟩ := Connection.openStream_ok hopen
  have hnext := h.known.next
  refine ⟨?_, ?_, ?_⟩
  · rw [List.map_append, List.nodup_append]
    refine ⟨h.once, by simp, ?_⟩
    intro i hi j hj
    obtain ⟨e, he, rfl⟩ := List.mem_map.mp hi
    obtain rfl : j = idx := by simpa using hj
    exact hfree e he
  · rw [List.map_append, List.pairwise_append]
    refine ⟨h.increasing, by simp, ?_⟩
    intro i hi j hj
    obtain ⟨e, he, rfl⟩ := List.mem_map.mp hi
    obtain rfl : j = id := by simpa using hj
    have := (h.ids e he).2
    omega
  · intro e he
    rcases List.mem_append.mp he with he | he
    · have := h.ids e he
      simp only
      omega
    · obtain rfl : e = (id, idx) := by simpa using he
      simp only
      omega

theorem opened_free_append {opened : List (Nat × Fin n)} {i idx : Fin n} {id : Nat}
    (hfree : ∀ e ∈ opened, e.2 ≠ i) (hne : i ≠ idx) : ∀ e ∈ opened ++ [(id, idx)], e.2 ≠ i := by
  intro e he
  rcases List.mem_append.mp he with he | he
  · exact hfree e he
  · obtain rfl : e = (id, idx) := by simpa using he
    exact Ne.symm hne

/-- Opening a stream for the next request. -/
theorem opened_streams (h : Accounted m) {id : Nat} {conn conn' : Connection}
    (hopen : m.conn.openStream = .ok id conn) (hsends : Connection.Sends conn conn') :
    conn'.Known ∧ conn'.nextStreamId = conn.nextStreamId ∧ conn'.streams[id]?.isSome ∧
      ∀ k : Nat, m.idToIdx[k]?.isSome → k ≠ id ∧ conn'.streams[k]?.isSome := by
  have hkeeps := hsends.keepsStreams
  have hknown : conn.Known := by
    have := Connection.known_openStream h.known
    rwa [hopen] at this
  obtain ⟨rfl, -, -, -, rfl⟩ := Connection.openStream_ok hopen
  refine ⟨hknown.same hkeeps.ids, hkeeps.ids.next, hkeeps.streams _ (by simp), fun k hk => ?_⟩
  have hlive := h.live k hk
  have hlt := (h.known.streams k hlive).2
  refine ⟨by omega, hkeeps.streams k ?_⟩
  simp only [Std.ExtTreeMap.getElem?_insert]
  split
  · rfl
  · exact hlive

/-- Every move keeps each request in one place and moves none back. -/
theorem move_accounted (h : Accounted m) (hm : Move codecs reqs P m m') :
    Accounted m' ∧ Advances m m' := by
  cases hm with
  | @refused idx rest e conn hq hopen =>
    obtain ⟨hnot, hnodup, hnone, hfree, hrest⟩ := h.head hq
    cases Connection.openStream_error hopen
    have hne {i : Fin n} (hi : i ∈ rest) : i ≠ idx := fun heq => hnot (heq ▸ hi)
    have hunmapped (id : Nat) (i : Fin n) (hid : m.idToIdx[id]? = some i) : i ≠ idx := by
      rintro rfl
      exact hfree _ (h.mapped id i hid).2 rfl
    refine ⟨⟨hnodup, ?_, ?_, ?_, h.once, h.increasing, h.ids, h.known, h.live⟩, ?_, ?_, ?_⟩
    · intro i hi
      exact ⟨(setResult_of_ne (hne hi) _ _).trans (hrest i hi).1, (hrest i hi).2⟩
    · intro id i hid
      obtain ⟨hi, hmem⟩ := h.mapped id i hid
      exact ⟨(setResult_of_ne (hunmapped id i hid) _ _).trans hi, hmem⟩
    · intro i hi
      have hi' : i ≠ idx := by
        rintro rfl
        simp at hi
      rw [setResult_of_ne hi'] at hi
      rcases h.placed i hi with hmem | hmem
      · rw [hq] at hmem
        exact .inl ((List.mem_cons.mp hmem).resolve_left hi')
      · exact .inr hmem
    · intro i r hr
      have hi' : i ≠ idx := by
        rintro rfl
        rw [hnone] at hr
        cases hr
      exact (setResult_of_ne hi' _ _).trans hr
    · simp only [setResult, hq]
      exact List.suffix_cons idx rest
    · exact List.prefix_refl _
  | @unsent idx rest id e conn conn' hq hopen hstage =>
    obtain ⟨hnot, hnodup, hnone, hfree, hrest⟩ := h.head hq
    obtain ⟨honce, hincr, hids⟩ := h.opened_append hq hopen
    have hsends := (@Connection.sendEdits_stageRequestOn id conn (reqs idx)).sends
    rw [hstage] at hsends
    obtain ⟨hknown, hnext, -, hlive⟩ := opened_streams h hopen hsends
    have hsame := Connection.sameIds_removeStream conn' id
    refine ⟨⟨hnodup, ?_, ?_, ?_, honce, hincr, ?_, hknown.same hsame, ?_⟩, ?_, ?_, ?_⟩
    · intro i hi
      have hi' : i ≠ idx := fun heq => hnot (heq ▸ hi)
      refine ⟨(setResult_of_ne hi' _ _).trans (hrest i hi).1, ?_⟩
      exact (opened_free_append (hrest i hi).2 hi')
    · intro k i hk
      obtain ⟨hi, hmem⟩ := h.mapped k i hk
      refine ⟨(setResult_of_ne ?_ _ _).trans hi, List.mem_append_left _ hmem⟩
      rintro rfl
      exact hfree _ hmem rfl
    · intro i hi
      have hi' : i ≠ idx := by
        rintro rfl
        simp at hi
      rw [setResult_of_ne hi'] at hi
      rcases h.placed i hi with hmem | hmem
      · rw [hq] at hmem
        exact .inl ((List.mem_cons.mp hmem).resolve_left hi')
      · exact .inr hmem
    · intro e he
      obtain ⟨hodd, hlt⟩ := hids e he
      exact ⟨hodd, hlt.trans_eq hnext.symm⟩
    · intro k hk
      obtain ⟨hne, hs⟩ := hlive k hk
      simp only [setResult]
      rwa [Connection.getElem?_removeStream, if_neg (Ne.symm hne)]
    · intro i r hr
      have hi' : i ≠ idx := by
        rintro rfl
        rw [hnone] at hr
        cases hr
      exact (setResult_of_ne hi' _ _).trans hr
    · simp only [setResult, hq]
      exact List.suffix_cons idx rest
    · exact List.prefix_append _ _
  | @started idx rest id u conn conn' hq hopen hstage =>
    obtain ⟨hnot, hnodup, hnone, hfree, hrest⟩ := h.head hq
    obtain ⟨honce, hincr, hids⟩ := h.opened_append hq hopen
    have hsends := (@Connection.sendEdits_stageRequestOn id conn (reqs idx)).sends
    rw [hstage] at hsends
    obtain ⟨hknown, hnext, hthere, hlive⟩ := opened_streams h hopen hsends
    refine ⟨⟨hnodup, ?_, ?_, ?_, honce, hincr, ?_, hknown, ?_⟩, fun _ _ hr => hr, ?_, ?_⟩
    · intro i hi
      have hi' : i ≠ idx := fun heq => hnot (heq ▸ hi)
      exact ⟨(hrest i hi).1, opened_free_append (hrest i hi).2 hi'⟩
    · intro k i hk
      simp only [Std.ExtTreeMap.getElem?_insert] at hk
      split at hk
      · rename_i heq
        obtain rfl : id = k := by simpa using heq
        cases hk
        exact ⟨hnone, by simp⟩
      · obtain ⟨hi, hmem⟩ := h.mapped k i hk
        exact ⟨hi, List.mem_append_left _ hmem⟩
    · intro i hi
      rcases h.placed i hi with hmem | ⟨k, hk⟩
      · rw [hq] at hmem
        rcases List.mem_cons.mp hmem with rfl | hmem
        · exact .inr ⟨id, by simp⟩
        · exact .inl hmem
      · have hne := (hlive k (by simp [hk])).1
        exact .inr ⟨k, by simp [Std.ExtTreeMap.getElem?_insert, Ne.symm hne, hk]⟩
    · intro e he
      obtain ⟨hodd, hlt⟩ := hids e he
      exact ⟨hodd, hlt.trans_eq hnext.symm⟩
    · intro k hk
      simp only [Std.ExtTreeMap.getElem?_insert] at hk
      split at hk
      · rename_i heq
        obtain rfl : id = k := by simpa using heq
        exact hthere
      · exact (hlive k hk).2
    · simp only [hq]
      exact List.suffix_cons idx rest
    · exact List.prefix_append _ _
  | pumped =>
    refine ⟨h.conn (Connection.sends_flushPending m.conn).keepsStreams, ?_⟩
    exact ⟨fun _ _ hr => hr, List.suffix_refl _, List.prefix_refl _⟩
  | @accepted outcome conn hp hread =>
    have hkeeps := m.conn.keepsStreams_readAndDispatch false
    rw [hread] at hkeeps
    obtain ⟨hacc, hadv⟩ := @settle_accounted n codecs reqs _ (h.conn hkeeps) outcome
    exact ⟨hacc, hadv.results, hadv.queue, hadv.opened⟩
  | @stumbled m₁ e conn idx hp hread htake =>
    have hkeeps := m.conn.keepsStreams_readAndDispatch false
    rw [hread] at hkeeps
    obtain ⟨id, s, -, hidx, rfl⟩ := takeStreamError_some htake
    have hacc := h.conn hkeeps
    refine ⟨hacc.resolve hidx (Connection.sameIds_removeStream _ id) ?_ _, ?_⟩
    · intro k hk hs
      rwa [Connection.getElem?_removeStream, if_neg (Ne.symm hk)]
    · have hnone := (h.mapped id idx hidx).1
      exact ⟨(@advances_setResult n { m with
        idToIdx := m.idToIdx.erase id, conn := conn.removeStream id } idx hnone _).results,
        List.suffix_refl _, List.prefix_refl _⟩

end Mux

end Rsurl.Http2
