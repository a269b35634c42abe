import Rsurl.Http2.Reachable

/-!
# The moves of the multiplexed driver

A turn of the frame loop is a sequence of moves: starting a queued request, sending what the
windows allow, and taking one frame in, with the streams it finished, failed or doomed handed back
at once. Between two moves nothing is half done, so an invariant of the batch is a fact about one
move at a time.
-/

namespace Rsurl.Http2

open Library

namespace Mux

variable {n : Nat} {codecs : Codecs} {reqs : Fin n → Request} {m m' m'' : Mux n}
variable {P : Connection → Prop}

/-- What is left once a GOAWAY has taken its toll. -/
def spared (m : Mux n) : Mux n := if m.conn.goawayReceived.isSome then m.failGoawayDoomed else m

/-- Hand back the response an accepted frame finished. -/
def handBack (codecs : Codecs) (reqs : Fin n → Request) (m : Mux n) (outcome : DispatchOutcome) :
    Mux n :=
  match outcome with
  | .continue => m
  | .done id => match m.idToIdx[id]? with
    | none => m
    | some idx => match m.conn.streams[id]? with
      | none => { m with idToIdx := m.idToIdx.erase id }
      | some stream => m.deliver codecs reqs id idx stream

/-- Hand back what an accepted frame finished or doomed. -/
def settle (codecs : Codecs) (reqs : Fin n → Request) (m : Mux n) (outcome : DispatchOutcome) :
    Mux n :=
  m.spared.handBack codecs reqs outcome

/-- One move of the driver; `P` holds of every connection a frame is read from. -/
inductive Move (codecs : Codecs) (reqs : Fin n → Request) (P : Connection → Prop) :
    Mux n → Mux n → Prop where
  /-- No stream can be opened for the next request. -/
  | refused {m : Mux n} {idx : Fin n} {rest : List (Fin n)} {e : Error} {conn : Connection}
      (hq : m.queue = idx :: rest) (hopen : m.conn.openStream = .error e conn) :
      Move codecs reqs P m ({ m with conn, queue := rest }.setResult idx (.error e))
  /-- A stream is opened, but the head of the request cannot be written. -/
  | unsent {m : Mux n} {idx : Fin n} {rest : List (Fin n)} {id : Nat} {e : Error}
      {conn conn' : Connection} (hq : m.queue = idx :: rest)
      (hopen : m.conn.openStream = .ok id conn)
      (hstage : conn.stageRequestOn id (reqs idx) = .error e conn') :
      Move codecs reqs P m ({ m with
        conn := conn'.removeStream id
        queue := rest
        opened := m.opened ++ [(id, idx)] }.setResult idx (.error e))
  | started {m : Mux n} {idx : Fin n} {rest : List (Fin n)} {id : Nat} {u : Unit}
      {conn conn' : Connection} (hq : m.queue = idx :: rest)
      (hopen : m.conn.openStream = .ok id conn)
      (hstage : conn.stageRequestOn id (reqs idx) = .ok u conn') :
      Move codecs reqs P m { m with
        conn := conn'
        idToIdx := m.idToIdx.insert id idx
        queue := rest
        opened := m.opened ++ [(id, idx)] }
  | pumped (m : Mux n) : Move codecs reqs P m { m with conn := m.conn.flushPending.state }
  | accepted {m : Mux n} {outcome : DispatchOutcome} {conn : Connection}
      (hp : P m.conn) (h : m.conn.readAndDispatch false = .ok outcome conn) :
      Move codecs reqs P m ({ m with conn }.settle codecs reqs outcome)
  /-- A dispatch error is put down to one stream. -/
  | stumbled {m m₁ : Mux n} {e : Error} {conn : Connection} {idx : Fin n}
      (hp : P m.conn) (h : m.conn.readAndDispatch false = .error e conn)
      (htake : { m with conn }.takeStreamError = some (idx, m₁)) :
      Move codecs reqs P m (m₁.setResult idx (.error e))

abbrev Moves (codecs : Codecs) (reqs : Fin n → Request) (P : Connection → Prop) :
    Mux n → Mux n → Prop :=
  Relation.ReflTransGen (Move codecs reqs P)

/-! ## Turns are moves -/

theorem moves_startQueued (q : List (Fin n)) (m : Mux n) :
    Moves codecs reqs P { m with queue := q } (startQueued reqs q m) := by
  fun_induction startQueued reqs q m with
  | case1 m => exact .refl
  | case2 idx rest m hfull => exact .refl
  | case3 idx rest m hfull e conn hopen ih =>
    exact .head (@Move.refused n codecs reqs P { m with queue := idx :: rest } _ _ _ _ rfl hopen) ih
  | case4 idx rest m hfull id conn hopen m' e conn' hstage ih =>
    exact .head (@Move.unsent n codecs reqs P { m with queue := idx :: rest } _ _ _ _ _ _ rfl hopen
      hstage) ih
  | case5 idx rest m hfull id conn hopen m' u conn' hstage ih =>
    exact .head (@Move.started n codecs reqs P { m with queue := idx :: rest } _ _ _ _ _ _ rfl hopen
      hstage) ih

theorem moves_start (m : Mux n) : Moves codecs reqs P m (startQueued reqs m.queue m) :=
  moves_startQueued m.queue m

theorem move_flushPending (m : Mux n) : Move codecs reqs P m m.flushPending.state := by
  have hstate : m.flushPending.state = { m with conn := m.conn.flushPending.state } := by
    unfold flushPending
    cases m.conn.flushPending <;> rfl
  rw [hstate]
  exact .pumped m

theorem wake_moves {reqs : Fin n → Request} (h : m.wake reqs = .ok m') :
    Moves codecs reqs P m m' := by
  unfold wake at h
  split at h
  · cases h
    exact .refl
  · split at h
    · cases h
    · simp only at h
      split at h
      · cases h
      · split at h
        · cases h
        · rename_i hf
          cases h
          have hpump := @move_flushPending n codecs reqs P (startQueued reqs m.queue m)
          rw [hf] at hpump
          exact (moves_start m).tail hpump

/-- What is left of handling an accepted frame once its streams have been handed back. -/
theorem reap_eq (codecs : Codecs) (reqs : Fin n → Request) (m : Mux n)
    (outcome : DispatchOutcome) :
    m.spared.reap codecs reqs outcome = m.settle codecs reqs outcome ∨
      m.spared.reap codecs reqs outcome =
        startQueued reqs (m.settle codecs reqs outcome).queue (m.settle codecs reqs outcome) := by
  unfold settle handBack reap finish
  generalize m.spared = m₁
  cases outcome with
  | «continue» => exact .inl rfl
  | done id =>
    cases hidx : m₁.idToIdx[id]? with
    | none => exact .inl (by simp only [hidx])
    | some idx =>
      cases hs : m₁.conn.streams[id]? with
      | none => exact .inl (by simp only [hidx, hs])
      | some stream => exact .inr (by simp only [hidx, hs]; rfl)

theorem proceed_of_ok {outcome : DispatchOutcome} {m' : Mux n} {u : Unit}
    (h : (m.spared.reap codecs reqs outcome).flushPending = .ok u m') :
    m.proceed codecs reqs outcome = .next m' := by
  unfold spared at h
  unfold proceed
  simp only [h]

theorem proceed_of_error {outcome : DispatchOutcome} {m' : Mux n} {e : Error}
    (h : (m.spared.reap codecs reqs outcome).flushPending = .error e m') :
    m.proceed codecs reqs outcome =
      .done (m'.failAllOutstanding (.badResponse "write error pumping multiplexed sends")) := by
  unfold spared at h
  unfold proceed
  simp only [h]

theorem proceed_moves {outcome : DispatchOutcome} {conn : Connection} (hp : P m.conn)
    (hread : m.conn.readAndDispatch false = .ok outcome conn) :
    (∃ m', { m with conn }.proceed codecs reqs outcome = .next m' ∧ Moves codecs reqs P m m') ∨
      ∃ m', Moves codecs reqs P m m' ∧ { m with conn }.proceed codecs reqs outcome =
        .done (m'.failAllOutstanding (.badResponse "write error pumping multiplexed sends")) := by
  have hreap : Moves codecs reqs P m ({ m with conn }.spared.reap codecs reqs outcome) := by
    have haccept := @Move.accepted n codecs reqs P m outcome conn hp hread
    rcases reap_eq codecs reqs { m with conn } outcome with heq | heq
    · rw [heq]
      exact .single haccept
    · rw [heq]
      exact .head haccept (moves_start _)
  have hpump := @move_flushPending n codecs reqs P ({ m with conn }.spared.reap codecs reqs outcome)
  cases hf : ({ m with conn }.spared.reap codecs reqs outcome).flushPending with
  | ok _ m₂ =>
    rw [hf] at hpump
    exact .inl ⟨m₂, proceed_of_ok hf, hreap.tail hpump⟩
  | error _ m₂ =>
    rw [hf] at hpump
    exact .inr ⟨m₂, hreap.tail hpump, proceed_of_error hf⟩

theorem recover_moves {e : Error} {conn : Connection} (hp : P m.conn)
    (hread : m.conn.readAndDispatch false = .error e conn) :
    (∃ m', { m with conn }.recover reqs e = .next m' ∧ Moves codecs reqs P m m') ∨
      (∃ m' fe, Moves codecs reqs P m m' ∧ { m with conn }.recover reqs e =
        .done (m'.failAllOutstanding fe)) ∨
      { m with conn }.takeStreamError = none ∧ { m with conn }.recover reqs e =
        .done ({ m with conn }.failAllOutstanding e) := by
  unfold recover
  cases htake : { m with conn }.takeStreamError with
  | none => exact .inr (.inr ⟨rfl, rfl⟩)
  | some p =>
    obtain ⟨idx, m₁⟩ := p
    have hstumble := @Move.stumbled n codecs reqs P m m₁ e conn idx hp hread htake
    have hstart : Moves codecs reqs P m (startQueued reqs (m₁.setResult idx (.error e)).queue
      (m₁.setResult idx (.error e))) := .head hstumble (moves_start _)
    simp only
    generalize startQueued reqs (m₁.setResult idx (.error e)).queue
      (m₁.setResult idx (.error e)) = m₂ at hstart ⊢
    have hpump := @move_flushPending n codecs reqs P m₂
    cases hf : m₂.flushPending with
    | ok _ m₃ =>
      rw [hf] at hpump
      exact .inl ⟨m₃, rfl, hstart.tail hpump⟩
    | error fe m₃ =>
      rw [hf] at hpump
      exact .inr (.inl ⟨m₃, fe, hstart.tail hpump, rfl⟩)

/-! ## How the frame loop ends -/

/-- The ways out of the frame loop. -/
inductive Ends (codecs : Codecs) (reqs : Fin n → Request) (P : Connection → Prop) :
    Mux n → Mux n → Prop where
  | finished {m : Mux n} (h : m.unfinished = false) : Ends codecs reqs P m m
  /-- Nothing is in flight and nothing can be started: the queue is given up. -/
  | starved {m : Mux n} (hidle : m.idToIdx.isEmpty = true) (e : Error) :
      Ends codecs reqs P m { m.queue.foldl (failOutstanding e) m with queue := [] }
  /-- The first requests of a new start could not be pumped. -/
  | broken {m : Mux n} (hlive : m.idToIdx.isEmpty = false) : Ends codecs reqs P m m
  /-- A write failed: every request without a result fails. -/
  | gaveUp (m : Mux n) (e : Error) : Ends codecs reqs P m (m.failAllOutstanding e)
  /-- An error that is not put down to one stream: every request without a result fails. -/
  | fatal {m : Mux n} {e : Error} {conn : Connection} (hlive : m.idToIdx.isEmpty = false)
      (hp : P m.conn) (h : m.conn.readAndDispatch false = .error e conn)
      (htake : { m with conn }.takeStreamError = none) :
      Ends codecs reqs P m ({ m with conn }.failAllOutstanding e)

/-- The connection a turn reads from satisfies `P`. -/
def Reads (reqs : Fin n → Request) (P : Connection → Prop) (m : Mux n) : Prop :=
  ∀ m', m.unfinished = true → m.wake reqs = .ok m' → P m'.conn

theorem wake_ends {reqs : Fin n → Request} (h : m.wake reqs = .error m') :
    ∃ m₁, Moves codecs reqs P m m₁ ∧ Ends codecs reqs P m₁ m' := by
  unfold wake at h
  split at h
  · cases h
  · rename_i hidle
    have hidle' : m.idToIdx.isEmpty = true := by simpa using hidle
    split at h
    · rename_i hq
      cases h
      refine ⟨m, .refl, ?_⟩
      have hq' : m.queue = [] := by simpa using hq
      have hend := @Ends.starved n codecs reqs P m hidle' .unexpectedEof
      rw [hq'] at hend
      simp only [List.foldl_nil] at hend
      rwa [show { m with queue := [] } = m by rw [← hq']] at hend
    · simp only at h
      split at h
      · rename_i hempty
        cases h
        exact ⟨_, moves_start m, .starved hempty _⟩
      · rename_i hlive
        split at h
        · rename_i hf
          cases h
          have hpump := @move_flushPending n codecs reqs P (startQueued reqs m.queue m)
          rw [hf] at hpump
          refine ⟨_, (moves_start m).tail hpump, .broken ?_⟩
          have hsame : m'.idToIdx = (startQueued reqs m.queue m).idToIdx := by
            unfold flushPending at hf
            cases hc : (startQueued reqs m.queue m).conn.flushPending with
            | ok _ c =>
              rw [hc] at hf
              cases hf
            | error _ c =>
              rw [hc] at hf
              cases hf
              rfl
          rw [Outcome.state, hsame]
          simpa using hlive
        · cases h

/-- A turn reads only while streams are live. -/
theorem wake_live {reqs : Fin n → Request} (h : m.wake reqs = .ok m') :
    m'.idToIdx.isEmpty = false := by
  unfold wake at h
  split at h
  · rename_i hlive
    cases h
    simpa using hlive
  · split at h
    · cases h
    · simp only at h
      split at h
      · cases h
      · rename_i hlive
        split at h
        · cases h
        · rename_i hf
          cases h
          unfold flushPending at hf
          cases hc : (startQueued reqs m.queue m).conn.flushPending with
          | ok _ c =>
            rw [hc] at hf
            cases hf
            simpa using hlive
          | error _ c =>
            rw [hc] at hf
            cases hf

/-- A turn that continues is a sequence of moves. -/
theorem turn_next (h : m.turn codecs reqs = .next m') (hr : m.Reads reqs P) :
    Moves codecs reqs P m m' := by
  unfold turn at h
  split at h
  · cases h
  · rename_i hun
    split at h
    · cases h
    · rename_i m₁ hwake
      have hp : P m₁.conn := hr m₁ (by simpa using hun) hwake
      have hwakes := @wake_moves n codecs m m₁ P reqs hwake
      split at h
      · rename_i e conn hread
        obtain ⟨m₂, hm₂, hmoves⟩ | ⟨m₂, fe, -, hm₂⟩ | ⟨-, hm₂⟩ :=
          @recover_moves n codecs reqs m₁ P e conn hp hread
        all_goals rw [hm₂] at h
        all_goals cases h
        exact hwakes.trans hmoves
      · rename_i outcome conn hread
        obtain ⟨m₂, hm₂, hmoves⟩ | ⟨m₂, -, hm₂⟩ :=
          @proceed_moves n codecs reqs m₁ P outcome conn hp hread
        all_goals rw [hm₂] at h
        all_goals cases h
        exact hwakes.trans hmoves

/-- A turn that leaves the loop is a sequence of moves and one of the ends. -/
theorem turn_done (h : m.turn codecs reqs = .done m') (hr : m.Reads reqs P) :
    ∃ m₁, Moves codecs reqs P m m₁ ∧ Ends codecs reqs P m₁ m' := by
  unfold turn at h
  split at h
  · rename_i hfin
    cases h
    exact ⟨_, .refl, .finished (by simpa using hfin)⟩
  · rename_i hun
    split at h
    · rename_i hwake
      cases h
      exact wake_ends hwake
    · rename_i m₁ hwake
      have hp : P m₁.conn := hr m₁ (by simpa using hun) hwake
      have hwakes := @wake_moves n codecs m m₁ P reqs hwake
      split at h
      · rename_i e conn hread
        obtain ⟨m₂, hm₂, -⟩ | ⟨m₂, fe, hmoves, hm₂⟩ | ⟨htake, hm₂⟩ :=
          @recover_moves n codecs reqs m₁ P e conn hp hread
        all_goals rw [hm₂] at h
        all_goals cases h
        · exact ⟨m₂, hwakes.trans hmoves, .gaveUp m₂ fe⟩
        · exact ⟨m₁, hwakes, .fatal (wake_live hwake) hp hread htake⟩
      · rename_i outcome conn hread
        obtain ⟨m₂, hm₂, -⟩ | ⟨m₂, hmoves, hm₂⟩ :=
          @proceed_moves n codecs reqs m₁ P outcome conn hp hread
        all_goals rw [hm₂] at h
        all_goals cases h
        exact ⟨m₂, hwakes.trans hmoves, .gaveUp m₂ _⟩

/-! ## Whole runs -/

/-- The states at the start of every turn of the frame loop. -/
def turns (codecs : Codecs) (reqs : Fin n → Request) (c : Connection) : List (Mux n) :=
  match (startQueued reqs (List.finRange n) (init c n)).flushPending with
  | .error _ _ => []
  | .ok _ m => Loop.visited (turn codecs reqs) variant m

theorem moves_init (codecs : Codecs) (reqs : Fin n → Request) (P : Connection → Prop)
    (c : Connection) : Moves codecs reqs P (init c n)
      (startQueued reqs (List.finRange n) (init c n)).flushPending.state :=
  .tail (moves_start (init c n)) (move_flushPending _)

/-- What every move keeps holds at every turn. -/
theorem turns_rule {reqs : Fin n → Request} {c : Connection} {I : Mux n → Prop}
    (hinit : I (init c n)) (hmove : ∀ m m', I m → Move codecs reqs P m m' → I m')
    (hr : ∀ m ∈ turns codecs reqs c, m.Reads reqs P) : ∀ m ∈ turns codecs reqs c, I m := by
  have hmoves {m m' : Mux n} (h : Moves codecs reqs P m m') (hm : I m) : I m' := by
    induction h with
    | refl => exact hm
    | tail _ hstep ih => exact hmove _ _ ih hstep
  have hstart := moves_init codecs reqs P c
  unfold turns at hr ⊢
  cases hf : (startQueued reqs (List.finRange n) (init c n)).flushPending with
  | error _ m => simp
  | ok _ m =>
    rw [hf] at hr hstart
    exact Loop.visited_rule (turn_lowers codecs reqs) (hmoves hstart hinit)
      fun t ht hI t' hnext => hmoves (turn_next hnext (hr t ht)) hI

/-- The whole run: moves, and one of the ends. -/
theorem run_ends {reqs : Fin n → Request} {c : Connection} {I : Mux n → Prop}
    (hinit : I (init c n)) (hmove : ∀ m m', I m → Move codecs reqs P m m' → I m')
    (hr : ∀ m ∈ turns codecs reqs c, m.Reads reqs P) :
    ∃ m₁ m₂, I m₁ ∧ Ends codecs reqs P m₁ m₂ ∧
      (run codecs reqs c = m₂ ∨
        run codecs reqs c = { m₂ with conn := m₂.conn.pruneCompletedStreams }) := by
  have hmoves {m m' : Mux n} (h : Moves codecs reqs P m m') (hm : I m) : I m' := by
    induction h with
    | refl => exact hm
    | tail _ hstep ih => exact hmove _ _ ih hstep
  have hstart := moves_init codecs reqs P c
  unfold run
  unfold turns at hr
  simp only
  cases hf : (startQueued reqs (List.finRange n) (init c n)).flushPending with
  | error e m =>
    rw [hf] at hstart
    exact ⟨m, _, hmoves hstart hinit, .gaveUp m e, .inl rfl⟩
  | ok _ m =>
    rw [hf] at hr hstart
    obtain ⟨t, ht, hI, hdone⟩ := Loop.run_visited (turn_lowers codecs reqs) (I := I)
      (hmoves hstart hinit) fun t ht hI t' hnext => hmoves (turn_next hnext (hr t ht)) hI
    obtain ⟨m₁, hm₁, hends⟩ := turn_done hdone (hr t ht)
    exact ⟨m₁, _, hmoves hm₁ hI, hends, .inr rfl⟩

end Mux

end Rsurl.Http2
