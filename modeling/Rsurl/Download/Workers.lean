import Rsurl.Library.Claiming
import Rsurl.Download.Chunk
import Rsurl.Download.Plan

/-!
# The workers of a segmented download

`run_chunks`: workers claim chunks off a counter, fetch them, and mark them in the bitmap that they
share. The steps of the workers interleave in any order, and a worker may panic anywhere. A chunk has
one worker at most, a bit is set and saved only when its chunk is in the store, and a run ends well
only when the whole resource is.
-/

namespace Rsurl.Download

open Library

/-- What the workers are given. -/
structure Job where
  plan : Plan
  total : Nat
  chunkKey : UInt32
  validators : Validators
  maxRetries : Nat
  parallelism : Nat
  lowSpeed : Option (Nat × Nat)

namespace Job

def workerCount (job : Job) : Nat :=
  min (clamp job.parallelism 1 (max job.plan.length 1)) maxSegmentWorkers

theorem workerCount_pos (job : Job) : 0 < job.workerCount := by
  unfold workerCount clamp maxSegmentWorkers
  omega

/-- Slow connections are cut. -/
def floor (job : Job) : Bool := job.lowSpeed.any fun (min, _) => 0 < min

end Job

/-- Where a worker stands in its loop. -/
inductive Worker where
  /-- Before it looks at `failed` and `fallback`. -/
  | check
  | claim
  /-- Before it looks at the bit of the chunk it has claimed. -/
  | look (chunk : Nat)
  | fetching (g : Fetching)
  | done
  | panicked
  deriving DecidableEq, Repr

def Worker.Ended : Worker → Prop
  | done | panicked => True
  | _ => False

instance (w : Worker) : Decidable w.Ended := by
  cases w <;> unfold Worker.Ended <;> infer_instance

/-- The meta block of `Kind::HttpRanged`. -/
structure RangedState where
  chunkKey : UInt32
  total : Nat
  validators : Validators
  bitmap : Bytes
  deriving DecidableEq, Repr

inductive Event (workers : Nat) where
  | fetch (w : Fin workers) (event : FetchEvent)
  | saved (state : RangedState)

/-- What the workers share, where each of them stands, and what has happened. -/
structure Pool (workers : Nat) where
  next : Nat
  bitmap : Bytes
  failed : Option Error
  fallback : Bool
  worker : Fin workers → Worker
  events : List (Event workers)

/-- What a worker meets in a step; `go` where it needs nothing from outside. -/
inductive Input where
  | go
  | answer (a : Answer)
  | panic

namespace Pool

variable {workers : Nat}

def start (workers : Nat) (bitmap : Bytes) : Pool workers :=
  ⟨0, bitmap, none, false, fun _ => .check, []⟩

def goto (s : Pool workers) (w : Fin workers) (stage : Worker) : Pool workers :=
  { s with worker := Function.update s.worker w stage }

/-- A step for which worker `w` needs nothing from outside. -/
def go (job : Job) (s : Pool workers) (w : Fin workers) : Option (Pool workers) :=
  match s.worker w with
  | .check => some (s.goto w (if s.failed.isSome || s.fallback then .done else .claim))
  | .claim =>
    let claimed := if job.plan.length ≤ s.next then Worker.done else .look s.next
    some { s.goto w claimed with next := s.next + 1 }
  | .look i =>
    match bitGet s.bitmap i, job.plan[i]? with
    | some true, _ => some (s.goto w .check)
    | some false, some (start, last) =>
      some (s.goto w (.fetching (.send ⟨i, start, last, 0, job.maxRetries⟩)))
    | _, _ => some (s.goto w .panicked)
  | .fetching (.settle i .ok) =>
    match bitSet s.bitmap i with
    | some bitmap => some { s.goto w .check with
        bitmap := bitmap,
        events := s.events ++ [.saved ⟨job.chunkKey, job.total, job.validators, bitmap⟩] }
    | none => some (s.goto w .panicked)
  | .fetching (.settle _ .fallback) => some { s.goto w .check with fallback := true }
  | .fetching (.settle _ (.fatal e)) => some { s.goto w .check with failed := some e }
  | _ => none

/-- One step of worker `w`. -/
def step (job : Job) (s : Pool workers) (w : Fin workers) : Input → Option (Pool workers)
  | .go => s.go job w
  | .answer a =>
    match s.worker w with
    | .fetching g =>
      (g.step job.total job.maxRetries job.floor a).map fun (g, events) =>
        { s.goto w (.fetching g) with events := s.events ++ events.map (.fetch w) }
    | _ => none
  | .panic => if (s.worker w).Ended then none else some (s.goto w .panicked)

/-- The workers take their steps in any order, whatever they meet. -/
def Step (job : Job) (s s' : Pool workers) : Prop := ∃ w input, s.step job w input = some s'

/-- A run, given by its steps. -/
def run (job : Job) (s : Pool workers) (steps : List (Fin workers × Input)) :
    Option (Pool workers) :=
  steps.foldlM (fun s step => s.step job step.1 step.2) s

theorem run_steps {job : Job} {s s' : Pool workers} {steps : List (Fin workers × Input)}
    (h : s.run job steps = some s') : Relation.ReflTransGen (Step job) s s' := by
  induction steps generalizing s with
  | nil =>
    cases h
    exact .refl
  | cons step steps ih =>
    rw [run, List.foldlM_cons, Option.bind_eq_bind, Option.bind_eq_some_iff] at h
    obtain ⟨t, ht, hrest⟩ := h
    exact .head ⟨step.1, step.2, ht⟩ (ih hrest)

/-- A run of `run_chunks`. -/
def Reached (job : Job) (bitmap : Bytes) (s : Pool job.workerCount) : Prop :=
  Relation.ReflTransGen (Step job) (start job.workerCount bitmap) s

end Pool

inductive SegErr where
  | fallback
  | fatal (err : Error)
  deriving DecidableEq, Repr

/-- How `run_chunks` returns, once all workers have ended. -/
def Pool.result {workers : Nat} (s : Pool workers) : Option (Except SegErr Unit) :=
  if ∀ w, (s.worker w).Ended then
    if ∃ w, s.worker w = .panicked then
      some (.error (.fatal (.badResponse "segment worker panicked; download incomplete")))
    else match s.failed with
      | some e => some (.error (.fatal e))
      | none => if s.fallback then some (.error .fallback) else some (.ok ())
  else none

/-! ## What a step does -/

namespace Pool

variable {workers : Nat} {job : Job} {s s' : Pool workers} {w : Fin workers}

@[simp] theorem worker_goto_self (s : Pool workers) (w : Fin workers) (stage : Worker) :
    (s.goto w stage).worker w = stage := Function.update_self ..

theorem worker_goto_ne (s : Pool workers) {w v : Fin workers} (h : v ≠ w) (stage : Worker) :
    (s.goto w stage).worker v = s.worker v := Function.update_of_ne h ..

theorem worker_cases (s : Pool workers) (w : Fin workers) (stage : Worker) (v : Fin workers) :
    (v = w ∧ (s.goto w stage).worker v = stage) ∨
      (v ≠ w ∧ (s.goto w stage).worker v = s.worker v) := by
  by_cases h : v = w
  · exact .inl ⟨h, h ▸ worker_goto_self s w stage⟩
  · exact .inr ⟨h, worker_goto_ne s h stage⟩

/-- The steps of worker `w`, by where it stands. -/
inductive Moves (job : Job) (s : Pool workers) (w : Fin workers) : Pool workers → Prop
  | stops (hat : s.worker w = .check) (hflag : s.failed.isSome = true ∨ s.fallback = true) :
    Moves job s w (s.goto w .done)
  | goes (hat : s.worker w = .check) : Moves job s w (s.goto w .claim)
  | passes (hat : s.worker w = .claim) (hlast : job.plan.length ≤ s.next) :
    Moves job s w { s.goto w .done with next := s.next + 1 }
  | claims (hat : s.worker w = .claim) :
    Moves job s w { s.goto w (.look s.next) with next := s.next + 1 }
  | skips {i : Nat} (hat : s.worker w = .look i) (hbit : bitGet s.bitmap i = some true) :
    Moves job s w (s.goto w .check)
  | begins {i start last : Nat} (hat : s.worker w = .look i)
    (hplan : job.plan[i]? = some (start, last)) :
    Moves job s w (s.goto w (.fetching (.send ⟨i, start, last, 0, job.maxRetries⟩)))
  | fetches {g g' : Fetching} {a : Answer} {events : List FetchEvent}
    (hat : s.worker w = .fetching g)
    (hstep : g.step job.total job.maxRetries job.floor a = some (g', events)) :
    Moves job s w { s.goto w (.fetching g') with events := s.events ++ events.map (.fetch w) }
  | settles {i : Nat} {bitmap : Bytes} (hat : s.worker w = .fetching (.settle i .ok))
    (hset : bitSet s.bitmap i = some bitmap) :
    Moves job s w { s.goto w .check with
      bitmap := bitmap,
      events := s.events ++ [.saved ⟨job.chunkKey, job.total, job.validators, bitmap⟩] }
  | fallsBack {i : Nat} (hat : s.worker w = .fetching (.settle i .fallback)) :
    Moves job s w { s.goto w .check with fallback := true }
  | fails {i : Nat} {e : Error} (hat : s.worker w = .fetching (.settle i (.fatal e))) :
    Moves job s w { s.goto w .check with failed := some e }
  | panics (hat : ¬(s.worker w).Ended) : Moves job s w (s.goto w .panicked)

theorem moves_of_step {input : Input} (h : s.step job w input = some s') : Moves job s w s' := by
  cases input with
  | panic =>
    simp only [step] at h
    split_ifs at h with hend
    cases h
    exact .panics hend
  | answer a =>
    simp only [step] at h
    split at h
    · rename_i g hat
      obtain ⟨⟨g', events⟩, hstep, heq⟩ := Option.map_eq_some_iff.mp h
      cases heq
      exact .fetches hat hstep
    · cases h
  | go =>
    simp only [step, go] at h
    split at h
    · rename_i hat
      cases h
      split_ifs with hflag
      · exact .stops hat (by simpa using hflag)
      · exact .goes hat
    · rename_i hat
      cases h
      split_ifs with hlast
      · exact .passes hat hlast
      · exact .claims hat
    · rename_i i hat
      split at h <;> cases h
      · rename_i hbit
        exact .skips hat hbit
      · rename_i start last hbit hplan
        exact .begins hat hplan
      · exact .panics (hat ▸ id)
    · rename_i i hat
      split at h <;> cases h
      · rename_i bitmap hset
        exact .settles hat hset
      · exact .panics (hat ▸ id)
    · rename_i i hat
      cases h
      exact .fallsBack hat
    · rename_i i e hat
      cases h
      exact .fails hat
    · cases h

/-! ## The store -/

/-- The offset has been written. -/
def Written (events : List (Event workers)) (p : Nat) : Prop :=
  ∃ w put, .fetch w (.put put) ∈ events ∧ put.Has p

theorem Written.append {events : List (Event workers)} {p : Nat} (h : Written events p)
    (more : List (Event workers)) : Written (events ++ more) p := by
  obtain ⟨w, put, hmem, hp⟩ := h
  exact ⟨w, put, List.mem_append_left _ hmem, hp⟩

/-- The chunks whose bits are set are in the store: `held` are the offsets that were before. -/
def Marks (plan : Plan) (held : Nat → Prop) (bitmap : Bytes) (events : List (Event workers)) :
    Prop :=
  ∀ i p, bitGet bitmap i = some true → InChunk plan i p → held p ∨ Written events p

theorem Marks.append {plan : Plan} {held : Nat → Prop} {bitmap : Bytes}
    {events : List (Event workers)} (h : Marks plan held bitmap events)
    (more : List (Event workers)) : Marks plan held bitmap (events ++ more) :=
  fun i p hbit hp => (h i p hbit hp).imp_right (·.append more)

/-- What is known of the store and of what is said about it. -/
structure Stored (job : Job) (held : Nat → Prop) (s : Pool workers) : Prop where
  fetching : ∀ w g, s.worker w = .fetching g →
    g.Of job.plan job.total ∧ ∀ p, g.Got job.plan p → Written s.events p
  puts : ∀ w put, .fetch w (.put put) ∈ s.events → put.Fits job.plan job.total
  bitmap : Marks job.plan held s.bitmap s.events
  saved : ∀ before state after, s.events = before ++ .saved state :: after →
    Marks job.plan held state.bitmap before

theorem stored_start {held : Nat → Prop} {bitmap : Bytes}
    (h : ∀ i p, bitGet bitmap i = some true → InChunk job.plan i p → held p) :
    Stored job held (start workers bitmap) where
  fetching _ _ hw := nomatch hw
  puts _ _ hput := nomatch hput
  bitmap i p hbit hp := .inl (h i p hbit hp)
  saved before state after heq := by
    have := congrArg List.length heq
    simp [start] at this

/-- More events; what they save is marked rightly where it is saved. -/
theorem Stored.saved_append {held : Nat → Prop} (hs : Stored job held s)
    {more : List (Event workers)}
    (hmore : ∀ before state after, more = before ++ Event.saved state :: after →
      Marks job.plan held state.bitmap (s.events ++ before)) :
    ∀ before state after, s.events ++ more = before ++ Event.saved state :: after →
      Marks job.plan held state.bitmap before := by
  intro before state after heq
  rcases List.append_eq_append_iff.mp heq with ⟨mid, rfl, hmid⟩ | ⟨mid, hmid, hrest⟩
  · exact hmore mid state after hmid
  · cases mid with
    | nil =>
      rw [List.append_nil] at hmid
      have := hmore [] state after hrest.symm
      rwa [List.append_nil, hmid] at this
    | cons event mid =>
      cases hrest
      exact hs.saved before state mid hmid

/-- A worker goes on to a stage about which nothing new is claimed. -/
theorem Stored.goto {held : Nat → Prop} (hs : Stored job held s) (stage : Worker)
    (hstage : ∀ g, stage = .fetching g →
      g.Of job.plan job.total ∧ ∀ p, g.Got job.plan p → Written s.events p)
    (hworker : s'.worker = (s.goto w stage).worker) (hbitmap : s'.bitmap = s.bitmap)
    (hevents : s'.events = s.events) : Stored job held s' where
  fetching v g hv := by
    rw [hworker] at hv
    rw [hevents]
    rcases worker_cases s w stage v with ⟨-, hnew⟩ | ⟨-, hold⟩
    · exact hstage g (hnew.symm.trans hv)
    · exact hs.fetching v g (hold.symm.trans hv)
  puts := hevents ▸ hs.puts
  bitmap := by
    rw [hbitmap, hevents]
    exact hs.bitmap
  saved := hevents ▸ hs.saved

theorem Stored.moves {held : Nat → Prop} (hs : Stored job held s)
    (hplan : ∀ (i : Nat) (c : Nat × Nat), job.plan[i]? = some c → c.1 ≤ c.2)
    (h : Moves job s w s') : Stored job held s' := by
  cases h with
  | stops hat hflag => exact hs.goto .done nofun rfl rfl rfl
  | goes hat => exact hs.goto .claim nofun rfl rfl rfl
  | passes hat hlast => exact hs.goto .done nofun rfl rfl rfl
  | claims hat => exact hs.goto (.look s.next) nofun rfl rfl rfl
  | skips hat hbit => exact hs.goto .check nofun rfl rfl rfl
  | fallsBack hat => exact hs.goto .check nofun rfl rfl rfl
  | fails hat => exact hs.goto .check nofun rfl rfl rfl
  | panics hat => exact hs.goto .panicked nofun rfl rfl rfl
  | @begins i start last hat hchunk =>
    refine hs.goto (.fetching _) ?_ rfl rfl rfl
    rintro _ ⟨⟩
    refine ⟨⟨hchunk, hplan i _ hchunk, Nat.zero_le _⟩, fun p hp => ?_⟩
    simp only [Fetching.Got, Fetch.next] at hp
    omega
  | @fetches g g' a events hat hstep =>
    obtain ⟨hof, hgot⟩ := hs.fetching w g hat
    obtain ⟨-, hof', hputs, hgot'⟩ := Fetching.step_got hof hstep
    refine ⟨?_, ?_, hs.bitmap.append _, hs.saved_append ?_⟩
    · intro v gv hv
      rcases worker_cases s w (.fetching g') v with ⟨-, hnew⟩ | ⟨-, hold⟩
      · cases hnew.symm.trans hv
        refine ⟨hof', fun p hp => ?_⟩
        rcases hgot' p hp with hp | ⟨put, hput, hp⟩
        · exact (hgot p hp).append _
        · exact ⟨w, put, List.mem_append_right _ (List.mem_map_of_mem hput), hp⟩
      · obtain ⟨hofv, hgotv⟩ := hs.fetching v gv (hold.symm.trans hv)
        exact ⟨hofv, fun p hp => (hgotv p hp).append _⟩
    · intro v put hput
      rcases List.mem_append.mp hput with hput | hput
      · exact hs.puts v put hput
      · obtain ⟨event, hevent, heq⟩ := List.mem_map.mp hput
        cases heq
        exact (hputs put hevent).2
    · intro before state after heq
      have hmem : Event.saved state ∈ events.map (Event.fetch w) := heq ▸ by simp
      obtain ⟨event, -, heq⟩ := List.mem_map.mp hmem
      cases heq
  | @settles i bitmap hat hset =>
    have hmarks : Marks job.plan held bitmap s.events := by
      intro j p hbit hp
      rcases (bitGet_bitSet hset j).mp hbit with rfl | hbit
      · exact .inr ((hs.fetching w _ hat).2 p hp)
      · exact hs.bitmap j p hbit hp
    refine ⟨?_, ?_, hmarks.append _, hs.saved_append ?_⟩
    · intro v gv hv
      rcases worker_cases s w .check v with ⟨-, hnew⟩ | ⟨-, hold⟩
      · cases hnew.symm.trans hv
      · obtain ⟨hofv, hgotv⟩ := hs.fetching v gv (hold.symm.trans hv)
        exact ⟨hofv, fun p hp => (hgotv p hp).append _⟩
    · intro v put hput
      rcases List.mem_append.mp hput with hput | hput
      · exact hs.puts v put hput
      · cases List.mem_singleton.mp hput
    · intro before state after heq
      cases before with
      | nil =>
        cases heq
        exact hmarks.append _
      | cons event before =>
        have := congrArg List.length heq
        simp at this

end Pool

/-! ## The chunks -/

/-- The chunk that the worker has claimed and not left. -/
def Worker.chunk : Worker → Option Nat
  | look i => some i
  | fetching g => some g.chunk
  | _ => none

/-- Who has asked for bytes of which chunk. -/
def Event.asker {workers : Nat} : Event workers → Option (Fin workers × Nat)
  | fetch w (.asked i _ _) => some (w, i)
  | _ => none

namespace Pool

variable {workers : Nat} {job : Job} {s s' : Pool workers} {w : Fin workers}

/-- The chunks as tasks. -/
def claiming (s : Pool workers) : Claiming (Fin workers) where
  next := s.next
  holds v := (s.worker v).chunk
  settled := {i | bitGet s.bitmap i = some true}
  aborted := s.failed.isSome = true ∨ s.fallback = true ∨ ∃ v, s.worker v = .panicked
  log := s.events.filterMap Event.asker

theorem holds_goto (s : Pool workers) (w : Fin workers) (stage : Worker) :
    (fun v => ((s.goto w stage).worker v).chunk) =
      Function.update (fun v => (s.worker v).chunk) w stage.chunk := by
  funext v
  by_cases hv : v = w
  · rw [hv, worker_goto_self, Function.update_self]
  · rw [worker_goto_ne s hv, Function.update_of_ne hv]

/-- A stage of the worker that concerns the same chunk. -/
theorem holds_goto_same {stage : Worker} (h : stage.chunk = (s.worker w).chunk) :
    (fun v => ((s.goto w stage).worker v).chunk) = fun v => (s.worker v).chunk := by
  rw [holds_goto, h]
  exact Function.update_eq_self w _

/-- A worker that has not ended goes on. -/
theorem grows_goto (hat : ¬(s.worker w).Ended) (stage : Worker) (next : Nat)
    (events : List (Event workers)) : Claiming.Grows s.claiming
      (claiming { s.goto w stage with next := next, events := events }) := by
  refine ⟨subset_rfl, Or.imp_right (Or.imp_right ?_)⟩
  rintro ⟨v, hv⟩
  have hne : v ≠ w := by
    rintro rfl
    exact hat (hv ▸ trivial)
  exact ⟨v, (worker_goto_ne s hne stage).trans hv⟩

/-- A step of the pool is a step of who claims its chunks. -/
theorem claiming_moves {held : Nat → Prop} (hs : Stored job held s) (h : Moves job s w s') :
    Claiming.Step job.plan.length s.claiming s'.claiming := by
  have hrun {stage : Worker} (hat : s.worker w = stage) (hend : ¬stage.Ended) :
      ¬(s.worker w).Ended := hat ▸ hend
  cases h with
  | stops hat hflag =>
    refine .stay rfl (holds_goto_same ?_) rfl (grows_goto (hrun hat id) .done s.next s.events)
    rw [hat]
    rfl
  | goes hat =>
    refine .stay rfl (holds_goto_same ?_) rfl (grows_goto (hrun hat id) .claim s.next s.events)
    rw [hat]
    rfl
  | passes hat hlast =>
    refine .pass hlast rfl (holds_goto_same ?_) rfl
      (grows_goto (hrun hat id) .done (s.next + 1) s.events)
    rw [hat]
    rfl
  | claims hat =>
    refine .claim w ?_ rfl (holds_goto s w (.look s.next)) rfl
      (grows_goto (hrun hat id) (.look s.next) (s.next + 1) s.events)
    show (s.worker w).chunk = none
    rw [hat]
    rfl
  | @skips i hat hbit =>
    refine .leave w i ?_ (.inl hbit) rfl (holds_goto s w .check) rfl
      (grows_goto (hrun hat id) .check s.next s.events)
    show (s.worker w).chunk = some i
    rw [hat]
    rfl
  | begins hat hplan =>
    refine .stay rfl (holds_goto_same ?_) rfl
      (grows_goto (hrun hat id) (.fetching (.send _)) s.next s.events)
    rw [hat]
    rfl
  | @fetches g g' a events hat hstep =>
    obtain ⟨hchunk, -⟩ := Fetching.step_got (hs.fetching w g hat).1 hstep
    have hon : (s.worker w).chunk = some g.chunk := by
      rw [hat]
      rfl
    have hsame : Worker.chunk (.fetching g') = (s.worker w).chunk := by
      rw [hon, ← hchunk]
      rfl
    have hgrows := grows_goto (hrun hat id) (.fetching g') s.next
      (s.events ++ events.map (Event.fetch w))
    rcases Fetching.step_asked hstep with ⟨first, last, rfl⟩ | hputs
    · exact .work w g.chunk hon rfl (holds_goto_same hsame) (List.filterMap_append ..) hgrows
    · refine .stay rfl (holds_goto_same hsame) ?_ hgrows
      have hnone : (events.map (Event.fetch w)).filterMap Event.asker = [] := by
        rw [List.filterMap_eq_nil_iff]
        intro event hevent
        obtain ⟨e, he, rfl⟩ := List.mem_map.mp hevent
        obtain ⟨put, rfl⟩ := hputs e he
        rfl
      show (s.events ++ events.map (Event.fetch w)).filterMap Event.asker = _
      rw [List.filterMap_append, hnone]
      exact List.append_nil _
  | @settles i bitmap hat hset =>
    obtain ⟨-, haborted⟩ := grows_goto (hrun hat id) .check s.next s.events
    refine .leave w i ?_ (.inl ((bitGet_bitSet hset i).mpr (.inl rfl))) rfl
      (holds_goto s w .check) ?_ ⟨fun j hj => (bitGet_bitSet hset j).mpr (.inr hj), haborted⟩
    · show (s.worker w).chunk = some i
      rw [hat]
      rfl
    · show (s.events ++ [Event.saved _]).filterMap Event.asker = _
      rw [List.filterMap_append]
      exact List.append_nil _
  | @fallsBack i hat =>
    obtain ⟨-, haborted⟩ := grows_goto (hrun hat id) .check s.next s.events
    refine .leave w i ?_ (.inr (.inr (.inl rfl))) rfl (holds_goto s w .check) rfl
      ⟨subset_rfl, fun _ => .inr (.inl rfl)⟩
    show (s.worker w).chunk = some i
    rw [hat]
    rfl
  | @fails i e hat =>
    refine .leave w i ?_ (.inr (.inl rfl)) rfl (holds_goto s w .check) rfl
      ⟨subset_rfl, fun _ => .inl rfl⟩
    show (s.worker w).chunk = some i
    rw [hat]
    rfl
  | panics hat =>
    have hgrows := grows_goto hat .panicked s.next s.events
    have haborted : (s.goto w .panicked).claiming.aborted :=
      .inr (.inr ⟨w, worker_goto_self s w .panicked⟩)
    cases hon : (s.worker w).chunk with
    | none => exact .stay rfl (holds_goto_same hon.symm) rfl hgrows
    | some i => exact .leave w i hon (.inr haborted) rfl (holds_goto s w .panicked) rfl hgrows

/-! ## Runs -/

/-- A worker stops because there is nothing left to claim, or because the run is given up. -/
def StopsRightly (job : Job) (s : Pool workers) : Prop :=
  ∀ v, s.worker v = .done → job.plan.length ≤ s.next ∨ s.failed.isSome = true ∨ s.fallback = true

theorem StopsRightly.moves (hs : StopsRightly job s) (h : Moves job s w s') :
    StopsRightly job s' := by
  have hkept {t : Pool workers} (stage : Worker) (hworker : t.worker = (s.goto w stage).worker)
      (hnext : s.next ≤ t.next) (hfailed : s.failed.isSome = true → t.failed.isSome = true)
      (hfallback : s.fallback = true → t.fallback = true)
      (hdone : stage = .done → job.plan.length ≤ t.next ∨ t.failed.isSome = true ∨
        t.fallback = true) : StopsRightly job t := by
    intro v hv
    rw [hworker] at hv
    rcases worker_cases s w stage v with ⟨-, hnew⟩ | ⟨-, hold⟩
    · exact hdone (hnew.symm.trans hv)
    · exact (hs v (hold.symm.trans hv)).imp (le_trans · hnext) (Or.imp hfailed hfallback)
  cases h with
  | stops hat hflag => exact hkept .done rfl le_rfl id id fun _ => .inr hflag
  | goes hat => exact hkept .claim rfl le_rfl id id nofun
  | passes hat hlast =>
    exact hkept .done rfl (Nat.le_succ _) id id fun _ => .inl (Nat.le_succ_of_le hlast)
  | claims hat => exact hkept (.look s.next) rfl (Nat.le_succ _) id id nofun
  | skips hat hbit => exact hkept .check rfl le_rfl id id nofun
  | begins hat hplan => exact hkept (.fetching _) rfl le_rfl id id nofun
  | fetches hat hstep => exact hkept (.fetching _) rfl le_rfl id id nofun
  | settles hat hset => exact hkept .check rfl le_rfl id id nofun
  | fallsBack hat => exact hkept .check rfl le_rfl id (fun _ => rfl) nofun
  | fails hat => exact hkept .check rfl le_rfl (fun _ => rfl) id nofun
  | panics hat => exact hkept .panicked rfl le_rfl id id nofun

/-- What holds in every state of a run. -/
structure Standing (job : Job) (held : Nat → Prop) (s : Pool workers) : Prop where
  stored : Stored job held s
  orderly : s.claiming.Orderly job.plan.length
  stops : StopsRightly job s

theorem standing_start {held : Nat → Prop} {bitmap : Bytes}
    (h : ∀ i p, bitGet bitmap i = some true → InChunk job.plan i p → held p) :
    Standing job held (start workers bitmap) :=
  ⟨stored_start h, Claiming.orderly_start rfl (fun _ => rfl) rfl, nofun⟩

theorem Standing.step {held : Nat → Prop} (hs : Standing job held s)
    (hplan : ∀ (i : Nat) (c : Nat × Nat), job.plan[i]? = some c → c.1 ≤ c.2)
    (h : Step job s s') : Standing job held s' := by
  obtain ⟨w, input, hstep⟩ := h
  have hmoves := moves_of_step hstep
  exact ⟨hs.stored.moves hplan hmoves, hs.orderly.step (claiming_moves hs.stored hmoves),
    hs.stops.moves hmoves⟩

theorem Standing.run {held : Nat → Prop} (hs : Standing job held s)
    (hplan : ∀ (i : Nat) (c : Nat × Nat), job.plan[i]? = some c → c.1 ≤ c.2)
    (h : Relation.ReflTransGen (Step job) s s') : Standing job held s' := by
  induction h with
  | refl => exact hs
  | tail _ hstep ih => exact ih.step hplan hstep

/-- A run ends well when every worker is done and nobody gave up. -/
theorem result_ok (h : s.result = some (.ok ())) :
    (∀ v, s.worker v = .done) ∧ s.failed = none ∧ s.fallback = false := by
  unfold result at h
  by_cases hended : ∀ v, (s.worker v).Ended
  · by_cases hpanicked : ∃ v, s.worker v = .panicked
    · simp [hended, hpanicked] at h
    · rw [if_pos hended, if_neg hpanicked] at h
      cases hfallback : s.fallback <;> cases hfailed : s.failed <;>
        simp [hfallback, hfailed] at h
      refine ⟨fun v => ?_, rfl, rfl⟩
      have hv := hended v
      cases hat : s.worker v with
      | done => rfl
      | panicked => exact absurd ⟨v, hat⟩ hpanicked
      | check | claim | look | fetching =>
        rw [hat] at hv
        exact hv.elim
  · rw [if_neg hended] at h
    cases h

/-- If the run ends well, all bits are set. -/
theorem Standing.all_set {held : Nat → Prop} (hs : Standing job held s) (hpos : 0 < workers)
    (h : s.result = some (.ok ())) : ∀ i, i < job.plan.length → bitGet s.bitmap i = some true := by
  obtain ⟨hends, hfailed, hfallback⟩ := result_ok h
  have hclean : ¬(s.failed.isSome = true ∨ s.fallback = true) := by simp [hfailed, hfallback]
  have hnext := (hs.stops ⟨0, hpos⟩ (hends _)).resolve_right hclean
  refine hs.orderly.all_settled hnext (fun v => ?_) ?_
  · show (s.worker v).chunk = none
    rw [hends v]
    rfl
  · rintro (h | h | ⟨v, hv⟩)
    · exact hclean (.inl h)
    · exact hclean (.inr h)
    · exact absurd ((hends v).symm.trans hv) nofun

end Pool

/-- Every byte of the resource was held before, or was written from a 206 to a request for the bytes
from where its range starts, with the total of the resource. -/
def Complete {workers : Nat} (total : Nat) (held : Nat → Prop) (events : List (Event workers)) :
    Prop :=
  ∀ p, p < total → held p ∨ ∃ w put, .fetch w (.put put) ∈ events ∧ put.Has p ∧
    put.head.status = 206 ∧ put.head.range.start = put.requested ∧
    put.head.range.total = some total

/-- The workers of a plan, in any order of their steps and whatever the server answers: a chunk is
fetched by one worker at most, writes of different chunks never touch the same offset, a saved bit
means that its chunk is in the store, and only a complete download ends well. `held` are the offsets
that were written before. -/
theorem runChunks_complete {opts : DownloadOptions} {job : Job} (htotal : job.total ≤ maxWord)
    (hplan : chunkPlan opts job.total = some (job.chunkKey, job.plan)) {held : Nat → Prop}
    {bitmap : Bytes}
    (hheld : ∀ i p, bitGet bitmap i = some true → InChunk job.plan i p → held p)
    {s : Pool job.workerCount} (h : Pool.Reached job bitmap s) :
    (∀ w w' i first last first' last', .fetch w (.asked i first last) ∈ s.events →
      .fetch w' (.asked i first' last') ∈ s.events → w = w') ∧
    (∀ w w' put put' p, .fetch w (.put put) ∈ s.events → .fetch w' (.put put') ∈ s.events →
      put.chunk ≠ put'.chunk → ¬(put.Has p ∧ put'.Has p)) ∧
    (∀ before state after, s.events = before ++ .saved state :: after →
      ∀ i p, bitGet state.bitmap i = some true → InChunk job.plan i p →
        held p ∨ Pool.Written before p) ∧
    (s.result = some (.ok ()) → Complete job.total held s.events) := by
  have hcovers := covers_chunkPlan htotal hplan
  have hs := (Pool.standing_start hheld).run (fun i c hc => (hcovers.bounds i c hc).1) h
  refine ⟨?_, ?_, hs.stored.saved, ?_⟩
  · intro w w' i first last first' last' hw hw'
    exact hs.orderly.once w w' i (List.mem_filterMap.mpr ⟨_, hw, rfl⟩)
      (List.mem_filterMap.mpr ⟨_, hw', rfl⟩)
  · rintro w w' put put' p hput hput' hne ⟨hp, hp'⟩
    obtain ⟨start, last, hchunk, hlow, hhigh⟩ := (hs.stored.puts w put hput).inside
    obtain ⟨start', last', hchunk', hlow', hhigh'⟩ := (hs.stored.puts w' put' hput').inside
    obtain ⟨hpl, hph⟩ := hp
    obtain ⟨hpl', hph'⟩ := hp'
    exact hne (hcovers.disjoint put.chunk put'.chunk p
      ⟨start, last, hchunk, by omega, by omega⟩ ⟨start', last', hchunk', by omega, by omega⟩)
  · intro hresult p hp
    obtain ⟨i, hi⟩ := hcovers.covered p hp
    obtain ⟨start, last, hchunk, -⟩ := id hi
    have hlt : i < job.plan.length := (List.getElem?_eq_some_iff.mp hchunk).1
    have hbit := hs.all_set job.workerCount_pos hresult i hlt
    refine (hs.stored.bitmap i p hbit hi).imp_right ?_
    rintro ⟨w, put, hput, hhas⟩
    obtain ⟨-, hstatus, hstart, htotal'⟩ := hs.stored.puts w put hput
    exact ⟨w, put, hput, hhas, hstatus, hstart, htotal'⟩

/-- Three bytes in two chunks. -/
def smallJob : Job :=
  { plan := [(0, 1), (2, 2)], total := 3, chunkKey := planKey [(0, 1), (2, 2)],
    validators := .none, maxRetries := 0, parallelism := 1, lowSpeed := none }

theorem runChunks_complete_small : ∃ s : Pool smallJob.workerCount,
    s.result = some (.ok ()) ∧ Complete 3 (fun _ => False) s.events := by
  let w : Fin smallJob.workerCount := ⟨0, smallJob.workerCount_pos⟩
  let part (range : String) (bytes : Bytes) : List (Fin smallJob.workerCount × Input) :=
    [(w, .go), (w, .go), (w, .go),
      (w, .answer (.reply (.response 206 "Partial Content" (some range)))),
      (w, .answer (.flow (.data bytes .stored))), (w, .answer (.flow .ended)), (w, .go)]
  have hrun : ((Pool.start smallJob.workerCount [0]).run smallJob (part "bytes 0-1/3" [1, 2] ++
      part "bytes 2-2/3" [3] ++ [(w, .go), (w, .go)])).map Pool.result = some (some (.ok ())) := by
    decide
  obtain ⟨s, hs, hresult⟩ := Option.map_eq_some_iff.mp hrun
  have hplan : chunkPlan ⟨0, some 2, none, 1, none, none, none⟩ 3 =
      some (smallJob.chunkKey, smallJob.plan) := by decide
  have hheld (i p : Nat) (hbit : bitGet [0] i = some true) :
      InChunk smallJob.plan i p → False := by
    rintro ⟨start, last, hchunk, -⟩
    have hi : i < 2 := (List.getElem?_eq_some_iff.mp hchunk).1
    interval_cases i <;> exact absurd hbit (by decide)
  exact ⟨s, hresult, (@runChunks_complete _ smallJob (by decide) hplan _ _ hheld _
    (Pool.run_steps hs)).2.2.2 hresult⟩

end Rsurl.Download
