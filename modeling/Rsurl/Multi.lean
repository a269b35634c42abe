import Mathlib

/-!
# Concurrent transfers

`Multi`: transfers are added, started on worker threads of their own, and collected off the channel
that the workers post to. A worker posts whenever it likes; what a caller sees of that is what has
arrived when it next looks at the channel, and a script says so, one batch for every look. Each
transfer is in one place at any time, and comes back at most once.
-/

namespace Rsurl

abbrev EasyId := Nat

/-- Requests are `ρ` and results `κ`. -/
structure Multi (ρ κ : Type*) where
  nextId : Nat
  pending : List (EasyId × ρ)
  /-- The workers that have not posted yet. -/
  executing : List (EasyId × ρ)
  /-- What has been posted and not been received. -/
  channel : List (EasyId × κ)
  /-- The workers that have not been joined. -/
  workers : List EasyId
  running : Nat
  ready : List (EasyId × κ)

/-- What is posted before each look at the channel. -/
abbrev Script (κ : Type*) := List (List (EasyId × κ))

/-- Why a call does not return: the script ends before, or it panics. -/
inductive Stop where
  | unfinished
  | panicked
  deriving DecidableEq, Repr

def ids {β : Type*} (xs : List (EasyId × β)) : List EasyId := xs.map Prod.fst

namespace Multi

variable {ρ κ : Type*}

def new : Multi ρ κ := ⟨0, [], [], [], [], 0, []⟩

def add (m : Multi ρ κ) (req : ρ) : EasyId × Multi ρ κ :=
  (m.nextId, { m with nextId := m.nextId + 1, pending := m.pending ++ [(m.nextId, req)] })

def remove (m : Multi ρ κ) (id : EasyId) : Bool × Multi ρ κ :=
  if id ∈ ids m.pending then (true, { m with pending := m.pending.eraseP fun p => p.1 = id })
  else (false, m)

/-- A worker posts its completion; nobody else can. -/
def post (m : Multi ρ κ) (c : EasyId × κ) : Multi ρ κ :=
  if c.1 ∈ ids m.executing then
    { m with executing := m.executing.eraseP fun p => p.1 = c.1, channel := m.channel ++ [c] }
  else m

def posts (m : Multi ρ κ) (batch : List (EasyId × κ)) : Multi ρ κ := batch.foldl post m

/-- A completion has been received: its worker is joined. -/
def collect (m : Multi ρ κ) (c : EasyId × κ) (rest : List (EasyId × κ)) :
    Except Stop (Multi ρ κ) :=
  -- `self.running -= 1`
  if m.running = 0 then .error .panicked
  else .ok { m with
    channel := rest, workers := m.workers.erase c.1, running := m.running - 1,
    ready := m.ready ++ [c] }

def drainReady : Script κ → Multi ρ κ → Except Stop (Multi ρ κ × Script κ)
  | [], _ => .error .unfinished
  | batch :: script, m =>
    match (m.posts batch).channel with
    | [] => .ok (m.posts batch, script)
    | c :: rest =>
      match (m.posts batch).collect c rest with
      | .error e => .error e
      | .ok m => drainReady script m

/-- A worker for every pending transfer. -/
def spawn (m : Multi ρ κ) : Multi ρ κ :=
  { m with
    pending := [], executing := m.executing ++ m.pending, workers := m.workers ++ ids m.pending,
    running := m.running + m.pending.length }

def perform (m : Multi ρ κ) (script : Script κ) : Except Stop (Nat × Multi ρ κ × Script κ) :=
  match drainReady script m.spawn with
  | .error e => .error e
  | .ok (m, script) => .ok (m.running, m, script)

/-- The wait of `poll` for a completion; without a timeout it takes as long as it takes. -/
def receive (timed : Bool) : Script κ → Multi ρ κ → Except Stop (Bool × Multi ρ κ × Script κ)
  | [], _ => .error .unfinished
  | batch :: script, m =>
    match (m.posts batch).channel with
    | [] => if timed then .ok (false, m.posts batch, script) else .error .unfinished
    | c :: rest =>
      match (m.posts batch).collect c rest with
      | .error e => .error e
      | .ok m =>
        match drainReady script m with
        | .error e => .error e
        | .ok (m, script) => .ok (true, m, script)

def poll (m : Multi ρ κ) (timed : Bool) (script : Script κ) :
    Except Stop (Bool × Multi ρ κ × Script κ) :=
  match drainReady script m with
  | .error e => .error e
  | .ok (m, script) =>
    if m.ready ≠ [] then .ok (true, m, script)
    else if m.running = 0 then .ok (false, m, script)
    else receive timed script m

def nextCompleted (m : Multi ρ κ) (script : Script κ) :
    Except Stop (Option (EasyId × κ) × Multi ρ κ × Script κ) :=
  match drainReady script m with
  | .error e => .error e
  | .ok (m, script) =>
    match m.ready with
    | [] => .ok (none, m, script)
    | c :: rest => .ok (some c, { m with ready := rest }, script)

/-- The loop of `wait_all`, which has collected `out`. -/
def waitLoop : Nat → Script κ → Multi ρ κ → List (EasyId × κ) →
    Except Stop (List (EasyId × κ) × Multi ρ κ × Script κ)
  | 0, _, _, _ => .error .unfinished
  | fuel + 1, script, m, out =>
    match m.nextCompleted script with
    | .error e => .error e
    | .ok (some c, m, script) => waitLoop fuel script m (out ++ [c])
    | .ok (none, m, script) =>
      if m.running = 0 then .ok (out, m, script)
      else match m.poll false script with
        | .error e => .error e
        | .ok (_, m, script) => waitLoop fuel script m out

/-- Every turn looks at the channel, so there are no more turns than looks. -/
def waitAll (m : Multi ρ κ) (script : Script κ) :
    Except Stop (List (EasyId × κ) × Multi ρ κ × Script κ) :=
  match m.perform script with
  | .error e => .error e
  | .ok (_, m, script) => waitLoop (script.length + 1) script m []

/-! ## Calls -/

inductive Call (ρ : Type*) where
  | add (req : ρ)
  | remove (id : EasyId)
  | perform
  | poll (timed : Bool)
  | nextCompleted
  | waitAll

inductive Reply (κ : Type*) where
  | added (id : EasyId)
  | removed (id : EasyId) (was : Bool)
  | running (n : Nat)
  | polled (ready : Bool)
  | completed (c : Option (EasyId × κ))
  | all (cs : List (EasyId × κ))
  deriving DecidableEq

def call (m : Multi ρ κ) (script : Script κ) : Call ρ → Except Stop (Reply κ × Multi ρ κ)
  | .add req => .ok (.added (m.add req).1, (m.add req).2)
  | .remove id => .ok (.removed id (m.remove id).1, (m.remove id).2)
  | .perform => (m.perform script).map fun (n, m, _) => (.running n, m)
  | .poll timed => (m.poll timed script).map fun (b, m, _) => (.polled b, m)
  | .nextCompleted => (m.nextCompleted script).map fun (c, m, _) => (.completed c, m)
  | .waitAll => (m.waitAll script).map fun (cs, m, _) => (.all cs, m)

/-- Calls one after the other, each with what arrives while it runs. -/
def run : Multi ρ κ → List (Call ρ × Script κ) → Except Stop (List (Reply κ) × Multi ρ κ)
  | m, [] => .ok ([], m)
  | m, (c, script) :: calls =>
    match m.call script c with
    | .error e => .error e
    | .ok (reply, m) => (run m calls).map fun (replies, m) => (reply :: replies, m)

end Multi

/-! ## Where transfers are -/

theorem ids_eraseP {β : Type*} (xs : List (EasyId × β)) (id : EasyId) :
    ids (xs.eraseP fun p => p.1 = id) = (ids xs).erase id := by
  induction xs with
  | nil => rfl
  | cons x xs ih =>
    by_cases hx : x.1 = id
    · simp [ids, hx]
    · simpa [ids, List.eraseP_cons, hx] using ih

@[simp] theorem ids_append {β : Type*} (xs ys : List (EasyId × β)) :
    ids (xs ++ ys) = ids xs ++ ids ys := List.map_append

@[simp] theorem ids_cons {β : Type*} (x : EasyId × β) (xs : List (EasyId × β)) :
    ids (x :: xs) = x.1 :: ids xs := rfl

@[simp] theorem ids_nil {β : Type*} : ids ([] : List (EasyId × β)) = [] := rfl

/-- How often a number is left in a list from which it has been taken once. -/
theorem count_erase_add {xs : List EasyId} {x : EasyId} (h : x ∈ xs) (id : EasyId) :
    (xs.erase x).count id + [x].count id = xs.count id := by
  rw [← List.count_append, (List.perm_append_comm.trans (List.perm_cons_erase h).symm).count_eq]

namespace Multi

variable {ρ κ : Type*}

/-- Started and not collected. -/
def started (m : Multi ρ κ) : List EasyId := ids m.executing ++ ids m.channel

/-- All transfers that the caller has neither got back nor removed. -/
def places (m : Multi ρ κ) : List EasyId := ids m.pending ++ m.started ++ ids m.ready

/-- What is counted is what there is. -/
structure Sound (m : Multi ρ κ) : Prop where
  running : m.running = m.started.length
  workers : ∀ id, m.workers.count id = m.started.count id

/-- From `m` to `m'` transfers have moved on, and `out` have gone. -/
structure Yields (m : Multi ρ κ) (out : List EasyId) (m' : Multi ρ κ) : Prop where
  sound : m.Sound → m'.Sound
  nextId : m'.nextId = m.nextId
  pending : ∀ id ∈ ids m'.pending, id ∈ ids m.pending
  places : ∀ id, m'.places.count id + out.count id = m.places.count id

theorem Yields.refl (m : Multi ρ κ) : Yields m [] m := ⟨id, rfl, fun _ => id, fun _ => rfl⟩

theorem Yields.trans {m m' m'' : Multi ρ κ} {out out' : List EasyId} (h : Yields m out m')
    (h' : Yields m' out' m'') : Yields m (out ++ out') m'' where
  sound := h'.sound ∘ h.sound
  nextId := h'.nextId.trans h.nextId
  pending id hid := h.pending id (h'.pending id hid)
  places id := by
    have := h.places id
    have := h'.places id
    rw [List.count_append]
    omega

theorem sound_new : (new : Multi ρ κ).Sound := ⟨rfl, fun _ => rfl⟩

/-! ## What the operations do -/

theorem count_started_post (m : Multi ρ κ) (c : EasyId × κ) (id : EasyId) :
    (m.post c).started.count id = m.started.count id := by
  unfold post
  split
  · rename_i hmem
    have := count_erase_add hmem id
    simp only [started, ids_eraseP, ids_append, ids_cons, ids_nil, List.count_append] at this ⊢
    omega
  · rfl

theorem yields_post (m : Multi ρ κ) (c : EasyId × κ) : Yields m [] (m.post c) := by
  have hcount := count_started_post m c
  have hlength : (m.post c).started.length = m.started.length :=
    (List.perm_iff_count.mpr hcount).length_eq
  have hrest : (m.post c).nextId = m.nextId ∧ (m.post c).pending = m.pending ∧
      (m.post c).ready = m.ready ∧ (m.post c).running = m.running ∧
      (m.post c).workers = m.workers := by
    unfold post
    split <;> exact ⟨rfl, rfl, rfl, rfl, rfl⟩
  obtain ⟨hnext, hpending, hready, hrunning, hworkers⟩ := hrest
  refine ⟨fun hs => ⟨?_, fun id => ?_⟩, hnext, fun id => ?_, fun id => ?_⟩
  · rw [hrunning, hlength, hs.running]
  · rw [hworkers, hcount, hs.workers]
  · rw [hpending]
    exact fun h => h
  · simp only [places, hpending, hready, List.count_append, hcount, List.count_nil, Nat.add_zero]

theorem yields_posts (m : Multi ρ κ) (batch : List (EasyId × κ)) : Yields m [] (m.posts batch) := by
  induction batch generalizing m with
  | nil => exact .refl m
  | cons c batch ih => exact (yields_post m c).trans (ih (m.post c))

/-- A completion that is in the channel is collected without underflow. -/
theorem collect_spec {m : Multi ρ κ} {c : EasyId × κ} {rest : List (EasyId × κ)} (hs : m.Sound)
    (hchannel : m.channel = c :: rest) : ∃ m', m.collect c rest = .ok m' ∧ Yields m [] m' := by
  have hstarted (id : EasyId) : m.started.count id =
      (ids m.executing ++ ids rest).count id + [c.1].count id := by
    simp only [started, hchannel, ids_cons, List.count_append, List.count_cons, List.count_nil]
    omega
  have hlength : m.running = (ids m.executing ++ ids rest).length + 1 := by
    rw [hs.running, started, hchannel]
    simp [Nat.add_assoc]
  have hworker : c.1 ∈ m.workers := by
    rw [← List.count_pos_iff, hs.workers, hstarted]
    simp
  refine ⟨_, if_neg (by omega), fun _ => ⟨?_, fun id => ?_⟩, rfl, fun _ => id, fun id => ?_⟩
  · simp only [started]
    omega
  · have := count_erase_add hworker id
    rw [hs.workers, hstarted] at this
    simp only [started]
    omega
  · have := hstarted id
    simp only [places, started, ids_append, ids_cons, ids_nil, List.count_append,
      List.count_nil] at this ⊢
    omega

/-- A drain ends with an empty channel, unless the script ends before. -/
theorem drainReady_spec (script : Script κ) (m : Multi ρ κ) (hs : m.Sound) :
    drainReady script m = .error .unfinished ∨
      ∃ m' script', drainReady script m = .ok (m', script') ∧ Yields m [] m' ∧ m'.channel = [] := by
  induction script generalizing m with
  | nil => exact .inl rfl
  | cons batch script ih =>
    have hposts := yields_posts m batch
    rw [drainReady]
    cases hchannel : (m.posts batch).channel with
    | nil => exact .inr ⟨_, _, rfl, hposts, hchannel⟩
    | cons c rest =>
      obtain ⟨m₁, hcollect, hyields⟩ := collect_spec (hposts.sound hs) hchannel
      have hs₁ := hyields.sound (hposts.sound hs)
      simp only [hcollect]
      rcases ih m₁ hs₁ with hstop | ⟨m', script', hdrain, hyields', hempty⟩
      · exact .inl hstop
      · exact .inr ⟨m', script', hdrain, (hposts.trans hyields).trans hyields', hempty⟩

theorem yields_spawn (m : Multi ρ κ) : Yields m [] m.spawn := by
  have hcount (id : EasyId) :
      m.spawn.started.count id = m.started.count id + (ids m.pending).count id := by
    simp only [started, spawn, ids_append, List.count_append]
    omega
  refine ⟨fun hs => ⟨?_, fun id => ?_⟩, rfl, nofun, fun id => ?_⟩
  · have := hs.running
    simp only [started, spawn, ids, List.length_append, List.length_map] at this ⊢
    omega
  · rw [hcount, ← hs.workers]
    exact List.count_append
  · have := hcount id
    simp only [places, List.count_append, List.count_nil]
    simp only [spawn, ids_nil, List.count_nil] at this ⊢
    omega

/-- What holds of every way a call can return. -/
def Returns {α : Type*} (r : Except Stop α) (Q : α → Prop) : Prop :=
  r = .error .unfinished ∨ ∃ a, r = .ok a ∧ Q a

theorem perform_spec (m : Multi ρ κ) (script : Script κ) (hs : m.Sound) :
    Returns (m.perform script) fun r => Yields m [] r.2.1 ∧ r.2.1.pending = [] := by
  have hspawn := yields_spawn m
  unfold perform
  rcases drainReady_spec script m.spawn (hspawn.sound hs) with hstop |
    ⟨m', script', hdrain, hyields, -⟩
  · rw [hstop]
    exact .inl rfl
  · rw [hdrain]
    have hnone : m'.pending = [] :=
      List.map_eq_nil_iff.mp (List.eq_nil_iff_forall_not_mem.mpr fun id hid =>
        List.not_mem_nil (hyields.pending id hid))
    exact .inr ⟨_, rfl, hspawn.trans hyields, hnone⟩

theorem receive_spec (timed : Bool) (m : Multi ρ κ) (script : Script κ) (hs : m.Sound) :
    Returns (m.receive timed script) fun r => Yields m [] r.2.1 := by
  cases script with
  | nil => exact .inl rfl
  | cons batch script =>
    have hposts := yields_posts m batch
    rw [receive]
    cases hchannel : (m.posts batch).channel with
    | nil =>
      cases timed with
      | false => exact .inl rfl
      | true => exact .inr ⟨_, rfl, hposts⟩
    | cons c rest =>
      obtain ⟨m₁, hcollect, hyields⟩ := collect_spec (hposts.sound hs) hchannel
      have hs₁ := hyields.sound (hposts.sound hs)
      simp only [hcollect]
      rcases drainReady_spec script m₁ hs₁ with hstop | ⟨m', script', hdrain, hyields', -⟩
      · rw [hstop]
        exact .inl rfl
      · rw [hdrain]
        exact .inr ⟨_, rfl, (hposts.trans hyields).trans hyields'⟩

theorem poll_spec (m : Multi ρ κ) (timed : Bool) (script : Script κ) (hs : m.Sound) :
    Returns (m.poll timed script) fun r => Yields m [] r.2.1 := by
  unfold poll
  rcases drainReady_spec script m hs with hstop | ⟨m', script', hdrain, hyields, -⟩
  · rw [hstop]
    exact .inl rfl
  · rw [hdrain]
    simp only
    split_ifs
    · exact .inr ⟨_, rfl, hyields⟩
    · exact .inr ⟨_, rfl, hyields⟩
    · rcases receive_spec timed m' script' (hyields.sound hs) with hstop | ⟨r, hr, hyields'⟩
      · exact .inl hstop
      · exact .inr ⟨r, hr, hyields.trans hyields'⟩

theorem nextCompleted_spec (m : Multi ρ κ) (script : Script κ) (hs : m.Sound) :
    Returns (m.nextCompleted script) fun r =>
      Yields m (ids r.1.toList) r.2.1 ∧ r.2.1.channel = [] ∧ (r.1 = none → r.2.1.ready = []) := by
  unfold nextCompleted
  rcases drainReady_spec script m hs with hstop | ⟨m', script', hdrain, hyields, hempty⟩
  · rw [hstop]
    exact .inl rfl
  · rw [hdrain]
    cases hready : m'.ready with
    | nil =>
      simp only [hready]
      exact .inr ⟨_, rfl, hyields, hempty, fun _ => hready⟩
    | cons c rest =>
      simp only [hready]
      have hpop : Yields m' [c.1] { m' with ready := rest } := by
        refine ⟨fun hs => ⟨hs.running, hs.workers⟩, rfl, fun _ => id, fun id => ?_⟩
        simp only [places, hready, ids_cons, List.count_append, List.count_cons, List.count_nil,
          started]
        omega
      exact .inr ⟨_, rfl, hyields.trans hpop, hempty, nofun⟩

/-- `wait_all` returns with nothing started and nothing ready. -/
theorem waitLoop_spec (fuel : Nat) (script : Script κ) (m : Multi ρ κ) (out : List (EasyId × κ))
    (hs : m.Sound) :
    Returns (waitLoop fuel script m out) fun r =>
      ∃ more, r.1 = out ++ more ∧ Yields m (ids more) r.2.1 ∧ r.2.1.started = [] ∧
        r.2.1.ready = [] := by
  induction fuel generalizing script m out with
  | zero => exact .inl rfl
  | succ fuel ih =>
    rw [waitLoop]
    rcases nextCompleted_spec m script hs with hstop | ⟨⟨c, m₁, script₁⟩, hnext, hyields, hempty, hlast⟩
    · rw [hstop]
      exact .inl rfl
    · rw [hnext]
      have hs₁ := hyields.sound hs
      cases c with
      | some c =>
        rcases ih script₁ m₁ (out ++ [c]) hs₁ with hstop | ⟨r, hr, more, hout, hyields', hrest⟩
        · exact .inl hstop
        · refine .inr ⟨r, hr, c :: more, ?_, hyields.trans hyields', hrest⟩
          rw [hout, List.append_assoc]
          rfl
      | none =>
        simp only
        split_ifs with hzero
        · have hnone : m₁.started = [] :=
            List.eq_nil_of_length_eq_zero (hs₁.running.symm.trans hzero)
          exact .inr ⟨_, rfl, [], (List.append_nil out).symm, hyields, hnone, hlast rfl⟩
        · rcases poll_spec m₁ false script₁ hs₁ with hstop | ⟨⟨b, m₂, script₂⟩, hpoll, hyields₂⟩
          · rw [hstop]
            exact .inl rfl
          · rw [hpoll]
            rcases ih script₂ m₂ out (hyields₂.sound hs₁) with hstop |
              ⟨r, hr, more, hout, hyields', hrest⟩
            · exact .inl hstop
            · exact .inr ⟨r, hr, more, hout, (hyields.trans hyields₂).trans hyields', hrest⟩

theorem waitAll_spec (m : Multi ρ κ) (script : Script κ) (hs : m.Sound) :
    Returns (m.waitAll script) fun r =>
      Yields m (ids r.1) r.2.1 ∧ r.2.1.pending = [] ∧ r.2.1.started = [] ∧ r.2.1.ready = [] := by
  unfold waitAll
  rcases perform_spec m script hs with hstop | ⟨⟨n, m₁, script₁⟩, hperform, hyields, hnone⟩
  · rw [hstop]
    exact .inl rfl
  · rw [hperform]
    rcases waitLoop_spec (script₁.length + 1) script₁ m₁ [] (hyields.sound hs) with hstop |
      ⟨r, hr, more, hout, hyields', hstarted, hready⟩
    · exact .inl hstop
    · have hpending : r.2.1.pending = [] :=
        List.map_eq_nil_iff.mp (List.eq_nil_iff_forall_not_mem.mpr fun id hid => by
          have := hyields'.pending id hid
          rw [hnone] at this
          exact List.not_mem_nil this)
      refine .inr ⟨r, hr, ?_, hpending, hstarted, hready⟩
      rw [hout]
      exact hyields.trans hyields'

end Multi

namespace Multi

variable {ρ κ : Type*}

/-! ## Runs -/

namespace Reply

def addedIds : Reply κ → List EasyId
  | .added id => [id]
  | _ => []

def removedIds : Reply κ → List EasyId
  | .removed id true => [id]
  | _ => []

/-- What the caller has got back. -/
def returnedIds : Reply κ → List EasyId
  | .completed c => ids c.toList
  | .all cs => ids cs
  | _ => []

end Reply

/-- What a call does to the transfers, and what it says of them. -/
structure Answers (m : Multi ρ κ) (reply : Reply κ) (m' : Multi ρ κ) : Prop where
  sound : m.Sound → m'.Sound
  added : reply.addedIds = List.range' m.nextId (m'.nextId - m.nextId) ∧ m.nextId ≤ m'.nextId
  removed : ∀ id ∈ reply.removedIds, id ∈ ids m.pending
  pending : ∀ id ∈ ids m'.pending, id ∈ ids m.pending ∨ id ∈ reply.addedIds
  places : ∀ id, m'.places.count id + reply.returnedIds.count id + reply.removedIds.count id =
    m.places.count id + reply.addedIds.count id

theorem Yields.answers {m m' : Multi ρ κ} {reply : Reply κ} (h : Yields m reply.returnedIds m')
    (hadded : reply.addedIds = []) (hremoved : reply.removedIds = []) : Answers m reply m' where
  sound := h.sound
  added := by simp [hadded, h.nextId]
  removed := by simp [hremoved]
  pending id hid := .inl (h.pending id hid)
  places id := by simpa [hadded, hremoved] using h.places id

theorem answers_add (m : Multi ρ κ) (req : ρ) : Answers m (.added (m.add req).1) (m.add req).2 := by
  refine ⟨fun hs => ⟨hs.running, hs.workers⟩, ⟨?_, Nat.le_succ _⟩, nofun, fun id hid => ?_,
    fun id => ?_⟩
  · simp [add, Reply.addedIds]
  · simpa [add, Reply.addedIds] using hid
  · simp only [add, Reply.addedIds, Reply.returnedIds, Reply.removedIds, places, started,
      ids_append, ids_cons, ids_nil, List.count_append, List.count_nil]
    omega

theorem answers_remove (m : Multi ρ κ) (id : EasyId) :
    Answers m (.removed id (m.remove id).1) (m.remove id).2 := by
  by_cases hmem : id ∈ ids m.pending
  · have hremove : m.remove id =
        (true, { m with pending := m.pending.eraseP fun p => p.1 = id }) := if_pos hmem
    rw [hremove]
    refine ⟨fun hs => ⟨hs.running, hs.workers⟩, ⟨by simp [Reply.addedIds], le_rfl⟩,
      fun id' hid => ?_, fun id' hid => ?_, fun id' => ?_⟩
    · rw [List.mem_singleton.mp hid]
      exact hmem
    · simp only [ids_eraseP] at hid
      exact .inl (List.mem_of_mem_erase hid)
    · have := count_erase_add hmem id'
      simp only [Reply.addedIds, Reply.returnedIds, Reply.removedIds, places, started, ids_eraseP,
        List.count_append, List.count_nil] at this ⊢
      omega
  · have hremove : m.remove id = (false, m) := if_neg hmem
    rw [hremove]
    exact (Yields.refl m).answers rfl rfl

theorem Returns.map {α β : Type*} {r : Except Stop α} {Q : α → Prop} {P : β → Prop} {f : α → β}
    (h : Returns r Q) (hf : ∀ a, Q a → P (f a)) : Returns (r.map f) P := by
  rcases h with rfl | ⟨a, rfl, hQ⟩
  · exact .inl rfl
  · exact .inr ⟨f a, rfl, hf a hQ⟩

/-- A call returns, if it does, with every transfer accounted for. -/
theorem call_spec (m : Multi ρ κ) (script : Script κ) (c : Call ρ) (hs : m.Sound) :
    Returns (m.call script c) fun r => Answers m r.1 r.2 := by
  cases c with
  | add req => exact .inr ⟨_, rfl, answers_add m req⟩
  | remove id => exact .inr ⟨_, rfl, answers_remove m id⟩
  | perform => exact (perform_spec m script hs).map fun r hr => hr.1.answers rfl rfl
  | poll timed => exact (poll_spec m timed script hs).map fun r hr => hr.answers rfl rfl
  | nextCompleted => exact (nextCompleted_spec m script hs).map fun r hr => hr.1.answers rfl rfl
  | waitAll => exact (waitAll_spec m script hs).map fun r hr => hr.1.answers rfl rfl

/-- What a run does to the transfers. -/
structure Accounts (m : Multi ρ κ) (replies : List (Reply κ)) (m' : Multi ρ κ) : Prop where
  sound : m'.Sound
  added : replies.flatMap Reply.addedIds = List.range' m.nextId (m'.nextId - m.nextId) ∧
    m.nextId ≤ m'.nextId
  places : ∀ id, m'.places.count id + (replies.flatMap Reply.returnedIds).count id +
    (replies.flatMap Reply.removedIds).count id =
      m.places.count id + (replies.flatMap Reply.addedIds).count id
  /-- What is no longer pending is not removed any more. -/
  settled : ∀ id < m.nextId, id ∉ ids m.pending →
    id ∉ ids m'.pending ∧ id ∉ replies.flatMap Reply.removedIds

theorem run_spec (calls : List (Call ρ × Script κ)) (m : Multi ρ κ) (hs : m.Sound) :
    Returns (run m calls) fun r => Accounts m r.1 r.2 := by
  induction calls generalizing m with
  | nil => exact .inr ⟨_, rfl, hs, ⟨by simp, le_rfl⟩, fun _ => by simp, fun id _ hid => ⟨hid, by simp⟩⟩
  | cons c calls ih =>
    obtain ⟨c, script⟩ := c
    rw [run]
    rcases call_spec m script c hs with hstop | ⟨⟨reply, m₁⟩, hcall, hanswers⟩
    · rw [hstop]
      exact .inl rfl
    · rw [hcall]
      refine (ih m₁ (hanswers.sound hs)).map fun ⟨replies, m'⟩ h => ?_
      obtain ⟨hadded, hle⟩ := hanswers.added
      obtain ⟨hadded', hle'⟩ := h.added
      simp only at hadded hle hadded' hle'
      refine ⟨h.sound, ⟨?_, hle.trans hle'⟩, fun id => ?_, fun id hid hnot => ?_⟩
      · rw [List.flatMap_cons, hadded, hadded']
        have hsplit := List.range'_append_1 (s := m.nextId) (m := m₁.nextId - m.nextId)
          (n := m'.nextId - m₁.nextId)
        have hfirst : m.nextId + (m₁.nextId - m.nextId) = m₁.nextId := by omega
        have hall : m₁.nextId - m.nextId + (m'.nextId - m₁.nextId) = m'.nextId - m.nextId := by
          omega
        rwa [hfirst, hall] at hsplit
      · have hone := hanswers.places id
        have hrest := h.places id
        simp only [List.flatMap_cons, List.count_append] at hone hrest ⊢
        omega
      · have hout : id ∉ reply.addedIds := by
          rw [hadded, List.mem_range'_1]
          omega
        have hnot' : id ∉ ids m₁.pending := fun hmem =>
          (hanswers.pending id hmem).elim hnot hout
        obtain ⟨hpending, hremoved⟩ := h.settled id (by omega) hnot'
        refine ⟨hpending, ?_⟩
        rw [List.flatMap_cons, List.mem_append]
        exact fun hmem => hmem.elim (fun hmem => hnot (hanswers.removed id hmem)) hremoved

theorem run_append {a b : List (Call ρ × Script κ)} {m m' : Multi ρ κ} {replies : List (Reply κ)}
    (h : run m (a ++ b) = .ok (replies, m')) :
    ∃ first mid rest, run m a = .ok (first, mid) ∧ run mid b = .ok (rest, m') ∧
      replies = first ++ rest := by
  induction a generalizing m replies with
  | nil => exact ⟨[], m, replies, rfl, h, rfl⟩
  | cons c a ih =>
    obtain ⟨c, script⟩ := c
    rw [List.cons_append, run] at h
    cases hcall : m.call script c with
    | error e => simp [hcall] at h
    | ok r =>
      obtain ⟨reply, m₁⟩ := r
      simp only [hcall] at h
      cases hrest : run m₁ (a ++ b) with
      | error e => simp [hrest, Except.map] at h
      | ok r =>
        obtain ⟨replies', m''⟩ := r
        rw [hrest] at h
        cases h
        obtain ⟨first, mid, rest, hfirst, hlast, rfl⟩ := ih hrest
        refine ⟨reply :: first, mid, rest, ?_, hlast, rfl⟩
        rw [run]
        simp only [hcall, hfirst]
        rfl

/-- A run that begins with nothing. -/
theorem accounts_new {calls : List (Call ρ × Script κ)} {replies : List (Reply κ)} {m : Multi ρ κ}
    (h : run new calls = .ok (replies, m)) : Accounts new replies m := by
  rcases run_spec calls new sound_new with hstop | ⟨r, hr, haccounts⟩
  · rw [h] at hstop
    cases hstop
  · rw [h] at hr
    cases hr
    exact haccounts

theorem run_waitAll {m m' : Multi ρ κ} {script : Script κ} {replies : List (Reply κ)}
    (hs : m.Sound) (h : run m [(.waitAll, script)] = .ok (replies, m')) :
    m'.pending = [] ∧ m'.started = [] ∧ m'.ready = [] := by
  rw [run, call] at h
  rcases waitAll_spec m script hs with hstop | ⟨⟨cs, m₁, script₁⟩, hwait, -, hnone⟩
  · simp [hstop, Except.map] at h
  · simp only [hwait, Except.map, run] at h
    cases h
    exact hnone

/-- Transfers are conserved: for every sequence of calls, and in whatever order the workers post
while they run, no decrement underflows, every transfer that was added is in exactly one place and
came back at most once, `running` counts those that are started, `remove` says whether it was
pending, and `wait_all` returns when there is nothing left, with everything that was started. -/
theorem multi_conserves (calls : List (Call ρ × Script κ)) :
    run new calls ≠ .error .panicked ∧
    ∀ replies m, run new calls = .ok (replies, m) →
      replies.flatMap Reply.addedIds = List.range m.nextId ∧
      (∀ id, (ids m.pending).count id + m.started.count id + (ids m.ready).count id +
        (replies.flatMap Reply.returnedIds).count id + (replies.flatMap Reply.removedIds).count id =
          if id < m.nextId then 1 else 0) ∧
      m.running = m.started.length ∧
      (∀ id script replies' m', run new (calls ++ [(.remove id, script)]) = .ok (replies', m') →
        replies' = replies ++ [.removed id (decide (id ∈ ids m.pending))]) ∧
      (∀ script replies' m', run new (calls ++ [(.waitAll, script)]) = .ok (replies', m') →
        m'.pending = [] ∧ m'.started = [] ∧ m'.ready = []) ∧
      ∀ more id script replies' m', id ∈ m.started →
        run new (calls ++ more ++ [(.waitAll, script)]) = .ok (replies', m') →
          (replies'.flatMap Reply.returnedIds).count id = 1 := by
  -- where each transfer is, after any run
  have hplaces {calls : List (Call ρ × Script κ)} {replies : List (Reply κ)} {m : Multi ρ κ}
      (h : run new calls = .ok (replies, m)) :
      replies.flatMap Reply.addedIds = List.range m.nextId ∧ ∀ id, (ids m.pending).count id +
        m.started.count id + (ids m.ready).count id + (replies.flatMap Reply.returnedIds).count id +
          (replies.flatMap Reply.removedIds).count id = if id < m.nextId then 1 else 0 := by
    have hadded : replies.flatMap Reply.addedIds = List.range m.nextId := by
      rw [(accounts_new h).added.1, List.range_eq_range']
      rfl
    refine ⟨hadded, fun id => ?_⟩
    have hcount := (accounts_new h).places id
    rw [hadded, List.Nodup.count List.nodup_range] at hcount
    simp only [List.mem_range, places, List.count_append, new, ids_nil, started,
      List.count_nil] at hcount ⊢
    omega
  refine ⟨fun hpanic => ?_, fun replies m h => ⟨(hplaces h).1, (hplaces h).2,
    (accounts_new h).sound.running, ?_, ?_, ?_⟩⟩
  · rcases run_spec calls new sound_new with hstop | ⟨r, hr, -⟩
    · cases hpanic.symm.trans hstop
    · cases hpanic.symm.trans hr
  · intro id script replies' m' hremove
    obtain ⟨first, mid, rest, hfirst, hrest, rfl⟩ := run_append hremove
    rw [h] at hfirst
    cases hfirst
    cases hrest
    by_cases hmem : id ∈ ids m.pending <;> simp [Multi.remove, hmem]
  · intro script replies' m' hwait
    obtain ⟨first, mid, rest, hfirst, hrest, rfl⟩ := run_append hwait
    rw [h] at hfirst
    cases hfirst
    exact run_waitAll (accounts_new h).sound hrest
  · intro more id script replies' m' hstarted hwait
    obtain ⟨before, mid, rest, hbefore, hrest, -⟩ := run_append hwait
    obtain ⟨hpending, hstarted', hready⟩ := run_waitAll (accounts_new hbefore).sound hrest
    have hend := (hplaces hwait).2 id
    rw [List.append_assoc] at hwait
    obtain ⟨first, m₁, later, hfirst, hlater, rfl⟩ := run_append hwait
    rw [h] at hfirst
    cases hfirst
    -- it was not pending when it was started, so it has not been removed, before or after
    have hnow := (hplaces h).2 id
    have hcount : 0 < m.started.count id := List.count_pos_iff.mpr hstarted
    have hlt : id < m.nextId := by
      by_contra hge
      rw [if_neg hge] at hnow
      omega
    rw [if_pos hlt] at hnow
    have hnot : id ∉ ids m.pending := fun hmem => by
      have := List.count_pos_iff.mpr hmem
      omega
    have hlaterAccounts : Accounts m later m' := by
      rcases run_spec _ m (accounts_new h).sound with hstop | ⟨r, hr, haccounts⟩
      · rw [hlater] at hstop
        cases hstop
      · rw [hlater] at hr
        cases hr
        exact haccounts
    have hgone := List.count_eq_zero.mpr (hlaterAccounts.settled id hlt hnot).2
    rw [if_pos (hlt.trans_le hlaterAccounts.added.2)] at hend
    simp only [hpending, hstarted', hready, ids_nil, List.count_nil, List.flatMap_append,
      List.count_append] at hend ⊢
    omega

theorem multi_conserves_one : ∃ (replies : List (Reply Nat)) (m : Multi Unit Nat),
    run new [(.add (), []), (.perform, [[]]), (.nextCompleted, [[(0, 7)], []])] =
      .ok (replies, m) ∧ m.running = m.started.length :=
  ⟨[.added 0, .running 1, .completed (some (0, 7))], _, rfl,
    ((multi_conserves [(.add (), []), (.perform, [[]]), (.nextCompleted, [[(0, 7)], []])]).2
      _ _ rfl).2.2.1⟩

end Multi

end Rsurl
