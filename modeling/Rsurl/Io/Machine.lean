import Rsurl.Error
import Rsurl.Library.Loop

/-!
# Machines and their driver

A protocol without I/O, and the blocking loop that pumps it: send what the machine wants to send,
relay its events, read. A turn of the loop here is one call of the machine or of the socket, so
that a run can be looked at between any two of them; a machine that never stops asking for calls
makes a run without end.
-/

namespace Rsurl.Io

open Library
open Library.Loop (Turn)

/-- A protocol as a pure state machine. -/
class Machine (M : Type) (Event : outParam Type) where
  /-- Take some of the bytes that came in, and say how many. -/
  handleInput : M → Bytes → Outcome M Nat
  handleEof : M → Outcome M Unit
  /-- The bytes to send; none when there is nothing to send. -/
  pollTransmit : M → Bytes × M
  pollEvent : M → Option (Event × M)
  isFinished : M → Bool

export Machine (handleInput handleEof pollTransmit pollEvent isFinished)

/-- What the reads and writes of a connection come to, one after the other. -/
structure Socket where
  /-- No bytes are the end of the stream. -/
  read : Nat → Except (IoErrorKind × String) Bytes
  write : Nat → Option (IoErrorKind × String)

/-- A connection that takes everything, and over which these pieces arrive before it ends. -/
def Socket.scripted (pieces : List Bytes) : Socket where
  read k := .ok (pieces.getD k [])
  write _ := none

/-- The bytes of the first reads, if each of them gave some. -/
def Socket.firstReads (sock : Socket) : Nat → Option Bytes
  | 0 => some []
  | k + 1 => match sock.firstReads k, sock.read k with
    | some before, .ok (b :: bytes) => some (before ++ b :: bytes)
    | _, _ => none

theorem Socket.firstReads_mono {sock : Socket} {j k : Nat} {before bytes : Bytes}
    (hj : sock.firstReads j = some before) (hle : j ≤ k) (hk : sock.firstReads k = some bytes) :
    ∃ more, bytes = before ++ more := by
  induction hle generalizing bytes with
  | refl =>
    rw [hj] at hk
    cases hk
    exact ⟨[], (List.append_nil _).symm⟩
  | @step k _ ih =>
    unfold firstReads at hk
    split at hk
    · rename_i before' b more hbefore hread
      cases hk
      obtain ⟨more', rfl⟩ := ih hbefore
      exact ⟨more' ++ b :: more, List.append_assoc _ _ _⟩
    · cases hk

variable {M C Event : Type} [Machine M Event]

/-- Offer `pending` until the machine stops taking; every offer but the last takes a byte. -/
def feedFrom : Nat → M → Bytes → Outcome M Bytes
  | 0, m, pending => .ok pending m
  | fuel + 1, m, pending =>
    if pending.isEmpty then .ok pending m
    else (handleInput m pending).andThen fun taken m =>
      let used := min taken pending.length
      if used = 0 then .ok pending m else feedFrom fuel m (pending.drop used)

def feed (m : M) (pending : Bytes) : Outcome M Bytes := feedFrom pending.length m pending

@[simp] theorem feedFrom_nil (fuel : Nat) (m : M) : feedFrom fuel m [] = .ok [] m := by
  cases fuel <;> rfl

/-- What every offer keeps, all of them keep. -/
theorem feed_keeps {P : M → Prop} (hinput : ∀ m wire, P m → P (handleInput m wire).state)
    {m : M} (hm : P m) (pending : Bytes) : P (feed m pending).state := by
  have hfrom (fuel : Nat) (m : M) (pending : Bytes) (hm : P m) :
      P (feedFrom fuel m pending).state := by
    induction fuel generalizing m pending with
    | zero => exact hm
    | succ fuel ih =>
      have hnext := hinput m pending hm
      unfold feedFrom
      split
      · exact hm
      · cases hcall : handleInput m pending with
        | error e m' =>
          rw [hcall] at hnext
          exact hnext
        | ok taken m' =>
          rw [hcall] at hnext
          simp only [Outcome.andThen]
          split
          · exact hnext
          · exact ih m' _ hnext
  exact hfrom _ m pending hm

/-- It is an offer that fails. -/
theorem feed_error {m m' : M} {pending : Bytes} {e : Error} (h : feed m pending = .error e m') :
    ∃ m₀ wire, handleInput m₀ wire = .error e m' := by
  have hfrom (fuel : Nat) (m : M) (pending : Bytes) (h : feedFrom fuel m pending = .error e m') :
      ∃ m₀ wire, handleInput m₀ wire = .error e m' := by
    induction fuel generalizing m pending with
    | zero => cases h
    | succ fuel ih =>
      unfold feedFrom at h
      split at h
      · cases h
      · rcases Outcome.andThen_eq_error.mp h with hcall | ⟨taken, m₁, -, hrest⟩
        · exact ⟨m, pending, hcall⟩
        · simp only at hrest
          split at hrest
          · cases hrest
          · exact ih _ _ hrest
  exact hfrom _ m pending h

inductive Phase where
  | flush
  | relay
  deriving DecidableEq, Repr

structure Driver (M C Event : Type) where
  machine : M
  /-- What the caller makes of the events. -/
  caller : C
  phase : Phase
  /-- Bytes of this round to be sent. -/
  out : Bytes
  /-- Input that the machine has not taken yet. -/
  pending : Bytes
  eofSeen : Bool
  reads : Nat
  writes : Nat
  received : Bytes
  sent : Bytes
  relayed : List Event

namespace Driver

def start (machine : M) (caller : C) : Driver M C Event where
  machine
  caller
  phase := .flush
  out := []
  pending := []
  eofSeen := false
  reads := 0
  writes := 0
  received := []
  sent := []
  relayed := []

variable (sock : Socket) (onEvent : Event → C → Except Error C)

/-- Write what this round has to send. -/
def send (d : Driver M C Event) : Turn (Driver M C Event) (Outcome (Driver M C Event) Unit) :=
  if d.out.isEmpty then .next { d with phase := .relay }
  else match sock.write d.writes with
    | some (kind, msg) => .done (.error (.io kind msg) d)
    | none => .next { d with
      phase := .relay, out := [], writes := d.writes + 1, sent := d.sent ++ d.out }

/-- A read that is out of time is reported as such, however the system calls it. -/
def readError (kind : IoErrorKind) (msg : String) : Error :=
  if kind = .wouldBlock ∨ kind = .timedOut then .io .timedOut "read timed out" else .io kind msg

/-- Read, and hand what came to the machine. -/
def receive (d : Driver M C Event) : Turn (Driver M C Event) (Outcome (Driver M C Event) Unit) :=
  match sock.read d.reads with
  | .error (kind, msg) => .done (.error (readError kind msg) d)
  | .ok [] => match handleEof d.machine with
    | .error e machine => .done (.error e { d with machine, eofSeen := true, reads := d.reads + 1 })
    | .ok () machine => .next { d with
      machine, eofSeen := true, reads := d.reads + 1, phase := .flush }
  | .ok bytes => match feed d.machine (d.pending ++ bytes) with
    | .error e machine => .done (.error e { d with
      machine, reads := d.reads + 1, received := d.received ++ bytes })
    | .ok pending machine => .next { d with
      machine, pending, reads := d.reads + 1, received := d.received ++ bytes, phase := .flush }

def turn (d : Driver M C Event) : Turn (Driver M C Event) (Outcome (Driver M C Event) Unit) :=
  match d.phase with
  | .flush =>
    let (bytes, machine) := pollTransmit d.machine
    if bytes.isEmpty then send sock { d with machine }
    else .next { d with machine, out := d.out ++ bytes }
  | .relay => match pollEvent d.machine with
    | some (ev, machine) => match onEvent ev d.caller with
      | .error e => .done (.error e { d with machine, relayed := d.relayed ++ [ev] })
      | .ok caller => .next { d with machine, caller, relayed := d.relayed ++ [ev] }
    | none =>
      if isFinished d.machine then .done (.ok () d)
      else if d.eofSeen then .done (.error .unexpectedEof d)
      else receive sock d

/-- Drive a machine for at most `fuel` turns (`drive_streaming_observed`). -/
def drive (fuel : Nat) (d : Driver M C Event) : Option (Outcome (Driver M C Event) Unit) :=
  Loop.iterate (turn sock onEvent) fuel d

/-! ## One turn -/

variable {sock : Socket} {onEvent : Event → C → Except Error C}

/-- What a turn that goes on does. -/
inductive Step (sock : Socket) (onEvent : Event → C → Except Error C) (d : Driver M C Event) :
    Driver M C Event → Prop where
  | transmit {bytes : Bytes} {machine : M} (hphase : d.phase = .flush)
      (hpoll : pollTransmit d.machine = (bytes, machine)) (hsome : bytes ≠ []) :
      Step sock onEvent d { d with machine, out := d.out ++ bytes }
  | idle {machine : M} (hphase : d.phase = .flush)
      (hpoll : pollTransmit d.machine = ([], machine)) (hout : d.out = []) :
      Step sock onEvent d { d with machine, phase := .relay }
  | write {machine : M} (hphase : d.phase = .flush)
      (hpoll : pollTransmit d.machine = ([], machine)) (hout : d.out ≠ [])
      (hwrite : sock.write d.writes = none) :
      Step sock onEvent d { d with
        machine, phase := .relay, out := [], writes := d.writes + 1, sent := d.sent ++ d.out }
  | event {ev : Event} {machine : M} {caller : C} (hphase : d.phase = .relay)
      (hpoll : pollEvent d.machine = some (ev, machine)) (hcaller : onEvent ev d.caller = .ok caller) :
      Step sock onEvent d { d with machine, caller, relayed := d.relayed ++ [ev] }
  | eof {machine : M} (hphase : d.phase = .relay) (hpoll : pollEvent d.machine = none)
      (hopen : isFinished d.machine = false) (hfirst : d.eofSeen = false)
      (hread : sock.read d.reads = .ok []) (heof : handleEof d.machine = .ok () machine) :
      Step sock onEvent d { d with
        machine, eofSeen := true, reads := d.reads + 1, phase := .flush }
  | input {bytes pending : Bytes} {machine : M} (hphase : d.phase = .relay)
      (hpoll : pollEvent d.machine = none) (hopen : isFinished d.machine = false)
      (hfirst : d.eofSeen = false) (hread : sock.read d.reads = .ok bytes) (hsome : bytes ≠ [])
      (hfeed : feed d.machine (d.pending ++ bytes) = .ok pending machine) :
      Step sock onEvent d { d with
        machine, pending, reads := d.reads + 1, received := d.received ++ bytes, phase := .flush }

/-- How a run ends. -/
inductive End (sock : Socket) (onEvent : Event → C → Except Error C) (d : Driver M C Event) :
    Outcome (Driver M C Event) Unit → Prop where
  | write {machine : M} {kind : IoErrorKind} {msg : String} (hphase : d.phase = .flush)
      (hpoll : pollTransmit d.machine = ([], machine)) (hout : d.out ≠ [])
      (hwrite : sock.write d.writes = some (kind, msg)) :
      End sock onEvent d (.error (.io kind msg) { d with machine })
  | caller {ev : Event} {machine : M} {e : Error} (hphase : d.phase = .relay)
      (hpoll : pollEvent d.machine = some (ev, machine)) (hcaller : onEvent ev d.caller = .error e) :
      End sock onEvent d (.error e { d with machine, relayed := d.relayed ++ [ev] })
  | finished (hphase : d.phase = .relay) (hpoll : pollEvent d.machine = none)
      (hfinished : isFinished d.machine = true) : End sock onEvent d (.ok () d)
  | closed (hphase : d.phase = .relay) (hpoll : pollEvent d.machine = none)
      (hopen : isFinished d.machine = false) (hsecond : d.eofSeen = true) :
      End sock onEvent d (.error .unexpectedEof d)
  | read {kind : IoErrorKind} {msg : String} (hphase : d.phase = .relay)
      (hpoll : pollEvent d.machine = none) (hopen : isFinished d.machine = false)
      (hfirst : d.eofSeen = false) (hread : sock.read d.reads = .error (kind, msg)) :
      End sock onEvent d (.error (readError kind msg) d)
  | eof {machine : M} {e : Error} (hphase : d.phase = .relay) (hpoll : pollEvent d.machine = none)
      (hopen : isFinished d.machine = false) (hfirst : d.eofSeen = false)
      (hread : sock.read d.reads = .ok []) (heof : handleEof d.machine = .error e machine) :
      End sock onEvent d (.error e { d with machine, eofSeen := true, reads := d.reads + 1 })
  | input {bytes : Bytes} {machine : M} {e : Error} (hphase : d.phase = .relay)
      (hpoll : pollEvent d.machine = none) (hopen : isFinished d.machine = false)
      (hfirst : d.eofSeen = false) (hread : sock.read d.reads = .ok bytes) (hsome : bytes ≠ [])
      (hfeed : feed d.machine (d.pending ++ bytes) = .error e machine) :
      End sock onEvent d (.error e { d with
        machine, reads := d.reads + 1, received := d.received ++ bytes })

/-- A turn is a step or an end. -/
theorem turn_cases (d : Driver M C Event) :
    (∃ d', turn sock onEvent d = .next d' ∧ Step sock onEvent d d') ∨
      ∃ r, turn sock onEvent d = .done r ∧ End sock onEvent d r := by
  unfold turn
  split <;> rename_i hphase
  · -- the flush
    rcases hpoll : pollTransmit d.machine with ⟨bytes, machine⟩
    simp only
    split
    · rename_i hempty
      cases List.isEmpty_iff.mp hempty
      unfold send
      split
      · rename_i hout
        exact .inl ⟨_, rfl, .idle hphase hpoll (List.isEmpty_iff.mp hout)⟩
      · rename_i hout
        have hout' : d.out ≠ [] := fun h => hout (List.isEmpty_iff.mpr h)
        split
        · rename_i hwrite
          exact .inr ⟨_, rfl, .write hphase hpoll hout' hwrite⟩
        · rename_i hwrite
          exact .inl ⟨_, rfl, .write hphase hpoll hout' hwrite⟩
    · rename_i hsome
      exact .inl ⟨_, rfl, .transmit hphase hpoll fun h => hsome (List.isEmpty_iff.mpr h)⟩
  · -- the events, and then the read
    split
    · rename_i hpoll
      split
      · rename_i hcaller
        exact .inr ⟨_, rfl, .caller hphase hpoll hcaller⟩
      · rename_i hcaller
        exact .inl ⟨_, rfl, .event hphase hpoll hcaller⟩
    · rename_i hpoll
      split
      · rename_i hfinished
        exact .inr ⟨_, rfl, .finished hphase hpoll hfinished⟩
      · rename_i hopen
        have hopen' := Bool.eq_false_iff.mpr hopen
        split
        · rename_i hsecond
          exact .inr ⟨_, rfl, .closed hphase hpoll hopen' hsecond⟩
        · rename_i hfirst
          have hfirst' := Bool.eq_false_iff.mpr hfirst
          unfold receive
          split
          · rename_i hread
            exact .inr ⟨_, rfl, .read hphase hpoll hopen' hfirst' hread⟩
          · rename_i hread
            split
            · rename_i heof
              exact .inr ⟨_, rfl, .eof hphase hpoll hopen' hfirst' hread heof⟩
            · rename_i heof
              exact .inl ⟨_, rfl, .eof hphase hpoll hopen' hfirst' hread heof⟩
          · rename_i bytes hsome hread
            have hsome' : bytes ≠ [] := hsome
            split
            · rename_i hfeed
              exact .inr ⟨_, rfl, .input hphase hpoll hopen' hfirst' hread hsome' hfeed⟩
            · rename_i hfeed
              exact .inl ⟨_, rfl, .input hphase hpoll hopen' hfirst' hread hsome' hfeed⟩

theorem turn_next {d d' : Driver M C Event} (h : turn sock onEvent d = .next d') :
    Step sock onEvent d d' := by
  rcases @turn_cases _ _ _ _ sock onEvent d with ⟨d'', hd, hstep⟩ | ⟨r, hd, -⟩
  · rw [hd] at h
    cases h
    exact hstep
  · rw [hd] at h
    cases h

theorem turn_done {d : Driver M C Event} {r : Outcome (Driver M C Event) Unit}
    (h : turn sock onEvent d = .done r) : End sock onEvent d r := by
  rcases @turn_cases _ _ _ _ sock onEvent d with ⟨d', hd, -⟩ | ⟨r', hd, hend⟩
  · rw [hd] at h
    cases h
  · rw [hd] at h
    cases h
    exact hend

/-- What the steps keep holds where a run ends. -/
theorem drive_rule {I : Driver M C Event → Prop} {fuel : Nat} {d : Driver M C Event}
    {r : Outcome (Driver M C Event) Unit} (h : drive sock onEvent fuel d = some r) (hd : I d)
    (hstep : ∀ d d', I d → Step sock onEvent d d' → I d') :
    ∃ last, I last ∧ End sock onEvent last r := by
  obtain ⟨last, hlast, hdone⟩ := Loop.iterate_rule h hd fun d d' hd ht => hstep d d' hd (turn_next ht)
  exact ⟨last, hlast, turn_done hdone⟩

/-- The states at the start of the turns. -/
def trail (sock : Socket) (onEvent : Event → C → Except Error C) (fuel : Nat)
    (d : Driver M C Event) : List (Driver M C Event) := Loop.trail (turn sock onEvent) fuel d

/-- Where a run ends is on its way, with what the steps on that way kept. -/
theorem drive_trail {I : Driver M C Event → Prop} {fuel : Nat} {d : Driver M C Event}
    {r : Outcome (Driver M C Event) Unit} (h : drive sock onEvent fuel d = some r) (hd : I d)
    (hstep : ∀ t ∈ trail sock onEvent fuel d, ∀ t', I t → Step sock onEvent t t' → I t') :
    ∃ last ∈ trail sock onEvent fuel d, I last ∧ turn sock onEvent last = .done r :=
  Loop.iterate_trail h hd fun t ht hI t' hnext => hstep t ht t' hI (turn_next hnext)

end Driver

/-! ## Emptying the send queue -/

/-- A machine that has something to send for a while only. -/
class Drains (M : Type) {Event : outParam Type} [Machine M Event] where
  queued : M → Nat
  poll_lowers : ∀ (m : M) (bytes : Bytes) (m' : M),
    pollTransmit m = (bytes, m') → bytes ≠ [] → queued m' < queued m

section

variable [Drains M]

def pollTurn (s : Bytes × M) : Turn (Bytes × M) (Bytes × M) :=
  let (bytes, m) := pollTransmit s.2
  if bytes.isEmpty then .done (s.1, m) else .next (s.1 ++ bytes, m)

theorem pollTurn_lowers : Loop.Lowers (pollTurn (M := M)) fun s => Drains.queued s.2 := by
  intro s s' h
  unfold pollTurn at h
  rcases hpoll : pollTransmit s.2 with ⟨bytes, m⟩
  simp only [hpoll] at h
  split at h
  · cases h
  · rename_i hsome
    cases h
    exact Drains.poll_lowers _ _ _ hpoll fun hnil => hsome (List.isEmpty_iff.mpr hnil)

/-- All there is to send. -/
def pollAll (m : M) : Bytes × M := Loop.run pollTurn _ pollTurn_lowers ([], m)

end

end Rsurl.Io
