import Rsurl.WebSocket.Transport

/-!
# Concurrent writers of a WebSocket connection

The writer, the reader with its pongs and its close echo, and a keepalive thread write frames over
one transport. Each goes through the steps of `write_unless_closed`, of `write_close` or of the
bare `write_all` and `flush` of an automatic pong, and the steps of the three interleave. What one
of them does while it holds the write lock is one step.
-/

namespace Rsurl.WebSocket.Interleaving

/-! ## The steps -/

inductive Party where
  | writer
  | reader
  | keepalive
  deriving DecidableEq, Repr

/-- How a frame is written: by `write_unless_closed`, by `write_close`, or as an automatic pong. -/
inductive Path where
  | unlessClosed
  | close
  | pong
  deriving DecidableEq, Repr

/-- An automatic pong does not take `close_gate`. -/
def Path.gated : Path → Bool
  | unlessClosed | close => true
  | pong => false

/-- How far a party is with a frame. -/
inductive Phase where
  /-- Not writing. -/
  | idle
  /-- In `write_all`, before it looks at `broken`. -/
  | entered (path : Path) (frame : Bytes)
  /-- `broken` was not set, and the write lock is next. -/
  | usable (path : Path) (frame : Bytes)
  /-- The write or the flush has failed, and `broken` is to be set; `partway` if some but not all
  of the frame was written. -/
  | failed (path : Path) (partway : Bool)
  /-- The frame was written, and `flush` has not looked at `broken` yet. -/
  | written (path : Path)
  /-- `broken` was not set, and the flush is next. -/
  | flushing (path : Path)
  /-- The keepalive thread has returned. -/
  | stopped
  deriving DecidableEq, Repr

/-- What the parties share, and how far each of them is. -/
structure Shared where
  wire : Bytes
  broken : Bool
  sendClosed : Bool
  gate : Option Party
  phase : Party → Phase

def Shared.init : Shared := ⟨[], false, false, none, fun _ => .idle⟩

inductive Action where
  /-- Take `close_gate`, unless for a pong, and look at `send_closed`. -/
  | enter (p : Party) (path : Path) (f : Frame) (m : Mask)
  /-- `check_not_broken` -/
  | check (p : Party)
  /-- Take the write lock and write so many bytes: the whole frame, or fewer if it fails. -/
  | write (p : Party) (n : Nat)
  | flush (p : Party) (ok : Bool)
  | setBroken (p : Party)

def Action.party : Action → Party
  | enter p _ _ _ | check p | write p _ | flush p _ | setBroken p => p

/-- The frames a party writes that way. -/
def Party.Writes : Party → Path → Frame → Prop
  | writer, .unlessClosed, f => f.opcode ≤ 0x0f ∧ f.payload.length < 2 ^ 63
  | writer, .close, f | reader, .close, f =>
    f.opcode = opcodeClose ∧ f.payload.length ≤ maxControlPayload
  | reader, .pong, f => f.opcode = opcodePong ∧ f.payload.length ≤ maxControlPayload
  | keepalive, .unlessClosed, f => f = ⟨true, false, opcodePing, []⟩
  | _, _, _ => False

instance (p : Party) (path : Path) (f : Frame) : Decidable (p.Writes path f) := by
  cases p <;> cases path <;> unfold Party.Writes <;> infer_instance

namespace Shared

def goto (s : Shared) (p : Party) (phase : Phase) : Shared :=
  { s with phase := Function.update s.phase p phase }

/-- A call returns; the keepalive thread goes on only if it was sent. -/
def leave (s : Shared) (p : Party) (sent : Bool) : Shared :=
  s.goto p (if p = .keepalive ∧ sent = false then .stopped else .idle)

/-- The gate is released when the call that holds it returns. -/
def release (s : Shared) (path : Path) : Shared :=
  { s with gate := if path.gated then none else s.gate }

end Shared

/-- One step of one party, if it can take it. -/
def step (s : Shared) : Action → Option Shared
  | .enter p path f m =>
    if s.phase p ≠ .idle ∨ ¬p.Writes path f ∨ (path.gated ∧ s.gate ≠ none) then none
    else
      let entered := s.goto p (.entered path (maskedFrame f m))
      match path with
      | .pong => some entered
      | .unlessClosed =>
        if s.sendClosed then some (s.leave p false) else some { entered with gate := some p }
      | .close =>
        if s.sendClosed then some (s.leave p true)
        else some { entered with gate := some p, sendClosed := true }
  | .check p =>
    match s.phase p with
    | .entered path frame =>
      if s.broken then some ((s.leave p false).release path)
      else some (s.goto p (.usable path frame))
    | .written path =>
      if s.broken then some ((s.leave p false).release path) else some (s.goto p (.flushing path))
    | _ => none
  | .write p n =>
    match s.phase p with
    | .usable path frame =>
      if n < frame.length then
        some { s.goto p (.failed path (0 < n)) with wire := s.wire ++ frame.take n }
      else if n = frame.length then
        some { s.goto p (.written path) with wire := s.wire ++ frame }
      else none
    | _ => none
  | .flush p ok =>
    match s.phase p with
    | .flushing path =>
      if ok then some ((s.leave p true).release path) else some (s.goto p (.failed path false))
    | _ => none
  | .setBroken p =>
    match s.phase p with
    | .failed path _ => some { (s.leave p false).release path with broken := true }
    | _ => none

/-- The steps of any of the parties. -/
def Step (s s' : Shared) : Prop := ∃ a, step s a = some s'

/-! ## The wire -/

/-- The bytes of a frame. -/
def IsFrame (b : Bytes) : Prop :=
  ∃ f m, f.opcode ≤ 0x0f ∧ f.payload.length < 2 ^ 63 ∧ b = maskedFrame f m

/-- Whole frames and nothing else. -/
def AtBoundary (wire : Bytes) : Prop :=
  ∃ frames : List Bytes, (∀ b ∈ frames, IsFrame b) ∧ wire = frames.flatten

/-- Whole frames, and after them at most a strict prefix of a frame. -/
def Intact (wire : Bytes) : Prop :=
  ∃ (frames : List Bytes) (tail : Bytes), (∀ b ∈ frames, IsFrame b) ∧
    (tail = [] ∨ ∃ b, IsFrame b ∧ tail <+: b ∧ tail ≠ b) ∧ wire = frames.flatten ++ tail

theorem AtBoundary.intact {wire : Bytes} (h : AtBoundary wire) : Intact wire := by
  obtain ⟨frames, hframes, rfl⟩ := h
  exact ⟨frames, [], hframes, .inl rfl, (List.append_nil _).symm⟩

theorem AtBoundary.append {wire b : Bytes} (h : AtBoundary wire) (hb : IsFrame b) :
    AtBoundary (wire ++ b) := by
  obtain ⟨frames, hframes, rfl⟩ := h
  refine ⟨frames ++ [b], ?_, by simp⟩
  intro c hc
  rcases List.mem_append.mp hc with hc | hc
  · exact hframes c hc
  · exact List.mem_singleton.mp hc ▸ hb

theorem AtBoundary.intact_append_take {wire b : Bytes} (h : AtBoundary wire) (hb : IsFrame b)
    {n : Nat} (hn : n < b.length) : Intact (wire ++ b.take n) := by
  obtain ⟨frames, hframes, rfl⟩ := h
  refine ⟨frames, b.take n, hframes, .inr ⟨b, hb, List.take_prefix n b, ?_⟩, rfl⟩
  intro heq
  have := congrArg List.length heq
  rw [List.length_take] at this
  omega

theorem Party.Writes.isFrame {p : Party} {path : Path} {f : Frame} (h : p.Writes path f)
    (m : Mask) : IsFrame (maskedFrame f m) := by
  refine ⟨f, m, ?_, ?_, rfl⟩ <;>
    cases p <;> cases path <;> simp only [Writes, maxControlPayload] at h
  · exact h.1
  · exact h.1 ▸ by decide
  · exact h.1 ▸ by decide
  · exact h.1 ▸ by decide
  · exact h ▸ by decide
  · exact h.2
  · omega
  · omega
  · omega
  · exact h ▸ by decide

/-! ## What a step does -/

namespace Shared

/-- The party has seen that the connection is usable and is about to write. -/
def Usable (s : Shared) (p : Party) : Prop := ∃ path frame, s.phase p = .usable path frame

/-- The party's write has failed partway, and it has not set `broken` yet. -/
def Torn (s : Shared) (p : Party) : Prop := ∃ path, s.phase p = .failed path true

end Shared

/-- A phase in which nothing is about to be written and no write has failed partway. -/
def Phase.Quiet : Phase → Prop
  | usable _ _ | failed _ true => False
  | entered _ frame => IsFrame frame
  | _ => True

/-- The path of the frame that is being written. -/
def Phase.path : Phase → Option Path
  | idle | stopped => none
  | entered path _ | usable path _ | failed path _ | written path | flushing path => some path

/-- The steps, by what they do to the party that takes them. -/
inductive Moves (s : Shared) : Action → Shared → Prop
  | refused {p : Party} {path : Path} {f : Frame} {m : Mask} (hidle : s.phase p = .idle)
    (sent : Bool) : Moves s (.enter p path f m) (s.leave p sent)
  | entered {p : Party} {path : Path} {f : Frame} {m : Mask} (hidle : s.phase p = .idle)
    (hwrites : p.Writes path f) (hgate : path.gated = true → s.gate = none) (sendClosed : Bool) :
    Moves s (.enter p path f m)
      { s.goto p (.entered path (maskedFrame f m)) with
        gate := if path.gated then some p else s.gate, sendClosed := sendClosed }
  | returned {a : Action} {path : Path} (hpath : (s.phase a.party).path = some path)
    (sent broken : Bool) (hbroken : s.broken = true ∨ s.Torn a.party → broken = true) :
    Moves s a { (s.leave a.party sent).release path with broken := broken }
  | checked {p : Party} {path : Path} {frame : Bytes} (hphase : s.phase p = .entered path frame)
    (hbroken : s.broken = false) : Moves s (.check p) (s.goto p (.usable path frame))
  | flushes {p : Party} {path : Path} (hphase : s.phase p = .written path) :
    Moves s (.check p) (s.goto p (.flushing path))
  | fails {p : Party} {n : Nat} {path : Path} {frame : Bytes}
    (hphase : s.phase p = .usable path frame) (hn : n < frame.length) :
    Moves s (.write p n)
      { s.goto p (.failed path (0 < n)) with wire := s.wire ++ frame.take n }
  | whole {p : Party} {n : Nat} {path : Path} {frame : Bytes}
    (hphase : s.phase p = .usable path frame) :
    Moves s (.write p n) { s.goto p (.written path) with wire := s.wire ++ frame }
  | unflushed {p : Party} {ok : Bool} {path : Path} (hphase : s.phase p = .flushing path) :
    Moves s (.flush p ok) (s.goto p (.failed path false))

theorem not_torn {s : Shared} {p : Party} {phase : Phase} (h : s.phase p = phase)
    (hphase : ∀ path, phase ≠ .failed path true) : ¬s.Torn p := by
  rintro ⟨path, ht⟩
  exact hphase path (h.symm.trans ht)

theorem moves_of_step {s s' : Shared} {a : Action} (h : step s a = some s') : Moves s a s' := by
  cases a with
  | enter p path f m =>
    simp only [step] at h
    by_cases hcan : s.phase p ≠ .idle ∨ ¬p.Writes path f ∨ (path.gated ∧ s.gate ≠ none)
    · rw [if_pos hcan] at h
      cases h
    rw [if_neg hcan] at h
    simp only [not_or, not_not, not_and] at hcan
    obtain ⟨hidle, hwrites, hgate⟩ := hcan
    cases path with
    | pong =>
      cases h
      exact .entered hidle hwrites hgate s.sendClosed
    | unlessClosed =>
      dsimp only at h
      split_ifs at h <;> cases h
      · exact .refused hidle false
      · exact .entered hidle hwrites hgate s.sendClosed
    | close =>
      dsimp only at h
      split_ifs at h <;> cases h
      · exact .refused hidle true
      · exact .entered hidle hwrites hgate true
  | check p =>
    simp only [step] at h
    split at h
    · rename_i path frame hphase
      split_ifs at h with hb <;> cases h
      · exact .returned (a := .check p) (by rw [Action.party, hphase]; rfl) false s.broken fun _ => hb
      · exact .checked hphase (by simpa using hb)
    · rename_i path hphase
      split_ifs at h with hb <;> cases h
      · exact .returned (a := .check p) (by rw [Action.party, hphase]; rfl) false s.broken fun _ => hb
      · exact .flushes hphase
    · cases h
  | write p n =>
    simp only [step] at h
    split at h
    · rename_i path frame hphase
      split_ifs at h with hlt heq <;> cases h
      · exact .fails hphase hlt
      · exact .whole hphase
    · cases h
  | flush p ok =>
    simp only [step] at h
    split at h
    · rename_i path hphase
      split_ifs at h <;> cases h
      · exact .returned (a := .flush p _) (by rw [Action.party, hphase]; rfl) true s.broken
          fun hb => hb.resolve_right (not_torn hphase (by simp))
      · exact .unflushed hphase
    · cases h
  | setBroken p =>
    simp only [step] at h
    split at h
    · rename_i path partway hphase
      cases h
      exact .returned (a := .setBroken p) (by rw [Action.party, hphase]; rfl) false true fun _ => rfl
    · cases h

@[simp] theorem phase_goto_self (s : Shared) (p : Party) (phase : Phase) :
    (s.goto p phase).phase p = phase := Function.update_self ..

theorem phase_goto_ne (s : Shared) {p q : Party} (h : q ≠ p) (phase : Phase) :
    (s.goto p phase).phase q = s.phase q := Function.update_of_ne h ..

/-- The phase of one party changes. -/
theorem phase_cases (s : Shared) (p : Party) (phase : Phase) (q : Party) :
    (q = p ∧ (s.goto p phase).phase q = phase) ∨
      (q ≠ p ∧ (s.goto p phase).phase q = s.phase q) := by
  by_cases hq : q = p
  · exact .inl ⟨hq, hq ▸ phase_goto_self s p phase⟩
  · exact .inr ⟨hq, phase_goto_ne s hq phase⟩

theorem path_leave (s : Shared) (p : Party) (sent : Bool) :
    ((s.leave p sent).phase p).path = none := by
  rw [Shared.leave, phase_goto_self]
  split_ifs <;> rfl

/-- To the wire a step does nothing, or it lets a frame through to the write lock, or it writes. -/
inductive Effect (s s' : Shared) : Action → Prop
  | quiet {a : Action} (phase : Phase) (hquiet : phase.Quiet)
    (hphase : s'.phase = (s.goto a.party phase).phase) (hwire : s'.wire = s.wire)
    (hbroken : s.broken = true ∨ s.Torn a.party → s'.broken = true) : Effect s s' a
  | check (p : Party) (path : Path) (frame : Bytes) (hentered : s.phase p = .entered path frame)
    (husable : s.broken = false) (hphase : s'.phase = (s.goto p (.usable path frame)).phase)
    (hwire : s'.wire = s.wire) : Effect s s' (.check p)
  | fails (p : Party) (n : Nat) (path : Path) (frame : Bytes)
    (husable : s.phase p = .usable path frame) (hn : n < frame.length)
    (hphase : s'.phase = (s.goto p (.failed path (0 < n))).phase)
    (hwire : s'.wire = s.wire ++ frame.take n) : Effect s s' (.write p n)
  | whole (p : Party) (n : Nat) (path : Path) (frame : Bytes)
    (husable : s.phase p = .usable path frame)
    (hphase : s'.phase = (s.goto p (.written path)).phase)
    (hwire : s'.wire = s.wire ++ frame) : Effect s s' (.write p n)

theorem effect_step {s s' : Shared} {a : Action} (h : step s a = some s') : Effect s s' a := by
  have hleave (p : Party) (sent : Bool) :
      ∃ phase : Phase, phase.Quiet ∧ (s.leave p sent).phase = (s.goto p phase).phase := by
    unfold Shared.leave
    split_ifs
    · exact ⟨.stopped, trivial, rfl⟩
    · exact ⟨.idle, trivial, rfl⟩
  cases moves_of_step h with
  | @refused p path f m hidle sent =>
    obtain ⟨phase, hquiet, hphase⟩ := hleave p sent
    exact .quiet phase hquiet hphase rfl fun hb => hb.resolve_right (not_torn hidle nofun)
  | @entered p path f m hidle hwrites hgate sendClosed =>
    exact .quiet (.entered path (maskedFrame f m)) (hwrites.isFrame m) rfl rfl
      fun hb => hb.resolve_right (not_torn hidle nofun)
  | returned hpath sent broken hbroken =>
    obtain ⟨phase, hquiet, hphase⟩ := hleave a.party sent
    exact .quiet phase hquiet hphase rfl hbroken
  | checked hphase hbroken => exact .check _ _ _ hphase hbroken rfl rfl
  | @flushes p path hphase =>
    exact .quiet (.flushing path) trivial rfl rfl
      fun hb => hb.resolve_right (not_torn hphase nofun)
  | fails hphase hn => exact .fails _ _ _ _ hphase hn rfl rfl
  | whole hphase => exact .whole _ _ _ _ hphase rfl rfl
  | @unflushed p ok path hphase =>
    exact .quiet (.failed path false) trivial rfl rfl
      fun hb => hb.resolve_right (not_torn hphase nofun)

/-! ## Undisturbed runs -/

/-- A write does not fail partway while another party is between its look at `broken` and its own
write, and no party looks at `broken` between a write that failed partway and the setting of
`broken` for it. -/
def Undisturbed (s : Shared) : Action → Prop
  | .write p n => ∀ path frame, s.phase p = .usable path frame → 0 < n → n < frame.length →
    ∀ q, q ≠ p → ¬s.Usable q
  | .check p => ∀ path frame, s.phase p = .entered path frame → ∀ q, ¬s.Torn q
  | _ => True

/-- A step that meets the condition. -/
def UndisturbedStep (s s' : Shared) : Prop := ∃ a, step s a = some s' ∧ Undisturbed s a

/-- The wire ends with a whole frame, and no write has failed partway. -/
structure Clean (s : Shared) : Prop where
  wire : AtBoundary s.wire
  torn : ∀ p, ¬s.Torn p

/-- A write has failed partway, and no party will get to write. -/
structure Cut (s : Shared) : Prop where
  wire : Intact s.wire
  usable : ∀ p, ¬s.Usable p
  broken : s.broken = true ∨ ∃ p, s.Torn p

structure Standing (s : Shared) : Prop where
  frames : ∀ p path frame, s.phase p = .entered path frame ∨ s.phase p = .usable path frame →
    IsFrame frame
  wire : Clean s ∨ Cut s

theorem standing_init : Standing .init where
  frames p path frame h := by rcases h with h | h <;> cases h
  wire := .inl ⟨⟨[], nofun, rfl⟩, fun p ⟨path, h⟩ => nomatch h⟩

theorem Effect.frames {s s' : Shared} {a : Action} (h : Effect s s' a) (hs : Standing s) :
    ∀ p path frame, s'.phase p = .entered path frame ∨ s'.phase p = .usable path frame →
      IsFrame frame := by
  have hupdate {p : Party} {phase : Phase} (hphase : s'.phase = (s.goto p phase).phase)
      (hok : ∀ path frame, phase = .entered path frame ∨ phase = .usable path frame →
        IsFrame frame) (q : Party) (path : Path) (frame : Bytes)
      (hq : s'.phase q = .entered path frame ∨ s'.phase q = .usable path frame) :
      IsFrame frame := by
    rw [hphase] at hq
    rcases phase_cases s p phase q with ⟨-, hnew⟩ | ⟨-, hold⟩
    · exact hok path frame (hnew ▸ hq)
    · exact hs.frames q path frame (hold ▸ hq)
  cases h with
  | quiet phase hquiet hphase =>
    refine hupdate hphase fun path frame h => ?_
    rcases h with rfl | rfl
    · exact hquiet
    · exact hquiet.elim
  | check p path frame hentered husable hphase =>
    refine hupdate hphase fun path' frame' h => ?_
    rcases h with h | h <;> cases h
    exact hs.frames p path frame (.inl hentered)
  | fails p n path frame husable hn hphase =>
    exact hupdate hphase fun _ _ h => by rcases h with h | h <;> cases h
  | whole p n path frame husable hphase =>
    exact hupdate hphase fun _ _ h => by rcases h with h | h <;> cases h

/-- Once a write has failed partway, the wire stays as it is. -/
theorem Cut.step {s s' : Shared} {a : Action} (hs : Cut s) (h : Effect s s' a)
    (hu : Undisturbed s a) : Cut s' ∧ s'.wire = s.wire := by
  cases h with
  | quiet phase hquiet hphase hwire hbroken =>
    refine ⟨⟨hwire ▸ hs.wire, ?_, ?_⟩, hwire⟩
    · rintro q ⟨path, frame, hq⟩
      rw [hphase] at hq
      rcases phase_cases s a.party phase q with ⟨-, hnew⟩ | ⟨-, hold⟩
      · rw [← hnew, hq] at hquiet
        exact hquiet
      · exact hs.usable q ⟨path, frame, hold ▸ hq⟩
    · rcases hs.broken with hb | ⟨q, path, hq⟩
      · exact .inl (hbroken (.inl hb))
      · rcases phase_cases s a.party phase q with ⟨rfl, -⟩ | ⟨-, hold⟩
        · exact .inl (hbroken (.inr ⟨path, hq⟩))
        · exact .inr ⟨q, path, by rw [hphase, hold, hq]⟩
  | check p path frame hentered husable =>
    rcases hs.broken with hb | ⟨q, hq⟩
    · rw [hb] at husable
      cases husable
    · exact absurd hq (hu path frame hentered q)
  | fails p n path frame husable => exact absurd ⟨path, frame, husable⟩ (hs.usable p)
  | whole p n path frame husable => exact absurd ⟨path, frame, husable⟩ (hs.usable p)

theorem Clean.step {s s' : Shared} {a : Action} (hs : Clean s) (hframes : ∀ p path frame,
      s.phase p = .entered path frame ∨ s.phase p = .usable path frame → IsFrame frame)
    (h : Effect s s' a) (hu : Undisturbed s a) : Clean s' ∨ Cut s' := by
  have htorn {p : Party} {phase : Phase} (hphase : s'.phase = (s.goto p phase).phase)
      (hok : ∀ path, phase ≠ .failed path true) (q : Party) : ¬s'.Torn q := by
    rintro ⟨path, hq⟩
    rw [hphase] at hq
    rcases phase_cases s p phase q with ⟨-, hnew⟩ | ⟨-, hold⟩
    · exact hok path (hnew.symm.trans hq)
    · exact hs.torn q ⟨path, hold ▸ hq⟩
  cases h with
  | quiet phase hquiet hphase hwire =>
    refine .inl ⟨hwire ▸ hs.wire, htorn hphase ?_⟩
    rintro path rfl
    exact hquiet
  | check p path frame hentered husable hphase hwire =>
    exact .inl ⟨hwire ▸ hs.wire, htorn hphase nofun⟩
  | whole p n path frame husable hphase hwire =>
    exact .inl ⟨hwire ▸ hs.wire.append (hframes p path frame (.inr husable)), htorn hphase nofun⟩
  | fails p n path frame husable hn hphase hwire =>
    have hframe := hframes p path frame (.inr husable)
    by_cases hpos : 0 < n
    · refine .inr ⟨hwire ▸ hs.wire.intact_append_take hframe hn, ?_, .inr ⟨p, path, ?_⟩⟩
      · rintro q ⟨path', frame', hq⟩
        rw [hphase] at hq
        rcases phase_cases s p (.failed path (0 < n)) q with ⟨-, hnew⟩ | ⟨hqp, hold⟩
        · exact absurd (hnew.symm.trans hq) nofun
        · exact hu path frame husable hpos hn q hqp ⟨path', frame', hold ▸ hq⟩
      · rw [hphase, phase_goto_self, decide_eq_true hpos]
    · obtain rfl : n = 0 := by omega
      refine .inl ⟨?_, htorn hphase ?_⟩
      · rw [hwire, List.take_zero, List.append_nil]
        exact hs.wire
      · simp

theorem Standing.step {s s' : Shared} (hs : Standing s) (h : UndisturbedStep s s') :
    Standing s' := by
  obtain ⟨a, hstep, hu⟩ := h
  have heffect := effect_step hstep
  refine ⟨heffect.frames hs, hs.wire.elim ?_ fun hcut => .inr (hcut.step heffect hu).1⟩
  exact fun hclean => hclean.step hs.frames heffect hu

theorem Standing.run {s s' : Shared} (hs : Standing s)
    (h : Relation.ReflTransGen UndisturbedStep s s') : Standing s' := by
  induction h with
  | refl => exact hs
  | tail _ hstep ih => exact ih.step hstep

theorem Cut.run {s s' : Shared} (hs : Cut s) (h : Relation.ReflTransGen UndisturbedStep s s') :
    Cut s' ∧ s'.wire = s.wire := by
  induction h with
  | refl => exact ⟨hs, rfl⟩
  | tail _ hstep ih =>
    obtain ⟨a, hstep, hu⟩ := hstep
    obtain ⟨hcut, hwire⟩ := ih.1.step (effect_step hstep) hu
    exact ⟨hcut, hwire.trans ih.2⟩

/-! ## One party alone -/

theorem phase_step_ne {s s' : Shared} {a : Action} (h : step s a = some s') {q : Party}
    (hq : q ≠ a.party) : s'.phase q = s.phase q := by
  cases effect_step h with
  | quiet phase hquiet hphase => exact hphase ▸ phase_goto_ne s hq phase
  | check p path frame hentered husable hphase => exact hphase ▸ phase_goto_ne s hq _
  | fails p n path frame husable hn hphase => exact hphase ▸ phase_goto_ne s hq _
  | whole p n path frame husable hphase => exact hphase ▸ phase_goto_ne s hq _

/-- A run, given by its actions. -/
def run (s : Shared) (actions : List Action) : Option Shared := actions.foldlM step s

theorem run_cons {s s' : Shared} {a : Action} {actions : List Action}
    (h : run s (a :: actions) = some s') : ∃ t, step s a = some t ∧ run t actions = some s' := by
  rwa [run, List.foldlM_cons, Option.bind_eq_bind, Option.bind_eq_some_iff] at h

theorem run_steps {s s' : Shared} {actions : List Action} (h : run s actions = some s') :
    Relation.ReflTransGen Step s s' := by
  induction actions generalizing s with
  | nil =>
    cases h
    exact .refl
  | cons a actions ih =>
    obtain ⟨t, ht, hrest⟩ := run_cons h
    exact .head ⟨a, ht⟩ (ih hrest)

/-- A party is not disturbed while the others are idle. -/
theorem run_alone {s s' : Shared} {p : Party} (actions : List Action)
    (hp : ∀ a ∈ actions, a.party = p) (hidle : ∀ q, q ≠ p → s.phase q = .idle)
    (h : run s actions = some s') : Relation.ReflTransGen UndisturbedStep s s' := by
  induction actions generalizing s with
  | nil =>
    cases h
    exact .refl
  | cons a actions ih =>
    obtain ⟨t, ht, hrest⟩ := run_cons h
    rw [List.forall_mem_cons] at hp
    obtain ⟨rfl, hp⟩ := hp
    refine .head ⟨a, ht, ?_⟩ (ih hp (fun q hq => ?_) hrest)
    · cases a with
      | write p n =>
        rintro path frame - - - q hq ⟨path', frame', husable⟩
        exact absurd ((hidle q hq).symm.trans husable) nofun
      | check p =>
        rintro path frame hentered q ⟨path', hfailed⟩
        by_cases hq : q = p
        · rw [hq, hentered] at hfailed
          cases hfailed
        · exact absurd ((hidle q hq).symm.trans hfailed) nofun
      | _ => trivial
    · rw [phase_step_ne ht hq, hidle q hq]

/-- Only the writer is doing anything. -/
def writing (wire : Bytes) (broken sendClosed : Bool) (gate : Option Party) (phase : Phase) :
    Shared :=
  ⟨wire, broken, sendClosed, gate, Function.update (fun _ => .idle) .writer phase⟩

theorem phase_writing (wire : Bytes) (broken sendClosed : Bool) (gate : Option Party)
    (phase : Phase) : (writing wire broken sendClosed gate phase).phase .writer = phase := rfl

theorem goto_writing (wire : Bytes) (broken sendClosed : Bool) (gate : Option Party)
    (phase next : Phase) : (writing wire broken sendClosed gate phase).goto .writer next =
      writing wire broken sendClosed gate next := by
  simp [writing, Shared.goto]

theorem leave_writing (wire : Bytes) (broken sendClosed sent : Bool) (gate : Option Party)
    (phase : Phase) : (writing wire broken sendClosed gate phase).leave .writer sent =
      writing wire broken sendClosed gate .idle := by
  rw [Shared.leave, goto_writing]
  rfl

section

variable {wire frame : Bytes} {broken sendClosed : Bool} {gate : Option Party} {path : Path}

theorem enter_writing {f : Frame} (hf : Party.writer.Writes .unlessClosed f) (m : Mask) :
    step (writing wire broken sendClosed none .idle) (.enter .writer .unlessClosed f m) =
      some (if sendClosed then writing wire broken sendClosed none .idle
        else writing wire broken sendClosed (some .writer)
          (.entered .unlessClosed (maskedFrame f m))) := by
  have hcan : ¬((writing wire broken sendClosed none .idle).phase .writer ≠ .idle ∨
      ¬Party.writer.Writes .unlessClosed f ∨
      (Path.unlessClosed.gated ∧ (writing wire broken sendClosed none .idle).gate ≠ none)) := by
    simp [hf, writing]
  unfold step
  dsimp only
  rw [if_neg hcan, leave_writing, goto_writing]
  cases sendClosed <;> rfl

theorem check_entered :
    step (writing wire broken sendClosed gate (.entered path frame)) (.check .writer) =
      some (if broken then (writing wire broken sendClosed gate .idle).release path
        else writing wire broken sendClosed gate (.usable path frame)) := by
  simp only [step, phase_writing, leave_writing, goto_writing]
  cases broken <;> rfl

theorem check_written :
    step (writing wire broken sendClosed gate (.written path)) (.check .writer) =
      some (if broken then (writing wire broken sendClosed gate .idle).release path
        else writing wire broken sendClosed gate (.flushing path)) := by
  simp only [step, phase_writing, leave_writing, goto_writing]
  cases broken <;> rfl

theorem write_whole :
    step (writing wire broken sendClosed gate (.usable path frame)) (.write .writer frame.length) =
      some (writing (wire ++ frame) broken sendClosed gate (.written path)) := by
  simp only [step, phase_writing, goto_writing, lt_irrefl, if_false, if_true]
  rfl

theorem write_nothing (h : frame ≠ []) :
    step (writing wire broken sendClosed gate (.usable path frame)) (.write .writer 0) =
      some (writing wire broken sendClosed gate (.failed path false)) := by
  simp only [step, phase_writing, goto_writing, List.length_pos_iff.mpr h, if_true, List.take_zero,
    lt_irrefl, decide_false, List.append_nil]
  rfl

theorem flush_writing (ok : Bool) :
    step (writing wire broken sendClosed gate (.flushing path)) (.flush .writer ok) =
      some (if ok then (writing wire broken sendClosed gate .idle).release path
        else writing wire broken sendClosed gate (.failed path false)) := by
  simp only [step, phase_writing, leave_writing, goto_writing]
  cases ok <;> rfl

theorem setBroken_writing {partway : Bool} :
    step (writing wire broken sendClosed gate (.failed path partway)) (.setBroken .writer) =
      some ((writing wire true sendClosed gate .idle).release path) := by
  simp only [step, phase_writing, leave_writing]
  rfl

end

/-- Alone, the writer writes a frame as the sequential transport does. -/
theorem writer_alone (io : Io) (wire : Bytes) (sendClosed : Bool) {f : Frame}
    (hf : Party.writer.Writes .unlessClosed f) (m : Mask) (t : Transport) :
    let t' := (t.writeUnlessClosed io sendClosed (maskedFrame f m)).state
    ∃ put, t'.sent = t.sent ++ put ∧ Relation.ReflTransGen UndisturbedStep
      (writing wire t.broken sendClosed none .idle)
      (writing (wire ++ put.flatten) t'.broken sendClosed none .idle) := by
  have hrun (actions : List Action) (hp : ∀ a ∈ actions, a.party = .writer) {s' : Shared}
      (h : run (writing wire t.broken sendClosed none .idle) actions = some s') :=
    run_alone actions hp (fun q _ => by cases q <;> rfl) h
  have hne : maskedFrame f m ≠ [] := by simp [maskedFrame]
  obtain ⟨sent, draws, writes, broken⟩ := t
  unfold Transport.writeUnlessClosed Transport.writeAll Transport.put
  cases sendClosed with
  | true =>
    refine ⟨[], (List.append_nil _).symm,
      hrun [.enter .writer .unlessClosed f m] (by simp [Action.party]) ?_⟩
    simp only [run, List.foldlM_cons, enter_writing hf, List.flatten_nil, List.append_nil]
    rfl
  | false => cases broken with
    | true =>
      refine ⟨[], (List.append_nil _).symm,
        hrun [.enter .writer .unlessClosed f m, .check .writer] (by simp [Action.party]) ?_⟩
      simp [run, enter_writing hf, check_entered]
      rfl
    | false =>
      simp only [Bool.false_eq_true, if_false]
      cases io.write writes with
      | accepted =>
        refine ⟨[maskedFrame f m], rfl, hrun [.enter .writer .unlessClosed f m, .check .writer,
          .write .writer (maskedFrame f m).length, .check .writer, .flush .writer true]
          (by simp [Action.party]) ?_⟩
        simp [run, enter_writing hf, check_entered, write_whole, check_written, flush_writing]
        rfl
      | unflushed kind msg =>
        refine ⟨[maskedFrame f m], rfl, hrun [.enter .writer .unlessClosed f m, .check .writer,
          .write .writer (maskedFrame f m).length, .check .writer, .flush .writer false,
          .setBroken .writer] (by simp [Action.party]) ?_⟩
        simp [run, enter_writing hf, check_entered, write_whole, check_written, flush_writing,
          setBroken_writing]
        rfl
      | failed kind msg =>
        refine ⟨[], (List.append_nil _).symm, hrun [.enter .writer .unlessClosed f m,
          .check .writer, .write .writer 0, .setBroken .writer] (by simp [Action.party]) ?_⟩
        simp [run, enter_writing hf, check_entered, write_nothing hne, setBroken_writing]
        rfl

/-! ## Undisturbed runs keep the wire -/

/-- In an undisturbed run the wire is intact, and once it does not end with a whole frame, nothing
more is written. -/
theorem undisturbed_intact {s s' : Shared}
    (h : Relation.ReflTransGen UndisturbedStep .init s)
    (hmore : Relation.ReflTransGen UndisturbedStep s s') :
    Intact s.wire ∧ (¬AtBoundary s.wire → s'.wire = s.wire) := by
  have hs := standing_init.run h
  rcases hs.wire with hclean | hcut
  · exact ⟨hclean.wire.intact, fun hno => absurd hclean.wire hno⟩
  · exact ⟨hcut.wire, fun _ => (hcut.run hmore).2⟩

/-- A text frame fails after its first byte. -/
theorem undisturbed_intact_firstByte : ∃ s s' : Shared, s.wire = [0x81] ∧ s'.broken = true ∧
    Intact s.wire ∧ (¬AtBoundary s.wire → s'.wire = s.wire) := by
  obtain ⟨s, s', hs, hs', hwire, hbroken⟩ : ∃ s s' : Shared, run .init [.enter .writer .unlessClosed
      ⟨true, false, opcodeText, [0x68]⟩ ⟨1, 2, 3, 4⟩, .check .writer, .write .writer 1] = some s ∧
      run s [.setBroken .writer] = some s' ∧ s.wire = [0x81] ∧ s'.broken = true :=
    ⟨_, _, rfl, rfl, rfl, rfl⟩
  have hidle (q : Party) (hq : q ≠ .writer) : s.phase q = .idle := by
    cases hs
    cases q <;> first | rfl | exact absurd rfl hq
  refine ⟨s, s', hwire, hbroken, undisturbed_intact ?_ ?_⟩
  · exact run_alone (p := .writer) _ (by simp [Action.party]) (fun _ _ => rfl) hs
  · exact run_alone (p := .writer) _ (by simp [Action.party]) hidle hs'

/-! ## The gate -/

/-- Who is writing on a path with a gate holds it. -/
def Exclusive (s : Shared) : Prop :=
  ∀ p path, (s.phase p).path = some path → path.gated = true → s.gate = some p

theorem exclusive_init : Exclusive .init := nofun

theorem Exclusive.goto {s : Shared} (hs : Exclusive s) {p : Party} {phase : Phase}
    (h : ∀ path, phase.path = some path → path.gated = true → s.gate = some p) :
    Exclusive (s.goto p phase) := by
  intro q path hq hgated
  rcases phase_cases s p phase q with ⟨rfl, hnew⟩ | ⟨-, hold⟩
  · exact h path (hnew ▸ hq) hgated
  · exact hs q path (hold ▸ hq) hgated

/-- A party goes on with its frame. -/
theorem Exclusive.advance {s : Shared} (hs : Exclusive s) {p : Party} {old phase : Phase}
    (hold : s.phase p = old) (hpath : phase.path = old.path) : Exclusive (s.goto p phase) :=
  hs.goto fun path h hgated => hs p path (by rw [hold, ← hpath, h]) hgated

theorem Exclusive.leave {s : Shared} (hs : Exclusive s) (p : Party) (sent : Bool) :
    Exclusive (s.leave p sent) := by
  refine hs.goto fun path hpath => ?_
  split_ifs at hpath <;> cases hpath

theorem Exclusive.release {s : Shared} (hs : Exclusive s) {p : Party} {path : Path}
    (h : (s.phase p).path = some path) (sent : Bool) :
    Exclusive ((s.leave p sent).release path) := by
  intro q path' hq hgated
  have hleft : s.gate = some q := hs.leave p sent q path' hq hgated
  by_cases hpath : path.gated = true
  · -- the gate was held by `p` alone
    obtain rfl : q = p := Option.some.inj (hleft.symm.trans (hs p path h hpath))
    have hnone : (((s.leave q sent).release path).phase q).path = none := path_leave s q sent
    rw [hnone] at hq
    cases hq
  · rw [Shared.release, if_neg hpath]
    exact hleft

theorem Exclusive.step {s s' : Shared} {a : Action} (hs : Exclusive s) (h : step s a = some s') :
    Exclusive s' := by
  cases moves_of_step h with
  | refused hidle sent => exact hs.leave _ sent
  | @entered p path f m hidle hwrites hgate sendClosed =>
    intro q path' hq hgated
    rcases phase_cases s p (.entered path (maskedFrame f m)) q with ⟨rfl, hnew⟩ | ⟨-, hold⟩
    · obtain rfl : path = path' := Option.some.inj ((congrArg Phase.path hnew).symm.trans hq)
      exact if_pos hgated
    · have hq' := hs q path' ((congrArg Phase.path hold).symm.trans hq) hgated
      have hfree : path.gated ≠ true := fun hg => by
        rw [hgate hg] at hq'
        cases hq'
      exact (if_neg hfree).trans hq'
  | returned hpath sent broken hbroken => exact hs.release hpath sent
  | checked hphase hbroken => exact hs.advance hphase rfl
  | flushes hphase => exact hs.advance hphase rfl
  | fails hphase hn => exact hs.advance hphase rfl
  | whole hphase => exact hs.advance hphase rfl
  | unflushed hphase => exact hs.advance hphase rfl

/-- No automatic pong is being written. -/
def Shared.WithoutPong (s : Shared) : Prop := ∀ p, (s.phase p).path ≠ some .pong

/-- As long as all that write go through the gate, no step disturbs another. -/
theorem Exclusive.undisturbed {s : Shared} (hs : Exclusive s) (hpong : s.WithoutPong) (a : Action) :
    Undisturbed s a := by
  have hgated {p : Party} {path : Path} (h : (s.phase p).path = some path) : s.gate = some p := by
    refine hs p path h ?_
    cases path with
    | pong => exact absurd h (hpong p)
    | unlessClosed => rfl
    | close => rfl
  have halone {p q : Party} (path path' : Path) (hp : (s.phase p).path = some path)
      (hq : (s.phase q).path = some path') : q = p :=
    Option.some.inj ((hgated hq).symm.trans (hgated hp))
  cases a with
  | write p n =>
    rintro path frame husable - - q hqp ⟨path', frame', hq⟩
    exact hqp (halone path path' (by rw [husable]; rfl) (by rw [hq]; rfl))
  | check p =>
    rintro path frame hentered q ⟨path', hq⟩
    obtain rfl : q = p :=
      halone path path' (by rw [hentered]; rfl) (by rw [hq]; rfl)
    rw [hentered] at hq
    cases hq
  | _ => trivial

/-- A party that is writing entered before, or does so now. -/
theorem path_step {s s' : Shared} {a : Action} (h : step s a = some s') {q : Party} {path : Path}
    (hq : (s'.phase q).path = some path) :
    (s.phase q).path = some path ∨ ∃ f m, a = .enter q path f m := by
  have hadvance {p : Party} {old phase : Phase} (hold : s.phase p = old)
      (hq : ((s.goto p phase).phase q).path = some path) (hpath : phase.path = old.path) :
      (s.phase q).path = some path := by
    rcases phase_cases s p phase q with ⟨rfl, hnew⟩ | ⟨-, hkeep⟩
    · rw [hold, ← hpath, ← hnew, hq]
    · rw [← hkeep, hq]
  have hleave {p : Party} {sent : Bool} (hq : ((s.leave p sent).phase q).path = some path) :
      (s.phase q).path = some path := by
    by_cases hqp : q = p
    · rw [hqp, path_leave] at hq
      cases hq
    · exact phase_goto_ne s hqp _ ▸ hq
  cases moves_of_step h with
  | refused hidle sent => exact .inl (hleave hq)
  | @entered p path' f m hidle hwrites hgate sendClosed =>
    rcases phase_cases s p (.entered path' (maskedFrame f m)) q with ⟨rfl, hnew⟩ | ⟨-, hold⟩
    · obtain rfl : path' = path := Option.some.inj ((congrArg Phase.path hnew).symm.trans hq)
      exact .inr ⟨f, m, rfl⟩
    · exact .inl ((congrArg Phase.path hold).symm.trans hq)
  | returned hpath sent broken hbroken => exact .inl (hleave hq)
  | checked hphase hbroken => exact .inl (hadvance hphase hq rfl)
  | flushes hphase => exact .inl (hadvance hphase hq rfl)
  | fails hphase hn => exact .inl (hadvance hphase hq rfl)
  | whole hphase => exact .inl (hadvance hphase hq rfl)
  | unflushed hphase => exact .inl (hadvance hphase hq rfl)

/-- A step that does not begin an automatic pong. -/
def PonglessStep (s s' : Shared) : Prop :=
  ∃ a, step s a = some s' ∧ ∀ p f m, a ≠ .enter p .pong f m

/-- Without automatic pongs every run is undisturbed. -/
theorem undisturbed_of_pongless {s : Shared} (h : Relation.ReflTransGen PonglessStep .init s) :
    Relation.ReflTransGen UndisturbedStep .init s ∧ Exclusive s ∧ s.WithoutPong := by
  induction h with
  | refl => exact ⟨.refl, exclusive_init, nofun⟩
  | tail _ hstep ih =>
    obtain ⟨hrun, hexclusive, hpong⟩ := ih
    obtain ⟨a, hstep, ha⟩ := hstep
    refine ⟨hrun.tail ⟨a, hstep, hexclusive.undisturbed hpong a⟩, hexclusive.step hstep, ?_⟩
    intro q hq
    rcases path_step hstep hq with hq | ⟨f, m, rfl⟩
    · exact hpong q hq
    · exact ha q f m rfl

theorem pongless_intact {s : Shared} (h : Relation.ReflTransGen PonglessStep .init s) :
    Intact s.wire := by
  rcases (standing_init.run (undisturbed_of_pongless h).1).wire with hclean | hcut
  · exact hclean.wire.intact
  · exact hcut.wire

theorem pongless_run {s s' : Shared} {actions : List Action}
    (hpong : ∀ a ∈ actions, ∀ p f m, a ≠ .enter p .pong f m) (h : run s actions = some s') :
    Relation.ReflTransGen PonglessStep s s' := by
  induction actions generalizing s with
  | nil =>
    cases h
    exact .refl
  | cons a actions ih =>
    obtain ⟨ha, hpong⟩ := List.forall_mem_cons.mp hpong
    obtain ⟨t, ht, hrest⟩ := run_cons h
    exact .head ⟨a, ht, ha⟩ (ih hpong hrest)

/-- The writer's text frame fails after one byte. -/
theorem pongless_intact_cut : ∃ s : Shared, s.wire = [0x81] ∧ Intact s.wire := by
  obtain ⟨s, hs, hwire⟩ : ∃ s, run .init [.enter .writer .unlessClosed
      ⟨true, false, opcodeText, [0x68]⟩ ⟨1, 2, 3, 4⟩, .check .writer, .write .writer 1] = some s ∧
      s.wire = [0x81] := ⟨_, rfl, rfl⟩
  exact ⟨s, hwire, pongless_intact (pongless_run (by simp) hs)⟩

/-! ## The closing handshake -/

/-- How the frame is written of which an action puts something on the wire. -/
def puts (s : Shared) : Action → List Path
  | .write p n => match s.phase p with
    | .usable path _ => if 0 < n then [path] else []
    | _ => []
  | _ => []

/-- A step, and how the frames on the wire were written so far. -/
def loggedStep (t : Shared × List Path) (a : Action) : Option (Shared × List Path) :=
  (step t.1 a).map fun s => (s, t.2 ++ puts t.1 a)

/-- The path of a frame of which nothing is written yet. -/
def Phase.pending : Phase → Option Path
  | entered path _ | usable path _ => some path
  | _ => none

theorem Phase.path_of_pending {phase : Phase} {path : Path} (h : phase.pending = some path) :
    phase.path = some path := by
  cases phase <;> first | exact h | cases h

/-- The gate orders what is written: before `send_closed` is set nothing closes, after it nothing
but the one close frame goes through the gate. -/
structure Handshake (s : Shared) (log : List Path) : Prop where
  exclusive : Exclusive s
  early : s.sendClosed = false → .close ∉ log ∧ ∀ p, (s.phase p).path ≠ some .close
  late : s.sendClosed = true → ∀ p, (s.phase p).path ≠ some .unlessClosed
  once : ∀ p, (s.phase p).pending = some .close → .close ∉ log
  last : ∀ before after, log = before ++ .close :: after → ∀ path ∈ after, path = .pong

section Handshake

variable {s s' : Shared} {log : List Path} {p : Party}

theorem handshake_init : Handshake .init [] where
  exclusive := exclusive_init
  early _ := ⟨by simp, fun _ => by simp [Shared.init, Phase.path]⟩
  late h := by cases h
  once _ h := by cases h
  last before after h := by simp at h

/-- A party goes on with its frame, or is done with it. -/
theorem Handshake.moved (h : Handshake s log) (hex : Exclusive s')
    (hclosed : s'.sendClosed = s.sendClosed) {phase : Phase}
    (hphase : s'.phase = (s.goto p phase).phase)
    (hpath : ∀ path, phase.path = some path → (s.phase p).path = some path)
    (hpending : ∀ path, phase.pending = some path → (s.phase p).pending = some path) :
    Handshake s' log := by
  have hold (q : Party) (path : Path) (hq : (s'.phase q).path = some path) :
      (s.phase q).path = some path := by
    rw [hphase] at hq
    rcases phase_cases s p phase q with ⟨rfl, hnew⟩ | ⟨-, hkeep⟩
    · exact hpath path (by rw [← hnew, hq])
    · rw [← hkeep, hq]
  refine ⟨hex, fun hopen => ?_, fun hlate q hq => ?_, fun q hq => ?_, h.last⟩
  · obtain ⟨hnone, hpaths⟩ := h.early (hclosed ▸ hopen)
    exact ⟨hnone, fun q hq => hpaths q (hold q _ hq)⟩
  · exact h.late (hclosed ▸ hlate) q (hold q _ hq)
  · rw [hphase] at hq
    rcases phase_cases s p phase q with ⟨rfl, hnew⟩ | ⟨-, hkeep⟩
    · exact h.once q (hpending _ (by rw [← hnew, hq]))
    · exact h.once q (by rw [← hkeep, hq])

/-- A party's call returns. -/
theorem Handshake.left (h : Handshake s log) (hex : Exclusive s')
    (hclosed : s'.sendClosed = s.sendClosed) {sent : Bool}
    (hphase : s'.phase = (s.leave p sent).phase) : Handshake s' log := by
  unfold Shared.leave at hphase
  split_ifs at hphase
  all_goals exact h.moved hex hclosed hphase (fun _ hx => by cases hx) fun _ hx => by cases hx

/-- A party that is let in begins a frame; a close frame sets `send_closed`. -/
theorem Handshake.entered (h : Handshake s log) (hex : Exclusive s') {path : Path} {frame : Bytes}
    (hgate : path.gated = true → s.gate = none)
    (hphase : s'.phase = (s.goto p (.entered path frame)).phase)
    (hclosed : path ≠ .pong → s.sendClosed = false)
    (hclosed' : s'.sendClosed = (s.sendClosed || path == .close)) : Handshake s' log := by
  have hcases (q : Party) : (q = p ∧ s'.phase q = .entered path frame) ∨
      (q ≠ p ∧ s'.phase q = s.phase q) := by
    rw [hphase]
    exact phase_cases s p _ q
  refine ⟨hex, fun hopen => ?_, fun hlate q hq => ?_, fun q hq => ?_, h.last⟩
  · rw [hclosed', Bool.or_eq_false_iff] at hopen
    obtain ⟨hnone, hpaths⟩ := h.early hopen.1
    refine ⟨hnone, fun q hq => ?_⟩
    rcases hcases q with ⟨-, hnew⟩ | ⟨-, hkeep⟩
    · rw [hnew] at hq
      cases hq
      cases hopen.2
    · exact hpaths q (hkeep ▸ hq)
  · rcases hcases q with ⟨-, hnew⟩ | ⟨-, hkeep⟩
    · rw [hnew] at hq
      cases hq
      rw [hclosed', hclosed (by simp)] at hlate
      cases hlate
    · rw [hkeep] at hq
      cases hwas : s.sendClosed with
      | true => exact h.late hwas q hq
      | false =>
        rw [hclosed', hwas, Bool.false_or, beq_iff_eq] at hlate
        subst hlate
        have := h.exclusive q .unlessClosed hq rfl
        rw [hgate rfl] at this
        cases this
  · rcases hcases q with ⟨-, hnew⟩ | ⟨-, hkeep⟩
    · rw [hnew] at hq
      cases hq
      exact (h.early (hclosed (by simp))).1
    · exact h.once q (hkeep ▸ hq)

/-- Something of a pending frame goes out. -/
theorem Handshake.wrote (h : Handshake s log) (hex : Exclusive s')
    (hclosed : s'.sendClosed = s.sendClosed) {phase : Phase} {path : Path}
    (hphase : s'.phase = (s.goto p phase).phase) (hpath : phase.path = some path)
    (hdone : phase.pending = none) (hp : (s.phase p).pending = some path) :
    Handshake s' (log ++ [path]) := by
  have hpath' := Phase.path_of_pending hp
  have hmoved := h.moved hex hclosed hphase (fun x hx => by rw [hpath', ← hpath, hx])
    fun x hx => by rw [hdone] at hx; cases hx
  refine ⟨hex, fun hopen => ?_, hmoved.late, fun q hq => ?_, fun before after hlog => ?_⟩
  · obtain ⟨hnone, hpaths⟩ := h.early (hclosed ▸ hopen)
    have hne : Path.close ≠ path := fun heq => hpaths p (heq ▸ hpath')
    exact ⟨by simp [hnone, hne], (hmoved.early hopen).2⟩
  · have hnone := hmoved.once q hq
    -- two parties with a close frame would both hold the gate
    have hne : path ≠ .close := by
      rintro rfl
      have hgate := hex q .close (Phase.path_of_pending hq) rfl
      rw [hphase] at hq
      rcases phase_cases s p phase q with ⟨rfl, hnew⟩ | ⟨hqp, hkeep⟩
      · rw [hnew, hdone] at hq
        cases hq
      · have hq' := h.exclusive q .close (Phase.path_of_pending (hkeep ▸ hq)) rfl
        rw [h.exclusive p .close hpath' rfl] at hq'
        exact hqp (Option.some.inj hq').symm
    simp [hnone, hne.symm]
  · rcases List.eq_nil_or_concat after with rfl | ⟨rest, x, rfl⟩
    · simp
    · rw [List.concat_eq_append, ← List.cons_append, ← List.append_assoc] at hlog
      obtain ⟨hfront, hx⟩ := List.append_inj' hlog rfl
      cases hx
      have hmem : Path.close ∈ log := by simp [hfront]
      have hpong : path = .pong := by
        cases path with
        | pong => rfl
        | close => exact absurd hmem (h.once p hp)
        | unlessClosed =>
          cases hopen : s.sendClosed with
          | false => exact absurd hmem (h.early hopen).1
          | true => exact absurd hpath' (h.late hopen p)
      have hrest := h.last before rest hfront
      intro y hy
      rw [List.concat_eq_append, List.mem_append, List.mem_singleton] at hy
      rcases hy with hy | rfl
      · exact hrest y hy
      · exact hpong

theorem Handshake.step {a : Action} (h : Handshake s log) (hstep : step s a = some s') :
    Handshake s' (log ++ puts s a) := by
  have hex := h.exclusive.step hstep
  cases a with
  | enter p path f m =>
    change Handshake s' (log ++ [])
    rw [List.append_nil]
    simp only [Interleaving.step] at hstep
    by_cases hcan : s.phase p ≠ .idle ∨ ¬p.Writes path f ∨ (path.gated ∧ s.gate ≠ none)
    · rw [if_pos hcan] at hstep
      cases hstep
    rw [if_neg hcan] at hstep
    simp only [not_or, not_not, not_and] at hcan
    obtain ⟨-, -, hgate⟩ := hcan
    cases path with
    | pong =>
      cases hstep
      exact h.entered hex hgate rfl (fun hne => absurd rfl hne) (by simp [Shared.goto])
    | unlessClosed =>
      dsimp only at hstep
      split_ifs at hstep with hclosed <;> cases hstep
      · exact h.left hex rfl rfl
      · exact h.entered hex hgate rfl (fun _ => by simpa using hclosed) (by simp [Shared.goto])
    | close =>
      dsimp only at hstep
      split_ifs at hstep with hclosed <;> cases hstep
      · exact h.left hex rfl rfl
      · exact h.entered hex hgate rfl (fun _ => by simpa using hclosed) (by simp)
  | write p n =>
    simp only [Interleaving.step] at hstep
    unfold puts
    split at hstep
    · rename_i path frame hphase
      simp only [hphase]
      have hpath : (s.phase p).path = some path := by rw [hphase]; rfl
      have hpending : (s.phase p).pending = some path := by rw [hphase]; rfl
      have hwrote {phase : Phase} (hs : s'.phase = (s.goto p phase).phase)
          (hclosed : s'.sendClosed = s.sendClosed) (hx : phase.path = some path)
          (hnone : phase.pending = none) :
          Handshake s' (log ++ if 0 < n then [path] else []) := by
        split_ifs with hn
        · exact h.wrote hex hclosed hs hx hnone hpending
        · rw [List.append_nil]
          exact h.moved hex hclosed hs (fun x h' => by rw [hpath, ← hx, h'])
            fun x h' => by rw [hnone] at h'; cases h'
      split_ifs at hstep <;> cases hstep
      · exact hwrote rfl rfl rfl rfl
      · exact hwrote rfl rfl rfl rfl
    · cases hstep
  | check p =>
    change Handshake s' (log ++ [])
    rw [List.append_nil]
    simp only [Interleaving.step] at hstep
    split at hstep
    · rename_i path frame hphase
      split_ifs at hstep <;> cases hstep
      · exact h.left hex rfl rfl
      · exact h.moved hex rfl rfl (fun x hx => by rw [hphase]; exact hx)
          fun x hx => by rw [hphase]; exact hx
    · rename_i path hphase
      split_ifs at hstep <;> cases hstep
      · exact h.left hex rfl rfl
      · exact h.moved hex rfl rfl (fun x hx => by rw [hphase]; exact hx) fun x hx => by cases hx
    · cases hstep
  | flush p ok =>
    change Handshake s' (log ++ [])
    rw [List.append_nil]
    simp only [Interleaving.step] at hstep
    split at hstep
    · rename_i path hphase
      split_ifs at hstep <;> cases hstep
      · exact h.left hex rfl rfl
      · exact h.moved hex rfl rfl (fun x hx => by rw [hphase]; exact hx) fun x hx => by cases hx
    · cases hstep
  | setBroken p =>
    change Handshake s' (log ++ [])
    rw [List.append_nil]
    simp only [Interleaving.step] at hstep
    split at hstep
    · cases hstep
      exact h.left hex rfl rfl
    · cases hstep

end Handshake

/-- In every interleaving of the parties nothing but pongs goes out after a close frame: no data, no
ping and no second close, whoever began first and whatever fails. -/
theorem close_is_last {actions : List Action} {s : Shared} {log : List Path}
    (h : actions.foldlM loggedStep (.init, []) = some (s, log)) :
    ∀ before after, log = before ++ .close :: after → ∀ path ∈ after, path = .pong := by
  have hrun (t : Shared × List Path) (ht : Handshake t.1 t.2)
      (h : actions.foldlM loggedStep t = some (s, log)) : Handshake s log := by
    clear * - ht h
    induction actions generalizing t with
    | nil =>
      cases h
      exact ht
    | cons a actions ih =>
      rw [List.foldlM_cons, Option.bind_eq_bind, Option.bind_eq_some_iff] at h
      obtain ⟨t', hstep, hrest⟩ := h
      obtain ⟨s', hs', rfl⟩ := Option.map_eq_some_iff.mp hstep
      exact ih (s', t.2 ++ puts t.1 a) (ht.step hs') hrest
  exact (hrun (.init, []) handshake_init h).last

/-- The writer closes, and the reader still answers a ping. -/
def pongAfterClose : List Action :=
  [.enter .writer .close ⟨true, false, opcodeClose, []⟩ ⟨0, 0, 0, 0⟩, .check .writer,
    .enter .reader .pong ⟨true, false, opcodePong, []⟩ ⟨0, 0, 0, 0⟩, .check .reader,
    .write .writer 6, .write .reader 6]

theorem close_is_last_pong : ∃ s log, pongAfterClose.foldlM loggedStep (.init, []) = some (s, log) ∧
    log = [.close, .pong] ∧
    ∀ before after, log = before ++ .close :: after → ∀ path ∈ after, path = .pong := by
  obtain ⟨s, log, hs, hlog⟩ : ∃ s log, pongAfterClose.foldlM loggedStep (.init, []) =
      some (s, log) ∧ log = [.close, .pong] := ⟨_, _, rfl, rfl⟩
  exact ⟨s, log, hs, hlog, close_is_last hs⟩

/-! ## A pong against a failing write -/

/-- How a frame begins, and how long it is if its second byte says so. -/
theorem IsFrame.head {b : Bytes} (h : IsFrame b) :
    ∃ h0 h1 rest, b = h0 :: h1 :: rest ∧ h0 &&& 0x30 = 0 ∧
      ((h1 &&& 0x7f).toNat ≤ 125 → rest.length = 4 + (h1 &&& 0x7f).toNat) := by
  obtain ⟨f, m, hop, hlen, rfl⟩ := h
  obtain ⟨h0, h1, rest, hhead, hrsv, -, -, -, -, hn⟩ :=
    frameHeader_spec f.fin f.rsv1 true hop hlen []
  refine ⟨h0, h1, rest ++ [m.a, m.b, m.c, m.d] ++ m.apply f.payload, ?_, hrsv, fun hshort => ?_⟩
  · rw [maskedFrame, hhead]
    rfl
  · simp only [payloadLength, if_pos hshort, Except.ok.injEq, Option.some.injEq, Prod.mk.injEq,
      List.length_cons] at hn
    obtain ⟨hpayload, hmore⟩ := hn
    simp only [List.length_append, List.length_cons, List.length_nil, m.length_apply, ← hpayload]
    omega

/-- The first byte of a text frame, and after it a pong with a payload of ten bytes. -/
def corrupted : Bytes :=
  0x81 :: maskedFrame ⟨true, false, opcodePong, .replicate 10 0x30⟩ ⟨0, 0, 0, 0⟩

/-- A reader of the corrupted wire takes the pong for the rest of the text frame, up to its last
byte, which begins no frame. -/
theorem corrupted_not_intact : ¬Intact corrupted := by
  have hbytes : corrupted = 0x81 :: 0x8a :: ([0x8a, 0, 0, 0, 0] ++ .replicate 10 0x30) := by decide
  have hfirst {b : Bytes} (hb : IsFrame b) (rest : Bytes)
      (h : b = 0x81 :: 0x8a :: rest) : rest.length = 14 := by
    obtain ⟨h0, h1, more, rfl, -, hlength⟩ := hb.head
    cases h
    exact hlength (by decide)
  have hnone {b more : Bytes} (hb : IsFrame b) : b ≠ 0x30 :: more := by
    rintro rfl
    obtain ⟨h0, h1, rest, h, hrsv, -⟩ := hb.head
    cases h
    exact absurd hrsv (by decide)
  have htail' {tail : Bytes} (htail : tail = [] ∨ ∃ b, IsFrame b ∧ tail <+: b ∧ tail ≠ b)
      {more : Bytes} : tail ≠ 0x30 :: more := by
    rintro rfl
    rcases htail with h | ⟨b, hb, ⟨rest, rfl⟩, -⟩
    · cases h
    · exact hnone hb rfl
  rintro ⟨frames, tail, hframes, htail, hwire⟩
  rw [hbytes] at hwire
  cases frames with
  | nil =>
    rcases htail with rfl | ⟨b, hb, ⟨rest, rfl⟩, -⟩
    · cases hwire
    · have := hfirst hb _ (by rw [List.flatten_nil, List.nil_append] at hwire; rw [← hwire]; rfl)
      simp at this
  | cons b frames =>
    rw [List.forall_mem_cons] at hframes
    obtain ⟨hb, hframes⟩ := hframes
    obtain ⟨h0, h1, rest, rfl, -, -⟩ := hb.head
    simp only [List.flatten_cons, List.cons_append, List.append_assoc, List.cons.injEq] at hwire
    obtain ⟨rfl, rfl, hwire⟩ := hwire
    have hrest := hfirst hb _ rfl
    have hlast : frames.flatten ++ tail = [0x30] := by
      have := congrArg (List.drop 14) hwire
      rw [← hrest, List.drop_left] at this
      rw [← this, hrest]
      decide
    cases frames with
    | nil => exact htail' htail hlast
    | cons c frames =>
      obtain ⟨c0, c1, rest', rfl, -, -⟩ := (hframes c List.mem_cons_self).head
      cases hlast

/-- The writer's text frame fails after one byte while the reader stands with a pong between its
look at `broken` and its write. -/
theorem pong_after_failed_write : ∃ s, Relation.ReflTransGen Step .init s ∧ ¬Intact s.wire := by
  let text : Frame := ⟨true, false, opcodeText, [0x68]⟩
  let pong : Frame := ⟨true, false, opcodePong, .replicate 10 0x30⟩
  have hrun : (run .init [.enter .writer .unlessClosed text ⟨1, 2, 3, 4⟩,
      .enter .reader .pong pong ⟨0, 0, 0, 0⟩, .check .writer, .check .reader, .write .writer 1,
      .setBroken .writer, .write .reader 16]).map (·.wire) = some corrupted := by decide
  obtain ⟨s, hs, hwire⟩ := Option.map_eq_some_iff.mp hrun
  exact ⟨s, run_steps hs, hwire ▸ corrupted_not_intact⟩

end Rsurl.WebSocket.Interleaving
