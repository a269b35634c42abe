import Rsurl.Library.Framing
import Rsurl.Library.Loop

/-!
# Receivers

A receiver reads units off a stream and lets each act on its state, until one of them yields a
value. Called again it goes on with the next unit; a failing read interrupts it between two units
and loses nothing. `Ends` says how a call ends on the unread bytes alone, `Silent` what units that
yield nothing do on the way, and `Transcript` what a whole session of calls yields.
-/

namespace Rsurl.Library.Receiver

open Framing Loop

variable {α β γ ε ι σ : Type*}

/-- What is buffered, the reads to come, and the state that units act on. -/
structure Feed (ι β σ : Type*) where
  rx : List β
  reads : List (Read ι β)
  core : σ

def Feed.unread (r : Feed ι β σ) : List β := Framing.unread r.rx r.reads

/-- What a unit does, and what becomes of the state when there is no unit. -/
structure Handler (α γ ε σ : Type*) where
  step : α → σ → Outcome ε σ (Option γ)
  failed : ε → σ → σ

/-- The next unit. -/
def next (fmt : Format α β ε ι) (hd : Handler α γ ε σ) (r : Feed ι β σ) :
    Outcome ε (Feed ι β σ) α :=
  match readUnit fmt r.rx r.reads with
  | .ok a (rx, reads) => .ok a ⟨rx, reads, r.core⟩
  | .error e (rx, reads) => .error e ⟨rx, reads, hd.failed e r.core⟩

/-- One turn: a unit, and what it does. -/
def turn (fmt : Format α β ε ι) (hd : Handler α γ ε σ) (r : Feed ι β σ) :
    Turn (Feed ι β σ) (Outcome ε (Feed ι β σ) γ) :=
  match next fmt hd r with
  | .error e r => .done (.error e r)
  | .ok a r => match hd.step a r.core with
    | .error e core => .done (.error e { r with core })
    | .ok (some v) core => .done (.ok v { r with core })
    | .ok none core => .next { r with core }

variable {fmt : Format α β ε ι} {hd : Handler α γ ε σ}

theorem next_found (hp : fmt.Stable) {r r' : Feed ι β σ} {a : α} (h : next fmt hd r = .ok a r') :
    ∃ n, fmt.parse r.unread = .ok (some (a, n)) ∧ r'.unread = r.unread.drop n ∧
      r'.core = r.core ∧ r'.reads <:+ r.reads := by
  have hreads := readUnit_reads hp r.rx r.reads
  unfold next at h
  generalize readUnit fmt r.rx r.reads = out at h hreads
  cases hreads with
  | found hp hu hs =>
    cases h
    exact ⟨_, hp, hu, rfl, hs⟩
  | refused => cases h
  | ended => cases h
  | failed => cases h

theorem lowers_turn (hp : fmt.Stable) (hd : Handler α γ ε σ) :
    Lowers (turn fmt hd) fun r : Feed ι β σ => r.unread.length := by
  intro r r' h
  unfold turn at h
  split at h
  · cases h
  · rename_i a q hq
    obtain ⟨n, hparse, hdrop, -, -⟩ := next_found hp hq
    have hn := hp.pos _ a n hparse
    split at h <;> cases h
    change q.unread.length < r.unread.length
    rw [hdrop, List.length_drop]
    omega

/-- Units until one of them yields a value. -/
def receive (hp : fmt.Stable) (hd : Handler α γ ε σ) (r : Feed ι β σ) :
    Outcome ε (Feed ι β σ) γ :=
  run (turn fmt hd) (fun r => r.unread.length) (lowers_turn hp hd) r

/-! ## On the unread bytes -/

/-- Units that yield nothing. -/
inductive Silent (fmt : Format α β ε ι) (hd : Handler α γ ε σ) :
    List β → σ → List β → σ → Prop where
  | refl (u : List β) (s : σ) : Silent fmt hd u s u s
  | unit {u u' : List β} {s t s' : σ} {a : α} {n : Nat} (hp : fmt.parse u = .ok (some (a, n)))
      (hs : hd.step a s = .ok none t) (h : Silent fmt hd (u.drop n) t u' s') :
      Silent fmt hd u s u' s'

/-- How a call ends that no failing read interrupts. -/
inductive Ends (fmt : Format α β ε ι) (hd : Handler α γ ε σ) :
    List β → σ → Outcome ε (List β × σ) γ → Prop where
  | refused {u : List β} {s : σ} {e : ε} (hp : fmt.parse u = .error e) :
      Ends fmt hd u s (.error e (u, hd.failed e s))
  | ended {u : List β} {s : σ} (hp : fmt.parse u = .ok none) :
      Ends fmt hd u s (.error fmt.eof (u, hd.failed fmt.eof s))
  | value {u : List β} {s s' : σ} {a : α} {n : Nat} {v : γ}
      (hp : fmt.parse u = .ok (some (a, n))) (hs : hd.step a s = .ok (some v) s') :
      Ends fmt hd u s (.ok v (u.drop n, s'))
  | error {u : List β} {s s' : σ} {a : α} {n : Nat} {e : ε}
      (hp : fmt.parse u = .ok (some (a, n))) (hs : hd.step a s = .error e s') :
      Ends fmt hd u s (.error e (u.drop n, s'))
  | unit {u : List β} {s t : σ} {a : α} {n : Nat} {out : Outcome ε (List β × σ) γ}
      (hp : fmt.parse u = .ok (some (a, n))) (hs : hd.step a s = .ok none t)
      (h : Ends fmt hd (u.drop n) t out) : Ends fmt hd u s out

/-- What is seen of a feed without the reads that bring the bytes. -/
def Feed.view (r : Feed ι β σ) : List β × σ := (r.unread, r.core)

/-- How a call ends: on its own, or interrupted by a failing read. -/
inductive Received (fmt : Format α β ε ι) (hd : Handler α γ ε σ) (r : Feed ι β σ) :
    Outcome ε (Feed ι β σ) γ → Prop where
  | ends {out : Outcome ε (Feed ι β σ) γ} (h : Ends fmt hd r.unread r.core (out.mapState Feed.view))
      (hs : out.state.reads <:+ r.reads) : Received fmt hd r out
  | interrupted {i : ι} {r' : Feed ι β σ} {s : σ} (h : Silent fmt hd r.unread r.core r'.unread s)
      (hc : r'.core = hd.failed (fmt.lift i) s) (hs : .failed i :: r'.reads <:+ r.reads) :
      Received fmt hd r (.error (fmt.lift i) r')

theorem turn_received (hp : fmt.Stable) (r : Feed ι β σ) (out : Outcome ε (Feed ι β σ) γ)
    (h : turn fmt hd r = .done out) : Received fmt hd r out := by
  have hreads := readUnit_reads hp r.rx r.reads
  unfold turn next at h
  generalize readUnit fmt r.rx r.reads = u at h hreads
  cases hreads with
  | @found a n rx' reads' hparse hu hs =>
    have hview (core : σ) : (Feed.mk rx' reads' core).view = (r.unread.drop n, core) :=
      congrArg (·, core) hu
    simp only at h
    cases hstep : hd.step a r.core with
    | error e core =>
      simp only [hstep, Turn.done.injEq] at h
      subst h
      refine .ends ?_ hs
      rw [Outcome.mapState, hview]
      exact .error hparse hstep
    | ok w core =>
      cases w with
      | none => simp [hstep] at h
      | some v =>
        simp only [hstep, Turn.done.injEq] at h
        subst h
        refine .ends ?_ hs
        rw [Outcome.mapState, hview]
        exact .value hparse hstep
  | @refused e rx' reads' hparse hu hs =>
    cases h
    refine .ends ?_ hs
    have hview : (Feed.mk rx' reads' (hd.failed e r.core)).view =
        (r.unread, hd.failed e r.core) := congrArg (·, hd.failed e r.core) hu
    rw [Outcome.mapState, hview]
    exact .refused hparse
  | @ended rx' hparse hu =>
    cases h
    refine .ends ?_ (List.nil_suffix)
    have hview : (Feed.mk rx' ([] : List (Read ι β)) (hd.failed fmt.eof r.core)).view =
        (r.unread, hd.failed fmt.eof r.core) := by
      simp [Feed.view, Feed.unread, Framing.unread, hu]
    rw [Outcome.mapState, hview]
    exact .ended hparse
  | @failed i rx' reads' hu hs =>
    cases h
    refine .interrupted (s := r.core) ?_ rfl hs
    have hsame : (Feed.mk rx' reads' (hd.failed (fmt.lift i) r.core)).unread = r.unread := hu
    rw [hsame]
    exact .refl _ _

theorem turn_next (hp : fmt.Stable) {r r' : Feed ι β σ} (h : turn fmt hd r = .next r') :
    ∃ a n, fmt.parse r.unread = .ok (some (a, n)) ∧ hd.step a r.core = .ok none r'.core ∧
      r'.unread = r.unread.drop n ∧ r'.reads <:+ r.reads := by
  unfold turn at h
  split at h
  · cases h
  · rename_i a q hq
    obtain ⟨n, hparse, hdrop, hcore, hs⟩ := next_found hp hq
    split at h
    · cases h
    · cases h
    · rename_i core hstep
      cases h
      exact ⟨a, n, hparse, hcore ▸ hstep, hdrop, hs⟩

theorem receive_received (hp : fmt.Stable) (r : Feed ι β σ) :
    Received fmt hd r (receive hp hd r) := by
  refine run_rule (lowers_turn hp hd) (fun r out => Received fmt hd r out)
    (fun r out h => turn_received hp r out h) ?_ r
  intro r r' out h hout
  obtain ⟨a, n, hparse, hstep, hdrop, hs⟩ := turn_next hp h
  cases hout with
  | ends hends hs' => exact .ends (.unit hparse hstep (hdrop ▸ hends)) (hs'.trans hs)
  | interrupted hsil hc hs' =>
    exact .interrupted (.unit hparse hstep (hdrop ▸ hsil)) hc (hs'.trans hs)

theorem Ends.unique {u : List β} {s : σ} {out out' : Outcome ε (List β × σ) γ}
    (h : Ends fmt hd u s out) (h' : Ends fmt hd u s out') : out = out' := by
  induction h with
  | refused hp => cases h' <;> simp_all
  | ended hp => cases h' <;> simp_all
  | value hp hs => cases h' <;> simp_all
  | error hp hs => cases h' <;> simp_all
  | unit hp hs h ih => 
    cases h' with
    | unit hp' hs' h' => 
      rw [hp] at hp'
      cases hp'
      rw [hs] at hs'
      cases hs'
      exact ih h'
    | _ => simp_all

/-- Units that yield nothing do not change how a call ends. -/
theorem Silent.ends {u u' : List β} {s s' : σ} {out : Outcome ε (List β × σ) γ}
    (h : Silent fmt hd u s u' s') (h' : Ends fmt hd u' s' out) : Ends fmt hd u s out := by
  induction h with
  | refl => exact h'
  | unit hp hs _ ih => exact .unit hp hs (ih h')

theorem Silent.trans {u u' u'' : List β} {s s' s'' : σ} (h : Silent fmt hd u s u' s')
    (h' : Silent fmt hd u' s' u'' s'') : Silent fmt hd u s u'' s'' := by
  induction h with
  | refl => exact h'
  | unit hp hs _ ih => exact .unit hp hs (ih h')

/-- Without failing reads a call ends on its own. -/
theorem Received.ends_of_isData {r : Feed ι β σ} {out : Outcome ε (Feed ι β σ) γ}
    (h : Received fmt hd r out) (hdata : ∀ x ∈ r.reads, x.isData) :
    Ends fmt hd r.unread r.core (out.mapState Feed.view) ∧ ∀ x ∈ out.state.reads, x.isData := by
  cases h with
  | ends h hs => exact ⟨h, fun x hx => hdata x (hs.subset hx)⟩
  | interrupted h hc hs => exact absurd (hdata _ (hs.subset List.mem_cons_self)) (by simp [Read.isData])

/-- How a call ends once a unit has answered, with `u` unread after it. -/
def EndsAfter (fmt : Format α β ε ι) (hd : Handler α γ ε σ) (u : List β)
    (out : Outcome ε (List β × σ) γ) : Outcome ε σ (Option γ) → Prop
  | .error e s => out = .error e (u, s)
  | .ok none s => Ends fmt hd u s out
  | .ok (some v) s => out = .ok v (u, s)

theorem ends_iff_after {u : List β} {s : σ} {out : Outcome ε (List β × σ) γ} {a : α} {n : Nat}
    (hp : fmt.parse u = .ok (some (a, n))) :
    Ends fmt hd u s out ↔ EndsAfter fmt hd (u.drop n) out (hd.step a s) := by
  constructor
  · intro h
    cases h with
    | refused hp' => simp [hp] at hp'
    | ended hp' => simp [hp] at hp'
    | value hp' hs =>
      rw [hp] at hp'
      cases hp'
      rw [hs]
      rfl
    | error hp' hs =>
      rw [hp] at hp'
      cases hp'
      rw [hs]
      rfl
    | unit hp' hs h =>
      rw [hp] at hp'
      cases hp'
      rw [hs]
      exact h
  · intro h
    cases hs : hd.step a s with
    | error e t =>
      rw [hs] at h
      rw [show out = _ from h]
      exact .error hp hs
    | ok w t =>
      rw [hs] at h
      cases w with
      | none => exact .unit hp hs h
      | some v =>
        rw [show out = _ from h]
        exact .value hp hs

theorem Ends.of_ended {u : List β} {s : σ} {out : Outcome ε (List β × σ) γ}
    (h : Ends fmt hd u s out) (hp : fmt.parse u = .ok none) :
    out = .error fmt.eof (u, hd.failed fmt.eof s) := by
  cases h with
  | ended => rfl
  | _ hp' => simp [hp] at hp'

/-- A call that yields a value has used up bytes. -/
theorem Ends.lt_length (hp : fmt.Stable) {u : List β} {s : σ} {out : Outcome ε (List β × σ) γ}
    (h : Ends fmt hd u s out) {v : γ} {x : List β × σ} (hv : out = .ok v x) :
    x.1.length < u.length := by
  induction h with
  | refused => cases hv
  | ended => cases hv
  | error => cases hv
  | @value u s s' a n v hparse hs =>
    cases hv
    have := hp.pos _ a n hparse
    simp only [List.length_drop]
    omega
  | @unit u s t a n out hparse hs h ih =>
    have := hp.pos _ a n hparse
    have := ih hv
    rw [List.length_drop] at this
    omega

/-- What units keep, the value that ends a call is yielded under. -/
theorem Ends.ok_rule {I : σ → Prop} {Q : γ → σ → Prop}
    (hunit : ∀ a s t, I s → hd.step a s = .ok none t → I t)
    (hvalue : ∀ a s t v, I s → hd.step a s = .ok (some v) t → Q v t) {u : List β} {s : σ} {v : γ}
    {x : List β × σ} (h : Ends fmt hd u s (.ok v x)) (hs : I s) : Q v x.2 := by
  generalize hout : (Outcome.ok v x : Outcome ε (List β × σ) γ) = out at h
  induction h with
  | refused => cases hout
  | ended => cases hout
  | error => cases hout
  | value hp hstep =>
    cases hout
    exact hvalue _ _ _ _ hs hstep
  | unit hp hstep _ ih => exact ih (hunit _ _ _ hs hstep) hout

theorem receive_ends (hp : fmt.Stable) {r r' : Feed ι β σ} {v : γ}
    (h : receive hp hd r = .ok v r') : Ends fmt hd r.unread r.core (.ok v r'.view) := by
  have hr : Received fmt hd r _ := receive_received hp r
  rw [h] at hr
  cases hr with
  | ends h hs => exact h

theorem receive_lt (hp : fmt.Stable) {r r' : Feed ι β σ} {v : γ}
    (h : receive hp hd r = .ok v r') : r'.unread.length < r.unread.length :=
  (receive_ends hp h).lt_length hp rfl

/-- Call after call: the results, and the state after the last. -/
def calls {ρ : Type*} (recv : ρ → Outcome ε ρ γ) : Nat → ρ → List (Except ε γ) × ρ
  | 0, r => ([], r)
  | n + 1, r =>
    let out := recv r
    let rest := calls recv n out.state
    (out.result :: rest.1, rest.2)

/-! ## Receivers that skip -/

/-- Skip the values that are not kept. -/
def Handler.skip {γ' : Type*} (hd : Handler α γ ε σ) (keep : γ → Option γ') :
    Handler α γ' ε σ where
  step a s := (hd.step a s).andThen fun v s => .ok (v.bind keep) s
  failed := hd.failed

/-- A turn of a receiver that skips: a value that is not kept ends no call. -/
def skipTurn {γ' : Type*} (keep : γ → Option γ') :
    Turn (Feed ι β σ) (Outcome ε (Feed ι β σ) γ) → Turn (Feed ι β σ) (Outcome ε (Feed ι β σ) γ')
  | .next r => .next r
  | .done (.error e r) => .done (.error e r)
  | .done (.ok v r) => match keep v with
    | some w => .done (.ok w r)
    | none => .next r

theorem turn_skip {γ' : Type*} (keep : γ → Option γ') (r : Feed ι β σ) :
    turn fmt (hd.skip keep) r = skipTurn keep (turn fmt hd r) := by
  have hsame : next fmt (hd.skip keep) r = next fmt hd r := rfl
  unfold turn
  rw [hsame]
  cases next fmt hd r with
  | error e r' => rfl
  | ok a r' =>
    simp only [Handler.skip]
    cases hd.step a r'.core with
    | error e core => rfl
    | ok w core =>
      cases w with
      | none => rfl
      | some v => cases hk : keep v <;> simp [skipTurn, hk]

/-- Calling again after a value that is not kept comes to skipping it. -/
theorem receive_skip {γ' : Type*} (hp : fmt.Stable) (keep : γ → Option γ') (r : Feed ι β σ) :
    receive hp (hd.skip keep) r = match receive hp hd r with
      | .error e r => .error e r
      | .ok v r => match keep v with
        | some w => .ok w r
        | none => receive hp (hd.skip keep) r := by
  refine run_rule (lowers_turn hp hd) (fun r out => receive hp (hd.skip keep) r = match out with
    | .error e r => .error e r
    | .ok v r => match keep v with
      | some w => .ok w r
      | none => receive hp (hd.skip keep) r) ?_ ?_ r
  · intro r out hdone
    have hskip : turn fmt (hd.skip keep) r = _ := turn_skip keep r
    rw [hdone] at hskip
    cases out with
    | error e r' => exact run_done hskip
    | ok v r' =>
      cases hk : keep v with
      | some w =>
        simp only [skipTurn, hk] at hskip ⊢
        exact run_done hskip
      | none =>
        simp only [skipTurn, hk] at hskip ⊢
        exact run_next hskip
  · intro r r' out hnext ih
    have hskip : turn fmt (hd.skip keep) r = _ := turn_skip keep r
    rw [hnext] at hskip
    exact (run_next hskip).trans ih

/-! ## Sessions -/

/-- Call after call, up to the first that fails or yields a last value: the values before it, each
with what was unread after it, and how the session ended. -/
def sessionTurn (recv : Feed ι β σ → Outcome ε (Feed ι β σ) γ) (last : γ → Bool)
    (x : List (γ × List β) × Feed ι β σ) :
    Turn (List (γ × List β) × Feed ι β σ) (List (γ × List β) × Outcome ε (Feed ι β σ) γ) :=
  match recv x.2 with
  | .error e r => .done (x.1, .error e r)
  | .ok v r => if last v then .done (x.1, .ok v r) else .next (x.1 ++ [(v, r.unread)], r)

/-- A call that yields a value that is not the last has used up bytes. -/
def UsesUp (recv : Feed ι β σ → Outcome ε (Feed ι β σ) γ) (last : γ → Bool) : Prop :=
  ∀ r v r', recv r = .ok v r' → last v = false → r'.unread.length < r.unread.length

theorem lowers_sessionTurn {recv : Feed ι β σ → Outcome ε (Feed ι β σ) γ} {last : γ → Bool}
    (h : UsesUp recv last) : Lowers (sessionTurn recv last) fun x => x.2.unread.length := by
  intro x x' hx
  unfold sessionTurn at hx
  split at hx
  · cases hx
  · rename_i v r hr
    split at hx
    · cases hx
    · rename_i hlast
      cases hx
      exact h _ _ _ hr (by simpa using hlast)

def session (recv : Feed ι β σ → Outcome ε (Feed ι β σ) γ) (last : γ → Bool)
    (h : UsesUp recv last) (r : Feed ι β σ) : List (γ × List β) × Outcome ε (Feed ι β σ) γ :=
  run (sessionTurn recv last) (fun x => x.2.unread.length) (lowers_sessionTurn h) ([], r)

/-- A session, unit by unit. -/
inductive Transcript (fmt : Format α β ε ι) (hd : Handler α γ ε σ) (last : γ → Bool) :
    List β → σ → List (γ × List β) → Outcome ε (List β × σ) γ → Prop where
  | refused {u : List β} {s : σ} {e : ε} (hp : fmt.parse u = .error e) :
      Transcript fmt hd last u s [] (.error e (u, hd.failed e s))
  | ended {u : List β} {s : σ} (hp : fmt.parse u = .ok none) :
      Transcript fmt hd last u s [] (.error fmt.eof (u, hd.failed fmt.eof s))
  | error {u : List β} {s s' : σ} {a : α} {n : Nat} {e : ε}
      (hp : fmt.parse u = .ok (some (a, n))) (hs : hd.step a s = .error e s') :
      Transcript fmt hd last u s [] (.error e (u.drop n, s'))
  | last {u : List β} {s s' : σ} {a : α} {n : Nat} {v : γ}
      (hp : fmt.parse u = .ok (some (a, n))) (hs : hd.step a s = .ok (some v) s')
      (hv : last v = true) : Transcript fmt hd last u s [] (.ok v (u.drop n, s'))
  | value {u : List β} {s s' : σ} {a : α} {n : Nat} {v : γ} {vs : List (γ × List β)}
      {out : Outcome ε (List β × σ) γ} (hp : fmt.parse u = .ok (some (a, n)))
      (hs : hd.step a s = .ok (some v) s') (hv : last v = false)
      (h : Transcript fmt hd last (u.drop n) s' vs out) :
      Transcript fmt hd last u s ((v, u.drop n) :: vs) out
  | unit {u : List β} {s t : σ} {a : α} {n : Nat} {vs : List (γ × List β)}
      {out : Outcome ε (List β × σ) γ} (hp : fmt.parse u = .ok (some (a, n)))
      (hs : hd.step a s = .ok none t) (h : Transcript fmt hd last (u.drop n) t vs out) :
      Transcript fmt hd last u s vs out

variable {last : γ → Bool}

theorem Ends.transcript_error {u : List β} {s : σ} {e : ε} {x : List β × σ}
    (h : Ends fmt hd u s (.error e x)) : Transcript fmt hd last u s [] (.error e x) := by
  generalize hout : (Outcome.error e x : Outcome ε (List β × σ) γ) = out at h
  induction h with
  | refused hp =>
    cases hout
    exact .refused hp
  | ended hp =>
    cases hout
    exact .ended hp
  | value => cases hout
  | error hp hs =>
    cases hout
    exact .error hp hs
  | unit hp hs _ ih => exact .unit hp hs (ih hout)

theorem Ends.transcript_last {u : List β} {s : σ} {v : γ} {x : List β × σ}
    (h : Ends fmt hd u s (.ok v x)) (hv : last v = true) :
    Transcript fmt hd last u s [] (.ok v x) := by
  generalize hout : (Outcome.ok v x : Outcome ε (List β × σ) γ) = out at h
  induction h with
  | refused => cases hout
  | ended => cases hout
  | error => cases hout
  | value hp hs =>
    cases hout
    exact .last hp hs hv
  | unit hp hs _ ih => exact .unit hp hs (ih hout)

theorem Ends.transcript_value {u : List β} {s : σ} {v : γ} {x : List β × σ}
    {vs : List (γ × List β)} {out : Outcome ε (List β × σ) γ} (h : Ends fmt hd u s (.ok v x))
    (hv : last v = false) (hvs : Transcript fmt hd last x.1 x.2 vs out) :
    Transcript fmt hd last u s ((v, x.1) :: vs) out := by
  generalize hout : (Outcome.ok v x : Outcome ε (List β × σ) γ) = o at h
  induction h with
  | refused => cases hout
  | ended => cases hout
  | error => cases hout
  | value hp hs =>
    cases hout
    exact .value hp hs hv hvs
  | unit hp hs _ ih => exact .unit hp hs (ih hout)

/-- A session of calls that are `receive` while `I` holds is a transcript: only the unread bytes
matter. -/
theorem session_transcript {recv : Feed ι β σ → Outcome ε (Feed ι β σ) γ} (h : UsesUp recv last)
    {I : σ → Prop}
    (hends : ∀ r, I r.core → (∀ x ∈ r.reads, x.isData) →
      Ends fmt hd r.unread r.core ((recv r).mapState Feed.view) ∧
        (∀ x ∈ (recv r).state.reads, x.isData) ∧
        ∀ v r', recv r = .ok v r' → last v = false → I r'.core)
    (r : Feed ι β σ) (hI : I r.core) (hdata : ∀ x ∈ r.reads, x.isData) :
    Transcript fmt hd last r.unread r.core (session recv last h r).1
      ((session recv last h r).2.mapState Feed.view) := by
  have hall := run_rule (lowers_sessionTurn h) (fun x res => I x.2.core →
    (∀ y ∈ x.2.reads, y.isData) → ∃ vs, res.1 = x.1 ++ vs ∧
      Transcript fmt hd last x.2.unread x.2.core vs (res.2.mapState Feed.view)) ?_ ?_ ([], r) hI hdata
  · obtain ⟨vs, hvs, ht⟩ := hall
    rw [List.nil_append] at hvs
    exact hvs ▸ ht
  · intro x res hdone hI hdata
    obtain ⟨hrecv, -, -⟩ := hends x.2 hI hdata
    unfold sessionTurn at hdone
    cases hr : recv x.2 with
    | error e r' =>
      rw [hr] at hdone hrecv
      cases hdone
      exact ⟨[], (List.append_nil _).symm, hrecv.transcript_error⟩
    | ok v r' =>
      rw [hr] at hdone hrecv
      cases hv : last v with
      | false => simp [hv] at hdone
      | true =>
        simp only [hv, if_true, Turn.done.injEq] at hdone
        subst hdone
        exact ⟨[], (List.append_nil _).symm, hrecv.transcript_last hv⟩
  · intro x x' res hnext ih hI hdata
    obtain ⟨hrecv, hreads, hkeep⟩ := hends x.2 hI hdata
    unfold sessionTurn at hnext
    cases hr : recv x.2 with
    | error e r' => simp [hr] at hnext
    | ok v r' =>
      rw [hr] at hnext hrecv hreads
      cases hv : last v with
      | true => simp [hv] at hnext
      | false =>
        simp only [hv, Turn.next.injEq, Bool.false_eq_true, if_false] at hnext
        subst hnext
        obtain ⟨vs, hvs, ht⟩ := ih (hkeep v r' hr hv) hreads
        refine ⟨(v, r'.unread) :: vs, ?_, hrecv.transcript_value hv ht⟩
        rw [hvs]
        simp

/-- What a transcript says once a unit has answered, with `u` unread after it. -/
def After (fmt : Format α β ε ι) (hd : Handler α γ ε σ) (last : γ → Bool) (u : List β)
    (vs : List (γ × List β)) (out : Outcome ε (List β × σ) γ) : Outcome ε σ (Option γ) → Prop
  | .error e s => vs = [] ∧ out = .error e (u, s)
  | .ok none s => Transcript fmt hd last u s vs out
  | .ok (some v) s =>
    if last v then vs = [] ∧ out = .ok v (u, s)
    else ∃ rest, vs = (v, u) :: rest ∧ Transcript fmt hd last u s rest out

theorem Transcript.after {u : List β} {s : σ} {vs : List (γ × List β)}
    {out : Outcome ε (List β × σ) γ} (h : Transcript fmt hd last u s vs out) {a : α} {n : Nat}
    (hp : fmt.parse u = .ok (some (a, n))) :
    After fmt hd last (u.drop n) vs out (hd.step a s) := by
  cases h with
  | refused hp' => simp [hp] at hp'
  | ended hp' => simp [hp] at hp'
  | error hp' hs =>
    rw [hp] at hp'
    cases hp'
    simp [After, hs]
  | last hp' hs hv =>
    rw [hp] at hp'
    cases hp'
    simp [After, hs, hv]
  | value hp' hs hv h =>
    rw [hp] at hp'
    cases hp'
    rw [hs]
    simp only [After, hv, Bool.false_eq_true, if_false]
    exact ⟨_, rfl, h⟩
  | unit hp' hs h =>
    rw [hp] at hp'
    cases hp'
    rw [hs]
    exact h

theorem Transcript.of_refused {u : List β} {s : σ} {vs : List (γ × List β)}
    {out : Outcome ε (List β × σ) γ} (h : Transcript fmt hd last u s vs out) {e : ε}
    (hp : fmt.parse u = .error e) : vs = [] ∧ out = .error e (u, hd.failed e s) := by
  cases h with
  | refused hp' =>
    rw [hp] at hp'
    cases hp'
    exact ⟨rfl, rfl⟩
  | _ hp' => simp [hp] at hp'

theorem Transcript.of_ended {u : List β} {s : σ} {vs : List (γ × List β)}
    {out : Outcome ε (List β × σ) γ} (h : Transcript fmt hd last u s vs out)
    (hp : fmt.parse u = .ok none) : vs = [] ∧ out = .error fmt.eof (u, hd.failed fmt.eof s) := by
  cases h with
  | ended => exact ⟨rfl, rfl⟩
  | _ hp' => simp [hp] at hp'

/-- A unit that does not end the session adds the value it yields. -/
theorem After.goOn {u : List β} {s : σ} {vs : List (γ × List β)} {out : Outcome ε (List β × σ) γ}
    {o : Option γ} (h : After fmt hd last u vs out (.ok o s))
    (ho : ∀ v, o = some v → last v = false) :
    ∃ rest, vs = o.toList.map (·, u) ++ rest ∧ Transcript fmt hd last u s rest out := by
  cases o with
  | none => exact ⟨vs, rfl, h⟩
  | some v =>
    simp only [After, ho v rfl, Bool.false_eq_true, if_false] at h
    exact h

/-! ## Two receivers -/

variable {δ τ : Type*}

/-- The values of a session that are shown, each with what was unread after it. -/
def shownOf (shown : γ → Option δ) (vs : List (γ × List β)) : List (δ × List β) :=
  vs.filterMap fun x => (shown x.1).map (·, x.2)

theorem shownOf_append (shown : γ → Option δ) (vs ws : List (γ × List β)) :
    shownOf shown (vs ++ ws) = shownOf shown vs ++ shownOf shown ws := List.filterMap_append

theorem shownOf_toList (shown : γ → Option δ) (o : Option γ) (u : List β) :
    shownOf shown (o.toList.map (·, u)) = (o.bind shown).toList.map (·, u) := by
  cases o with
  | none => rfl
  | some v => cases h : shown v <;> simp [shownOf, h]

/-- What an outcome shows; `none` if it is an error. -/
def outcomeShown (shown : γ → Option δ) : Outcome ε τ γ → Option (Option δ)
  | .ok v _ => some (shown v)
  | .error _ _ => none

/-- The values are shown the same, or there are errors on both sides; the same is left unread. -/
def Over {γ' : Type*} (shown : γ → Option δ) (shown' : γ' → Option δ) (F : σ → τ → Prop)
    (out : Outcome ε (List β × σ) γ) (out' : Outcome ε (List β × τ) γ') : Prop :=
  outcomeShown shown out = outcomeShown shown' out' ∧ out.state.1 = out'.state.1 ∧
    F out.state.2 out'.state.2

/-- Two receivers find the same in a unit: both fail, or both have their last value, or both go on
and show the same. `R` relates them while they go on, `F` when they are done. -/
inductive Matches {γ' : Type*} (last : γ → Bool) (last' : γ' → Bool) (shown : γ → Option δ)
    (shown' : γ' → Option δ) (R F : σ → τ → Prop) :
    Outcome ε σ (Option γ) → Outcome ε τ (Option γ') → Prop where
  | failed {e e' : ε} {s : σ} {t : τ} (h : F s t) :
      Matches last last' shown shown' R F (.error e s) (.error e' t)
  | last {v : γ} {w : γ'} {s : σ} {t : τ} (hv : last v = true) (hw : last' w = true)
      (hs : shown v = shown' w) (h : F s t) :
      Matches last last' shown shown' R F (.ok (some v) s) (.ok (some w) t)
  | goOn {o : Option γ} {o' : Option γ'} {s : σ} {t : τ} (ho : ∀ v, o = some v → last v = false)
      (ho' : ∀ w, o' = some w → last' w = false) (hs : o.bind shown = o'.bind shown') (h : R s t) :
      Matches last last' shown shown' R F (.ok o s) (.ok o' t)

/-- Two effects that go alike, and what is yielded after them. -/
theorem Matches.of_effect {γ' : Type*} {last : γ → Bool} {last' : γ' → Bool} {shown : γ → Option δ}
    {shown' : γ' → Option δ} {R F : σ → τ → Prop} {x : Outcome ε σ Unit} {y : Outcome ε τ Unit}
    (hok : x.result.isOk = y.result.isOk) (hF : F x.state y.state)
    (hR : x.result.isOk = true → R x.state y.state) {o : Option γ} {o' : Option γ'}
    (ho : ∀ v, o = some v → last v = false) (ho' : ∀ w, o' = some w → last' w = false)
    (hs : o.bind shown = o'.bind shown') :
    Matches last last' shown shown' R F (x.andThen fun _ s => .ok o s)
      (y.andThen fun _ t => .ok o' t) := by
  cases x with
  | ok _ s =>
    cases y with
    | ok _ t => exact .goOn ho ho' hs (hR rfl)
    | error e' t => cases hok
  | error e s =>
    cases y with
    | ok _ t => cases hok
    | error e' t => exact .failed hF

/-- Two receivers that find the same in every unit of the format, whatever else they keep. -/
structure Alike {γ' : Type*} (fmt : Format α β ε ι) (hd : Handler α γ ε σ) (hd' : Handler α γ' ε τ)
    (last : γ → Bool) (last' : γ' → Bool) (shown : γ → Option δ) (shown' : γ' → Option δ)
    (R F : σ → τ → Prop) : Prop where
  step : ∀ a s t, (∃ u n, fmt.parse u = .ok (some (a, n))) → R s t →
    Matches last last' shown shown' R F (hd.step a s) (hd'.step a t)
  failed : ∀ e s t, R s t → F (hd.failed e s) (hd'.failed e t)

theorem Transcript.alike (hp : fmt.Stable) {γ' : Type*} {hd' : Handler α γ' ε τ}
    {last' : γ' → Bool} {shown : γ → Option δ} {shown' : γ' → Option δ} {R F : σ → τ → Prop}
    (h : Alike fmt hd hd' last last' shown shown' R F) {u : List β} {s : σ} {t : τ}
    {vs : List (γ × List β)} {vs' : List (γ' × List β)} {out : Outcome ε (List β × σ) γ}
    {out' : Outcome ε (List β × τ) γ'} (hR : R s t) (h₁ : Transcript fmt hd last u s vs out)
    (h₂ : Transcript fmt hd' last' u t vs' out') :
    shownOf shown vs = shownOf shown' vs' ∧ Over shown shown' F out out' := by
  -- both sessions take the units one by one, and each unit is the same to both
  induction hn : u.length using Nat.strongRecOn generalizing u s t vs vs' with
  | ind n ih =>
    cases hparse : fmt.parse u with
    | error e =>
      obtain ⟨rfl, rfl⟩ := h₁.of_refused hparse
      obtain ⟨rfl, rfl⟩ := h₂.of_refused hparse
      exact ⟨rfl, rfl, rfl, h.failed _ _ _ hR⟩
    | ok found =>
      cases found with
      | none =>
        obtain ⟨rfl, rfl⟩ := h₁.of_ended hparse
        obtain ⟨rfl, rfl⟩ := h₂.of_ended hparse
        exact ⟨rfl, rfl, rfl, h.failed _ _ _ hR⟩
      | some unit =>
        obtain ⟨a, k⟩ := unit
        have hk := hp.pos u a k hparse
        have hshort : (u.drop k).length < n := by
          rw [List.length_drop]
          omega
        have hm := h.step a s t ⟨u, k, hparse⟩ hR
        have ha := h₁.after hparse
        have ha' := h₂.after hparse
        generalize hd.step a s = x at hm ha
        generalize hd'.step a t = y at hm ha'
        cases hm with
        | failed hF =>
          obtain ⟨rfl, rfl⟩ := ha
          obtain ⟨rfl, rfl⟩ := ha'
          exact ⟨rfl, rfl, rfl, hF⟩
        | last hv hw hshown hF =>
          simp only [After, hv, hw, if_true] at ha ha'
          obtain ⟨rfl, rfl⟩ := ha
          obtain ⟨rfl, rfl⟩ := ha'
          exact ⟨rfl, congrArg some hshown, rfl, hF⟩
        | goOn ho ho' hshown hR' =>
          obtain ⟨rest, hvs, hrest⟩ := ha.goOn ho
          obtain ⟨rest', hvs', hrest'⟩ := ha'.goOn ho'
          obtain ⟨heq, hover⟩ := ih _ hshort hR' hrest hrest' rfl
          refine ⟨?_, hover⟩
          rw [hvs, hvs', shownOf_append, shownOf_append, heq, shownOf_toList, shownOf_toList, hshown]

theorem Transcript.not_last {u : List β} {s : σ} {vs : List (γ × List β)}
    {out : Outcome ε (List β × σ) γ} (h : Transcript fmt hd last u s vs out) :
    ∀ x ∈ vs, last x.1 = false := by
  induction h with
  | value hp hs hv _ ih =>
    intro x hx
    rcases List.mem_cons.mp hx with rfl | hx
    · exact hv
    · exact ih x hx
  | unit hp hs _ ih => exact ih
  | _ =>
    intro x hx
    cases hx

/-! ## Stopping earlier -/

/-- The outcome of a session that is cut at the first value with `stop`. -/
def cutOutcome (stop : γ → Bool) (vs : List (γ × List β)) (out : Outcome ε (List β × σ) γ) :
    Except ε γ × List β :=
  match vs.find? fun x => stop x.1 with
  | some (v, u) => (.ok v, u)
  | none => (out.result, out.state.1)

/-- A session that stops earlier is the start of the longer one. -/
theorem Transcript.cut {stop : γ → Bool} (hstop : ∀ v, last v = true → stop v = true) {u : List β}
    {s : σ} {vs : List (γ × List β)} {out : Outcome ε (List β × σ) γ}
    (h : Transcript fmt hd last u s vs out) : ∃ vs' out', Transcript fmt hd stop u s vs' out' ∧
      vs' = vs.takeWhile (fun x => !stop x.1) ∧
      (out'.result, out'.state.1) = cutOutcome stop vs out := by
  induction h with
  | refused hp => exact ⟨[], _, .refused hp, rfl, rfl⟩
  | ended hp => exact ⟨[], _, .ended hp, rfl, rfl⟩
  | error hp hs => exact ⟨[], _, .error hp hs, rfl, rfl⟩
  | last hp hs hv => exact ⟨[], _, .last hp hs (hstop _ hv), rfl, rfl⟩
  | @value u s s' a n v vs out hp hs hv h ih =>
    obtain ⟨vs', out', ht, hvs, hout⟩ := ih
    cases hst : stop v with
    | true =>
      exact ⟨[], _, .last hp hs hst, by simp [hst], by simp [cutOutcome, hst]⟩
    | false =>
      refine ⟨_, out', .value hp hs hst ht, by simp [hst, hvs], ?_⟩
      rw [hout]
      simp [cutOutcome, hst]
  | unit hp hs h ih =>
    obtain ⟨vs', out', ht, hvs, hout⟩ := ih
    exact ⟨vs', out', .unit hp hs ht, hvs, hout⟩

end Rsurl.Library.Receiver
