import Rsurl.Library.Outcome

/-!
# Programs that talk

A program that talks asks one thing after another and goes on with the answers, until it is done or
fails. It says nothing about who answers: what holds whatever the answers are is shown of the program
alone, and a world, which answers from its state, only adds what its answers are.
-/

namespace Rsurl.Library

inductive Talk (Op : Type) (Ans : Op → Type) (ε α : Type) where
  | done (a : α)
  | fail (e : ε)
  | ask (op : Op) (next : Ans op → Talk Op Ans ε α)

namespace Talk

variable {Op : Type} {Ans : Op → Type} {ε α β σ τ : Type}

def bind : Talk Op Ans ε α → (α → Talk Op Ans ε β) → Talk Op Ans ε β
  | done a, f => f a
  | fail e, _ => fail e
  | ask op next, f => ask op fun x => (next x).bind f

instance : Monad (Talk Op Ans ε) where
  pure := done
  bind := bind

@[simp] theorem pure_eq (a : α) : (pure a : Talk Op Ans ε α) = done a := rfl

@[simp] theorem done_bind (a : α) (f : α → Talk Op Ans ε β) : (done a >>= f) = f a := rfl

@[simp] theorem fail_bind (e : ε) (f : α → Talk Op Ans ε β) : (fail e >>= f) = fail e := rfl

@[simp] theorem ask_bind (op : Op) (next : Ans op → Talk Op Ans ε α) (f : α → Talk Op Ans ε β) :
    (ask op next >>= f) = ask op fun x => next x >>= f := rfl

theorem bind_done (t : Talk Op Ans ε α) : (t >>= done) = t := by
  induction t with
  | done a => rfl
  | fail e => rfl
  | ask op next ih => exact congrArg (ask op) (funext ih)

theorem bind_assoc {γ : Type} (t : Talk Op Ans ε α) (f : α → Talk Op Ans ε β)
    (g : β → Talk Op Ans ε γ) : ((t >>= f) >>= g) = t >>= fun a => f a >>= g := by
  induction t with
  | done a => rfl
  | fail e => rfl
  | ask op next ih => exact congrArg (ask op) (funext ih)

instance : LawfulMonad (Talk Op Ans ε) :=
  LawfulMonad.mk' _ (fun t => bind_done t) (fun _ _ => rfl) (fun t f g => bind_assoc t f g)

/-- Ask, and be done with the answer. -/
def request (op : Op) : Talk Op Ans ε (Ans op) := ask op done

def ofExcept : Except ε α → Talk Op Ans ε α
  | .ok a => done a
  | .error e => fail e

/-- A failure is a result like any other. -/
def attempt : Talk Op Ans ε α → Talk Op Ans ε (Except ε α)
  | done a => done (.ok a)
  | fail e => done (.error e)
  | ask op next => ask op fun x => (next x).attempt

/-! ## Runs -/

/-- What was asked, and the answer. -/
structure Event (Op : Type) (Ans : Op → Type) where
  op : Op
  answer : Ans op

/-- The program may end this way after these events. -/
def Run : Talk Op Ans ε α → List (Event Op Ans) → Except ε α → Prop
  | done a, evs, r => evs = [] ∧ r = .ok a
  | fail e, evs, r => evs = [] ∧ r = .error e
  | ask op next, evs, r => ∃ x rest, evs = ⟨op, x⟩ :: rest ∧ (next x).Run rest r

theorem run_bind {t : Talk Op Ans ε α} {f : α → Talk Op Ans ε β} {evs : List (Event Op Ans)}
    {r : Except ε β} : (t >>= f).Run evs r ↔
      (∃ e, t.Run evs (.error e) ∧ r = .error e) ∨
        ∃ a before after, evs = before ++ after ∧ t.Run before (.ok a) ∧ (f a).Run after r := by
  induction t generalizing evs with
  | done a =>
    constructor
    · exact fun h => .inr ⟨a, [], evs, rfl, ⟨rfl, rfl⟩, h⟩
    · rintro (⟨e, ⟨-, h⟩, -⟩ | ⟨b, before, after, rfl, ⟨rfl, h⟩, hf⟩)
      · cases h
      · cases h
        exact hf
  | fail e =>
    constructor
    · exact fun h => .inl ⟨e, ⟨h.1, rfl⟩, h.2⟩
    · rintro (⟨e', ⟨hnil, h⟩, rfl⟩ | ⟨b, before, after, -, ⟨-, h⟩, -⟩)
      · cases h
        exact ⟨hnil, rfl⟩
      · cases h
  | ask op next ih =>
    constructor
    · rintro ⟨x, rest, rfl, h⟩
      rcases (ih x).mp h with ⟨e, he, rfl⟩ | ⟨a, before, after, rfl, ha, hf⟩
      · exact .inl ⟨e, ⟨x, rest, rfl, he⟩, rfl⟩
      · exact .inr ⟨a, ⟨op, x⟩ :: before, after, rfl, ⟨x, before, rfl, ha⟩, hf⟩
    · rintro (⟨e, ⟨x, rest, rfl, h⟩, rfl⟩ | ⟨a, before, after, rfl, ⟨x, rest, rfl, h⟩, hf⟩)
      · exact ⟨x, rest, rfl, (ih x).mpr (.inl ⟨e, h, rfl⟩)⟩
      · exact ⟨x, rest ++ after, rfl, (ih x).mpr (.inr ⟨a, rest, after, rfl, h, hf⟩)⟩

/-- A run that succeeds is a run of each part that does. -/
theorem run_bind_ok {t : Talk Op Ans ε α} {f : α → Talk Op Ans ε β} {evs : List (Event Op Ans)}
    {b : β} : (t >>= f).Run evs (.ok b) ↔
      ∃ a before after, evs = before ++ after ∧ t.Run before (.ok a) ∧ (f a).Run after (.ok b) := by
  rw [run_bind]
  constructor
  · rintro (⟨e, -, h⟩ | h)
    · cases h
    · exact h
  · exact .inr

theorem run_ofExcept {r : Except ε α} {evs : List (Event Op Ans)} {a : α} :
    (ofExcept r : Talk Op Ans ε α).Run evs (.ok a) ↔ evs = [] ∧ r = .ok a := by
  cases r with
  | ok b => exact and_congr_right fun _ => eq_comm
  | error e =>
    constructor
    · rintro ⟨-, h⟩
      cases h
    · rintro ⟨-, h⟩
      cases h

theorem run_fail {e : ε} {evs : List (Event Op Ans)} {a : α} :
    ¬(fail e : Talk Op Ans ε α).Run evs (.ok a) := by
  rintro ⟨-, h⟩
  cases h

/-! ## What a program asks until something happens -/

/-- Until an event of `stop`, the program asks what it may only, and is done with what `post` says. -/
def Until (stop : Event Op Ans → Prop) (may : Op → Prop) (post : α → Prop) : Talk Op Ans ε α → Prop
  | done a => post a
  | fail _ => True
  | ask op next => may op ∧ ∀ x, stop ⟨op, x⟩ ∨ (next x).Until stop may post

section Until

variable {stop : Event Op Ans → Prop} {may : Op → Prop} {post : α → Prop} {t : Talk Op Ans ε α}

@[simp] theorem until_done {a : α} : (done a : Talk Op Ans ε α).Until stop may post ↔ post a := .rfl

@[simp] theorem until_fail {e : ε} : (fail e : Talk Op Ans ε α).Until stop may post := trivial

theorem Until.bind {post' : β → Prop} {f : α → Talk Op Ans ε β} (h : t.Until stop may post)
    (hf : ∀ a, post a → (f a).Until stop may post') : (t >>= f).Until stop may post' := by
  induction t with
  | done a => exact hf a h
  | fail e => exact trivial
  | ask op next ih => exact ⟨h.1, fun x => (h.2 x).imp_right (ih x)⟩

/-- The program asks nothing but what it may. -/
def Asks (may : Op → Prop) (t : Talk Op Ans ε α) : Prop :=
  t.Until (fun _ => False) may fun _ => True

theorem Until.mono {post' : α → Prop} (h : t.Until stop may post) (hpost : ∀ a, post a → post' a) :
    t.Until stop may post' := by
  induction t with
  | done a => exact hpost a h
  | fail e => exact trivial
  | ask op next ih => exact ⟨h.1, fun x => (h.2 x).imp_right (ih x)⟩

theorem Until.attempt (h : t.Until stop may post) :
    t.attempt.Until stop may fun r => ∀ a, r = .ok a → post a := by
  induction t with
  | done a =>
    intro b hb
    cases hb
    exact h
  | fail e => exact nofun
  | ask op next ih => exact ⟨h.1, fun x => (h.2 x).imp_right (ih x)⟩

theorem until_request {op : Op} {post : Ans op → Prop} (hmay : may op)
    (hpost : ∀ x, stop ⟨op, x⟩ ∨ post x) :
    (request op : Talk Op Ans ε (Ans op)).Until stop may post := ⟨hmay, hpost⟩

theorem until_ofExcept {r : Except ε α} (h : ∀ a, r = .ok a → post a) :
    (ofExcept r : Talk Op Ans ε α).Until stop may post := by
  cases r with
  | ok a => exact h a rfl
  | error e => exact trivial

theorem Until.run (h : t.Until stop may post) {evs : List (Event Op Ans)} {r : Except ε α}
    (hrun : t.Run evs r) :
    (∀ before ev after, evs = before ++ ev :: after → (∀ x ∈ before, ¬stop x) → may ev.op) ∧
      ((∀ x ∈ evs, ¬stop x) → ∀ a, r = .ok a → post a) := by
  induction t generalizing evs with
  | done a =>
    obtain ⟨rfl, rfl⟩ := hrun
    refine ⟨fun before ev after hevs => ?_, fun _ b hb => ?_⟩
    · simp at hevs
    · cases hb
      exact h
  | fail e =>
    obtain ⟨rfl, rfl⟩ := hrun
    exact ⟨fun before ev after hevs => by simp at hevs, fun _ b hb => nomatch hb⟩
  | ask op next ih =>
    obtain ⟨x, rest, rfl, hrest⟩ := hrun
    refine ⟨fun before ev after hevs hbefore => ?_, fun hall a ha => ?_⟩
    · cases before with
      | nil =>
        cases hevs
        exact h.1
      | cons first before =>
        cases hevs
        have hnext := (h.2 x).resolve_left (hbefore _ (.head _))
        exact (ih x hnext hrest).1 before ev after rfl fun y hy => hbefore y (.tail _ hy)
    · have hnext := (h.2 x).resolve_left (hall _ (.head _))
      exact (ih x hnext hrest).2 (fun y hy => hall y (.tail _ hy)) a ha

theorem Asks.bind {f : α → Talk Op Ans ε β} (h : t.Asks may) (hf : ∀ a, (f a).Asks may) :
    (t >>= f).Asks may := Until.bind h fun a _ => hf a

theorem Asks.attempt (h : t.Asks may) : t.attempt.Asks may :=
  (Until.attempt h).mono fun _ _ => trivial

end Until

/-! ## Worlds -/

/-- The state answers, and changes. -/
abbrev World (Op : Type) (Ans : Op → Type) (σ : Type) := (op : Op) → σ → Ans op × σ

variable (w : World Op Ans σ)

def exec : Talk Op Ans ε α → σ → Outcome ε σ α
  | done a, s => .ok a s
  | fail e, s => .error e s
  | ask op next, s => (next (w op s).1).exec (w op s).2

def events : Talk Op Ans ε α → σ → List (Event Op Ans)
  | done _, _ => []
  | fail _, _ => []
  | ask op next, s => ⟨op, (w op s).1⟩ :: (next (w op s).1).events (w op s).2

theorem run_events (t : Talk Op Ans ε α) (s : σ) : t.Run (t.events w s) (t.exec w s).result := by
  induction t generalizing s with
  | done a => exact ⟨rfl, rfl⟩
  | fail e => exact ⟨rfl, rfl⟩
  | ask op next ih => exact ⟨(w op s).1, _, rfl, ih _ _⟩

theorem exec_bind (t : Talk Op Ans ε α) (f : α → Talk Op Ans ε β) (s : σ) :
    (t >>= f).exec w s = (t.exec w s).andThen fun a s => (f a).exec w s := by
  induction t generalizing s with
  | done a => rfl
  | fail e => rfl
  | ask op next ih => exact ih _ _

theorem exec_attempt (t : Talk Op Ans ε α) (s : σ) :
    t.attempt.exec w s = .ok (t.exec w s).result (t.exec w s).state := by
  induction t generalizing s with
  | done a => rfl
  | fail e => rfl
  | ask op next ih => exact ih _ _

/-- The program as it stands after the first event of `stop`, and the state then. -/
def resume (stop : Event Op Ans → Bool) : Talk Op Ans ε α → σ → Option (Talk Op Ans ε α × σ)
  | done _, _ => none
  | fail _, _ => none
  | ask op next, s =>
    if stop ⟨op, (w op s).1⟩ then some (next (w op s).1, (w op s).2)
    else (next (w op s).1).resume stop (w op s).2

section Resume

variable {w} {stop : Event Op Ans → Bool} {t k : Talk Op Ans ε α} {s s' : σ}

theorem resume_bind {f : α → Talk Op Ans ε β} {l : Talk Op Ans ε β}
    (h : (t >>= f).resume w stop s = some (l, s')) :
    (∃ k, t.resume w stop s = some (k, s') ∧ l = k >>= f) ∨
      t.resume w stop s = none ∧ ∃ a s₁, t.exec w s = .ok a s₁ ∧
        (f a).resume w stop s₁ = some (l, s') := by
  induction t generalizing s with
  | done a => exact .inr ⟨rfl, a, s, rfl, h⟩
  | fail e => cases h
  | ask op next ih =>
    rw [ask_bind, resume] at h
    rw [resume, exec]
    split at h
    · rename_i hstop
      cases h
      exact .inl ⟨_, if_pos hstop, rfl⟩
    · rename_i hstop
      rw [if_neg hstop]
      exact ih _ h

theorem resume_ofExcept {r : Except ε α} {f : α → Talk Op Ans ε β} {l : Talk Op Ans ε β}
    (h : (ofExcept r >>= f).resume w stop s = some (l, s')) :
    ∃ a, r = .ok a ∧ (f a).resume w stop s = some (l, s') := by
  cases r with
  | ok a => exact ⟨a, rfl, h⟩
  | error e => cases h

theorem resume_eq_none {may : Op → Prop} (h : t.Asks may)
    (hstop : ∀ op x, may op → stop ⟨op, x⟩ = false) : t.resume w stop s = none := by
  induction t generalizing s with
  | done a => rfl
  | fail e => rfl
  | ask op next ih =>
    rw [resume, if_neg (by simp [hstop op _ h.1])]
    exact ih _ ((h.2 _).resolve_left id)

/-- What cannot stop is over before the program stops. -/
theorem resume_bind_asks {may : Op → Prop} (h : t.Asks may)
    (hstop : ∀ op x, may op → stop ⟨op, x⟩ = false) {f : α → Talk Op Ans ε β}
    {l : Talk Op Ans ε β} (hl : (t >>= f).resume w stop s = some (l, s')) :
    ∃ a s₁, t.exec w s = .ok a s₁ ∧ (f a).resume w stop s₁ = some (l, s') := by
  rcases resume_bind hl with ⟨k, hk, -⟩ | ⟨-, hf⟩
  · rw [resume_eq_none h hstop] at hk
    cases hk
  · exact hf

theorem resume_keeps {I : σ → Prop} (hI : ∀ op s, I s → I (w op s).2)
    (h : t.resume w stop s = some (k, s')) (hs : I s) : I s' := by
  induction t generalizing s with
  | done a => cases h
  | fail e => cases h
  | ask op next ih =>
    rw [resume] at h
    split at h
    · cases h
      exact hI op s hs
    · exact ih _ h (hI op s hs)

/-- The state is the one that the event has left. -/
theorem resume_stopped {J : σ → Prop} (hJ : ∀ op s, stop ⟨op, (w op s).1⟩ = true → J (w op s).2)
    (h : t.resume w stop s = some (k, s')) : J s' := by
  induction t generalizing s with
  | done a => cases h
  | fail e => cases h
  | ask op next ih =>
    rw [resume] at h
    split at h
    · rename_i hstop
      cases h
      exact hJ op s hstop
    · exact ih _ h

end Resume

/-- Two worlds that answer alike what the program asks see the same run. -/
theorem exec_alike {w : World Op Ans σ} {w' : World Op Ans τ} {R : σ → τ → Prop} {may : Op → Prop}
    (hw : ∀ op s u, may op → R s u → (w op s).1 = (w' op u).1 ∧ R (w op s).2 (w' op u).2)
    {t : Talk Op Ans ε α} (ht : t.Asks may) {s : σ} {u : τ}
    (h : R s u) : t.events w s = t.events w' u ∧ Outcome.Rel R (t.exec w s) (t.exec w' u) := by
  induction t generalizing s u with
  | done a => exact ⟨rfl, .ok h⟩
  | fail e => exact ⟨rfl, .error h⟩
  | ask op next ih =>
    obtain ⟨hans, hnext⟩ := hw op s u ht.1 h
    have hrest := ih (w op s).1 ((ht.2 _).resolve_left id) hnext
    rw [events, events, exec, exec, ← hans]
    exact ⟨congrArg _ hrest.1, hrest.2⟩

-- what is said of a program by its text is not to be found by running it
attribute [irreducible] Until

end Talk

end Rsurl.Library
