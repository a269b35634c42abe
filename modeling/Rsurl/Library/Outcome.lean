import Mathlib

/-!
# Outcomes of fallible operations on a state

An operation that may fail still leaves a state behind: whatever it changed before the failure
stays changed. `Outcome` keeps both, `andThen` chains operations the way an early return does,
and `Post` is the postcondition predicate with one assertion for each way to end.
-/

namespace Rsurl.Library

inductive Outcome (ε σ α : Type*) where
  | ok (value : α) (state : σ)
  | error (err : ε) (state : σ)
  deriving DecidableEq, Repr

namespace Outcome

variable {ε σ τ α β : Type*}

/-- The state an operation ends in, whichever way it ends. -/
@[simp] def state : Outcome ε σ α → σ
  | ok _ s => s
  | error _ s => s

/-- The value or the failure, without the state. -/
@[simp] def result : Outcome ε σ α → Except ε α
  | ok a _ => .ok a
  | error e _ => .error e

/-- Run `f` on the value and state of a success; a failure ends the sequence. -/
@[simp] def andThen (r : Outcome ε σ α) (f : α → σ → Outcome ε σ β) : Outcome ε σ β :=
  match r with
  | ok a s => f a s
  | error e s => error e s

/-- Change the state in both cases. -/
@[simp] def mapState (r : Outcome ε σ α) (f : σ → τ) : Outcome ε τ α :=
  match r with
  | ok a s => ok a (f s)
  | error e s => error e (f s)

/-- Attach a state to a result that did not touch one. -/
@[simp] def ofExcept (r : Except ε α) (s : σ) : Outcome ε σ α :=
  match r with
  | .ok a => ok a s
  | .error e => error e s

/-- `Q` holds of a success and `E` of a failure. -/
@[simp] def Post (r : Outcome ε σ α) (Q : α → σ → Prop) (E : ε → σ → Prop) : Prop :=
  match r with
  | ok a s => Q a s
  | error e s => E e s

theorem eq_ok_of_result {r : Outcome ε σ α} {a : α} (h : r.result = .ok a) :
    r = ok a r.state := by
  cases r with
  | ok b s => cases h; rfl
  | error e s => cases h

theorem state_mapState (r : Outcome ε σ α) (f : σ → τ) : (r.mapState f).state = f r.state := by
  cases r <;> rfl

theorem result_mapState (r : Outcome ε σ α) (f : σ → τ) : (r.mapState f).result = r.result := by
  cases r <;> rfl

theorem ok_andThen (a : α) (s : σ) (f : α → σ → Outcome ε σ β) : (ok a s).andThen f = f a s := rfl

theorem andThen_assoc {γ : Type*} (r : Outcome ε σ α) (f : α → σ → Outcome ε σ β)
    (g : β → σ → Outcome ε σ γ) :
    (r.andThen f).andThen g = r.andThen fun a s => (f a s).andThen g := by
  cases r <;> rfl

theorem andThen_eq_ok {r : Outcome ε σ α} {f : α → σ → Outcome ε σ β} {b : β} {s : σ} :
    r.andThen f = ok b s ↔ ∃ a t, r = ok a t ∧ f a t = ok b s := by
  cases r with
  | ok a t => simp
  | error e t => simp

theorem andThen_eq_error {r : Outcome ε σ α} {f : α → σ → Outcome ε σ β} {e : ε} {s : σ} :
    r.andThen f = error e s ↔ r = error e s ∨ ∃ a t, r = ok a t ∧ f a t = error e s := by
  cases r with
  | ok a t => simp
  | error e t => simp

theorem post_andThen {r : Outcome ε σ α} {f : α → σ → Outcome ε σ β}
    {P : α → σ → Prop} {Q : β → σ → Prop} {E : ε → σ → Prop}
    (hr : r.Post P E) (hf : ∀ a s, P a s → (f a s).Post Q E) : (r.andThen f).Post Q E := by
  cases r with
  | ok a s => exact hf a s hr
  | error e s => exact hr

theorem Post.imp {r : Outcome ε σ α} {Q Q' : α → σ → Prop} {E E' : ε → σ → Prop}
    (h : r.Post Q E) (hq : ∀ a s, Q a s → Q' a s) (he : ∀ e s, E e s → E' e s) :
    r.Post Q' E' := by
  cases r with
  | ok a s => exact hq a s h
  | error e s => exact he e s h

/-- Two operations end the same way, in related states. -/
inductive Rel (R : σ → τ → Prop) : Outcome ε σ α → Outcome ε τ α → Prop where
  | ok {a : α} {s : σ} {t : τ} (h : R s t) : Rel R (.ok a s) (.ok a t)
  | error {e : ε} {s : σ} {t : τ} (h : R s t) : Rel R (.error e s) (.error e t)

theorem Rel.andThen {R : σ → τ → Prop} {r : Outcome ε σ α} {r' : Outcome ε τ α}
    {f : α → σ → Outcome ε σ β} {g : α → τ → Outcome ε τ β} (h : Rel R r r')
    (hf : ∀ a s t, R s t → Rel R (f a s) (g a t)) : Rel R (r.andThen f) (r'.andThen g) := by
  cases h with
  | ok h => exact hf _ _ _ h
  | error h => exact .error h

theorem Rel.state {R : σ → τ → Prop} {r : Outcome ε σ α} {r' : Outcome ε τ α} (h : Rel R r r') :
    R r.state r'.state := by
  cases h with
  | ok h => exact h
  | error h => exact h

theorem Rel.result {R : σ → τ → Prop} {r : Outcome ε σ α} {r' : Outcome ε τ α} (h : Rel R r r') :
    r.result = r'.result := by
  cases h with
  | ok h => rfl
  | error h => rfl

theorem Rel.trans {ρ : Type*} {R : σ → τ → Prop} {S : τ → ρ → Prop} {T : σ → ρ → Prop}
    {r : Outcome ε σ α} {r' : Outcome ε τ α} {r'' : Outcome ε ρ α} (h : Rel R r r')
    (hT : ∀ s t u, R s t → S t u → T s u) (h' : Rel S r' r'') : Rel T r r'' := by
  cases h with
  | ok h => cases h' with | ok h' => exact .ok (hT _ _ _ h h')
  | error h => cases h' with | error h' => exact .error (hT _ _ _ h h')

/-- Run `f` for every item in turn; the first failure ends the walk. -/
def forEach {ι : Type*} (items : List ι) (f : ι → σ → Outcome ε σ Unit) (s : σ) :
    Outcome ε σ Unit :=
  match items with
  | [] => ok () s
  | i :: rest => (f i s).andThen fun _ s => forEach rest f s

/-- What every step keeps, the walk keeps. -/
theorem post_forEach {ι : Type*} (items : List ι) {f : ι → σ → Outcome ε σ Unit}
    {I : σ → Prop} {E : ε → σ → Prop}
    (hf : ∀ i ∈ items, ∀ s, I s → (f i s).Post (fun _ => I) E) {s : σ} (hs : I s) :
    (forEach items f s).Post (fun _ => I) E := by
  induction items generalizing s with
  | nil => exact hs
  | cons i rest ih =>
    refine post_andThen (hf i List.mem_cons_self s hs) ?_
    intro _ t ht
    exact ih (fun j hj => hf j (List.mem_cons_of_mem i hj)) ht

/-- What every step of a fold that may give up keeps, its result satisfies. -/
theorem optionFold_rule {ι σ : Type*} {f : σ → ι → Option σ} {I : σ → Prop} {items : List ι}
    (hf : ∀ i ∈ items, ∀ s s', I s → f s i = some s' → I s') {s s' : σ} (hs : I s)
    (h : items.foldlM f s = some s') : I s' := by
  induction items generalizing s with
  | nil =>
    cases h
    exact hs
  | cons i rest ih =>
    obtain ⟨t, ht, hrest⟩ := Option.bind_eq_some_iff.mp h
    exact ih (fun j hj => hf j (List.mem_cons_of_mem i hj)) (hf i List.mem_cons_self s t hs ht)
      hrest

/-- A success that passes a test. -/
def okAnd (r : Outcome ε σ α) (p : α → σ → Bool) : Bool :=
  match r with
  | ok a s => p a s
  | error _ _ => false

theorem exists_of_okAnd {r : Outcome ε σ α} {p : α → σ → Bool} (h : r.okAnd p = true) :
    ∃ a s, r = ok a s ∧ p a s = true := by
  cases r with
  | ok a s => exact ⟨a, s, rfl, h⟩
  | error e s => cases h

theorem post_state {r : Outcome ε σ α} {I : σ → Prop}
    (h : r.Post (fun _ => I) (fun _ => I)) : I r.state := by
  cases r with
  | ok a s => exact h
  | error e s => exact h

end Outcome

end Rsurl.Library
