import Rsurl.Library.Loop

/-!
# Computations that may get stuck

A computation gives a value, fails with an error, or gets stuck: an index or a slice out of range
panics, and a loop whose turns make no headway does not return. A sequence of computations goes on
after a value only.
-/

namespace Rsurl.Library

universe u v

inductive Checked (ε : Type u) (α : Type v) where
  | ok (a : α)
  | error (e : ε)
  | stuck
  deriving DecidableEq, Repr

namespace Checked

instance {ε : Type u} : Monad (Checked.{u, v} ε) where
  pure := .ok
  bind x f := match x with
    | .ok a => f a
    | .error e => .error e
    | .stuck => .stuck

variable {ε : Type u} {α β : Type v} {x : Checked ε α} {f : α → Checked ε β}

@[simp] theorem ok_bind (a : α) (f : α → Checked ε β) : (ok a >>= f) = f a := rfl
@[simp] theorem error_bind (e : ε) (f : α → Checked ε β) : (error e >>= f) = error e := rfl
@[simp] theorem stuck_bind (f : α → Checked ε β) : ((stuck : Checked ε α) >>= f) = stuck := rfl

theorem bind_assoc {γ : Type v} (x : Checked ε α) (f : α → Checked ε β) (g : β → Checked ε γ) :
    x >>= f >>= g = x >>= fun a => f a >>= g := by
  cases x <;> rfl

def ofExcept : Except ε α → Checked ε α
  | .ok a => .ok a
  | .error e => .error e

@[simp] theorem ofExcept_ok (a : α) : ofExcept (.ok a : Except ε α) = ok a := rfl
@[simp] theorem ofExcept_error (e : ε) : ofExcept (.error e : Except ε α) = error e := rfl

theorem ofExcept_eq_ok {r : Except ε α} {a : α} : ofExcept r = ok a ↔ r = .ok a := by
  cases r <;> simp

theorem ofExcept_ne_stuck (r : Except ε α) : ofExcept r ≠ stuck := by
  cases r <;> simp

theorem bind_eq_ok {b : β} : x >>= f = ok b ↔ ∃ a, x = ok a ∧ f a = ok b := by
  cases x <;> simp

/-- A sequence does not get stuck whose parts do not. -/
theorem bind_ne_stuck (hx : x ≠ stuck) (hf : ∀ a, x = ok a → f a ≠ stuck) : x >>= f ≠ stuck := by
  cases x with
  | ok a => exact hf a rfl
  | error e => simp
  | stuck => exact (hx rfl).elim

theorem except_bind_eq_ok {r : Except ε α} {f : α → Except ε β} {b : β} :
    r >>= f = .ok b ↔ ∃ a, r = .ok a ∧ f a = .ok b := by
  cases r <;> simp [Bind.bind, Except.bind]

theorem except_map_eq_ok {r : Except ε α} {f : α → β} {b : β} :
    r.map f = .ok b ↔ ∃ a, r = .ok a ∧ f a = b := by
  cases r <;> simp [Except.map]

/-! ## Indices and slices -/

variable {γ : Type v} {l : List γ} {i j : Nat}

def get (l : List γ) (i : Nat) : Checked ε γ :=
  match l[i]? with
  | some a => .ok a
  | none => .stuck

/-- `l[i..j]`. -/
def slice (l : List γ) (i j : Nat) : Checked ε (List γ) :=
  if i ≤ j ∧ j ≤ l.length then .ok ((l.take j).drop i) else .stuck

/-- `l[i..]`. -/
def dropFrom (l : List γ) (i : Nat) : Checked ε (List γ) :=
  if i ≤ l.length then .ok (l.drop i) else .stuck

/-- `l[..j]`. -/
def takeTo (l : List γ) (j : Nat) : Checked ε (List γ) :=
  if j ≤ l.length then .ok (l.take j) else .stuck

@[simp] theorem get_cons_zero (a : γ) (l : List γ) : (get (a :: l) 0 : Checked ε γ) = ok a := rfl

theorem slice_eq (hij : i ≤ j) (hj : j ≤ l.length) :
    (slice l i j : Checked ε (List γ)) = ok ((l.take j).drop i) := if_pos ⟨hij, hj⟩

theorem dropFrom_eq (h : i ≤ l.length) : (dropFrom l i : Checked ε (List γ)) = ok (l.drop i) :=
  if_pos h

theorem takeTo_eq (h : j ≤ l.length) : (takeTo l j : Checked ε (List γ)) = ok (l.take j) := if_pos h

@[simp] theorem dropFrom_cons_one (a : γ) (l : List γ) :
    (dropFrom (a :: l) 1 : Checked ε (List γ)) = ok l := dropFrom_eq (by simp)

/-! ## Loops -/

open Loop (Turn)

variable {σ ρ : Type v} {variant : σ → Nat} {body : σ → Checked ε (Turn σ ρ)} {s s' : σ}

/-- Turn after turn, as long as each lowers the variant. -/
def loop (variant : σ → Nat) (body : σ → Checked ε (Turn σ ρ)) (s : σ) : Checked ε ρ :=
  match body s with
  | .ok (.done a) => .ok a
  | .ok (.next s') => if variant s' < variant s then loop variant body s' else .stuck
  | .error e => .error e
  | .stuck => .stuck
termination_by variant s

theorem loop_done {a : ρ} (h : body s = ok (.done a)) : loop variant body s = ok a := by
  rw [loop, h]

theorem loop_next (h : body s = ok (.next s')) (hlt : variant s' < variant s) :
    loop variant body s = loop variant body s' := by
  conv_lhs => rw [loop, h]
  exact if_pos hlt

theorem loop_error {e : ε} (h : body s = error e) : loop variant body s = error e := by
  rw [loop, h]

/-- What holds of the last turn, and carries back over the others, holds of the loop. -/
theorem loop_rule {motive : σ → ρ → Prop} (hdone : ∀ s a, body s = ok (.done a) → motive s a)
    (hnext : ∀ s s' a, body s = ok (.next s') → motive s' a → motive s a) {a : ρ}
    (h : loop variant body s = ok a) : motive s a := by
  fun_induction loop variant body s with
  | case1 s b hb =>
    cases h
    exact hdone s a hb
  | case2 s s' hb hlt ih => exact hnext s s' a hb (ih h)
  | case3 s s' hb hlt => cases h
  | case4 s e hb => cases h
  | case5 s hb => cases h

/-- A loop that makes headway and whose turns do not get stuck does not either. -/
theorem loop_ne_stuck {I : σ → Prop} (hs : I s) (hbody : ∀ s, I s → body s ≠ stuck)
    (hnext : ∀ s s', I s → body s = ok (.next s') → I s' ∧ variant s' < variant s) :
    loop variant body s ≠ stuck := by
  fun_induction loop variant body s with
  | case1 s b hb => simp
  | case2 s s' hb hlt ih => exact ih (hnext s s' hs hb).1
  | case3 s s' hb hlt => exact (hlt (hnext s s' hs hb).2).elim
  | case4 s e hb => simp
  | case5 s hb => exact (hbody s hs hb).elim

/-! ## Agreement -/

variable {α' β' σ' ρ' : Type v}

/-- Related values, or one error, or both stuck. -/
def Agree (R : α → α' → Prop) : Checked ε α → Checked ε α' → Prop
  | .ok a, .ok a' => R a a'
  | .error e, .error e' => e = e'
  | .stuck, .stuck => True
  | _, _ => False

theorem Agree.bind {R : α → α' → Prop} {S : β → β' → Prop} {x : Checked ε α} {x' : Checked ε α'}
    {f : α → Checked ε β} {f' : α' → Checked ε β'} (h : Agree R x x')
    (hf : ∀ a a', R a a' → Agree S (f a) (f' a')) : Agree S (x >>= f) (x' >>= f') := by
  cases x <;> cases x' <;> first | exact h.elim | exact h | exact hf _ _ h

/-- One step in both. -/
theorem agree_bind {S : β → β' → Prop} {f : α → Checked ε β} {f' : α → Checked ε β'}
    (h : ∀ a, x = .ok a → Agree S (f a) (f' a)) : Agree S (x >>= f) (x >>= f') := by
  cases x with
  | ok a => exact h a rfl
  | error e => exact rfl
  | stuck => exact trivial

theorem Agree.ok_left {R : α → α' → Prop} {x : Checked ε α'} {a : α} (h : Agree R (.ok a) x) :
    ∃ a', x = .ok a' ∧ R a a' := by
  cases x with
  | ok a' => exact ⟨a', rfl, h⟩
  | error e => exact h.elim
  | stuck => exact h.elim

/-- Two turns that both go on, or both are the last. -/
def Turns (R : σ → σ' → Prop) (Q : ρ → ρ' → Prop) : Turn σ ρ → Turn σ' ρ' → Prop
  | .next s, .next s' => R s s'
  | .done a, .done a' => Q a a'
  | _, _ => False

/-- Loops in step with each other. -/
theorem agree_loop {R : σ → σ' → Prop} {Q : ρ → ρ' → Prop} {variant : σ → Nat} {variant' : σ' → Nat}
    {body : σ → Checked ε (Turn σ ρ)} {body' : σ' → Checked ε (Turn σ' ρ')}
    (hvariant : ∀ s s', R s s' → variant s = variant' s')
    (hbody : ∀ s s', R s s' → Agree (Turns R Q) (body s) (body' s')) {s : σ} {s' : σ'} (h : R s s') :
    Agree Q (loop variant body s) (loop variant' body' s') := by
  fun_induction loop variant body s generalizing s' with
  | case1 s a hb =>
    have hagree := hbody s s' h
    rw [hb] at hagree
    obtain ⟨turn, hb', hturn⟩ := hagree.ok_left
    cases turn with
    | done a' =>
      rw [loop_done hb']
      exact hturn
    | next t' => exact hturn.elim
  | case2 s t hb hlt ih =>
    have hagree := hbody s s' h
    rw [hb] at hagree
    obtain ⟨turn, hb', hturn⟩ := hagree.ok_left
    cases turn with
    | done a' => exact hturn.elim
    | next t' =>
      rw [hvariant _ _ h, hvariant _ _ hturn] at hlt
      rw [loop_next hb' hlt]
      exact ih hturn
  | case3 s t hb hlt =>
    have hagree := hbody s s' h
    rw [hb] at hagree
    obtain ⟨turn, hb', hturn⟩ := hagree.ok_left
    cases turn with
    | done a' => exact hturn.elim
    | next t' =>
      rw [hvariant _ _ h, hvariant _ _ hturn] at hlt
      rw [loop, hb']
      dsimp only
      rw [if_neg hlt]
      exact trivial
  | case4 s e hb =>
    have hagree := hbody s s' h
    rw [hb] at hagree
    cases hb' : body' s' with
    | ok turn =>
      rw [hb'] at hagree
      exact hagree.elim
    | error e' =>
      rw [hb'] at hagree
      rw [loop_error hb']
      exact hagree
    | stuck =>
      rw [hb'] at hagree
      exact hagree.elim
  | case5 s hb =>
    have hagree := hbody s s' h
    rw [hb] at hagree
    cases hb' : body' s' with
    | ok turn =>
      rw [hb'] at hagree
      exact hagree.elim
    | error e' =>
      rw [hb'] at hagree
      exact hagree.elim
    | stuck =>
      rw [loop, hb']
      exact trivial

end Checked

end Rsurl.Library

/-!
## Texts in a buffer

A reader that keeps a position in its buffer reads the text that stands there, and is then behind it.
-/

namespace Rsurl.Library.Cursor

universe u v

variable {α : Type u} {buf text more : List α} {pos : Nat} {a : α}

/-- The text stands in the buffer from the position on. -/
def At (buf : List α) (pos : Nat) (text : List α) : Prop := text <+: buf.drop pos

theorem at_append : At buf pos (text ++ more) ↔ At buf pos text ∧ At buf (pos + text.length) more := by
  unfold At
  rw [← List.drop_drop]
  generalize buf.drop pos = l
  constructor
  · rintro ⟨rest, rfl⟩
    exact ⟨⟨more ++ rest, (List.append_assoc ..).symm⟩, ⟨rest, by simp⟩⟩
  · rintro ⟨⟨rest, rfl⟩, h⟩
    rw [List.drop_left] at h
    exact (List.prefix_append_right_inj text).mpr h

theorem at_singleton : At buf pos [a] ↔ buf[pos]? = some a := by
  unfold At
  rw [← List.head?_drop, List.head?_eq_some_iff]
  simp only [List.prefix_iff_eq_append, List.length_singleton]
  constructor
  · exact fun h => ⟨_, h.symm⟩
  · rintro ⟨rest, hrest⟩
    rw [hrest]
    rfl

theorem at_cons : At buf pos (a :: text) ↔ buf[pos]? = some a ∧ At buf (pos + 1) text := by
  rw [← List.singleton_append, at_append, at_singleton]
  rfl

/-- A text that is there ends in the buffer. -/
theorem At.le (h : At buf pos text) (hpos : pos ≤ buf.length) : pos + text.length ≤ buf.length := by
  have hlen := h.length_le
  rw [List.length_drop] at hlen
  omega

theorem At.lt (h : At buf pos (a :: text)) : pos + text.length < buf.length := by
  have hlen := h.length_le
  rw [List.length_drop, List.length_cons] at hlen
  omega

theorem At.slice {ε : Type v} {buf text : List (α : Type u)} (h : At buf pos text)
    (hpos : pos ≤ buf.length) :
    (Checked.slice buf pos (pos + text.length) : Checked ε (List α)) = .ok text := by
  rw [Checked.slice_eq (Nat.le_add_right ..) (h.le hpos), List.drop_take, Nat.add_sub_cancel_left,
    ← List.prefix_iff_eq_take.mp h]

theorem at_slice (start stop : Nat) : At buf start ((buf.take stop).drop start) := by
  rw [At, List.drop_take]
  exact List.take_prefix _ _

end Rsurl.Library.Cursor
