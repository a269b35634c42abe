import Mathlib

/-!
# Loops with a variant

A loop body either ends with a value or hands on a state. A variant, a natural number that every
continuing turn lowers, makes the loop total: `run` is the value the loop ends with. `run_next`
unrolls one turn, and `run_rule` is the invariant rule, an induction over the turns taken. `visited`
lists the states the turns start in, so that a condition can be put on every one of them.
-/

namespace Rsurl.Library.Loop

variable {σ α : Type*}

/-- How one turn of a loop ends. -/
inductive Turn (σ α : Type*) where
  | done (value : α)
  | next (state : σ)
  deriving DecidableEq, Repr

/-- At most `fuel` turns. -/
def iterate (body : σ → Turn σ α) : Nat → σ → Option α
  | 0, _ => none
  | fuel + 1, s => match body s with
    | .done a => some a
    | .next s' => iterate body fuel s'

theorem iterate_succ (body : σ → Turn σ α) (fuel : Nat) (s : σ) :
    iterate body (fuel + 1) s = match body s with
      | .done a => some a
      | .next s' => iterate body fuel s' := rfl

/-- Every turn that continues lowers the variant. -/
def Lowers (body : σ → Turn σ α) (variant : σ → Nat) : Prop :=
  ∀ s s', body s = .next s' → variant s' < variant s

variable {body : σ → Turn σ α} {variant : σ → Nat}

theorem iterate_isSome (h : Lowers body variant) (fuel : Nat) (s : σ) (hfuel : variant s < fuel) :
    (iterate body fuel s).isSome := by
  induction fuel generalizing s with
  | zero => omega
  | succ fuel ih =>
    rw [iterate_succ]
    cases hs : body s with
    | done a => rfl
    | next s' =>
      have := h s s' hs
      exact ih s' (by omega)

/-- Fuel beyond the variant does not change the value. -/
theorem iterate_stable (h : Lowers body variant) (fuel more : Nat) (s : σ)
    (hfuel : variant s < fuel) (hmore : variant s < more) :
    iterate body fuel s = iterate body more s := by
  induction fuel generalizing s more with
  | zero => omega
  | succ fuel ih =>
    cases more with
    | zero => omega
    | succ more =>
      rw [iterate_succ, iterate_succ]
      cases hs : body s with
      | done a => rfl
      | next s' =>
        have := h s s' hs
        exact ih more s' (by omega) (by omega)

theorem iterate_mono {fuel more : Nat} {s : σ} {a : α} (h : iterate body fuel s = some a)
    (hle : fuel ≤ more) : iterate body more s = some a := by
  induction fuel generalizing s more with
  | zero => cases h
  | succ fuel ih =>
    obtain ⟨more, rfl⟩ := Nat.exists_eq_add_of_le' (Nat.one_le_of_lt hle)
    rw [iterate_succ] at h ⊢
    cases hs : body s with
    | done b => simpa [hs] using h
    | next s' =>
      simp only [hs] at h
      exact ih h (Nat.le_of_succ_le_succ hle)

/-- A loop that can always go on never ends. -/
theorem iterate_eq_none {I : σ → Prop} {s : σ} (hs : I s)
    (hstep : ∀ t, I t → ∃ t', body t = .next t' ∧ I t') (fuel : Nat) :
    iterate body fuel s = none := by
  induction fuel generalizing s with
  | zero => rfl
  | succ fuel ih =>
    obtain ⟨s', hs', hI⟩ := hstep s hs
    rw [iterate_succ, hs']
    exact ih hI

/-- What every turn keeps holds at the turn that ends a run, however long it was. -/
theorem iterate_rule {I : σ → Prop} {fuel : Nat} {s : σ} {a : α}
    (h : iterate body fuel s = some a) (hs : I s) (hstep : ∀ t t', I t → body t = .next t' → I t') :
    ∃ t, I t ∧ body t = .done a := by
  induction fuel generalizing s with
  | zero => cases h
  | succ fuel ih =>
    rw [iterate_succ] at h
    cases hb : body s with
    | done b =>
      simp only [hb, Option.some.injEq] at h
      exact ⟨s, hs, h ▸ hb⟩
    | next s' =>
      simp only [hb] at h
      exact ih h (hstep s s' hs hb)

/-- The value the loop ends with. -/
def run (body : σ → Turn σ α) (variant : σ → Nat) (h : Lowers body variant) (s : σ) : α :=
  (iterate body (variant s + 1) s).get (iterate_isSome h _ s (Nat.lt_succ_self _))

theorem run_done {h : Lowers body variant} {s : σ} {a : α} (hs : body s = .done a) :
    run body variant h s = a := by
  simp [run, iterate_succ, hs]

theorem run_next {h : Lowers body variant} {s s' : σ} (hs : body s = .next s') :
    run body variant h s = run body variant h s' := by
  have hlow := h s s' hs
  have hstep : iterate body (variant s + 1) s = iterate body (variant s' + 1) s' := by
    rw [iterate_succ]
    simp only [hs]
    exact iterate_stable h _ _ s' hlow (Nat.lt_succ_self _)
  simp only [run, hstep]

/-- The invariant rule: what holds of a turn that ends, and carries back over a turn that
continues, holds of the whole loop. -/
theorem run_rule (h : Lowers body variant) (motive : σ → α → Prop)
    (hdone : ∀ s a, body s = .done a → motive s a)
    (hnext : ∀ s s' a, body s = .next s' → motive s' a → motive s a) (s : σ) :
    motive s (run body variant h s) := by
  induction hv : variant s using Nat.strongRecOn generalizing s with
  | ind n ih =>
    cases hs : body s with
    | done a =>
      rw [run_done hs]
      exact hdone s a hs
    | next s' =>
      have hlow := h s s' hs
      rw [run_next hs]
      exact hnext s s' _ hs (ih _ (hv ▸ hlow) s' rfl)

/-! ## The states a loop goes through -/

/-- The state after `n` turns, while the loop goes on. -/
def after (body : σ → Turn σ α) : Nat → σ → Option σ
  | 0, s => some s
  | n + 1, s => match body s with
    | .done _ => none
    | .next s' => after body n s'

theorem after_turn (body : σ → Turn σ α) (n : Nat) (s : σ) :
    after body (n + 1) s = match body s with
      | .done _ => none
      | .next s' => after body n s' := rfl

/-- The loop has not ended where there is a state to go on from. -/
theorem iterate_eq_none_iff {fuel : Nat} {s : σ} :
    iterate body fuel s = none ↔ (after body fuel s).isSome := by
  induction fuel generalizing s with
  | zero => exact ⟨fun _ => rfl, fun _ => rfl⟩
  | succ fuel ih =>
    rw [iterate_succ, after_turn]
    cases body s with
    | done a => simp
    | next s' => exact ih

theorem after_succ {n : Nat} {s t : σ} (h : after body n s = some t) :
    after body (n + 1) s = after body 1 t := by
  induction n generalizing s with
  | zero =>
    cases h
    rfl
  | succ n ih =>
    rw [after_turn] at h ⊢
    cases hs : body s with
    | done a => simp [hs] at h
    | next s' =>
      simp only [hs] at h
      exact ih h

theorem after_one {s t : σ} : after body 1 s = some t ↔ body s = .next t := by
  cases hs : body s <;> simp [after, hs]

/-- The states at the start of the first `fuel` turns. -/
def trail (body : σ → Turn σ α) : Nat → σ → List σ
  | 0, _ => []
  | fuel + 1, s => s :: match body s with
    | .done _ => []
    | .next s' => trail body fuel s'

theorem trail_succ (body : σ → Turn σ α) (fuel : Nat) (s : σ) :
    trail body (fuel + 1) s = s :: match body s with
      | .done _ => []
      | .next s' => trail body fuel s' := rfl

/-- The states at the start of every turn. -/
def visited (body : σ → Turn σ α) (variant : σ → Nat) (s : σ) : List σ :=
  trail body (variant s + 1) s

theorem trail_stable (h : Lowers body variant) (fuel more : Nat) (s : σ)
    (hfuel : variant s < fuel) (hmore : variant s < more) :
    trail body fuel s = trail body more s := by
  induction fuel generalizing s more with
  | zero => omega
  | succ fuel ih =>
    cases more with
    | zero => omega
    | succ more =>
      rw [trail_succ, trail_succ]
      cases hs : body s with
      | done a => rfl
      | next s' =>
        have := h s s' hs
        simp only
        rw [ih more s' (by omega) (by omega)]

/-- A run ends in one of the states its turns start in, with what the turns kept on the way. -/
theorem iterate_trail {I : σ → Prop} {fuel : Nat} {s : σ} {a : α}
    (h : iterate body fuel s = some a) (hs : I s)
    (hstep : ∀ t ∈ trail body fuel s, I t → ∀ t', body t = .next t' → I t') :
    ∃ t ∈ trail body fuel s, I t ∧ body t = .done a := by
  induction fuel generalizing s with
  | zero => cases h
  | succ fuel ih =>
    rw [iterate_succ] at h
    rw [trail_succ] at hstep ⊢
    cases hb : body s with
    | done b =>
      simp only [hb, Option.some.injEq] at h
      exact ⟨s, List.mem_cons_self, hs, h ▸ hb⟩
    | next s' =>
      simp only [hb] at h hstep ⊢
      obtain ⟨t, ht, hI, hdone⟩ := ih h (hstep s List.mem_cons_self hs s' hb) fun t ht =>
        hstep t (List.mem_cons_of_mem s ht)
      exact ⟨t, List.mem_cons_of_mem s ht, hI, hdone⟩

theorem trail_rule {I : σ → Prop} {fuel : Nat} {s : σ} (hs : I s)
    (hstep : ∀ t t', I t → body t = .next t' → I t') : ∀ t ∈ trail body fuel s, I t := by
  induction fuel generalizing s with
  | zero => intro t ht; cases ht
  | succ fuel ih =>
    intro t ht
    rw [trail_succ] at ht
    rcases List.mem_cons.mp ht with rfl | ht
    · exact hs
    · cases hb : body s with
      | done b => simp [hb] at ht
      | next s' =>
        simp only [hb] at ht
        exact ih (hstep s s' hs hb) t ht

/-- From any state on its way a run ends the same. -/
theorem iterate_of_mem_trail {fuel : Nat} {s t : σ} {a : α} (h : iterate body fuel s = some a)
    (ht : t ∈ trail body fuel s) : ∃ fewer, iterate body fewer t = some a := by
  induction fuel generalizing s with
  | zero => cases h
  | succ fuel ih =>
    rw [trail_succ] at ht
    rcases List.mem_cons.mp ht with rfl | ht
    · exact ⟨fuel + 1, h⟩
    · rw [iterate_succ] at h
      cases hb : body s with
      | done b => simp [hb] at ht
      | next s' =>
        simp only [hb] at h ht
        exact ih h ht

theorem visited_done {s : σ} {a : α} (hs : body s = .done a) : visited body variant s = [s] := by
  simp [visited, trail_succ, hs]

theorem visited_next (h : Lowers body variant) {s s' : σ} (hs : body s = .next s') :
    visited body variant s = s :: visited body variant s' := by
  have hlow := h s s' hs
  unfold visited
  rw [trail_succ, hs]
  exact congrArg (s :: ·) (trail_stable h _ _ s' hlow (Nat.lt_succ_self _))

/-- What holds at the start and is kept by every turn from a visited state holds in every visited
state. -/
theorem visited_rule (h : Lowers body variant) {I : σ → Prop} {s : σ} (hs : I s)
    (hstep : ∀ t ∈ visited body variant s, I t → ∀ t', body t = .next t' → I t') :
    ∀ t ∈ visited body variant s, I t := by
  induction hv : variant s using Nat.strongRecOn generalizing s with
  | ind n ih =>
    intro t ht
    cases hb : body s with
    | done a =>
      rw [visited_done hb] at ht
      cases List.mem_singleton.mp ht
      exact hs
    | next s' =>
      have hlow := h s s' hb
      rw [visited_next h hb] at hstep ht
      rcases List.mem_cons.mp ht with rfl | ht
      · exact hs
      · exact ih _ (hv ▸ hlow) (hstep s List.mem_cons_self hs s' hb)
          (fun t ht => hstep t (List.mem_cons_of_mem s ht)) rfl t ht

/-- The invariant rule for a loop whose turns may rely on the state they start in: the last turn
starts in a state that was visited and satisfies the invariant. -/
theorem run_visited (h : Lowers body variant) {I : σ → Prop} {s : σ} (hs : I s)
    (hstep : ∀ t ∈ visited body variant s, I t → ∀ t', body t = .next t' → I t') :
    ∃ t ∈ visited body variant s, I t ∧ body t = .done (run body variant h s) := by
  induction hv : variant s using Nat.strongRecOn generalizing s with
  | ind n ih =>
    cases hb : body s with
    | done a =>
      refine ⟨s, ?_, hs, ?_⟩
      · rw [visited_done hb]
        exact List.mem_singleton_self s
      · rw [run_done hb, hb]
    | next s' =>
      have hlow := h s s' hb
      rw [visited_next h hb] at hstep ⊢
      obtain ⟨t, ht, hI, hdone⟩ := ih _ (hv ▸ hlow) (hstep s List.mem_cons_self hs s' hb)
        (fun t ht => hstep t (List.mem_cons_of_mem s ht)) rfl
      exact ⟨t, List.mem_cons_of_mem s ht, hI, by rw [run_next hb]; exact hdone⟩

/-- A transitive relation that every turn respects orders the visited states; the last of them is
where the loop ends. -/
theorem visited_pairwise (h : Lowers body variant) {I : σ → Prop} {R : σ → σ → Prop}
    (hrefl : ∀ s, R s s) (htrans : ∀ s t u, R s t → R t u → R s u) {s : σ} (hs : I s)
    (hstep : ∀ t, I t → ∀ t', body t = .next t' → I t' ∧ R t t') :
    (visited body variant s).Pairwise R ∧ (∀ t ∈ visited body variant s, R s t) ∧
      ∃ last, I last ∧ body last = .done (run body variant h s) ∧
        ∀ t ∈ visited body variant s, R t last := by
  induction hv : variant s using Nat.strongRecOn generalizing s with
  | ind n ih =>
    cases hb : body s with
    | done a =>
      rw [visited_done hb, run_done hb]
      refine ⟨List.pairwise_singleton R s, ?_, s, hs, hb, ?_⟩
      all_goals
        intro t ht
        cases List.mem_singleton.mp ht
        exact hrefl _
    | next s' =>
      have hlow := h s s' hb
      obtain ⟨hs', hR⟩ := hstep s hs s' hb
      obtain ⟨hpair, hfrom, last, hlast, hdone, hto⟩ := ih _ (hv ▸ hlow) hs' rfl
      rw [visited_next h hb, run_next hb]
      have hlasts : R s' last := hto s' (by
        unfold visited
        rw [trail_succ]
        exact List.mem_cons_self)
      refine ⟨List.pairwise_cons.mpr ⟨fun t ht => htrans _ _ _ hR (hfrom t ht), hpair⟩, ?_, last,
        hlast, hdone, ?_⟩
      · intro t ht
        rcases List.mem_cons.mp ht with rfl | ht
        · exact hrefl _
        · exact htrans _ _ _ hR (hfrom t ht)
      · intro t ht
        rcases List.mem_cons.mp ht with rfl | ht
        · exact htrans _ _ _ hR hlasts
        · exact hto t ht

theorem self_mem_visited (s : σ) : s ∈ visited body variant s := by
  unfold visited
  rw [trail_succ]
  exact List.mem_cons_self

/-- The turn after a visited state starts in a visited state. -/
theorem next_mem_visited (h : Lowers body variant) {s t t' : σ} (ht : t ∈ visited body variant s)
    (hb : body t = .next t') : t' ∈ visited body variant s := by
  induction hv : variant s using Nat.strongRecOn generalizing s with
  | ind n ih =>
    cases hs : body s with
    | done a =>
      rw [visited_done hs] at ht
      cases List.mem_singleton.mp ht
      rw [hs] at hb
      cases hb
    | next s' =>
      have hlow := h s s' hs
      rw [visited_next h hs] at ht ⊢
      refine List.mem_cons_of_mem s ?_
      rcases List.mem_cons.mp ht with rfl | ht
      · rw [hs] at hb
        cases hb
        exact self_mem_visited _
      · exact ih _ (hv ▸ hlow) ht rfl

/-- From any visited state the loop ends the same way. -/
theorem run_of_mem_visited (h : Lowers body variant) {s t : σ} (ht : t ∈ visited body variant s) :
    run body variant h s = run body variant h t := by
  induction hv : variant s using Nat.strongRecOn generalizing s with
  | ind n ih =>
    cases hb : body s with
    | done a =>
      rw [visited_done hb] at ht
      cases List.mem_singleton.mp ht
      rfl
    | next s' =>
      have hlow := h s s' hb
      rw [visited_next h hb] at ht
      rcases List.mem_cons.mp ht with rfl | ht
      · rfl
      · rw [run_next hb]
        exact ih _ (hv ▸ hlow) ht rfl

end Rsurl.Library.Loop
