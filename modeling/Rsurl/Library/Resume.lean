import Rsurl.Library.Loop

/-!
# Decoders that wait for input

A decoder works on a buffer until it needs more of it; then input is pushed and it starts again.
If what a turn leaves behind can be picked up by the input to come, then it does not matter in which
pieces the input was pushed: `run_push` says so for two pieces, `feed_eq` for any number, also when
every piece ends in something that the view `φ` of the decoder does not see.
-/

namespace Rsurl.Library.Resume

open Loop

variable {σ ε β : Type*} {body : σ → Turn σ (Except ε σ)} {variant : σ → Nat}
  {push : σ → List β → σ} {Fits : σ → Prop}

/-- A turn can be resumed with more input: the loop on the state it leaves ends as the loop that had
that input all along. `Fits` holds of the states whose whole input the decoder has room for. -/
structure Resumes (h : Lowers body variant) (push : σ → List β → σ) (Fits : σ → Prop) : Prop where
  push_nil : ∀ s, push s [] = s
  push_append : ∀ s v w, push s (v ++ w) = push (push s v) w
  stable : ∀ s s', body s = .done (.ok s') → body s' = .done (.ok s')
  next : ∀ s s' w, Fits (push s w) → body s = .next s' →
    run body variant h (push s w) = run body variant h (push s' w) ∧ Fits (push s' w)
  stall : ∀ s s' w, Fits (push s w) → body s = .done (.ok s') →
    run body variant h (push s w) = run body variant h (push s' w) ∧ Fits (push s' w)
  fail : ∀ s e w, Fits (push s w) → body s = .done (.error e) →
    run body variant h (push s w) = .error e

variable {h : Lowers body variant}

/-- The loop stops on what it has and is run again with the rest. -/
theorem Resumes.run_push (r : Resumes h push Fits) (s : σ) (w : List β) (hs : Fits (push s w)) :
    run body variant h (push s w) =
      (run body variant h s).bind fun s' => run body variant h (push s' w) := by
  refine run_rule h (fun s a => Fits (push s w) → run body variant h (push s w) =
    Except.bind a fun s' => run body variant h (push s' w)) ?_ ?_ s hs
  · intro s a ha hs
    cases a with
    | error e => exact r.fail s e w hs ha
    | ok s' => exact (r.stall s s' w hs ha).1
  · intro s s' a hn ih hs
    obtain ⟨heq, hs'⟩ := r.next s s' w hs hn
    rw [heq]
    exact ih hs'

theorem Resumes.fits_of_ok (r : Resumes h push Fits) {s s' : σ} {w : List β}
    (hs : Fits (push s w)) (hrun : run body variant h s = .ok s') : Fits (push s' w) := by
  refine run_rule h (fun s a => Fits (push s w) → a = .ok s' → Fits (push s' w)) ?_ ?_ s hs hrun
  · rintro s a ha hs rfl
    exact (r.stall s s' w hs ha).2
  · intro s s'' a hn ih hs
    exact ih (r.next s s'' w hs hn).2

/-- The loop has nothing to add to a state it stopped in. -/
theorem Resumes.run_stable (r : Resumes h push Fits) {s s' : σ}
    (hrun : run body variant h s = .ok s') : run body variant h s' = .ok s' := by
  refine run_rule h (fun _ a => a = .ok s' → run body variant h s' = .ok s') ?_ ?_ s hrun
  · rintro s a ha rfl
    exact run_done (r.stable s s' ha)
  · intro _ _ _ _ ih
    exact ih

/-! ## Whole sequences of inputs -/

variable {ρ κ : Type*}

/-- Calls one after the other, up to the first that fails. -/
def feed (input : κ → ρ → Except ε ρ) : List κ → ρ → Except ε ρ
  | [], r => .ok r
  | k :: rest, r => (input k r).bind (feed input rest)

section

variable {norm : σ → σ} {φ : ρ → σ} {input : κ → ρ → Except ε ρ} {bytes : κ → List β}

/-- If every call is a run of the decoder with the bytes of the call, as far as `φ` sees, then the
whole sequence is one run with all the bytes. -/
theorem Resumes.feed_eq (r : Resumes h push Fits)
    (hnorm : ∀ s w, (run body variant h (push (norm s) w)).map norm =
      (run body variant h (push s w)).map norm)
    (hfits : ∀ s w, Fits (push s w) → Fits (push (norm s) w))
    (hinput : ∀ k q, (input k q).map φ = (run body variant h (push (φ q) (bytes k))).map norm)
    (calls : List κ) (q : ρ) (hq : Fits (push (φ q) (calls.flatMap bytes)))
    (hidle : (run body variant h (φ q)).map norm = .ok (φ q)) :
    (feed input calls q).map φ =
      (run body variant h (push (φ q) (calls.flatMap bytes))).map norm := by
  induction calls generalizing q with
  | nil =>
    rw [List.flatMap_nil, r.push_nil, hidle]
    rfl
  | cons k rest ih =>
    rw [List.flatMap_cons, r.push_append] at hq ⊢
    have hk := hinput k q
    rw [r.run_push _ _ hq, feed]
    cases hi : input k q with
    | error e =>
      rw [hi] at hk
      cases hrun : run body variant h (push (φ q) (bytes k)) with
      | error e' =>
        rw [hrun] at hk
        exact hk
      | ok s' =>
        rw [hrun] at hk
        cases hk
    | ok q' =>
      rw [hi] at hk
      cases hrun : run body variant h (push (φ q) (bytes k)) with
      | error e' =>
        rw [hrun] at hk
        cases hk
      | ok s' =>
        rw [hrun] at hk
        have hview : φ q' = norm s' := Except.ok.inj hk
        have hidle' : (run body variant h (φ q')).map norm = .ok (φ q') := by
          have := hnorm s' []
          rw [r.push_nil, r.push_nil, r.run_stable hrun] at this
          rw [hview, this]
          rfl
        have hq' : Fits (push (φ q') (rest.flatMap bytes)) := by
          rw [hview]
          exact hfits _ _ (r.fits_of_ok hq hrun)
        calc (feed input rest q').map φ
            = (run body variant h (push (norm s') (rest.flatMap bytes))).map norm := by
              rw [← hview]
              exact ih q' hq' hidle'
          _ = (run body variant h (push s' (rest.flatMap bytes))).map norm := hnorm _ _

end

end Rsurl.Library.Resume
