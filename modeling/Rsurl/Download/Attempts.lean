import Rsurl.Download.Single
import Rsurl.Library.Retry

/-!
# How often a download asks

An attempt that gets further refills the budget, any other takes from it. What is held only grows,
unless an answer discards it. A download asks for ever exactly where that happens for ever.
-/

namespace Rsurl.Download

open Library Library.Loop

namespace Single

variable {opts : DownloadOptions} {urlKey : String} {server : Nat → Exchange} {closing : Closing}
  {resumedFrom : Nat} {s s' : Single} {x : Exchange} {written : Nat} {resumable : Bool} {err : Error}

/-- Where an attempt that may be followed by another one stands: behind what was held, if what it
got can be resumed, and before it only after a discard. -/
theorem Answered.transient_spec (h : Answered opts s x (.transient written resumable err) s') :
    (resumable = true → s.held ≤ written) ∧ (written < s.held → s.Discards x) ∧
      (s.held ≤ maxWord → written ≤ maxWord) := by
  generalize hattempt : Attempt.transient written resumable err = attempt at h
  cases h with
  | failed err hknown =>
    cases hattempt
    exact ⟨nofun, fun hlt => absurd hlt (lt_irrefl _), id⟩
  | fatal err => cases hattempt
  | complete hx => cases hattempt
  | dropped err hx hknown =>
    cases hattempt
    exact ⟨nofun, fun hlt => hx (Nat.zero_lt_of_lt hlt), fun _ => Nat.zero_le _⟩
  | continued hx hcap hknown hbody =>
    subst hattempt
    exact ⟨fun _ => hbody.forward, fun hlt => absurd hbody.forward (not_le.mpr hlt), hbody.inRange⟩
  | @restarted s' attempt acts flag hx hbody =>
    subst hattempt
    refine ⟨fun hflag => ?_, fun hlt => (hx (Nat.zero_lt_of_lt hlt)).1, fun _ =>
      hbody.inRange (Nat.zero_le _)⟩
    by_contra hlt
    have hfalse := (hx (Nat.zero_lt_of_lt (not_le.mp hlt))).2
    rw [hbody.flag _ _ _ rfl, hfalse] at hflag
    cases hflag

/-- Another attempt is a move of what is held and of the budget. -/
theorem retry_move (hforward : resumable = true → s.held ≤ written)
    (h : s.retry opts written resumable = some s') :
    Retry.Move opts.maxRetries (s.held, s.budget) (s'.held, s'.budget) ∧
      (s'.held = s.held ∨ s'.held = written) ∧ s'.attemptNo = s.attemptNo + 1 := by
  simp only [retry] at h
  split_ifs at h with hprogressed hmoved hbudget hmoved
  · cases h
    exact ⟨.climbs hprogressed.2, .inr rfl, rfl⟩
  · exact absurd (.inl hprogressed.1) hmoved
  · cases h
    refine ⟨?_, .inr rfl, rfl⟩
    obtain ⟨budget, hsucc⟩ := Nat.exists_eq_succ_of_ne_zero hbudget
    simp only [hsucc, Nat.succ_sub_one]
    rcases hmoved with hresumable | hlt
    · -- it could be resumed, but it has got nothing
      have hsame : written = s.held := le_antisymm
        (not_lt.mp fun hlt => hprogressed ⟨hresumable, hlt⟩) (hforward hresumable)
      rw [hsame]
      exact .stalls
    · exact .falls hlt
  · cases h
    refine ⟨?_, .inl rfl, rfl⟩
    obtain ⟨budget, hsucc⟩ := Nat.exists_eq_succ_of_ne_zero hbudget
    simp only [hsucc, Nat.succ_sub_one]
    exact .stalls

/-- What one attempt does to the loop when another one follows. -/
theorem turn_move (hheld : s.held ≤ maxWord)
    (h : singleTurn opts urlKey server closing resumedFrom s = .next s') :
    Retry.Move opts.maxRetries (s.held, s.budget) (s'.held, s'.budget) ∧ s'.held ≤ maxWord ∧
      s'.attemptNo = s.attemptNo + 1 ∧
      (s'.held < s.held → s.Discards (server s.attemptNo)) := by
  unfold singleTurn at h
  split at h
  · cases h
  · cases h
  · cases h
  · rename_i written resumable err t hattempt
    obtain ⟨hframe, hanswered⟩ := attempt_cases hattempt
    obtain ⟨hforward, hdiscards, hrange⟩ := hanswered.transient_spec
    split at h
    · rename_i t' hretry
      cases h
      obtain ⟨hmove, hwhere, hnext⟩ := retry_move (fun hr => hframe.held ▸ hforward hr) hretry
      rw [hframe.held, hframe.budget] at hmove
      rw [hframe.attemptNo] at hnext
      rw [hframe.held] at hwhere
      refine ⟨hmove, ?_, hnext, fun hlt => ?_⟩
      · rcases hwhere with hwhere | hwhere <;> rw [hwhere]
        · exact hheld
        · exact hrange hheld
      · rcases hwhere with hwhere | hwhere <;> rw [hwhere] at hlt
        · exact absurd hlt (lt_irrefl _)
        · exact hdiscards hlt
    · cases h

theorem load_held_le (opts : DownloadOptions) (urlKey : String) (stored : Option ResumeState) :
    (load opts urlKey stored).held ≤ maxWord :=
  (loadStreamState_spec urlKey stored rfl).1

end Single

/-- The state in which attempt `k` is made, where the download gets that far. -/
def beforeAttempt (opts : DownloadOptions) (urlKey : String) (stored : Option ResumeState)
    (server : Nat → Exchange) (closing : Closing) (k : Nat) : Option Single :=
  let start := Single.load opts urlKey stored
  after (singleTurn opts urlKey server closing start.held) k start

variable {opts : DownloadOptions} {urlKey : String} {stored : Option ResumeState}
  {server : Nat → Exchange} {closing : Closing}

theorem beforeAttempt_isSome {k : Nat} :
    (beforeAttempt opts urlKey stored server closing k).isSome ↔
      runSingle opts urlKey stored server closing k = none :=
  iterate_eq_none_iff.symm

theorem beforeAttempt_spec {k : Nat} {s : Single}
    (h : beforeAttempt opts urlKey stored server closing k = some s) :
    s.held ≤ maxWord ∧ s.attemptNo = k := by
  induction k generalizing s with
  | zero =>
    cases h
    exact ⟨Single.load_held_le opts urlKey stored, rfl⟩
  | succ k ih =>
    obtain ⟨t, ht⟩ : ∃ t, beforeAttempt opts urlKey stored server closing k = some t := by
      rw [← Option.isSome_iff_exists, beforeAttempt_isSome]
      have hnone := beforeAttempt_isSome.mp (Option.isSome_of_eq_some h)
      cases hrun : runSingle opts urlKey stored server closing k with
      | none => rfl
      | some value => exact absurd ((iterate_mono hrun (Nat.le_succ k)).symm.trans hnone) nofun
    obtain ⟨hheld, hno⟩ := ih ht
    have hturn := (after_succ ht).symm.trans h
    obtain ⟨-, hheld', hno', -⟩ := Single.turn_move hheld (after_one.mp hturn)
    exact ⟨hheld', by omega⟩

/-- A download ends, whatever it is answered, exactly where no more than finitely many answers
discard what it holds. -/
theorem runSingle_ends_iff (opts : DownloadOptions) (urlKey : String) (stored : Option ResumeState)
    (server : Nat → Exchange) (closing : Closing) :
    (∃ fuel, (runSingle opts urlKey stored server closing fuel).isSome) ↔
      {k | ∃ s, beforeAttempt opts urlKey stored server closing k = some s ∧
        s.Discards (server k)}.Finite := by
  constructor
  · rintro ⟨fuel, hfuel⟩
    obtain ⟨value, hvalue⟩ := Option.isSome_iff_exists.mp hfuel
    refine (Set.finite_lt_nat fuel).subset ?_
    rintro k ⟨s, hs, -⟩
    by_contra hlate
    have hnone := beforeAttempt_isSome.mp (Option.isSome_of_eq_some hs)
    exact absurd ((iterate_mono hvalue (not_lt.mp hlate)).symm.trans hnone) nofun
  · intro hfinite
    by_contra hnever
    have hgoes (k : Nat) : (beforeAttempt opts urlKey stored server closing k).isSome :=
      beforeAttempt_isSome.mpr (by simpa using fun h => hnever ⟨k, h⟩)
    choose s hs using fun k => Option.isSome_iff_exists.mp (hgoes k)
    have hmove (k : Nat) := Single.turn_move (beforeAttempt_spec (hs k)).1
      (after_one.mp ((after_succ (hs k)).symm.trans (hs (k + 1))))
    -- the offset held falls for ever, and every fall is a discard
    have hfalls := Retry.falls_infinite (s := fun k => ((s k).held, (s k).budget))
      (fun k => (hmove k).1) fun k => (beforeAttempt_spec (hs k)).1
    refine hfalls (hfinite.subset fun k hk => ⟨s k, hs k, ?_⟩)
    have hdiscards := (hmove k).2.2.2 hk
    rwa [(beforeAttempt_spec (hs k)).2] at hdiscards

/-! ## A download that never ends -/

/-- Half of a body that could be resumed, and then a range that does not line up, by turns. -/
def alternating (k : Nat) : Exchange :=
  if k % 2 = 0 then
    .response ⟨200, "OK", none, some "10", some "bytes", none, none⟩ none
      [.data [1, 2, 3, 4, 5] .stored false false, .failed .connectionReset "reset"]
  else
    .response ⟨206, "Partial Content", some "bytes 0-9/10", some "10", none, none, none⟩ none []

theorem alternating_turn {closing : Closing} {resumedFrom : Nat} {s : Single}
    (h : (s.attemptNo % 2 = 0 ∧ s.held = 0) ∨
      (s.attemptNo % 2 = 1 ∧ s.held = 5 ∧ s.budget = 5)) :
    ∃ s', singleTurn .default "" alternating closing resumedFrom s = .next s' ∧
      ((s'.attemptNo % 2 = 0 ∧ s'.held = 0) ∨
        (s'.attemptNo % 2 = 1 ∧ s'.held = 5 ∧ s'.budget = 5)) := by
  obtain ⟨held, v, knownTotal, budget, attemptNo, acts⟩ := s
  dsimp only at h
  rcases h with ⟨hno, rfl⟩ | ⟨hno, rfl, rfl⟩
  · have hnext : (attemptNo + 1) % 2 = 1 := by omega
    let acts' := acts ++ [Act.asked []] ++
      [Act.sized 10, Act.put 0 [1, 2, 3, 4, 5], Act.saved 10 5 ⟨"", "", ""⟩]
    refine ⟨⟨5, ⟨"", "", ""⟩, some 10, 5, attemptNo + 1, acts'⟩, ?_, .inr ⟨hnext, rfl, rfl⟩⟩
    simp only [singleTurn, alternating, hno]
    rfl
  · have hnext : (attemptNo + 1) % 2 = 0 := by omega
    let held : Single := ⟨5, v, knownTotal, 5, attemptNo, acts⟩
    let acts' := acts ++ [Act.asked held.rangeHeaders] ++ [Act.discarded]
    refine ⟨⟨0, v, none, 4, attemptNo + 1, acts'⟩, ?_, .inl ⟨hnext, rfl⟩⟩
    simp only [singleTurn, alternating, hno]
    rfl

theorem runSingle_endless : ¬∀ (opts : DownloadOptions) (urlKey : String)
    (stored : Option ResumeState) (server : Nat → Exchange) (closing : Closing),
    ∃ fuel, (runSingle opts urlKey stored server closing fuel).isSome := by
  intro h
  obtain ⟨fuel, hfuel⟩ := h .default "" none alternating ⟨.ok [], none⟩
  rw [runSingle, iterate_eq_none (.inl ⟨rfl, rfl⟩) fun _ => alternating_turn] at hfuel
  cases hfuel

end Rsurl.Download
