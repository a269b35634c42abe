import Rsurl.Download.Bootstrap

/-!
# The cap on the size

With a cap nothing is put behind it and no more than it is returned, as long as the download does not
meet one of three things that no path of it checks: a saved state of a larger resource, a whole body
of unknown length in answer to the bootstrap request, and a 416 that completes a larger partial.
-/

namespace Rsurl.Download

open Library.Loop

variable {opts : DownloadOptions} {max : Nat}

/-! ## A single stream -/

theorem overMax_false (hmax : opts.maxSize = some max) {total : Option Nat}
    (h : overMax opts total = false) {t : Nat} (ht : total = some t) : t ≤ max := by
  simpa [overMax, hmax, ht] using h

theorem verifyAndFinalize_within (opts : DownloadOptions) (closing : Closing) (max : Nat) :
    ∀ act ∈ (verifyAndFinalize opts closing).2, act.Within max := by
  unfold verifyAndFinalize
  extract_lets publish
  split
  · exact nofun
  · exact nofun
  · split
    · exact nofun
    · exact fun act hact => List.mem_singleton.mp hact ▸ trivial

namespace Single

variable {urlKey : String} {server : Nat → Exchange} {closing : Closing} {resumedFrom : Nat}
  {s s' : Single} {x : Exchange} {attempt : Attempt}

/-- What is held is below the cap, or it is of a resource that is not. -/
structure Capped (max : Nat) (s : Single) : Prop where
  held : s.held ≤ max ∨ ∃ total, s.knownTotal = some total ∧ max < total
  within : ∀ act ∈ s.acts, act.Within max

/-- What an attempt has got to is below the cap, or it has got nowhere. -/
theorem Answered.capped (hmax : opts.maxSize = some max) (hs : s.Capped max)
    (h : Answered opts s x attempt s') (hx : s.Completes x → s.held ≤ max) :
    attempt.At (· ≤ max) ∨ s'.knownTotal = s.knownTotal ∧
      ∃ err, attempt = .transient s.held false err := by
  cases h with
  | failed err hknown => exact .inr ⟨hknown, err, rfl⟩
  | fatal err => exact .inl trivial
  | complete hc => exact .inl (hx hc)
  | dropped err hd hknown => exact .inl (Nat.zero_le max)
  | @continued s' attempt acts cr hline hcap hknown hbody =>
    rcases hs.held with hheld | ⟨total, htotal, hlarge⟩
    · exact .inl (hbody.capped max hmax hheld)
    · -- the range would be one of the larger resource
      rcases hline.2 with hnone | hsame
      · exact absurd (hnone.symm.trans htotal) nofun
      · exact absurd hlarge (not_lt.mpr (overMax_false hmax hcap (hsame.trans htotal)))
  | restarted hd hbody => exact .inl (hbody.capped max hmax (Nat.zero_le max))

theorem retry_held {written : Nat} {resumable : Bool} (h : s.retry opts written resumable = some s') :
    (s'.held = written ∨ s'.held = s.held ∧ s.held ≤ written) ∧ s'.knownTotal = s.knownTotal ∧
      s'.acts = s.acts := by
  simp only [retry] at h
  split_ifs at h with hprogressed hmoved hbudget hmoved
  · cases h
    exact ⟨.inl rfl, rfl, rfl⟩
  · exact absurd (.inl hprogressed.1) hmoved
  · cases h
    exact ⟨.inl rfl, rfl, rfl⟩
  · cases h
    exact ⟨.inr ⟨rfl, not_lt.mp fun hlt => hmoved (.inr hlt)⟩, rfl, rfl⟩

theorem turn_capped (hmax : opts.maxSize = some max) (hs : s.Capped max)
    (h : singleTurn opts urlKey server closing resumedFrom s = .next s')
    (hx : s.Completes (server s.attemptNo) → s.held ≤ max) : s'.Capped max := by
  unfold singleTurn at h
  split at h
  · cases h
  · cases h
  · cases h
  · rename_i written resumable err t hattempt
    obtain ⟨hframe, hanswered⟩ := attempt_cases hattempt
    split at h
    · rename_i t' hretry
      cases h
      obtain ⟨hheld, hknown, hacts⟩ := retry_held hretry
      rw [hframe.held] at hheld
      refine ⟨?_, hacts ▸ hframe.within max hmax hs.within⟩
      rcases hanswered.capped hmax hs hx with hcapped | ⟨hsame, err', heq⟩
      · have hwritten : written ≤ max := hcapped
        omega
      · -- nothing has changed
        cases heq
        have hheld' : s'.held = s.held := hheld.elim id And.left
        rw [hheld', hknown, hsame]
        exact hs.held
    · cases h

theorem turn_done_capped (hmax : opts.maxSize = some max) (hs : s.Capped max)
    {outcome : DownloadOutcome} {acts : List Act}
    (h : singleTurn opts urlKey server closing resumedFrom s =
      .done (.returned (.ok outcome), acts))
    (hx : s.Completes (server s.attemptNo) → s.held ≤ max) :
    outcome.bytesWritten ≤ max ∧ ∀ act ∈ acts, act.Within max := by
  have hclosing := verifyAndFinalize_within opts closing max
  unfold singleTurn at h
  generalize verifyAndFinalize opts closing = closed at h hclosing
  obtain ⟨result, more⟩ := closed
  split at h
  · cases h
  · rename_i written total t hattempt
    obtain ⟨hframe, hanswered⟩ := attempt_cases hattempt
    cases result with
    | error e => cases h
    | ok value =>
      cases h
      refine ⟨?_, fun act hact => (List.mem_append.mp hact).elim
        (hframe.within max hmax hs.within act) (hclosing act)⟩
      rcases hanswered.capped hmax hs hx with hcapped | ⟨-, err, heq⟩
      · exact hcapped
      · cases heq
  · cases h
  · split at h <;> cases h

theorem load_capped (opts : DownloadOptions) (urlKey : String) (stored : Option ResumeState)
    (max : Nat) : (load opts urlKey stored).Capped max := by
  refine ⟨?_, nofun⟩
  by_cases hheld : (load opts urlKey stored).held ≤ max
  · exact .inl hheld
  · rw [not_le] at hheld
    obtain ⟨-, hknown⟩ := loadStreamState_spec urlKey stored rfl
    obtain ⟨total, htotal, hle⟩ := hknown (Nat.zero_lt_of_lt hheld)
    exact .inr ⟨total, htotal, hheld.trans_le hle⟩

end Single

/-- The variables of `run_single` at the start of each attempt. -/
def singleAttempts (opts : DownloadOptions) (urlKey : String) (script : Script) : List Single :=
  let start := Single.load opts urlKey script.stream
  trail (singleTurn opts urlKey script.server script.closing start.held) script.attempts start

theorem runSingle_capped (hmax : opts.maxSize = some max) {urlKey : String} {script : Script}
    (hcompleted : ∀ s ∈ singleAttempts opts urlKey script, s.Completes (script.server s.attemptNo) →
      s.held ≤ max)
    {outcome : DownloadOutcome} {acts : List Act}
    (h : runSingle opts urlKey script.stream script.server script.closing script.attempts =
      some (.returned (.ok outcome), acts)) :
    outcome.bytesWritten ≤ max ∧ ∀ act ∈ acts, act.Within max := by
  obtain ⟨s, hmem, hs, hdone⟩ := iterate_trail h (Single.load_capped opts urlKey script.stream max)
    fun s hmem hs s' hnext => Single.turn_capped hmax hs hnext (hcompleted s hmem)
  exact Single.turn_done_capped hmax hs hdone (hcompleted s hmem)

/-! ## Pumping -/

/-- How many bytes a body has. -/
def bodyLength : List Flow → Nat
  | .data bytes _ :: rest => bytes.length + bodyLength rest
  | _ => 0

theorem Act.Within.mono {act : Act} {max max' : Nat} (h : act.Within max) (hle : max ≤ max') :
    act.Within max' := by
  cases act with
  | put offset bytes => exact h.trans hle
  | asked | sized | saved | savedRanged | discarded => trivial

/-- A pump gets as far as what is wanted and what there is, and it puts nothing behind that. -/
theorem pumpToStore_spec {floor : Bool} {start want wrote : Nat} {body : List Flow} {p : Pumped}
    {acts : List Act} (h : pumpToStore floor start want body wrote = some (p, acts))
    (hwrote : wrote ≤ want) :
    p.wrote ≤ min want (wrote + bodyLength body) ∧
      ∀ act ∈ acts, act.Within (start + min want (wrote + bodyLength body)) := by
  have hstay : wrote ≤ min want (wrote + bodyLength body) :=
    le_min hwrote (Nat.le_add_right ..)
  fun_induction pumpToStore floor start want body wrote generalizing p acts with
  | case1 | case2 | case3 | case5 | case6 =>
    cases h
    exact ⟨hstay, nofun⟩
  | case4 | case7 => cases h
  | case8 rest wrote hmore bytes hbytes landed kind msg =>
    cases h
    refine ⟨hstay, fun act hact => ?_⟩
    obtain rfl := List.mem_singleton.mp hact
    have hfits := Nat.le_of_not_lt (not_or.mp hbytes).2
    simp only [Act.Within, List.length_take, bodyLength]
    omega
  | case9 rest wrote hmore bytes hbytes ih =>
    obtain ⟨⟨p', acts'⟩, hrest, heq⟩ := Option.map_eq_some_iff.mp h
    cases heq
    have hfits := Nat.le_of_not_lt (not_or.mp hbytes).2
    have hnext : wrote + bytes.length ≤ want := by omega
    obtain ⟨hp, hacts⟩ := ih hrest hnext (le_min hnext (Nat.le_add_right ..))
    rw [Nat.add_assoc] at hp hacts
    refine ⟨hp, fun act hact => ?_⟩
    rcases List.mem_cons.mp hact with rfl | hact
    · simp only [Act.Within, bodyLength]
      omega
    · exact hacts act hact

/-! ## Chunks -/

/-- All chunks of the plan are below the cap. -/
def Below (plan : Plan) (max : Nat) : Prop :=
  ∀ (i : Nat) (c : Nat × Nat), plan[i]? = some c → c.2 < max

theorem Covers.below {plan : Plan} {total : Nat} (h : Covers plan total) (hle : total ≤ max) :
    Below plan max :=
  fun i c hc => (h.bounds i c hc).2.trans_le hle

theorem FetchEvent.act_within {plan : Plan} {total : Nat} (hplan : Below plan max)
    {event : FetchEvent} (h : ∀ p, event = .put p → p.Fits plan total) (ifRange : Option String) :
    (event.act ifRange).Within max := by
  cases event with
  | asked chunk first last => trivial
  | put p =>
    obtain ⟨start, last, hchunk, -, hend⟩ := (h p rfl).inside
    exact hend.trans (hplan _ _ hchunk)

theorem Fetching.run_within {plan : Plan} {total maxRetries : Nat} {floor : Bool} {g : Fetching}
    (hplan : Below plan max) (hof : g.Of plan total) {answers : List Answer} {result : ChunkResult}
    {events : List FetchEvent}
    (h : g.run total maxRetries floor answers = some (result, events)) (ifRange : Option String) :
    ∀ event ∈ events, (event.act ifRange).Within max := by
  induction answers generalizing g events with
  | nil =>
    cases g with
    | settle i r =>
      cases h
      exact nofun
    | send f | pump f head wrote => cases h
  | cons a rest ih =>
    cases g with
    | settle i r =>
      cases h
      exact nofun
    | send f | pump f head wrote =>
      simp only [run] at h
      split at h
      · cases h
      · rename_i g' here hstep
        obtain ⟨⟨result', more⟩, hrest, heq⟩ := Option.map_eq_some_iff.mp h
        cases heq
        obtain ⟨-, hof', hputs, -⟩ := step_got hof hstep
        intro event hevent
        rcases List.mem_append.mp hevent with hevent | hevent
        · have hfits (p : Put) (hp : event = .put p) : p.Fits plan total :=
            (hputs p (hp ▸ hevent)).2
          exact FetchEvent.act_within hplan hfits ifRange
        · exact ih hof' hrest event hevent

theorem runChunks_within {job : Job} (hcovers : Covers job.plan job.total) (hle : job.total ≤ max)
    {bitmap : Bytes} {steps : List (Fin job.workerCount × Input)} {result : Except SegErr Unit}
    {acts : List Act} (h : runChunks job bitmap steps = some (result, acts)) :
    ∀ act ∈ acts, act.Within max := by
  simp only [runChunks, Option.bind_eq_bind, Option.bind_eq_some_iff, Option.some.injEq,
    Prod.mk.injEq] at h
  obtain ⟨s, hrun, -, -, -, rfl⟩ := h
  have hstart : Pool.Standing job (fun _ => True) (Pool.start job.workerCount bitmap) :=
    Pool.standing_start fun _ _ _ _ => trivial
  have hstanding := hstart.run (fun i c hc => (hcovers.bounds i c hc).1) (Pool.run_steps hrun)
  intro act hact
  obtain ⟨event, hevent, rfl⟩ := List.mem_map.mp hact
  cases event with
  | saved state => trivial
  | fetch w event =>
    have hfits (p : Put) (hp : event = .put p) : p.Fits job.plan job.total :=
      hstanding.stored.puts w p (hp ▸ hevent)
    exact FetchEvent.act_within (hcovers.below hle) hfits _

/-! ## The bootstrap request -/

/-- A whole body of unknown length is not longer than the cap. -/
def BootExchange.Capped (max : Nat) : BootExchange → Prop
  | .failed _ => True
  | .response head _ body _ => head.status = 200 → head.length = none → bodyLength body ≤ max

/-- What a bootstrap has found is below the cap. -/
def Bootstrap.Capped (opts : DownloadOptions) (max : Nat) : Bootstrap → Prop
  | .full written => written ≤ max
  | .ranged total _ chunkKey plan _ => total ≤ max ∧ chunkPlan opts total = some (chunkKey, plan)

/-- What a bootstrap request comes to, and what it does, are below the cap. -/
structure BootStep.Capped (opts : DownloadOptions) (max : Nat) (step : BootStep)
    (acts : List Act) : Prop where
  found : ∀ b, step = .settle (.ok b) → b.Capped opts max
  within : ∀ act ∈ acts, act.Within max

theorem BootStep.Capped.failed (err : SegErr) : Capped opts max (.settle (.error err)) [] :=
  ⟨nofun, nofun⟩

theorem preparePart_within (max : Nat) (total : Option Nat) (sized : Option (IoErrorKind × String)) :
    ∀ act ∈ (preparePart total sized).2, act.Within max := by
  rcases total with - | total
  · exact nofun
  · rcases sized with - | refusal <;>
      exact fun act hact => List.mem_singleton.mp hact ▸ trivial

theorem emptyBody_capped {sized : Option (IoErrorKind × String)} {step : BootStep}
    {acts : List Act} (h : emptyBody sized = (step, acts)) : step.Capped opts max acts := by
  have hprepare := preparePart_within max (some 0) sized
  unfold emptyBody at h
  split at h <;> rename_i heq <;> rw [heq] at hprepare <;> cases h
  · exact ⟨nofun, hprepare⟩
  · refine ⟨fun b hb => ?_, hprepare⟩
    cases hb
    exact Nat.zero_le max

theorem wholeBody_capped {total : Option Nat} {want : Nat} {sized : Option (IoErrorKind × String)}
    {body : List Flow} {step : BootStep} {acts : List Act} (hle : min want (bodyLength body) ≤ max)
    (h : wholeBody opts total want sized body = some (step, acts)) : step.Capped opts max acts := by
  have hprepare := preparePart_within max total sized
  unfold wholeBody at h
  split at h
  · rename_i e acts heq
    rw [heq] at hprepare
    cases h
    exact ⟨nofun, hprepare⟩
  · rename_i prepared heq
    rw [heq] at hprepare
    obtain ⟨⟨p, puts⟩, hpump, hstep⟩ := Option.map_eq_some_iff.mp h
    obtain ⟨hwrote, hputs⟩ := pumpToStore_spec hpump (Nat.zero_le want)
    simp only [Nat.zero_add] at hwrote hputs
    have hacts : ∀ act ∈ prepared ++ puts, act.Within max := fun act hact =>
      (List.mem_append.mp hact).elim (hprepare act) fun hact =>
        (hputs act hact).mono hle
    simp only at hstep
    split at hstep <;> cases hstep
    · exact ⟨nofun, hacts⟩
    · refine ⟨fun b hb => ?_, hacts⟩
      cases hb
      exact hwrote.trans hle

theorem restOfFirst_within {total wrote end0 : Nat} (hend : end0 < max) {answers : List Answer}
    {result : ChunkResult} {events : List FetchEvent}
    (h : restOfFirst opts total wrote end0 answers = some (result, events))
    (ifRange : Option String) : ∀ event ∈ events, (event.act ifRange).Within max := by
  unfold restOfFirst at h
  split_ifs at h with hless
  · have hbelow : Below [(wrote, end0)] max := by
      intro i c hc
      obtain ⟨hi, hc⟩ := List.getElem?_eq_some_iff.mp hc
      obtain rfl : i = 0 := by simpa using hi
      exact hc ▸ hend
    have hof : (Fetching.send ⟨0, wrote, end0, 0, opts.maxRetries⟩).Of [(wrote, end0)] total :=
      ⟨rfl, Nat.le_of_lt_succ hless, Nat.zero_le _⟩
    exact Fetching.run_within hbelow hof h ifRange
  · cases h
    exact nofun

theorem firstFetched_capped {total : Nat} {v : Validators} {chunkKey : UInt32} {plan : Plan}
    {acts acts' : List Act} {result : ChunkResult} {step : BootStep}
    (hfound : ∀ bitmap, (Bootstrap.ranged total v chunkKey plan bitmap).Capped opts max)
    (hacts : ∀ act ∈ acts, act.Within max)
    (h : firstFetched total v chunkKey plan acts result = some (step, acts')) :
    step.Capped opts max acts' := by
  cases result with
  | fallback | fatal e =>
    cases h
    exact ⟨nofun, hacts⟩
  | ok =>
    obtain ⟨bitmap, -, heq⟩ := Option.map_eq_some_iff.mp h
    cases heq
    refine ⟨fun b hb => ?_, fun act hact => (List.mem_append.mp hact).elim (hacts act) fun hact =>
      List.mem_singleton.mp hact ▸ trivial⟩
    cases hb
    exact hfound bitmap

theorem firstChunk_capped {total : Nat} {v : Validators} {chunkKey : UInt32} {plan : Plan}
    (hmax : total ≤ max) (hrange : max ≤ maxWord)
    (hplan : chunkPlan opts total = some (chunkKey, plan)) {sized : Option (IoErrorKind × String)}
    {body : List Flow} {answers : List Answer} {step : BootStep} {acts : List Act}
    (h : firstChunk opts total v chunkKey plan sized body answers = some (step, acts)) :
    step.Capped opts max acts := by
  have hprepare := preparePart_within max (some total) sized
  have hbelow := (covers_chunkPlan (hmax.trans hrange) hplan).below hmax
  unfold firstChunk at h
  split at h
  · rename_i e acts heq
    rw [heq] at hprepare
    cases h
    exact ⟨nofun, hprepare⟩
  · rename_i prepared heq
    rw [heq] at hprepare
    simp only [Option.bind_eq_bind, Option.bind_eq_some_iff] at h
    obtain ⟨⟨start0, end0⟩, hchunk, ⟨p, puts⟩, hpump, ⟨result, events⟩, hrest, hfetched⟩ := h
    have hend : end0 < max := hbelow 0 _ hchunk
    have hputs := (pumpToStore_spec hpump (Nat.zero_le _)).2
    have hevents := restOfFirst_within hend hrest v.ifRange
    refine firstFetched_capped (fun _ => ⟨hmax, hplan⟩) (fun act hact => ?_) hfetched
    rcases List.mem_append.mp hact with hact | hact
    · rcases List.mem_append.mp hact with hact | hact
      · exact hprepare act hact
      · refine (hputs act hact).mono ?_
        rw [Nat.zero_add]
        exact (Nat.min_le_left ..).trans hend
    · obtain ⟨event, hevent, rfl⟩ := List.mem_map.mp hact
      exact hevents event hevent

theorem bootAnswer_capped (hmax : opts.maxSize = some max) (hrange : max ≤ maxWord)
    {urlKey : String} {head : Head} {sized : Option (IoErrorKind × String)} {body : List Flow}
    {answers : List Answer} (hx : (BootExchange.response head sized body answers).Capped max)
    {step : BootStep} {acts : List Act}
    (h : bootAnswer opts urlKey head sized body answers = some (step, acts)) :
    step.Capped opts max acts := by
  unfold bootAnswer at h
  dsimp only at h
  split_ifs at h with h200 hover h416 h4xx h5xx h206
  · cases h
    exact .failed _
  · -- the body is not longer than what it announces, or than the cap
    refine wholeBody_capped ?_ h
    cases hlength : head.length with
    | some total =>
      exact (Nat.min_le_left ..).trans (overMax_false hmax (by simpa using hover) hlength)
    | none => exact (Nat.min_le_right ..).trans (hx h200 hlength)
  · exact emptyBody_capped (Option.some.inj h)
  · cases h
    exact .failed _
  · cases h
    exact ⟨nofun, nofun⟩
  · cases h
    exact .failed _
  · split at h
    · cases h
      exact .failed _
    · rename_i total htotal
      split_ifs at h with hzero hover
      · exact emptyBody_capped (Option.some.inj h)
      · cases h
        exact .failed _
      · have hle : total ≤ max := overMax_false hmax (by simpa using hover) rfl
        split at h
        · exact wholeBody_capped ((Nat.min_le_left ..).trans hle) h
        · rename_i chunkKey plan hplan
          exact firstChunk_capped hle hrange hplan h

theorem bootRequest_capped (hmax : opts.maxSize = some max) (hrange : max ≤ maxWord)
    {urlKey : String} {x : BootExchange} (hx : x.Capped max) {step : BootStep} {acts : List Act}
    (h : bootRequest opts urlKey x = some (step, acts)) : step.Capped opts max acts := by
  cases x with
  | failed err =>
    cases h
    refine ⟨?_, fun act hact => List.mem_singleton.mp hact ▸ trivial⟩
    split <;> exact nofun
  | response head sized body answers =>
    obtain ⟨⟨step', acts'⟩, hanswer, heq⟩ := Option.map_eq_some_iff.mp h
    cases heq
    obtain ⟨hfound, hwithin⟩ := bootAnswer_capped hmax hrange hx hanswer
    refine ⟨hfound, fun act hact => ?_⟩
    rcases List.mem_cons.mp hact with rfl | hact
    · trivial
    · exact hwithin act hact

/-- Below the cap, however often the bootstrap asks. -/
theorem bootstrap_capped (hmax : opts.maxSize = some max) (hrange : max ≤ maxWord)
    {urlKey : String} {boots : List BootExchange} (hboots : ∀ x ∈ boots, x.Capped max)
    {budget : Nat} {result : Except SegErr Bootstrap} {acts : List Act}
    (h : bootstrap opts urlKey boots budget = some (result, acts)) :
    (∀ b, result = .ok b → b.Capped opts max) ∧ ∀ act ∈ acts, act.Within max := by
  induction boots generalizing budget acts with
  | nil => cases h
  | cons x rest ih =>
    rw [bootstrap] at h
    split at h
    · cases h
    · rename_i result' acts' hrequest
      cases h
      obtain ⟨hfound, hwithin⟩ :=
        bootRequest_capped hmax hrange (hboots x List.mem_cons_self) hrequest
      exact ⟨fun b hb => hfound b (hb ▸ rfl), hwithin⟩
    · rename_i err here hrequest
      obtain ⟨-, hwithin⟩ := bootRequest_capped hmax hrange (hboots x List.mem_cons_self) hrequest
      split_ifs at h
      · cases h
        exact ⟨nofun, hwithin⟩
      · obtain ⟨⟨result', more⟩, hrest, heq⟩ := Option.map_eq_some_iff.mp h
        cases heq
        obtain ⟨hfound, hmore⟩ := ih (fun y hy => hboots y (List.mem_cons_of_mem x hy)) hrest
        exact ⟨hfound, fun act hact => (List.mem_append.mp hact).elim (hwithin act) (hmore act)⟩

/-! ## The download -/

/-- A result and what has been done on the way are below the cap. -/
structure ResultCapped (max : Nat) (result : Except SegErr DownloadOutcome) (acts : List Act) :
    Prop where
  returned : ∀ outcome, result = .ok outcome → outcome.bytesWritten ≤ max
  within : ∀ act ∈ acts, act.Within max

theorem ResultCapped.prepend {result : Except SegErr DownloadOutcome} {acts more : List Act}
    (h : ResultCapped max result more) (hacts : ∀ act ∈ acts, act.Within max) :
    ResultCapped max result (acts ++ more) :=
  ⟨h.returned, fun act hact => (List.mem_append.mp hact).elim (hacts act) (h.within act)⟩

theorem conclude_capped (closing : Closing) {outcome : DownloadOutcome}
    (hle : outcome.bytesWritten ≤ max) {result : Except SegErr DownloadOutcome} {acts : List Act}
    (h : conclude opts closing outcome = (result, acts)) : ResultCapped max result acts := by
  have hclosing := verifyAndFinalize_within opts closing max
  unfold conclude at h
  generalize verifyAndFinalize opts closing = closed at h hclosing
  obtain ⟨closed, more⟩ := closed
  cases h
  refine ⟨fun outcome' heq => ?_, hclosing⟩
  split at heq <;> cases heq
  exact hle

theorem fetchChunks_capped {script : Script} {total : Nat} {v : Validators} {chunkKey : UInt32}
    {plan : Plan} (hle : total ≤ max) (hrange : max ≤ maxWord)
    (hplan : chunkPlan opts total = some (chunkKey, plan)) {bitmap : Bytes} {resumedFrom : Nat}
    {result : Except SegErr DownloadOutcome} {acts : List Act}
    (h : fetchChunks opts script total v chunkKey plan bitmap resumedFrom = some (result, acts)) :
    ResultCapped max result acts := by
  unfold fetchChunks at h
  extract_lets job at h
  obtain ⟨⟨chunks, acts'⟩, hchunks, heq⟩ := Option.map_eq_some_iff.mp h
  have hcovers : Covers job.plan job.total := covers_chunkPlan (hle.trans hrange) hplan
  have hacts := runChunks_within hcovers hle hchunks
  cases chunks with
  | error e =>
    cases heq
    exact ⟨nofun, hacts⟩
  | ok value =>
    cases heq
    exact (conclude_capped script.closing hle rfl).prepend hacts

/-- A download does not meet what it has no check for. A part of the script that is not reached may
be empty. -/
structure KeepsCap (opts : DownloadOptions) (urlKey : String) (max : Nat) (script : Script) :
    Prop where
  resumed : ∀ total v chunkKey plan bitmap,
    resumeRanged opts urlKey script.ranged = some (total, v, chunkKey, plan, bitmap) → total ≤ max
  boots : ∀ x ∈ script.boots, x.Capped max
  completed : ∀ s ∈ singleAttempts opts urlKey script,
    s.Completes (script.server s.attemptNo) → s.held ≤ max

theorem resumeRanged_plan {urlKey : String} {stored : Option ResumeState} {total : Nat}
    {v : Validators} {chunkKey : UInt32} {plan : Plan} {bitmap : Bytes}
    (h : resumeRanged opts urlKey stored = some (total, v, chunkKey, plan, bitmap)) :
    chunkPlan opts total = some (chunkKey, plan) := by
  obtain ⟨state, -, h⟩ := Option.bind_eq_some_iff.mp h
  split_ifs at h
  split at h
  · cases h
  · split_ifs at h
    split at h
    · cases h
    · rename_i hplan
      split_ifs at h
      cases h
      exact hplan

theorem runSegmented_capped (hmax : opts.maxSize = some max) (hrange : max ≤ maxWord)
    {urlKey : String} {script : Script} (hkeeps : KeepsCap opts urlKey max script)
    {result : Except SegErr DownloadOutcome} {acts : List Act}
    (h : runSegmented opts urlKey script = some (result, acts)) : ResultCapped max result acts := by
  unfold runSegmented at h
  split at h
  · rename_i total v chunkKey plan bitmap hresumed
    simp only [Option.bind_eq_bind, Option.bind_eq_some_iff] at h
    obtain ⟨done, -, hchunks⟩ := h
    have hle := hkeeps.resumed _ _ _ _ _ hresumed
    exact fetchChunks_capped hle hrange (resumeRanged_plan hresumed) hchunks
  · split at h
    · cases h
    · rename_i e acts' hboot
      cases h
      exact ⟨nofun, (bootstrap_capped hmax hrange hkeeps.boots hboot).2⟩
    · rename_i written acts' hboot
      obtain ⟨hfound, hacts⟩ := bootstrap_capped hmax hrange hkeeps.boots hboot
      cases h
      have hle : written ≤ max := hfound _ rfl
      exact (conclude_capped script.closing hle rfl).prepend hacts
    · rename_i total v chunkKey plan bitmap acts' hboot
      obtain ⟨hfound, hacts⟩ := bootstrap_capped hmax hrange hkeeps.boots hboot
      obtain ⟨hle, hplan⟩ := hfound _ rfl
      obtain ⟨⟨result', more⟩, hchunks, heq⟩ := Option.map_eq_some_iff.mp h
      cases heq
      exact (fetchChunks_capped hle hrange hplan hchunks).prepend hacts

/-- A download that ends well has stayed below its cap, whichever way it has taken. -/
theorem run_capped (opts : DownloadOptions) (urlKey : String) (script : Script) {max : Nat}
    (hmax : opts.maxSize = some max) (hrange : max ≤ maxWord)
    (hkeeps : KeepsCap opts urlKey max script) {outcome : DownloadOutcome} {acts : List Act}
    (h : run opts urlKey script = some (.returned (.ok outcome), acts)) :
    outcome.bytesWritten ≤ max ∧ ∀ act ∈ acts, act.Within max := by
  unfold run at h
  extract_lets single at h
  split_ifs at h
  · split at h
    · cases h
    · rename_i outcome' acts' hsegmented
      cases h
      obtain ⟨hreturned, hwithin⟩ := runSegmented_capped hmax hrange hkeeps hsegmented
      exact ⟨hreturned _ rfl, hwithin⟩
    · cases h
    · rename_i acts' hsegmented
      have hbefore := (runSegmented_capped hmax hrange hkeeps hsegmented).within
      obtain ⟨⟨ended, more⟩, hsingle, heq⟩ := Option.map_eq_some_iff.mp h
      cases heq
      obtain ⟨hle, hmore⟩ := runSingle_capped hmax hkeeps.completed hsingle
      exact ⟨hle, fun act hact => (List.mem_append.mp hact).elim (hbefore act) (hmore act)⟩
  · exact runSingle_capped hmax hkeeps.completed h

/-- A server without ranges, asked by a download in two segments. -/
def unranged (contentLength : Option String) (bytes : Bytes) : Script where
  ranged := none
  stream := none
  boots := [.response ⟨200, "OK", none, contentLength, none, none, none⟩ none
    [.data bytes .stored] []]
  workers _ := []
  server _ := .failed .unexpectedEof
  attempts := 0
  closing := ⟨.ok [], none⟩

def inTwo (max : Nat) : DownloadOptions := { DownloadOptions.default with
  segments := some 2, maxSize := some max }

theorem run_capped_unranged : ∃ outcome acts,
    run (inTwo 3) "" (unranged (some "3") [1, 2, 3]) = some (.returned (.ok outcome), acts) ∧
      outcome.bytesWritten ≤ 3 ∧ ∀ act ∈ acts, act.Within 3 := by
  have hkeeps : KeepsCap (inTwo 3) "" 3 (unranged (some "3") [1, 2, 3]) := by
    refine ⟨nofun, fun x hx => ?_, nofun⟩
    obtain rfl := List.mem_singleton.mp hx
    exact fun _ hlength => absurd hlength (by decide)
  have hrun : run (inTwo 3) "" (unranged (some "3") [1, 2, 3]) =
      some (.returned (.ok ⟨3, some 3, 0⟩),
        [.asked [("Range", "bytes=0-")], .sized 3, .put 0 [1, 2, 3]]) := rfl
  exact ⟨_, _, hrun, run_capped _ _ _ rfl (by decide) hkeeps hrun⟩

/-- A body without a length goes past the cap. -/
theorem run_uncapped : ¬∀ (opts : DownloadOptions) (urlKey : String) (script : Script) (max : Nat)
    (outcome : DownloadOutcome) (acts : List Act), opts.maxSize = some max → max ≤ maxWord →
    run opts urlKey script = some (.returned (.ok outcome), acts) →
      outcome.bytesWritten ≤ max ∧ ∀ act ∈ acts, act.Within max := by
  intro h
  have hrun : run (inTwo 0) "" (unranged none [7]) = some (.returned (.ok ⟨1, some 1, 0⟩),
      [.asked [("Range", "bytes=0-")], .put 0 [7]]) := rfl
  exact absurd (h (inTwo 0) "" _ 0 _ _ rfl (by decide) hrun).1 (by decide)

end Rsurl.Download
