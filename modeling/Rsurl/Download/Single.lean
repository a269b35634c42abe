import Rsurl.Download.Chunk
import Rsurl.Download.Metadata
import Rsurl.Download.PartFile
import Rsurl.Library.Loop

/-!
# Single-stream downloads

`run_single`: one request after the other, each for what is still missing, until a body reaches its
end, a failure is permanent or the budget is used up. What the server and the store answer in an
attempt is given. How long an attempt takes is not modelled; where the code looks at the clock, the
answers say what it sees.
-/

namespace Rsurl.Download

open Library.Loop

/-- `impl Default for DownloadOptions` -/
def DownloadOptions.default : DownloadOptions where
  maxRetries := 5
  segmentSize := none
  segments := none
  parallelism := 1
  expectedSha256 := none
  maxSize := none
  lowSpeed := none

/-! ## Responses -/

/-- What a download looks at in the head of a response. -/
structure Head where
  status : Nat
  reason : String
  contentRange : Option String
  contentLength : Option String
  acceptRanges : Option String
  etag : Option String
  lastModified : Option String
  deriving DecidableEq, Repr

namespace Head

/-- `status_error` -/
def statusError (head : Head) : Error := .status head.status head.reason

/-- `validators_from` -/
def validators (urlKey : String) (head : Head) : Validators :=
  ⟨urlKey, head.etag.getD "", head.lastModified.getD ""⟩

def length (head : Head) : Option Nat := head.contentLength.bind fun v => parseU64 (Text.trim v)

def acceptsRanges (head : Head) : Bool :=
  head.acceptRanges.any fun v => contains "bytes" (Text.toAsciiLowercase v)

end Head

/-- A read of a body, what the store makes of it, and whether the clock says that the transfer is
too slow or that its state is due to be saved. Where the list ends the body does. -/
inductive Read where
  | failed (kind : IoErrorKind) (msg : String)
  | data (bytes : Bytes) (answer : StoreAnswer) (slow saveDue : Bool)
  deriving DecidableEq, Repr

/-- What an attempt meets: the answer to its request, and how the store takes to being sized. -/
inductive Exchange where
  | failed (err : Error)
  | response (head : Head) (sized : Option (IoErrorKind × String)) (body : List Read)
  deriving DecidableEq, Repr

/-- What a download does to the server and to the store. -/
inductive Act where
  | asked (headers : List (String × String))
  | sized (len : Nat)
  | put (offset : Nat) (bytes : Bytes)
  | saved (total written : Nat) (validators : Validators)
  | savedRanged (chunkKey : UInt32) (total : Nat) (validators : Validators) (bitmap : Bytes)
  | discarded
  deriving DecidableEq, Repr

/-! ## One attempt -/

inductive Attempt where
  | done (written : Nat) (total : Option Nat)
  | transient (written : Nat) (resumable : Bool) (err : Error)
  | fatal (err : Error)
  deriving DecidableEq, Repr

/-- The variables of `run_single`, and what it has done; `held` is its `have`. -/
structure Single where
  held : Nat
  validators : Validators
  knownTotal : Option Nat
  budget : Nat
  attemptNo : Nat
  acts : List Act
  deriving DecidableEq, Repr

def classifyPreBody (err : Error) (held : Nat) : Attempt :=
  if isTransient err then .transient held false err else .fatal err

def persistStream (total : Option Nat) (done : Nat) (v : Validators) : List Act :=
  match total with
  | some total => [.saved total done v]
  | none => []

/-- `n` more bytes are over the cap; `none` where the sum leaves the range. -/
def overCap (opts : DownloadOptions) (written n : Nat) : Option Bool :=
  match opts.maxSize with
  | some max => (addU64 written n).map fun sum => decide (max < sum)
  | none => some false

/-- Slow connections are cut. -/
def DownloadOptions.floor (opts : DownloadOptions) : Bool := opts.lowSpeed.any fun (min, _) => 0 < min

/-- The loop of `stream_to_store`; `none` where the offset leaves its range. -/
def streamBody (opts : DownloadOptions) (total : Option Nat) (v : Validators) (resumable : Bool) :
    List Read → Nat → Option (Attempt × List Act)
  | [], written => some (.done written (total.or (some written)), [])
  | .failed kind msg :: _, written =>
    some (.transient written resumable (.io kind msg), persistStream total written v)
  | .data bytes answer slow saveDue :: rest, written =>
    if bytes = [] then some (.done written (total.or (some written)), [])
    else match overCap opts written bytes.length with
    | none => none
    | some true => some (.fatal maxSizeError, [])
    | some false => match answer with
      | .refused landed kind msg =>
        some (.transient written resumable (.io kind msg),
          .put written (bytes.take landed) :: persistStream total written v)
      | .stored => match addU64 written bytes.length with
        | none => none
        | some written' =>
          if slow ∧ opts.floor then
            some (.transient written' resumable lowSpeedError,
              .put written bytes :: persistStream total written' v)
          else (streamBody opts total v resumable rest written').map fun (attempt, acts) =>
            (attempt, .put written bytes ::
              ((if saveDue then persistStream total written' v else []) ++ acts))

def streamToStore (opts : DownloadOptions) (offset : Nat) (total : Option Nat) (v : Validators)
    (resumable : Bool) (sized : Option (IoErrorKind × String)) (body : List Read) :
    Option (Attempt × List Act) :=
  match total, sized with
  | some t, some (kind, msg) => some (.fatal (.io kind msg), [.sized t])
  | some t, none => (streamBody opts total v resumable body offset).map fun (attempt, acts) =>
    (attempt, .sized t :: acts)
  | none, _ => (streamBody opts total v resumable body offset).map fun (attempt, acts) =>
    (attempt, if offset = 0 then .sized 0 :: acts else acts)

/-- An announced total is over the cap. -/
def overMax (opts : DownloadOptions) (total : Option Nat) : Bool :=
  opts.maxSize.any fun max => total.any (max < ·)

namespace Single

/-- The headers that ask for the bytes from `held` on. -/
def rangeHeaders (s : Single) : List (String × String) :=
  if 0 < s.held then
    ("Range", s!"bytes={s.held}-") :: (s.validators.ifRange.map ("If-Range", ·)).toList
  else []

def log (s : Single) (acts : List Act) : Single := { s with acts := s.acts ++ acts }

/-- The bytes held are dropped. -/
def discard (s : Single) : Single := { s.log [.discarded] with knownTotal := none }

/-- The body of a success, which goes to the store from `offset` on. -/
def receive (opts : DownloadOptions) (s : Single) (offset : Nat) (total : Option Nat)
    (resumable : Bool) (sized : Option (IoErrorKind × String)) (body : List Read) :
    Option (Attempt × Single) :=
  if overMax opts total then some (.fatal maxSizeError, s)
  else (streamToStore opts offset total s.validators resumable sized body).map
    fun (attempt, acts) => (attempt, s.log acts)

/-- The range of a 206 continues what is held. -/
def LinesUp (s : Single) (cr : ContentRange) : Prop :=
  cr.start = s.held ∧ (s.knownTotal = none ∨ cr.total = s.knownTotal)

instance (s : Single) (cr : ContentRange) : Decidable (s.LinesUp cr) := by
  unfold LinesUp
  infer_instance

end Single

def attemptSingle (opts : DownloadOptions) (urlKey : String) (s : Single) :
    Exchange → Option (Attempt × Single)
  | .failed err => some (classifyPreBody err s.held, s.log [.asked s.rangeHeaders])
  | .response head sized body =>
    let s := s.log [.asked s.rangeHeaders]
    if head.status = 416 then
      let total := parseUnsatisfiedTotal head.contentRange
      if 0 < s.held ∧ total.or s.knownTotal = some s.held then
        some (.done s.held (some s.held), s)
      else if 0 < s.held ∧ total.isSome then
        some (.transient 0 false (.badResponse "resource changed size during resume"), s.discard)
      else some (.fatal head.statusError, s)
    else if 300 ≤ head.status ∧ head.status < 400 then
      some (.fatal (.badResponse s!"unexpected redirect status {head.status}"), s)
    else if 400 ≤ head.status ∧ head.status < 500 then some (.fatal head.statusError, s)
    else if 500 ≤ head.status then some (.transient s.held false head.statusError, s)
    else if head.status = 206 then
      match parseContentRange head.contentRange with
      | some cr =>
        if s.LinesUp cr then
          { s with knownTotal := cr.total }.receive opts s.held cr.total true sized body
        else
          some (.transient 0 false (.badResponse "range offset mismatch on resume"), s.discard)
      | none =>
        some (.transient 0 false (.badResponse "range offset mismatch on resume"), s.discard)
    else
      { s with validators := head.validators urlKey, knownTotal := head.length }.receive opts 0
        head.length (decide (s.held = 0) && head.acceptsRanges) sized body

/-! ## All attempts -/

structure DownloadOutcome where
  bytesWritten : Nat
  total : Option Nat
  resumedFrom : Nat
  deriving DecidableEq, Repr

/-- How the store hashes what it holds, and how it takes to being published. -/
structure Closing where
  hash : Except (IoErrorKind × String) Bytes
  publish : Option (IoErrorKind × String)

def verifyAndFinalize (opts : DownloadOptions) (closing : Closing) : Except Error Unit × List Act :=
  let publish := match closing.publish with
    | some (kind, msg) => .error (.io kind msg)
    | none => .ok ()
  match opts.expectedSha256, closing.hash with
  | none, _ => (publish, [])
  | some _, .error (kind, msg) => (.error (.io kind msg), [])
  | some want, .ok got =>
    if got = want then (publish, [])
    else (.error (.badResponse "downloaded file failed SHA-256 verification"), [.discarded])

/-- How a download ends. -/
inductive Ended where
  | returned (result : Except Error DownloadOutcome)
  | panicked
  deriving DecidableEq, Repr

/-- The variables of `run_single` after an attempt that is worth another one, if the budget has one. -/
def Single.retry (opts : DownloadOptions) (s : Single) (written : Nat) (resumable : Bool) :
    Option Single :=
  let held := if resumable ∨ written < s.held then written else s.held
  if resumable ∧ s.held < written then
    some { s with held := held, budget := opts.maxRetries, attemptNo := s.attemptNo + 1 }
  else if s.budget = 0 then none
  else some { s with held := held, budget := s.budget - 1, attemptNo := s.attemptNo + 1 }

/-- A turn of `run_single`, and what has been done when it is the last. -/
def singleTurn (opts : DownloadOptions) (urlKey : String) (server : Nat → Exchange)
    (closing : Closing) (resumedFrom : Nat) (s : Single) : Turn Single (Ended × List Act) :=
  match attemptSingle opts urlKey s (server s.attemptNo) with
  | none => .done (.panicked, s.acts)
  | some (.done written total, s) =>
    let (result, acts) := verifyAndFinalize opts closing
    .done (.returned (result.map fun _ => ⟨written, total, resumedFrom⟩), s.acts ++ acts)
  | some (.fatal err, s) => .done (.returned (.error err), s.acts)
  | some (.transient written resumable err, s) =>
    match s.retry opts written resumable with
    | some s => .next s
    | none => .done (.returned (.error err), s.acts)

/-- `load_stream_state` -/
def loadStreamState (urlKey : String) (stored : Option ResumeState) :
    Nat × Validators × Option Nat :=
  match stored with
  | some state =>
    match state.kind, parseStreamMeta state.metadata with
    | .httpStream, .ok (done, v) =>
      if v.url = urlKey ∧ done.toNat ≤ state.realSize then (done.toNat, v, some state.realSize)
      else (0, .none, none)
    | _, _ => (0, .none, none)
  | none => (0, .none, none)

/-- What a partial says is held is within its size. -/
theorem loadStreamState_spec (urlKey : String) (stored : Option ResumeState) {held : Nat}
    {v : Validators} {knownTotal : Option Nat}
    (h : loadStreamState urlKey stored = (held, v, knownTotal)) :
    held ≤ maxWord ∧ (0 < held → ∃ total, knownTotal = some total ∧ held ≤ total) := by
  unfold loadStreamState at h
  split at h
  · split at h
    · split_ifs at h with hmatches <;> cases h
      · exact ⟨Nat.le_of_lt_succ (UInt64.toNat_lt _), fun _ => ⟨_, rfl, hmatches.2⟩⟩
      · exact ⟨Nat.zero_le _, fun h => absurd h (lt_irrefl 0)⟩
    · cases h
      exact ⟨Nat.zero_le _, fun h => absurd h (lt_irrefl 0)⟩
  · cases h
    exact ⟨Nat.zero_le _, fun h => absurd h (lt_irrefl 0)⟩

/-- Where `run_single` starts. -/
def Single.load (opts : DownloadOptions) (urlKey : String) (stored : Option ResumeState) : Single :=
  let (held, validators, knownTotal) := loadStreamState urlKey stored
  ⟨held, validators, knownTotal, opts.maxRetries, 0, []⟩

/-- `run_single`, for at most `fuel` attempts. -/
def runSingle (opts : DownloadOptions) (urlKey : String) (stored : Option ResumeState)
    (server : Nat → Exchange) (closing : Closing) (fuel : Nat) : Option (Ended × List Act) :=
  let start := Single.load opts urlKey stored
  iterate (singleTurn opts urlKey server closing start.held) fuel start

/-! ## Where an attempt ends -/

/-- What holds of the offset that an attempt has got to, if it does not fail for good. -/
def Attempt.At (P : Nat → Prop) : Attempt → Prop
  | .done written _ | .transient written _ _ => P written
  | .fatal _ => True

theorem Attempt.At.imp {P Q : Nat → Prop} {attempt : Attempt} (h : attempt.At P)
    (hPQ : ∀ written, P written → Q written) : attempt.At Q := by
  cases attempt with
  | fatal err => trivial
  | done written _ | transient written _ _ => exact hPQ written h

/-- What is written stays below `max`. -/
def Act.Within (max : Nat) : Act → Prop
  | .put offset bytes => offset + bytes.length ≤ max
  | _ => True

theorem persistStream_within (max : Nat) (total : Option Nat) (done : Nat) (v : Validators) :
    ∀ act ∈ persistStream total done v, act.Within max := by
  cases total with
  | none => exact nofun
  | some total =>
    intro act hact
    obtain rfl := List.mem_singleton.mp hact
    trivial

theorem addU64_some {a b sum : Nat} (h : addU64 a b = some sum) : sum = a + b ∧ sum ≤ maxWord := by
  unfold addU64 at h
  split_ifs at h with hle
  cases h
  exact ⟨rfl, hle⟩

theorem overCap_false {opts : DownloadOptions} {written n max : Nat} (hmax : opts.maxSize = some max)
    (h : overCap opts written n = some false) : written + n ≤ max := by
  simp only [overCap, hmax, Option.map_eq_some_iff, decide_eq_false_iff_not, not_lt] at h
  obtain ⟨sum, hsum, hle⟩ := h
  exact (addU64_some hsum).1 ▸ hle

/-- What `stream_to_store` comes to from `offset` on. -/
structure Streamed (opts : DownloadOptions) (resumable : Bool) (offset : Nat) (attempt : Attempt)
    (acts : List Act) : Prop where
  forward : attempt.At (offset ≤ ·)
  inRange : offset ≤ maxWord → attempt.At (· ≤ maxWord)
  flag : ∀ written flag err, attempt = .transient written flag err → flag = resumable
  capped : ∀ max, opts.maxSize = some max → offset ≤ max → attempt.At (· ≤ max)
  within : ∀ max, opts.maxSize = some max → ∀ act ∈ acts, act.Within max

namespace Streamed

variable {opts : DownloadOptions} {total : Option Nat} {v : Validators} {resumable : Bool}
  {offset : Nat} {attempt : Attempt} {acts : List Act}

theorem done (opts : DownloadOptions) (resumable : Bool) (offset : Nat) (total : Option Nat) :
    Streamed opts resumable offset (.done offset total) [] where
  forward := le_rfl
  inRange := id
  flag := nofun
  capped _ _ := id
  within _ _ := nofun

theorem transient (err : Error)
    (hacts : ∀ max, opts.maxSize = some max → ∀ act ∈ acts, act.Within max) :
    Streamed opts resumable offset (.transient offset resumable err) acts where
  forward := le_rfl
  inRange := id
  flag _ _ _ h := by cases h; rfl
  capped _ _ := id
  within := hacts

theorem fatal (err : Error)
    (hacts : ∀ max, opts.maxSize = some max → ∀ act ∈ acts, act.Within max) :
    Streamed opts resumable offset (.fatal err) acts where
  forward := trivial
  inRange _ := trivial
  flag := nofun
  capped _ _ _ := trivial
  within := hacts

theorem prepend {more : List Act} (h : Streamed opts resumable offset attempt acts)
    (hmore : ∀ max, opts.maxSize = some max → ∀ act ∈ more, act.Within max) :
    Streamed opts resumable offset attempt (more ++ acts) :=
  { h with
    within := fun max hmax act hact =>
      (List.mem_append.mp hact).elim (hmore max hmax act) (h.within max hmax act) }

/-- Bytes under the cap are put before the rest of the body. -/
theorem put {bytes : Bytes} {offset' : Nat} (hcap : overCap opts offset bytes.length = some false)
    (hadd : addU64 offset bytes.length = some offset')
    (h : Streamed opts resumable offset' attempt acts) :
    Streamed opts resumable offset attempt (.put offset bytes :: acts) := by
  obtain ⟨rfl, hrange⟩ := addU64_some hadd
  refine ⟨h.forward.imp fun _ => (Nat.le_add_right ..).trans, fun _ => h.inRange hrange, h.flag,
    fun max hmax _ => h.capped max hmax (overCap_false hmax hcap), fun max hmax act hact => ?_⟩
  rcases List.mem_cons.mp hact with rfl | hact
  · exact overCap_false hmax hcap
  · exact h.within max hmax act hact

theorem of_streamBody {body : List Read}
    (h : streamBody opts total v resumable body offset = some (attempt, acts)) :
    Streamed opts resumable offset attempt acts := by
  have hsaved (written max : Nat) (_ : opts.maxSize = some max) :=
    persistStream_within max total written v
  fun_induction streamBody opts total v resumable body offset generalizing attempt acts with
  | case1 | case3 =>
    cases h
    exact done ..
  | case2 _ _ _ written =>
    cases h
    exact transient _ (hsaved written)
  | case4 | case7 => cases h
  | case5 =>
    cases h
    exact fatal _ fun _ _ => nofun
  | case6 bytes _ _ _ written _ hcap landed kind msg =>
    cases h
    refine transient _ fun max hmax act hact => ?_
    rcases List.mem_cons.mp hact with rfl | hact
    · have := overCap_false hmax hcap
      simp only [Act.Within, List.length_take]
      omega
    · exact hsaved written max hmax act hact
  | case8 bytes _ _ _ written _ hcap written' hadd =>
    cases h
    exact put hcap hadd (transient _ (hsaved written'))
  | case9 bytes _ _ _ written _ hcap written' hadd _ ih =>
    obtain ⟨⟨attempt', acts'⟩, hrest, heq⟩ := Option.map_eq_some_iff.mp h
    cases heq
    refine put hcap hadd ((ih hrest).prepend fun max hmax => ?_)
    split
    · exact hsaved written' max hmax
    · exact nofun

theorem of_streamToStore {sized : Option (IoErrorKind × String)} {body : List Read}
    (h : streamToStore opts offset total v resumable sized body = some (attempt, acts)) :
    Streamed opts resumable offset attempt acts := by
  have hsized (len max : Nat) (_ : opts.maxSize = some max) : ∀ act ∈ [Act.sized len],
      act.Within max := fun act hact => List.mem_singleton.mp hact ▸ trivial
  cases total with
  | some t => cases sized with
    | some refusal =>
      cases h
      exact fatal _ (hsized t)
    | none =>
      obtain ⟨⟨attempt', acts'⟩, hbody, heq⟩ := Option.map_eq_some_iff.mp h
      cases heq
      exact (of_streamBody hbody).prepend (hsized t)
  | none =>
    obtain ⟨⟨attempt', acts'⟩, hbody, heq⟩ := Option.map_eq_some_iff.mp h
    cases heq
    split
    · exact (of_streamBody hbody).prepend (hsized 0)
    · exact of_streamBody hbody

end Streamed

/-! ## What an attempt does -/

namespace Single

/-- A 416 that says that what is held is all there is. -/
def Completes (s : Single) : Exchange → Prop
  | .failed _ => False
  | .response head _ _ => head.status = 416 ∧ 0 < s.held ∧
    (parseUnsatisfiedTotal head.contentRange).or s.knownTotal = some s.held

/-- Bytes are held and the answer does not go on from them: it is a 416 that names another size, a
206 that does not line up, or a whole body. -/
def Discards (s : Single) : Exchange → Prop
  | .failed _ => False
  | .response head _ _ => 0 < s.held ∧
    ((head.status = 416 ∧ ∃ total, parseUnsatisfiedTotal head.contentRange = some total ∧
        total ≠ s.held) ∨
      (head.status = 206 ∧ ∀ cr, parseContentRange head.contentRange = some cr → ¬s.LinesUp cr) ∨
      (head.status < 300 ∧ head.status ≠ 206))

/-- An attempt leaves the variables of the loop alone and stays below the cap. -/
structure Frame (opts : DownloadOptions) (s s' : Single) : Prop where
  held : s'.held = s.held
  budget : s'.budget = s.budget
  attemptNo : s'.attemptNo = s.attemptNo
  within : ∀ max, opts.maxSize = some max → (∀ act ∈ s.acts, act.Within max) →
    ∀ act ∈ s'.acts, act.Within max

/-- What an attempt can come to. -/
inductive Answered (opts : DownloadOptions) (s : Single) (x : Exchange) :
    Attempt → Single → Prop where
  | failed {s' : Single} (err : Error) (hknown : s'.knownTotal = s.knownTotal) :
    Answered opts s x (.transient s.held false err) s'
  | fatal {s' : Single} (err : Error) : Answered opts s x (.fatal err) s'
  | complete {s' : Single} (hx : s.Completes x) : Answered opts s x (.done s.held (some s.held)) s'
  | dropped {s' : Single} (err : Error) (hx : 0 < s.held → s.Discards x)
    (hknown : s'.knownTotal = none) : Answered opts s x (.transient 0 false err) s'
  | continued {s' : Single} {attempt : Attempt} {acts : List Act} {cr : ContentRange}
    (hx : s.LinesUp cr) (hcap : overMax opts cr.total = false) (hknown : s'.knownTotal = cr.total)
    (hbody : Streamed opts true s.held attempt acts) : Answered opts s x attempt s'
  | restarted {s' : Single} {attempt : Attempt} {acts : List Act} {resumable : Bool}
    (hx : 0 < s.held → s.Discards x ∧ resumable = false)
    (hbody : Streamed opts resumable 0 attempt acts) : Answered opts s x attempt s'

variable {opts : DownloadOptions} {urlKey : String} {s s' : Single} {x : Exchange}
  {attempt : Attempt}

theorem Frame.refl (opts : DownloadOptions) (s : Single) : Frame opts s s :=
  ⟨rfl, rfl, rfl, fun _ _ => id⟩

/-- More acts, all of them below the cap. -/
theorem Frame.log (h : Frame opts s s') {acts : List Act}
    (hacts : ∀ max, opts.maxSize = some max → ∀ act ∈ acts, act.Within max) :
    Frame opts s (s'.log acts) :=
  { h with
    within := fun max hmax hs act hact =>
      (List.mem_append.mp hact).elim (h.within max hmax hs act) (hacts max hmax act) }

theorem Frame.one (h : Frame opts s s') (act : Act) (hact : ∀ max, act.Within max) :
    Frame opts s (s'.log [act]) :=
  h.log fun max _ _ hmem => List.mem_singleton.mp hmem ▸ hact max

theorem receive_cases {offset : Nat} {total : Option Nat} {resumable : Bool}
    {sized : Option (IoErrorKind × String)} {body : List Read}
    (h : s.receive opts offset total resumable sized body = some (attempt, s')) :
    (attempt = .fatal maxSizeError ∧ s' = s) ∨ (overMax opts total = false ∧
      ∃ acts, Streamed opts resumable offset attempt acts ∧ s' = s.log acts) := by
  unfold receive at h
  split_ifs at h with hcap
  · cases h
    exact .inl ⟨rfl, rfl⟩
  · obtain ⟨⟨attempt', acts⟩, hstream, heq⟩ := Option.map_eq_some_iff.mp h
    cases heq
    exact .inr ⟨by simpa using hcap, acts, .of_streamToStore hstream, rfl⟩

theorem attempt_cases (h : attemptSingle opts urlKey s x = some (attempt, s')) :
    Frame opts s s' ∧ Answered opts s x attempt s' := by
  have hasked : Frame opts s (s.log [.asked s.rangeHeaders]) :=
    (Frame.refl opts s).one _ fun _ => trivial
  have hdiscarded : Frame opts s (s.log [.asked s.rangeHeaders]).discard :=
    { hasked.one .discarded fun _ => trivial with }
  cases x with
  | failed err =>
    cases h
    refine ⟨hasked, ?_⟩
    unfold classifyPreBody
    split
    · exact .failed err rfl
    · exact .fatal err
  | response head sized body =>
    simp only [attemptSingle] at h
    split_ifs at h with h416 hcomplete hchanged h3xx h4xx h5xx h206
    · cases h
      exact ⟨hasked, .complete ⟨h416, hcomplete⟩⟩
    · -- the size is another one
      cases h
      obtain ⟨hheld, hsome⟩ := hchanged
      obtain ⟨total, htotal⟩ := Option.isSome_iff_exists.mp hsome
      have hother : total ≠ s.held := by
        rintro rfl
        exact hcomplete ⟨hheld, by rw [htotal]; rfl⟩
      exact ⟨hdiscarded, .dropped _ (fun _ => ⟨hheld, .inl ⟨h416, total, htotal, hother⟩⟩) rfl⟩
    · cases h
      exact ⟨hasked, .fatal _⟩
    · cases h
      exact ⟨hasked, .fatal _⟩
    · cases h
      exact ⟨hasked, .fatal _⟩
    · cases h
      exact ⟨hasked, .failed _ rfl⟩
    · have hdropped (err : Error)
          (hno : ∀ cr, parseContentRange head.contentRange = some cr → ¬s.LinesUp cr) :
          Answered opts s (.response head sized body) (.transient 0 false err)
            (s.log [.asked s.rangeHeaders]).discard :=
        .dropped err (fun hheld => ⟨hheld, .inr (.inl ⟨h206, hno⟩)⟩) rfl
      split at h
      · rename_i cr hcr
        split_ifs at h with hline
        · rcases receive_cases h with ⟨rfl, rfl⟩ | ⟨hcap, acts, hbody, rfl⟩
          · exact ⟨{ hasked with }, .fatal _⟩
          · have hknown : Frame opts s { s.log [.asked s.rangeHeaders] with knownTotal := cr.total } :=
              { hasked with }
            exact ⟨hknown.log hbody.within, .continued hline hcap rfl hbody⟩
        · cases h
          refine ⟨hdiscarded, hdropped _ fun cr' hcr' => ?_⟩
          rw [hcr] at hcr'
          cases hcr'
          exact hline
      · rename_i hnone
        cases h
        exact ⟨hdiscarded, hdropped _ fun cr hcr => absurd (hnone ▸ hcr) nofun⟩
    · have hlow : head.status < 300 := by omega
      rcases receive_cases h with ⟨rfl, rfl⟩ | ⟨hcap, acts, hbody, rfl⟩
      · exact ⟨{ hasked with }, .fatal _⟩
      · have hnew : Frame opts s { s.log [.asked s.rangeHeaders] with
            validators := head.validators urlKey, knownTotal := head.length } := { hasked with }
        refine ⟨hnew.log hbody.within, .restarted (fun hheld => ⟨?_, ?_⟩) hbody⟩
        · exact ⟨hheld, .inr (.inr ⟨hlow, h206⟩)⟩
        · have : s.held ≠ 0 := by omega
          simp [Single.log, this]

end Single

end Rsurl.Download
