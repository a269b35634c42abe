import Rsurl.Download.Layout
import Rsurl.Download.Single
import Rsurl.Download.Workers

/-!
# Downloads

`Downloader::run`: a segmented download takes up a partial or starts with the bootstrap request, hands
the chunks to the workers, and falls back to a single stream where the server has no ranges. A script
gives what the server, the store and the scheduler do. The progress meter and the pacing are not
modelled.
-/

namespace Rsurl.Download

open Library.Loop

/-! ## Pumping a body into the store -/

structure Pumped where
  wrote : Nat
  err : Option Error
  tooSlow : Bool
  deriving DecidableEq, Repr

/-- `pump_to_store` at `start`; where the list ends the body does. `none` are reads that cannot
happen. -/
def pumpToStore (floor : Bool) (start want : Nat) : List Flow → Nat → Option (Pumped × List Act)
  | [], wrote => some (⟨wrote, none, false⟩, [])
  | flow :: rest, wrote =>
    if want ≤ wrote then some (⟨wrote, none, false⟩, [])
    else match flow with
    | .tooSlow => if floor then some (⟨wrote, some lowSpeedError, true⟩, []) else none
    | .ended => some (⟨wrote, none, false⟩, [])
    | .failed kind msg => some (⟨wrote, some (.io kind msg), false⟩, [])
    | .data bytes answer =>
      if bytes = [] ∨ min (want - wrote) bufferSize < bytes.length then none
      else match answer with
      | .refused landed kind msg => some (⟨wrote, some (.io kind msg), false⟩,
          [.put (start + wrote) (bytes.take landed)])
      | .stored => (pumpToStore floor start want rest (wrote + bytes.length)).map fun (p, acts) =>
          (p, .put (start + wrote) bytes :: acts)

/-! ## Fetching chunks -/

/-- What a fetch does, with the `If-Range` of its requests. -/
def FetchEvent.act (ifRange : Option String) : FetchEvent → Act
  | .asked _ first last =>
    .asked (("Range", s!"bytes={first}-{last}") :: (ifRange.map ("If-Range", ·)).toList)
  | .put p => .put p.offset p.bytes

/-- `fetch_chunk_streaming`, on the answers it gets; `none` where they do not fit. -/
def Fetching.run (total maxRetries : Nat) (floor : Bool) :
    Fetching → List Answer → Option (ChunkResult × List FetchEvent)
  | .settle _ result, _ => some (result, [])
  | _, [] => none
  | g, a :: rest =>
    match g.step total maxRetries floor a with
    | none => none
    | some (g, events) => (run total maxRetries floor g rest).map fun (result, more) =>
      (result, events ++ more)

def Event.act (job : Job) {workers : Nat} : Event workers → Act
  | .fetch _ event => event.act job.validators.ifRange
  | .saved state => .savedRanged state.chunkKey state.total state.validators state.bitmap

/-- `run_chunks`, with the workers scheduled as given. -/
def runChunks (job : Job) (bitmap : Bytes) (steps : List (Fin job.workerCount × Input)) :
    Option (Except SegErr Unit × List Act) := do
  let s ← (Pool.start job.workerCount bitmap).run job steps
  let result ← s.result
  some (result, s.events.map (Event.act job))

/-! ## The bootstrap request -/

inductive Bootstrap where
  | full (written : Nat)
  | ranged (total : Nat) (validators : Validators) (chunkKey : UInt32) (plan : Plan)
    (bitmap : Bytes)
  deriving DecidableEq, Repr

/-- What a bootstrap request meets: the answer with its body, how the store takes to being sized, and
the answers to the requests for what is missing of the first chunk. -/
inductive BootExchange where
  | failed (err : Error)
  | response (head : Head) (sized : Option (IoErrorKind × String)) (body : List Flow)
    (answers : List Answer)
  deriving DecidableEq, Repr

/-- How a bootstrap request ends: for good, or with a failure that the budget may allow. -/
inductive BootStep where
  | settle (result : Except SegErr Bootstrap)
  | retry (err : Error)
  deriving DecidableEq, Repr

/-- `prepare_part` -/
def preparePart (total : Option Nat) (sized : Option (IoErrorKind × String)) :
    Except SegErr Unit × List Act :=
  match total, sized with
  | some t, some (kind, msg) => (.error (.fatal (.io kind msg)), [.sized t])
  | some t, none => (.ok (), [.sized t])
  | none, _ => (.ok (), [])

/-- An empty resource. -/
def emptyBody (sized : Option (IoErrorKind × String)) : BootStep × List Act :=
  match preparePart (some 0) sized with
  | (.error e, acts) => (.settle (.error e), acts)
  | (.ok (), acts) => (.settle (.ok (.full 0)), acts)

/-- The body is the whole resource. -/
def wholeBody (opts : DownloadOptions) (total : Option Nat) (want : Nat)
    (sized : Option (IoErrorKind × String)) (body : List Flow) : Option (BootStep × List Act) :=
  match preparePart total sized with
  | (.error e, acts) => some (.settle (.error e), acts)
  | (.ok (), acts) => (pumpToStore opts.floor 0 want body 0).map fun (p, puts) =>
    match p.err with
    | some err => (.retry err, acts ++ puts)
    | none => (.settle (.ok (.full p.wrote)), acts ++ puts)

/-- What is missing of the first chunk. -/
def restOfFirst (opts : DownloadOptions) (total wrote end0 : Nat) (answers : List Answer) :
    Option (ChunkResult × List FetchEvent) :=
  if wrote < end0 + 1 then
    Fetching.run total opts.maxRetries opts.floor
      (.send ⟨0, wrote, end0, 0, opts.maxRetries⟩) answers
  else some (.ok, [])

/-- The first chunk has been fetched. -/
def firstFetched (total : Nat) (v : Validators) (chunkKey : UInt32) (plan : Plan)
    (acts : List Act) : ChunkResult → Option (BootStep × List Act)
  | .fallback => some (.settle (.error .fallback), acts)
  | .fatal e => some (.settle (.error (.fatal e)), acts)
  | .ok => (bitSet (List.replicate (divCeil plan.length 8) 0) 0).map fun bitmap =>
    (.settle (.ok (.ranged total v chunkKey plan bitmap)),
      acts ++ [.savedRanged chunkKey total v bitmap])

/-- The body starts with the first chunk of the plan; what is missing of it is fetched. -/
def firstChunk (opts : DownloadOptions) (total : Nat) (v : Validators) (chunkKey : UInt32)
    (plan : Plan) (sized : Option (IoErrorKind × String)) (body : List Flow)
    (answers : List Answer) : Option (BootStep × List Act) :=
  match preparePart (some total) sized with
  | (.error e, acts) => some (.settle (.error e), acts)
  | (.ok (), acts) => do
    let (_, end0) ← plan[0]?
    let (p, puts) ← pumpToStore opts.floor 0 (end0 + 1) body 0
    let (result, events) ← restOfFirst opts total p.wrote end0 answers
    firstFetched total v chunkKey plan
      (acts ++ puts ++ events.map (FetchEvent.act v.ifRange)) result

/-- The total of a range that starts the resource. -/
def wholeRange (cr : Option ContentRange) : Option Nat :=
  cr.bind fun cr => if cr.start = 0 then cr.total else none

/-- The answer to a bootstrap request. -/
def bootAnswer (opts : DownloadOptions) (urlKey : String) (head : Head)
    (sized : Option (IoErrorKind × String)) (body : List Flow) (answers : List Answer) :
    Option (BootStep × List Act) :=
  let fatal (err : Error) : Option (BootStep × List Act) := some (.settle (.error (.fatal err)), [])
  if head.status = 200 then
    if overMax opts head.length then fatal maxSizeError
    else wholeBody opts head.length (head.length.getD maxWord) sized body
  else if head.status = 416 then some (emptyBody sized)
  else if 400 ≤ head.status ∧ head.status < 500 then fatal head.statusError
  else if 500 ≤ head.status then some (.retry head.statusError, [])
  else if head.status ≠ 206 then fatal (.badResponse s!"unexpected status {head.status}")
  else match wholeRange (parseContentRange head.contentRange) with
    | none => some (.settle (.error .fallback), [])
    | some total =>
      if total = 0 then some (emptyBody sized)
      else if overMax opts (some total) then fatal maxSizeError
      else match chunkPlan opts total with
        | none => wholeBody opts (some total) total sized body
        | some (chunkKey, plan) =>
          firstChunk opts total (head.validators urlKey) chunkKey plan sized body answers

def bootRequest (opts : DownloadOptions) (urlKey : String) (x : BootExchange) :
    Option (BootStep × List Act) :=
  let asked : Act := .asked [("Range", "bytes=0-")]
  match x with
  | .failed err =>
    some (if isTransient err then .retry err else .settle (.error (.fatal err)), [asked])
  | .response head sized body answers =>
    (bootAnswer opts urlKey head sized body answers).map fun (step, acts) => (step, asked :: acts)

def bootstrap (opts : DownloadOptions) (urlKey : String) :
    List BootExchange → Nat → Option (Except SegErr Bootstrap × List Act)
  | [], _ => none
  | x :: rest, budget =>
    match bootRequest opts urlKey x with
    | none => none
    | some (.settle result, acts) => some (result, acts)
    | some (.retry err, acts) =>
      if budget = 0 then some (.error (.fatal err), acts)
      else (bootstrap opts urlKey rest (budget - 1)).map fun (result, more) =>
        (result, acts ++ more)

/-! ## The download -/

/-- What a download meets: what the store has saved of a segmented download and of a single stream,
the answers to the bootstrap requests, the steps of the workers, the answers to the attempts of a
single stream, of which there may be so many, and the closing of the store. -/
structure Script where
  ranged : Option ResumeState
  stream : Option ResumeState
  boots : List BootExchange
  workers : ∀ job : Job, List (Fin job.workerCount × Input)
  server : Nat → Exchange
  attempts : Nat
  closing : Closing

/-- `resume_ranged` -/
def resumeRanged (opts : DownloadOptions) (urlKey : String) (stored : Option ResumeState) :
    Option (Nat × Validators × UInt32 × Plan × Bytes) :=
  stored.bind fun state =>
    if state.kind ≠ .httpRanged then none
    else match parseRangedFull state.metadata with
    | .error _ => none
    | .ok (storedKey, v, bitmap) =>
      if v.url ≠ urlKey then none
      else match chunkPlan opts state.realSize with
      | none => none
      | some (chunkKey, plan) =>
        if chunkKey ≠ storedKey ∨ bitmap.length ≠ divCeil plan.length 8 then none
        else some (state.realSize, v, chunkKey, plan, bitmap)

/-- `verify_and_finalize`, and the outcome. -/
def conclude (opts : DownloadOptions) (closing : Closing) (outcome : DownloadOutcome) :
    Except SegErr DownloadOutcome × List Act :=
  let (result, acts) := verifyAndFinalize opts closing
  (match result with
    | .error e => .error (.fatal e)
    | .ok () => .ok outcome, acts)

/-- The chunks that are missing, and the end. -/
def fetchChunks (opts : DownloadOptions) (script : Script) (total : Nat) (v : Validators)
    (chunkKey : UInt32) (plan : Plan) (bitmap : Bytes) (resumedFrom : Nat) :
    Option (Except SegErr DownloadOutcome × List Act) :=
  let job : Job :=
    ⟨plan, total, chunkKey, v, opts.maxRetries, opts.parallelism, opts.lowSpeed⟩
  (runChunks job bitmap (script.workers job)).map fun (result, acts) =>
    match result with
    | .error e => (.error e, acts)
    | .ok () =>
      let (result, more) := conclude opts script.closing ⟨total, some total, resumedFrom⟩
      (result, acts ++ more)

def runSegmented (opts : DownloadOptions) (urlKey : String) (script : Script) :
    Option (Except SegErr DownloadOutcome × List Act) :=
  match resumeRanged opts urlKey script.ranged with
  | some (total, v, chunkKey, plan, bitmap) => do
    let done ← planDoneBytes plan bitmap
    fetchChunks opts script total v chunkKey plan bitmap done
  | none =>
    match bootstrap opts urlKey script.boots opts.maxRetries with
    | none => none
    | some (.error e, acts) => some (.error e, acts)
    | some (.ok (.full written), acts) =>
      let (result, more) := conclude opts script.closing ⟨written, some written, 0⟩
      some (result, acts ++ more)
    | some (.ok (.ranged total v chunkKey plan bitmap), acts) =>
      (fetchChunks opts script total v chunkKey plan bitmap 0).map fun (result, more) =>
        (result, acts ++ more)

/-- `Downloader::run` -/
def run (opts : DownloadOptions) (urlKey : String) (script : Script) : Option (Ended × List Act) :=
  let single := runSingle opts urlKey script.stream script.server script.closing script.attempts
  if opts.segments.isSome ∨ opts.segmentSize.any (0 < ·) then
    match runSegmented opts urlKey script with
    | none => none
    | some (.ok outcome, acts) => some (.returned (.ok outcome), acts)
    | some (.error (.fatal e), acts) => some (.returned (.error e), acts)
    | some (.error .fallback, acts) => single.map fun (ended, more) => (ended, acts ++ more)
  else single

end Rsurl.Download
