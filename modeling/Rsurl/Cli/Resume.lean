import Rsurl.Download.PartFile
import Rsurl.Download.Single
import Rsurl.Url

/-!
# Resuming into an output file

A download is continued at an offset by asking for the rest and appending it: the file is opened
before the request goes out, and the status of the response decides what becomes of its body. The
range of a 206 is not looked at, and a redirect or an error is written like one.
-/

namespace Rsurl.Cli.Resume

open Text Download
open Http2 (Url)
open Hpack (Header)

/-! ## Where the output goes -/

/-- The flags of a resumed download. -/
structure Args where
  continueAt : Option Nat := none
  continueResume : Bool := false
  remoteName : Bool := false
  output : Option String := none
  outputDir : Option String := none
  fail : Bool := false
  compressed : Bool := false
  headers : List Header := []
  maxFilesize : Option Nat := none
  speedLimit : Option String := none
  speedTime : Option String := none
  deriving DecidableEq, Repr

def remoteNameFromUrl (url : Url) : Except String String :=
  let path := url.path.toList.takeWhile (· ≠ '?')
  let last := (path.rdropWhile (· = '/')).rtakeWhile (· ≠ '/')
  if last = [] ∨ last = ['.'] ∨ last = ['.', '.'] then .error "Refusing to overwrite stdin"
  else .ok (String.ofList last)

/-- `Path::join` -/
def joinPath (dir name : String) : String :=
  if dir = "" ∨ startsWith "/" name then name
  else if dir.toList.getLast? = some '/' then dir ++ name
  else dir ++ "/" ++ name

def outputPath (args : Args) (name : String) : String :=
  match args.outputDir with
  | some dir => joinPath dir name
  | none => name

def partPath (path : String) : String := path ++ ".rsurlpart"

/-- The name of the output, if it is a file. -/
def outputName (url : Url) (args : Args) : Option String :=
  if args.remoteName then (remoteNameFromUrl url).toOption
  else args.output.filter (· ≠ "-")

def resumeOffset (url : Url) (args : Args) (fs : Files) : Option Nat :=
  match args.continueAt with
  | some n => if 0 < n then some n else none
  | none =>
    if !args.continueResume then none
    else do
      let path := outputPath args (← outputName url args)
      if (fs (partPath path)).isSome then none
      else
        let content ← fs path
        if 0 < content.length then some content.length else none

/-- The path of the output, if it is a file. -/
def outputFile (url : Url) (args : Args) : Option String :=
  (outputName url args).map (outputPath args)

/-! ## The sink -/

/-- A piece of a body on its way to the sink: the seconds gone when the speed is looked at, and how
much of it has been put where writing it fails. -/
structure Chunk where
  bytes : Bytes
  nonempty : bytes ≠ []
  secs : Nat := 0
  fault : Option Nat := none
  deriving DecidableEq

/-- Why the sink or the callback stops a transfer. -/
inductive Stop where
  | tooLarge
  | tooSlow
  | failed
  | rangeIgnored
  deriving DecidableEq, Repr

structure DownloadSink where
  content : Bytes
  written : Nat := 0
  deriving DecidableEq, Repr

def lowSpeedParams (args : Args) : Option Nat × Nat :=
  match args.speedLimit.bind parseU64, args.speedTime.bind parseU64 with
  | none, none => (none, 30)
  | l, t => (some (l.getD 1), t.getD 30)

def exceeds (args : Args) (s : DownloadSink) (c : Chunk) : Bool :=
  args.maxFilesize.any (· < s.written + c.bytes.length)

def tooSlow (args : Args) (written secs : Nat) : Bool :=
  (lowSpeedParams args).1.any fun limit =>
    (lowSpeedParams args).2 ≤ secs && written / max secs 1 < limit

namespace DownloadSink

def put (s : DownloadSink) (bytes : Bytes) : DownloadSink :=
  ⟨s.content ++ bytes, s.written + bytes.length⟩

def write (args : Args) (s : DownloadSink) (c : Chunk) : DownloadSink × Option Stop :=
  if exceeds args s c then (s, some .tooLarge)
  else match c.fault with
    | some n => ({ s with content := s.content ++ c.bytes.take n }, some .failed)
    | none =>
      (s.put c.bytes,
        if tooSlow args (s.written + c.bytes.length) c.secs then some .tooSlow else none)

end DownloadSink

/-! ## The transfer -/

/-- A final response. The status is 0 where none could be read. -/
structure Reply where
  head : Head
  body : List Chunk
  deriving DecidableEq

/-- What the transport hands over: the response, behind those of attempts it has given up, and the
error it ends with. -/
structure Transfer where
  replies : List Reply
  failure : Option Error := none
  deriving DecidableEq

structure Request where
  headers : List Header := []
  decompress : Bool := true
  deriving DecidableEq, Repr

namespace Request

def header (req : Request) (name value : String) : Request :=
  { req with headers := req.headers ++ [(name, value)] }

/-- Ask for the rest, and for the identity coding of it. -/
def resuming (req : Request) (args : Args) (offset : Nat) : Request :=
  let req := req.header "Range" s!"bytes={offset}-"
  if !args.compressed && !args.headers.any (eqIgnoreAsciiCase ·.1 "accept-encoding") then
    { req.header "Accept-Encoding" "identity" with decompress := false }
  else req

end Request

/-- What becomes of a chunk. -/
def onChunk (args : Args) (status : Nat) (s : DownloadSink) (c : Chunk) :
    DownloadSink × Option Stop :=
  if status = 206 then s.write args c
  else if status = 416 then (s, none)
  else if 200 ≤ status ∧ status ≤ 299 then (s, some .rangeIgnored)
  else if 400 ≤ status ∧ args.fail then (s, none)
  else s.write args c

/-- The chunks of a body, up to the first that is refused. -/
def onBody (args : Args) (status : Nat) (s : DownloadSink) : List Chunk →
    DownloadSink × Option Stop
  | [] => (s, none)
  | c :: cs => match onChunk args status s c with
    | (s, some stop) => (s, some stop)
    | (s, none) => onBody args status s cs

def Reply.deliver (args : Args) (s : DownloadSink) (r : Reply) : DownloadSink × Option Stop :=
  onBody args r.head.status s r.body

/-- The last refusal is the error of the transfer. -/
def deliverAll (args : Args) (s : DownloadSink) (stop : Option Stop) : List Reply →
    DownloadSink × Option Stop
  | [] => (s, stop)
  | r :: rs => deliverAll args (r.deliver args s).1 ((r.deliver args s).2.or stop) rs

/-! ## The run -/

structure World where
  /-- The file cannot be opened. -/
  denied : String → Bool
  serve : Request → Transfer

inductive Exit where
  | noName (msg : String)
  | cannotOpen (name : String)
  | rangeIgnored
  | stopped (stop : Stop)
  | failed (err : Error)
  | returned (status : Nat)
  | done
  deriving DecidableEq, Repr

def exitOf (args : Args) (t : Transfer) (stop : Option Stop) : Exit :=
  let status := (t.replies.getLast?.map (·.head.status)).getD 0
  match stop, t.failure with
  | some .rangeIgnored, _ => .rangeIgnored
  | some stop, _ => .stopped stop
  | none, some err => .failed err
  | none, none =>
    if 200 ≤ status ∧ status < 300 ∧ status ≠ 206 then .rangeIgnored
    else if args.fail ∧ 400 ≤ status then .returned status
    else .done

/-- The transfer, appended to the file of that name. -/
def runToFile (w : World) (req : Request) (args : Args) (fs : Files) (name : String) :
    Exit × Files :=
  let path := outputPath args name
  if w.denied path then (.cannotOpen name, fs)
  else
    let t := w.serve req
    let (sink, stop) := deliverAll args ⟨(fs path).getD [], 0⟩ none t.replies
    (exitOf args t stop, change path (fun _ => sink.content) fs)

/-- What goes to the standard output is in no file. -/
def runToStdout (w : World) (req : Request) (args : Args) (fs : Files) : Exit × Files :=
  let t := w.serve req
  (exitOf args t (deliverAll args ⟨[], 0⟩ none t.replies).2, fs)

/-- The exit and the files. -/
def runHttpResume (w : World) (req : Request) (url : Url) (args : Args) (offset : Nat)
    (fs : Files) : Exit × Files :=
  let req := req.resuming args offset
  if args.remoteName then
    match remoteNameFromUrl url with
    | .error msg => (.noName msg, fs)
    | .ok name => runToFile w req args fs name
  else match args.output with
    | none => runToStdout w req args fs
    | some name => if name = "-" then runToStdout w req args fs else runToFile w req args fs name

/-! ## What a response may do to the file -/

def Reply.bytes (r : Reply) : Bytes := r.body.flatMap (·.bytes)

/-- The range of the response starts at the offset. -/
def Reply.StartsAt (r : Reply) (offset : Nat) : Prop :=
  (parseContentRange r.head.contentRange).map (·.start) = some offset

/-- The response carries what comes next in the file. -/
def Reply.Continues (r : Reply) (offset : Nat) (file : Bytes) : Prop :=
  r.head.status = 206 ∧ r.StartsAt offset ∧ offset = file.length

/-- The file is as it was, or has got bytes that come next. -/
def Reply.Harmless (r : Reply) (offset : Nat) (file after : Bytes) : Prop :=
  after = file ∨ r.Continues offset file ∧ ∃ w, w <+: r.bytes ∧ after = file ++ w

/-- The body of a response with the status is for the file. -/
def Kept (args : Args) (status : Nat) : Prop :=
  status = 206 ∨ status ≠ 416 ∧ ¬(200 ≤ status ∧ status ≤ 299) ∧ ¬(400 ≤ status ∧ args.fail)

instance (args : Args) (status : Nat) : Decidable (Kept args status) := by
  unfold Kept; infer_instance

/-- Nothing of the response reaches the file: its body is dropped or refused, there is none, or the
first piece of it does not fit. -/
def Reply.Mute (r : Reply) (args : Args) (s : DownloadSink) : Prop :=
  Kept args r.head.status → ∀ c ∈ r.body.head?, exceeds args s c ∨ c.fault = some 0

theorem onChunk_of_kept {args : Args} {status : Nat} (h : Kept args status) (s : DownloadSink)
    (c : Chunk) : onChunk args status s c = s.write args c := by
  rcases h with h | ⟨h416, h2xx, hfail⟩
  · simp [onChunk, h]
  · simp [onChunk, h416, h2xx, hfail]

theorem onChunk_of_not_kept {args : Args} {status : Nat} (h : ¬Kept args status)
    (s : DownloadSink) (c : Chunk) : (onChunk args status s c).1 = s := by
  rw [Kept, not_or] at h
  obtain ⟨h206, h⟩ := h
  rw [onChunk, if_neg h206]
  split_ifs with h416 h2xx hfail
  · rfl
  · rfl
  · rfl
  · exact absurd ⟨h416, h2xx, hfail⟩ h

/-- What a write adds. -/
theorem write_content (args : Args) (s : DownloadSink) (c : Chunk) :
    ∃ w, w <+: c.bytes ∧ (s.write args c).1.content = s.content ++ w ∧
      ((s.write args c).2 = none → w = c.bytes) ∧
      (w = [] ↔ exceeds args s c ∨ c.fault = some 0) := by
  unfold DownloadSink.write
  by_cases h : exceeds args s c
  · rw [if_pos h]
    exact ⟨[], List.nil_prefix, by simp, by simp, by simp [h]⟩
  · rw [if_neg h]
    cases c.fault with
    | none => exact ⟨c.bytes, List.prefix_rfl, rfl, fun _ => rfl, by simp [h, c.nonempty]⟩
    | some n =>
      refine ⟨c.bytes.take n, List.take_prefix _ _, rfl, by simp, ?_⟩
      simp [h, List.take_eq_nil_iff, c.nonempty]

theorem onBody_of_not_kept {args : Args} {status : Nat} (h : ¬Kept args status)
    (s : DownloadSink) (body : List Chunk) : (onBody args status s body).1 = s := by
  induction body generalizing s with
  | nil => rfl
  | cons c cs ih =>
    have hc := onChunk_of_not_kept h s c
    unfold onBody
    split
    · simp_all
    · simp_all

/-- What the file gets is from the start of the body. -/
theorem onBody_content (args : Args) (status : Nat) (s : DownloadSink) (body : List Chunk) :
    ∃ w, w <+: body.flatMap (·.bytes) ∧
      (onBody args status s body).1.content = s.content ++ w := by
  by_cases hk : Kept args status
  · induction body generalizing s with
    | nil => exact ⟨[], List.nil_prefix, by simp [onBody]⟩
    | cons c cs ih =>
      obtain ⟨w, hw, hcontent, hall, -⟩ := write_content args s c
      rw [onBody, onChunk_of_kept hk]
      split
      · rename_i s' stop hs
        rw [hs] at hcontent
        exact ⟨w, hw.trans (by simp), hcontent⟩
      · rename_i s' hs
        rw [hs] at hcontent hall
        obtain ⟨v, hv, hrest⟩ := ih s'
        obtain rfl := hall rfl
        refine ⟨c.bytes ++ v, ?_, ?_⟩
        · simpa using hv
        · rw [hrest, hcontent, List.append_assoc]
  · exact ⟨[], List.nil_prefix, by simp [onBody_of_not_kept hk]⟩

/-- A response leaves the file alone just where nothing of it is for the file. -/
theorem deliver_content_eq_iff (args : Args) (s : DownloadSink) (r : Reply) :
    (r.deliver args s).1.content = s.content ↔ r.Mute args s := by
  unfold Reply.deliver Reply.Mute
  by_cases hk : Kept args r.head.status
  · cases r.body with
    | nil => simp [onBody]
    | cons c cs =>
      obtain ⟨w, -, hcontent, hall, hempty⟩ := write_content args s c
      rw [onBody, onChunk_of_kept hk]
      rw [List.head?_cons]
      split
      · rename_i s' stop hs
        rw [hs] at hcontent
        change s'.content = _ at hcontent
        simp [hcontent, hempty, hk]
      · -- the piece is in the file whole, and it is not empty
        rename_i s' hs
        rw [hs] at hcontent hall
        obtain rfl := hall rfl
        obtain ⟨v, -, hrest⟩ := onBody_content args r.head.status s' cs
        rw [hrest, hcontent]
        simp [c.nonempty, ← hempty, hk]
  · simp [onBody_of_not_kept hk, hk]

/-- A response is harmless just where it is mute, or carries what comes next in the file. -/
theorem harmless_iff (args : Args) (offset : Nat) (s : DownloadSink) (r : Reply) :
    r.Harmless offset s.content (r.deliver args s).1.content ↔
      r.Mute args s ∨ r.Continues offset s.content := by
  unfold Reply.Harmless
  rw [deliver_content_eq_iff]
  constructor
  · rintro (h | ⟨h, -⟩)
    · exact .inl h
    · exact .inr h
  · rintro (h | h)
    · exact .inl h
    · exact .inr ⟨h, onBody_content args r.head.status s r.body⟩

/-! ## The run -/

/-- Every response is harmless to the file it meets. -/
def Uncorrupted (args : Args) (offset : Nat) (s : DownloadSink) : List Reply → Prop
  | [] => True
  | r :: rs => r.Harmless offset s.content (r.deliver args s).1.content ∧
      Uncorrupted args offset (r.deliver args s).1 rs

/-- Every response is mute, or carries what comes next in the file it meets. -/
def InOrder (args : Args) (offset : Nat) (s : DownloadSink) : List Reply → Prop
  | [] => True
  | r :: rs => (r.Mute args s ∨ r.Continues offset s.content) ∧
      InOrder args offset (r.deliver args s).1 rs

theorem uncorrupted_iff (args : Args) (offset : Nat) (s : DownloadSink) (rs : List Reply) :
    Uncorrupted args offset s rs ↔ InOrder args offset s rs := by
  induction rs generalizing s with
  | nil => exact Iff.rfl
  | cons r rs ih => exact and_congr (harmless_iff args offset s r) (ih _)

/-- The responses that arrive: no request is sent where the file cannot be opened. -/
def World.replies (w : World) (req : Request) (path : String) : List Reply :=
  if w.denied path then [] else (w.serve req).replies

/-- The sink behind the responses of a transfer. -/
def sinkAfter (args : Args) (s : DownloadSink) (rs : List Reply) : DownloadSink :=
  rs.foldl (fun s r => (r.deliver args s).1) s

theorem deliverAll_fst (args : Args) (s : DownloadSink) (stop : Option Stop) (rs : List Reply) :
    (deliverAll args s stop rs).1 = sinkAfter args s rs := by
  induction rs generalizing s stop with
  | nil => rfl
  | cons r rs ih => exact ih _ _

theorem runHttpResume_of_outputName {w : World} {req : Request} {url : Url} {args : Args}
    {offset : Nat} {fs : Files} {name : String} (h : outputName url args = some name) :
    runHttpResume w req url args offset fs =
      runToFile w (req.resuming args offset) args fs name := by
  unfold outputName at h
  unfold runHttpResume
  split_ifs at h ⊢ with hr
  · cases hn : remoteNameFromUrl url with
    | error msg => simp [hn, Except.toOption] at h
    | ok n =>
      obtain rfl : n = name := by simpa [hn, Except.toOption] using h
      rfl
  · obtain ⟨ho, hne⟩ := Option.filter_eq_some_iff.mp h
    simp_all

/-- A run changes the content of its output and no other file. -/
theorem runHttpResume_files {w : World} {req : Request} {url : Url} {args : Args} {offset : Nat}
    {fs : Files} {path : String} {file : Bytes} (hp : outputFile url args = some path)
    (hf : fs path = some file) :
    (runHttpResume w req url args offset fs).2 =
      Function.update fs path
        (some (sinkAfter args ⟨file, 0⟩ (w.replies (req.resuming args offset) path)).content) := by
  obtain ⟨name, hname, rfl⟩ := Option.map_eq_some_iff.mp hp
  rw [runHttpResume_of_outputName hname, runToFile, World.replies]
  split_ifs
  · simp [sinkAfter, ← hf]
  · simp [change, hf, deliverAll_fst]

/-- The file is as it was, or has got bytes of a response that carries what comes next in it. -/
def Resumed (offset : Nat) (file : Bytes) (rs : List Reply) (after : Bytes) : Prop :=
  after = file ∨ ∃ r ∈ rs, r.Continues offset file ∧ ∃ w, w <+: r.bytes ∧ after = file ++ w

/-- Behind responses that are mute or in order, the file is as it was or has got bytes of one that
is in order. -/
theorem resumed_of_inOrder {args : Args} {offset : Nat} {s : DownloadSink} {rs : List Reply}
    (h : InOrder args offset s rs) :
    Resumed offset s.content rs (sinkAfter args s rs).content := by
  induction rs generalizing s with
  | nil => exact .inl rfl
  | cons r rs ih =>
    obtain ⟨hr, hrs⟩ := h
    change Resumed _ _ _ (sinkAfter args (r.deliver args s).1 rs).content
    have hrest := ih hrs
    unfold Resumed at hrest ⊢
    rcases (harmless_iff args offset s r).mpr hr with hsame | ⟨hc, w, hw, hadd⟩
    · rw [hsame] at hrest
      rcases hrest with hrest | ⟨q, hq, hrest⟩
      · exact .inl hrest
      · exact .inr ⟨q, List.mem_cons_of_mem _ hq, hrest⟩
    · right
      rcases hrest with hrest | ⟨q, hq, hcq, hrest⟩
      · exact ⟨r, List.mem_cons_self, hc, w, hw, hrest.trans hadd⟩
      · -- two are in order only where the first has added nothing
        have hlen : s.content.length = (s.content ++ w).length := by
          rw [← hadd, ← hcq.2.2, hc.2.2]
        obtain rfl : w = [] := by simpa using hlen
        rw [List.append_nil] at hadd
        rw [hadd] at hcq hrest
        exact ⟨q, List.mem_cons_of_mem _ hq, hcq, hrest⟩

/-- The file of a resumed download is safe just where every response is mute or carries what comes
next in the file. -/
theorem resume_exact (w : World) (req : Request) (url : Url) (args : Args) (offset : Nat)
    (fs : Files) (path : String) (file : Bytes) (hp : outputFile url args = some path)
    (hf : fs path = some file) :
    let rs := w.replies (req.resuming args offset) path
    let after := (sinkAfter args ⟨file, 0⟩ rs).content
    (runHttpResume w req url args offset fs).2 = Function.update fs path (some after) ∧
      (Uncorrupted args offset ⟨file, 0⟩ rs ↔ InOrder args offset ⟨file, 0⟩ rs) ∧
      (InOrder args offset ⟨file, 0⟩ rs → Resumed offset file rs after) ∧
      ∀ r, rs = [r] →
        (Resumed offset file rs after ↔ r.Mute args ⟨file, 0⟩ ∨ r.Continues offset file) := by
  intro rs after
  refine ⟨runHttpResume_files hp hf, uncorrupted_iff .., resumed_of_inOrder, ?_⟩
  intro r hr
  rw [← harmless_iff args offset ⟨file, 0⟩ r]
  simp [Resumed, Reply.Harmless, after, hr, sinkAfter]

def serverRoot : Url := ⟨"http", none, "a", 80, "/f"⟩

/-- An answer of one byte. -/
def oneByte (status : Nat) (contentRange : Option String) : Transfer where
  replies := [⟨⟨status, "", contentRange, none, none, none, none⟩, [⟨[9], by decide, 0, none⟩]⟩]

theorem resume_exact_next :
    (runHttpResume ⟨fun _ => false, fun _ => oneByte 206 (some "bytes 2-2/3")⟩ {} serverRoot
      { continueResume := true, output := some "f" } 2
      (Function.update (fun _ => none) "f" (some [1, 2]))).2 "f" = some [1, 2, 9] := by
  rw [(resume_exact _ _ _ _ _ _ "f" [1, 2] (by decide) (by simp)).1]
  decide

instance (r : Reply) (offset : Nat) (file : Bytes) : Decidable (r.Continues offset file) := by
  unfold Reply.Continues Reply.StartsAt; infer_instance

/-- A file of two bytes is resumed, and the byte of the answer is behind them, although the answer
does not continue the file. -/
def Spoils (t : Transfer) : Prop :=
  let fs : Files := Function.update (fun _ => none) "f" (some [1, 2])
  let args : Args := { continueResume := true, output := some "f" }
  resumeOffset serverRoot args fs = some 2 ∧
    (runHttpResume ⟨fun _ => false, fun _ => t⟩ {} serverRoot args 2 fs).2 "f" =
      some [1, 2, 9] ∧
    ¬Resumed 2 [1, 2] t.replies [1, 2, 9]

theorem not_resumed_of {rs : List Reply} (h : ∀ r ∈ rs, ¬r.Continues 2 [1, 2]) :
    ¬Resumed 2 [1, 2] rs [1, 2, 9] := by
  rintro (hsame | ⟨r, hr, hcontinues, -⟩)
  · exact absurd hsame (by decide)
  · exact h r hr hcontinues

/-- An error page, the body of a redirect and another range than the one asked for end up in the
file. -/
theorem not_resumed : Spoils (oneByte 404 none) ∧ Spoils (oneByte 302 none) ∧
    Spoils (oneByte 206 (some "bytes 0-0/3")) := by
  refine ⟨⟨by decide, by decide, not_resumed_of ?_⟩, ⟨by decide, by decide, not_resumed_of ?_⟩,
    ⟨by decide, by decide, not_resumed_of ?_⟩⟩
  all_goals decide

end Rsurl.Cli.Resume
