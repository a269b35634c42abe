import Rsurl.Http1.Segmentation
import Rsurl.Http1.Legacy
import Rsurl.Http.Request
import Rsurl.Io.Machine
import Rsurl.Ascii

/-!
# One exchange on a socket

The plaintext transfer: the sans-IO exchange pumped over a socket, the response put together from
its events, and the decision to keep the connection for another request.
-/

namespace Rsurl.Http1

open Library Text Io Hpack
open Library.Loop (Turn)
open Http2 (Codecs Response maybeDecodeBody effectiveMethod)
open Http (viaPlainHttpProxy writeRequest)
open ClientExchange (newStreaming delivered Published Flushed Session)

/-! ## The exchange as a machine -/

/-- A call of a machine that fails leaves it alone. -/
def handled {α : Type} (x : ClientExchange) :
    Except Error (α × ClientExchange) → Outcome ClientExchange α
  | .ok (a, x) => .ok a x
  | .error e => .error e x

instance : Machine ClientExchange Event where
  handleInput x wire := handled x (x.handleInput wire)
  handleEof x := handled x (x.handleEof.map fun x => ((), x))
  pollTransmit x := x.pollTransmit.getD ([], x)
  pollEvent := ClientExchange.pollEvent
  isFinished := ClientExchange.isFinished

/-- What is put together from the events of a streaming exchange. -/
structure Collector where
  head : Option ResponseHead := none
  body : Bytes := []
  /-- The head has arrived. -/
  started : Bool := false
  deriving DecidableEq, Repr

def collect (ev : Event) (c : Collector) : Collector :=
  match ev with
  | .head h => { c with head := some h, started := true }
  | .body chunk => { c with body := c.body ++ chunk }
  | .end | .response _ _ => c

/-- Drive an exchange, and collect its response (`drive_collect`). -/
def driveCollect {M : Type} [Machine M Event] (sock : Socket) (fuel : Nat) (machine : M) :
    Option (Outcome (Driver M Collector Event) Unit) :=
  Driver.drive sock (fun ev c => .ok (collect ev c)) fuel (Driver.start machine {})

/-! ## Reuse -/

def connectionHas (headers : List Header) (token : String) : Bool :=
  headers.any fun h => eqIgnoreAsciiCase h.1 "connection" &&
    (split ',' h.2).any fun tok => eqIgnoreAsciiCase (trim tok) token

def responseIsReusable (method : String) (resp : Response) : Bool :=
  if 100 ≤ resp.status && resp.status < 200 then false
  else if connectionHas resp.headers "close" then false
  else if !(hasHeader resp.headers "content-length" || isChunked resp.headers) &&
      !(eqIgnoreAsciiCase method "HEAD" || resp.status == 204 || resp.status == 304) then false
  else resp.version == "HTTP/1.1" || connectionHas resp.headers "keep-alive"

/-! ## The transfer -/

/-- How a transfer over a connection ended. -/
structure Run (M : Type) where
  driver : Driver M Collector Event
  result : Except Error Response
  /-- The connection was put back into the pool. -/
  parked : Bool

/-- The response of a finished exchange, its body decoded. -/
def finishTransfer (codecs : Codecs) (req : Http.Request) (c : Collector) : Except Error Response :=
  match c.head with
  | none => .error .unexpectedEof
  | some head => match maybeDecodeBody codecs head.headers c.body req.decompress with
    | .error e => .error e
    | .ok (headers, body) => .ok
      { status := head.status, reason := head.reason, version := head.version, headers, body
        finalUrl := "" }

/-- The driver has ended: what is returned, and whether the connection is kept. -/
def Run.of {M : Type} (codecs : Codecs) (req : Http.Request) (mayPool : Bool)
    (r : Outcome (Driver M Collector Event) Unit) : Run M :=
  match r with
  | .error e d => ⟨d, .error e, false⟩
  | .ok _ d => match finishTransfer codecs req d.caller with
    | .error e => ⟨d, .error e, false⟩
    | .ok resp => ⟨d, .ok resp, mayPool && responseIsReusable req.method resp⟩

/-- An HTTP/1.1 exchange over a connected socket, for at most `fuel` turns of the driver. -/
def runPlainCore (codecs : Codecs) (sock : Socket) (fuel : Nat) (req : Http.Request)
    (mayPool : Bool) : Option (Run ClientExchange) :=
  match writeRequest req (viaPlainHttpProxy req) with
  | .error e => some ⟨.start (newStreaming (effectiveMethod req.toRequest) []) {}, .error e, false⟩
  | .ok bytes =>
    (driveCollect sock fuel (newStreaming (effectiveMethod req.toRequest) bytes)).map
      (Run.of codecs req mayPool)

/-- Bytes that were read and belong to no part of the response. -/
def Run.surplus (run : Run ClientExchange) : Bytes := run.driver.machine.rx ++ run.driver.pending

/-- A machine that has sent its request and received these bytes at once. -/
def decoded (method : String) (bytes : Bytes) : Except Error ClientExchange :=
  ((newStreaming method []).push bytes).advance

/-- The bytes are interim heads, a final head and its body, and nothing more. -/
def isResponse (method : String) (bytes : Bytes) : Bool :=
  match decoded method bytes with
  | .ok x => x.state = .done && x.rx.isEmpty
  | .error _ => false

/-! ## The framing by the end of the connection -/

namespace ClientExchange

/-- A machine that reads until the end of the connection has a head that says so. -/
def EofFramed (x : ClientExchange) : Prop :=
  x.state = .eof → ∃ head, x.head = some head ∧ bodyMode x.method head x.streaming = .ok .eof

variable {x y : ClientExchange}

@[simp] theorem emitStreaming_state (x : ClientExchange) : x.emitStreaming.state = x.state := by
  unfold emitStreaming emitHead emitBody
  grind

@[simp] theorem emitStreaming_method (x : ClientExchange) : x.emitStreaming.method = x.method := by
  unfold emitStreaming emitHead emitBody
  grind

@[simp] theorem emitStreaming_streaming (x : ClientExchange) :
    x.emitStreaming.streaming = x.streaming := by
  unfold emitStreaming emitHead emitBody
  grind

@[simp] theorem emitStreaming_head (x : ClientExchange) : x.emitStreaming.head = x.head := by
  unfold emitStreaming emitHead emitBody
  grind

@[simp] theorem emitStreaming_out (x : ClientExchange) : x.emitStreaming.out = x.out := by
  unfold emitStreaming emitHead emitBody
  grind

theorem EofFramed.turn (hx : x.turn = .next y) : y.EofFramed := by
  have hstep := turn_cases x
  rw [hx] at hstep
  cases hstep with
  | interim hs => simp [EofFramed, hs]
  | @final endPos head mode hs he hp hi hm =>
    unfold enter EofFramed
    split
    · simp
    · simp
    · simp
    · simp
    · exact fun _ => ⟨head, rfl, hm⟩
  | length => simp [EofFramed]
  | chunkNext hs ho hd =>
    obtain ⟨cs', hy⟩ := hd.state_next
    simp [EofFramed, hy]
  | chunkLast => simp [EofFramed]

theorem EofFramed.stall (h : x.EofFramed) (hx : x.turn = .done (.ok y)) : y.EofFramed := by
  have hstep := turn_cases x
  rw [hx] at hstep
  cases hstep with
  | waitHead | waitLineEnd | done => exact h
  | waitLength hs => simp [EofFramed, hs]
  | chunkWait hs ho hd =>
    rw [hd.eq_of_wait]
    simp [EofFramed, ho.state hs]
  | eof hs => exact fun _ => h hs

theorem EofFramed.advance (h : x.EofFramed) (hx : x.advance = .ok y) : y.EofFramed := by
  refine Loop.run_rule turn_lowers (fun x a => x.EofFramed → a = .ok y → y.EofFramed) ?_ ?_ x h hx
  · rintro x a ha h rfl
    exact h.stall ha
  · intro x x' a hx ih _
    exact ih (EofFramed.turn hx)

/-! ## What decoding leaves alone -/

/-- The request, and what is known of it. -/
def SameRequest (x y : ClientExchange) : Prop :=
  y.out = x.out ∧ y.method = x.method ∧ y.streaming = x.streaming

theorem SameRequest.trans {z : ClientExchange} (h : SameRequest x y) (h' : SameRequest y z) :
    SameRequest x z :=
  ⟨h'.1.trans h.1, h'.2.1.trans h.2.1, h'.2.2.trans h.2.2⟩

theorem sameRequest_emitStreaming (x : ClientExchange) : SameRequest x x.emitStreaming :=
  ⟨emitStreaming_out x, emitStreaming_method x, emitStreaming_streaming x⟩

theorem sameRequest_finish (x : ClientExchange) : SameRequest x x.finish := by
  unfold finish
  split
  · exact sameRequest_emitStreaming x
  · split <;> exact ⟨rfl, rfl, rfl⟩

theorem sameRequest_enter (x : ClientExchange) (mode : BodyMode) : SameRequest x (x.enter mode) := by
  unfold enter
  split
  · exact sameRequest_finish x
  · exact sameRequest_finish x
  · exact ⟨rfl, rfl, rfl⟩
  · exact ⟨rfl, rfl, rfl⟩
  · exact ⟨rfl, rfl, rfl⟩

theorem Opens.sameRequest {cs cs' : ChunkState} (h : Opens x cs y cs') : SameRequest x y := by
  cases h <;> exact ⟨rfl, rfl, rfl⟩

theorem Chunk.sameRequest {cs : ChunkState}
    {t : Turn ClientExchange (Except Error (Bool × ClientExchange))} (h : Chunk x cs t)
    (hy : t = .next y ∨ ∃ b, t = .done (.ok (b, y))) : SameRequest x y := by
  cases h <;> rcases hy with hy | ⟨b, hy⟩ <;> cases hy <;> exact ⟨rfl, rfl, rfl⟩

theorem sameRequest_turn (hx : x.turn = .next y ∨ x.turn = .done (.ok y)) : SameRequest x y := by
  have hstep := turn_cases x
  generalize x.turn = t at hstep hx
  cases hstep with
  | final =>
    rcases hx with hx | hx <;> cases hx
    exact sameRequest_enter _ _
  | length =>
    rcases hx with hx | hx <;> cases hx
    exact sameRequest_finish _
  | chunkNext hs ho hd =>
    rcases hx with hx | hx <;> cases hx
    exact ho.sameRequest.trans (hd.sameRequest (.inl rfl))
  | chunkLast hs ho hd =>
    rcases hx with hx | hx <;> cases hx
    exact (ho.sameRequest.trans (hd.sameRequest (.inr ⟨true, rfl⟩))).trans (sameRequest_finish _)
  | chunkWait hs ho hd =>
    rcases hx with hx | hx <;> cases hx
    exact ho.sameRequest.trans (hd.sameRequest (.inr ⟨false, rfl⟩))
  | _ => rcases hx with hx | hx <;> cases hx <;> exact ⟨rfl, rfl, rfl⟩

theorem sameRequest_advance (hx : x.advance = .ok y) : SameRequest x y := by
  refine Loop.run_rule turn_lowers (fun x a => a = .ok y → SameRequest x y) ?_ ?_ x hx
  · rintro x a ha rfl
    exact sameRequest_turn (.inr ha)
  · intro x x' a hx ih ha
    exact (sameRequest_turn (.inl hx)).trans (ih ha)

/-! ## What decoding fails with -/

/-- The bytes are no response. -/
def Malformed (e : Error) : Prop := ∃ msg, e = .badResponse msg

theorem malformed_head {block : Bytes} {e : Error} (h : parseHead block = .error e) :
    Malformed e := by
  have hlines (lines : List String) (headers : List Header) (n : Nat)
      (h : parseHeaderLines lines headers n = .error e) : Malformed e := by
    induction lines generalizing headers n with
    | nil => cases h
    | cons line lines ih =>
      rw [parseHeaderLines] at h
      simp only at h
      split at h
      · cases h
      · split at h
        · cases h
          exact ⟨_, rfl⟩
        · split at h
          · rename_i hpush
            unfold pushHeaderLine at hpush
            cases h
            unfold Malformed
            grind
          · exact ih _ _ h
  unfold parseHead at h
  simp only at h
  split at h
  · rename_i hstatus
    unfold parseStatusLine at hstatus
    cases h
    unfold Malformed
    grind
  · split at h
    · rename_i hheaders
      cases h
      exact hlines _ _ _ hheaders
    · cases h

theorem malformed_foldlM {α β : Type} {f : β → α → Except Error β} {xs : List α} {init : β}
    {e : Error} (hf : ∀ acc x e, f acc x = .error e → Malformed e)
    (h : xs.foldlM f init = .error e) : Malformed e := by
  induction xs generalizing init with
  | nil => cases h
  | cons x xs ih =>
    rw [List.foldlM_cons] at h
    cases hx : f init x with
    | error e' =>
      rw [hx] at h
      cases h
      exact hf _ _ _ hx
    | ok next =>
      rw [hx] at h
      exact ih h

theorem malformed_bodyMode {head : ResponseHead} {method : String} {streaming : Bool} {e : Error}
    (h : bodyMode method head streaming = .error e) : Malformed e := by
  have hlength (headers : List Header) (h : parseContentLength headers = .error e) :
      Malformed e := by
    refine malformed_foldlM (fun acc field e hfield => ?_) h
    refine malformed_foldlM (fun acc part e hpart => ?_) hfield
    unfold contentLengthPart at hpart
    unfold Malformed
    grind
  unfold bodyMode at h
  unfold Malformed at hlength ⊢
  grind

theorem Chunk.malformed {cs : ChunkState} {e : Error} (h : Chunk x cs (.done (.error e))) :
    Malformed e := by
  cases h with
  | badSize ht hr hnl hp =>
    unfold parseChunkSize parseChunkSizeText at hp
    unfold Malformed
    grind
  | _ => exact ⟨_, rfl⟩

/-- Whatever decoding fails with is about the bytes. -/
theorem malformed_advance {e : Error} (h : x.advance = .error e) : Malformed e := by
  refine Loop.run_rule turn_lowers (fun x a => a = .error e → Malformed e) ?_ ?_ x h
  · rintro x a ha rfl
    have hstep := turn_cases x
    rw [ha] at hstep
    cases hstep with
    | badHead hs he hp => exact malformed_head hp
    | unframed hs he hp hi hm => exact malformed_bodyMode hm
    | chunkFail hs ho hd => exact hd.malformed
    | _ => exact ⟨_, rfl⟩
  · intro x x' a hx ih ha
    exact ih ha

end ClientExchange

/-! ## What may be reused -/

theorem split_ne_nil (sep : Char) (s : String) : split sep s ≠ [] := by
  simp [split, List.splitOn_ne_nil]

/-- A fold whose steps give a number each gives none only where there is no step. -/
theorem foldlM_none {α : Type} {f : Option Nat → α → Except Error (Option Nat)} {xs : List α}
    {seen : Option Nat} (hf : ∀ seen x, f seen x ≠ .ok none)
    (h : xs.foldlM f seen = .ok none) : xs = [] ∧ seen = none := by
  induction xs generalizing seen with
  | nil =>
    cases h
    exact ⟨rfl, rfl⟩
  | cons x xs ih =>
    rw [List.foldlM_cons] at h
    cases hx : f seen x with
    | error e =>
      rw [hx] at h
      cases h
    | ok next =>
      rw [hx] at h
      exact absurd (hx.trans (congrArg Except.ok (ih h).2)) (hf seen x)

theorem contentLengthPart_ne_none (v : String) (seen : Option Nat) (part : String) :
    contentLengthPart v seen part ≠ .ok none := by
  unfold contentLengthPart
  grind

theorem hasHeader_of_parseContentLength {headers : List Header}
    (h : parseContentLength headers = .ok none) : hasHeader headers "content-length" = false := by
  obtain ⟨hnil, -⟩ := foldlM_none (fun seen field hfield =>
    split_ne_nil _ _ (foldlM_none (contentLengthPart_ne_none field.2) hfield).1) h
  rw [List.filter_eq_nil_iff] at hnil
  simpa [hasHeader] using hnil

/-- Only a body without a length, a chunked one included, is framed by the end of the connection. -/
theorem bodyMode_eof {method : String} {head : ResponseHead} {streaming : Bool}
    (h : bodyMode method head streaming = .ok .eof) :
    bodyless method head.status = false ∧ isChunked head.headers = false ∧
      hasHeader head.headers "content-length" = false := by
  unfold bodyMode at h
  split at h
  · cases h
  · rename_i hbody
    split at h
    · cases h
    · split at h
      · cases h
      · rename_i hchunked
        split at h
        · cases h
        · refine ⟨Bool.eq_false_iff.mpr hbody, Bool.eq_false_iff.mpr hchunked, ?_⟩
          split at h
          · cases h
          · rename_i hlen
            exact hasHeader_of_parseContentLength hlen
          · split at h <;> cases h

/-- Decoding the body adds no field but `Content-Encoding`. -/
theorem mem_maybeDecodeBody {codecs : Codecs} {headers headers' : List Header} {body body' : Bytes}
    {decompress : Bool} (h : maybeDecodeBody codecs headers body decompress = .ok (headers', body'))
    {field : Header} (hfield : field ∈ headers') :
    field ∈ headers ∨ field.1 = "Content-Encoding" := by
  have hafter (out : Http2.Decoded) (hin : field ∈ Http2.headersAfterDecode headers out) :
      field ∈ headers ∨ field.1 = "Content-Encoding" := by
    unfold Http2.headersAfterDecode Http2.stripAfterDecode at hin
    grind
  unfold maybeDecodeBody at h
  grind

theorem effectiveMethod_uppercase (req : Http2.Request) :
    toAsciiUppercase (effectiveMethod req) = toAsciiUppercase req.method := by
  unfold effectiveMethod
  split
  · rfl
  · simp [toAsciiUppercase, Function.comp_def]

/-- A response that ends with its connection does not keep it. -/
theorem not_reusable_of_eof {codecs : Codecs} {req : Http.Request} {head : ResponseHead}
    {headers : List Header} {body body' : Bytes} {resp : Response}
    (hmode : bodyMode (toAsciiUppercase (effectiveMethod req.toRequest)) head true = .ok .eof)
    (hdecode : maybeDecodeBody codecs head.headers body req.decompress = .ok (headers, body'))
    (hstatus : resp.status = head.status) (hheaders : resp.headers = headers) :
    responseIsReusable req.method resp = false := by
  obtain ⟨hbody, hchunked, hlength⟩ := bodyMode_eof hmode
  have hmem := @mem_maybeDecodeBody _ _ _ _ _ _ hdecode
  have hlength' : hasHeader headers "content-length" = false := by
    rw [hasHeader, List.any_eq_false] at hlength ⊢
    intro field hfield
    rcases hmem hfield with hfield | hname
    · exact hlength field hfield
    · rw [hname]
      decide
  have hchunked' : isChunked headers = false := by
    rw [isChunked, List.any_eq_false] at hchunked ⊢
    intro field hfield
    rcases hmem hfield with hfield | hname
    · exact hchunked field hfield
    · rw [hname]
      simp [show eqIgnoreAsciiCase "Content-Encoding" "transfer-encoding" = false by decide]
  have hhead : eqIgnoreAsciiCase req.method "HEAD" = false := by
    rw [effectiveMethod_uppercase] at hbody
    rw [eqIgnoreAsciiCase_eq_toAsciiUppercase]
    simp only [bodyless, eqIgnoreAsciiCase_eq_toAsciiUppercase, Bool.or_eq_false_iff] at hbody
    simpa [toAsciiUppercase, Function.comp_def] using hbody.1.1.1
  unfold responseIsReusable
  rw [hheaders, hlength', hchunked', hhead, hstatus]
  simp only [bodyless, Bool.or_eq_false_iff] at hbody
  simp [hbody]

/-! ## The driver and the decoder -/

/-- An exchange that is not done takes all it is offered. -/
theorem feed_exchange {x x' : ClientExchange} {bytes rest : Bytes} (hs : x.state ≠ .done)
    (hm : x.streaming = true) (hbytes : bytes ≠ []) (h : feed x bytes = .ok rest x') :
    rest = [] ∧ x.handleInput bytes = .ok (bytes.length, x') ∧
      ∃ y, (x.push bytes).advance = .ok y ∧ x' = y.emitStreaming := by
  cases bytes with
  | nil => exact absurd rfl hbytes
  | cons b bytes =>
    cases hadv : (x.push (b :: bytes)).advance with
    | error e =>
      have hinput : x.handleInput (b :: bytes) = .error e := by
        rw [ClientExchange.handleInput, if_neg hs, hadv]
      simp [feed, feedFrom, handleInput, handled, hinput, Outcome.andThen] at h
    | ok y =>
      have hy : y.streaming = true := (ClientExchange.sameRequest_advance hadv).2.2.trans hm
      have hinput : x.handleInput (b :: bytes) = .ok ((b :: bytes).length, y.emitStreaming) := by
        rw [ClientExchange.handleInput, if_neg hs, hadv]
        simp only [hy, if_true]
      simp [feed, feedFrom, handleInput, handled, hinput, Outcome.andThen] at h
      obtain ⟨rfl, rfl⟩ := h
      exact ⟨rfl, hinput, y, rfl, rfl⟩

/-- The connection has not ended, and what was read is what the machine has decoded. -/
structure Follows (sock : Socket) (method : String) (d : Driver ClientExchange Collector Event) :
    Prop where
  received : sock.firstReads d.reads = some d.received
  decodes : ∃ y, decoded method d.received = .ok y ∧
    y.norm [] = ({ d.machine with out := [] } : ClientExchange).norm (delivered d.relayed)
  framed : d.machine.EofFramed
  /-- The reads before did not end with the response. -/
  early : ∀ k < d.reads, ∀ bytes, sock.firstReads k = some bytes → isResponse method bytes = false

structure Tracks (sock : Socket) (method : String) (d : Driver ClientExchange Collector Event) :
    Prop where
  tidy : (Session.mk d.relayed d.machine).Tidy
  caller : d.caller = d.relayed.foldl (fun c ev => collect ev c) {}
  pending : d.pending = []
  streaming : d.machine.streaming = true
  asked : d.machine.method = toAsciiUppercase method
  sent : d.phase = .relay → d.machine.out = []
  follows : d.eofSeen = false → Follows sock method d
  closed : d.eofSeen = true →
    ∃ head, d.machine.head = some head ∧ bodyMode d.machine.method head true = .ok .eof

variable {sock : Socket} {method : String} {d d' : Driver ClientExchange Collector Event}

theorem decoded_nil (method : String) : decoded method [] = .ok (newStreaming method []) := by
  have hwait := ClientExchange.Step.waitHead (x := newStreaming method []) rfl rfl (by simp [
    newStreaming, ClientExchange.build])
  rw [decoded, ClientExchange.push_nil]
  exact Loop.run_done hwait.turn_eq

theorem tracks_start (request : Bytes) :
    Tracks sock method (Driver.start (newStreaming method request) {}) where
  tidy := Session.tidy_start method request true
  caller := rfl
  pending := rfl
  streaming := rfl
  asked := rfl
  sent h := nomatch h
  follows _ := {
    received := rfl
    decodes := ⟨_, decoded_nil method, rfl⟩
    framed := by simp [ClientExchange.EofFramed, Driver.start, newStreaming, ClientExchange.build]
    early := by simp [Driver.start] }
  closed h := nomatch h

/-- The request is taken out of the machine, and nothing else. -/
theorem pollTransmit_exchange {x x' : ClientExchange} {bytes : Bytes}
    (hpoll : pollTransmit x = (bytes, x')) : bytes = x.out ∧ x' = { x with out := [] } := by
  have hpoll' : x.pollTransmit.getD ([], x) = (bytes, x') := hpoll
  unfold ClientExchange.pollTransmit at hpoll'
  split at hpoll'
  · rename_i hout
    have hout' := List.isEmpty_iff.mp hout
    cases hpoll'
    exact ⟨hout'.symm, by rw [← hout']⟩
  · cases hpoll'
    exact ⟨rfl, rfl⟩

instance : Drains ClientExchange where
  queued x := x.out.length
  poll_lowers x bytes x' hpoll hsome := by
    obtain ⟨rfl, rfl⟩ := pollTransmit_exchange hpoll
    exact List.length_pos_iff.mpr hsome

theorem pollAll_exchange (x : ClientExchange) : pollAll x = (x.out, { x with out := [] }) := by
  have hpoll (x : ClientExchange) : pollTransmit x = (x.out, { x with out := [] }) := by
    obtain ⟨hbytes, hx⟩ := pollTransmit_exchange (Prod.mk.eta (p := pollTransmit x)).symm
    exact Prod.ext hbytes hx
  have hempty (pre : Bytes) (x : ClientExchange) (hx : x.out = []) :
      Loop.run pollTurn _ pollTurn_lowers (pre, x) = (pre, x) := by
    refine Loop.run_done ?_
    simp only [pollTurn, hpoll, hx, List.isEmpty_nil, if_true]
    rw [← hx]
  unfold pollAll
  by_cases hx : x.out = []
  · rw [hempty [] x hx, ← hx]
  · have hnext : pollTurn ([], x) = .next (x.out, { x with out := [] }) := by
      simp [pollTurn, hpoll, hx]
    rw [Loop.run_next hnext, hempty _ _ rfl]

theorem pollEvent_exchange {x x' : ClientExchange} {ev : Event}
    (hpoll : pollEvent x = some (ev, x')) :
    ∃ rest, x.events = ev :: rest ∧ x' = { x with events := rest } := by
  have hpoll' : x.pollEvent = some (ev, x') := hpoll
  unfold ClientExchange.pollEvent at hpoll'
  split at hpoll'
  · cases hpoll'
  · rename_i e rest hevents
    cases hpoll'
    exact ⟨rest, hevents, rfl⟩

theorem no_event_exchange {x : ClientExchange} (hpoll : pollEvent x = none) : x.events = [] := by
  have hpoll' : x.pollEvent = none := hpoll
  unfold ClientExchange.pollEvent at hpoll'
  grind

/-- A machine that is waited for is not done. -/
theorem waiting_exchange {x : ClientExchange} (hpoll : pollEvent x = none)
    (hopen : isFinished x = false) : x.state ≠ .done := by
  have hopen' : x.isFinished = false := hopen
  have hevents := no_event_exchange hpoll
  simpa [ClientExchange.isFinished, hevents] using hopen'

theorem tidy_sent {s : Session} (h : s.Tidy) : (Session.mk s.seen { s.machine with out := [] }).Tidy :=
  ⟨⟨h.1.fresh, h.1.parsed, fun hd => (h.1.emitting hd).congr rfl rfl rfl rfl, fun hd =>
    ⟨(h.1.ended hd).flushed, (h.1.ended hd).streamed, (h.1.ended hd).buffered⟩⟩, h.2⟩

/-- The machine stands where decoding all at once would. -/
theorem Follows.stands (h : Follows sock method d) :
    ∃ y, decoded method d.received = .ok y ∧ y.state = d.machine.state ∧ y.rx = d.machine.rx := by
  obtain ⟨y, hy, hnorm⟩ := h.decodes
  simp only [ClientExchange.norm, ClientExchange.mk.injEq] at hnorm
  exact ⟨y, hy, hnorm.2.2.2.1, hnorm.2.2.1⟩

/-- The request does not matter once it is out of the machine. -/
theorem Follows.sent (h : Follows sock method d) (hd' : d'.machine = { d.machine with out := [] })
    (hreads : d'.reads = d.reads) (hreceived : d'.received = d.received)
    (hrelayed : d'.relayed = d.relayed) : Follows sock method d' where
  received := by rw [hreads, hreceived, h.received]
  decodes := by
    rw [hd', hreceived, hrelayed]
    exact h.decodes
  framed := by
    rw [hd']
    exact h.framed
  early := by
    rw [hreads]
    exact h.early

theorem Tracks.sent' (h : Tracks sock method d) (hd' : d'.machine = { d.machine with out := [] })
    (hcaller : d'.caller = d.caller) (hpending : d'.pending = d.pending)
    (heof : d'.eofSeen = d.eofSeen) (hreads : d'.reads = d.reads)
    (hreceived : d'.received = d.received) (hrelayed : d'.relayed = d.relayed) :
    Tracks sock method d' where
  tidy := by
    rw [hd', hrelayed]
    exact tidy_sent h.tidy
  caller := by rw [hcaller, hrelayed, h.caller]
  pending := hpending.trans h.pending
  streaming := by
    rw [hd']
    exact h.streaming
  asked := by
    rw [hd']
    exact h.asked
  sent _ := by rw [hd']
  follows hopen := (h.follows (heof ▸ hopen)).sent hd' hreads hreceived hrelayed
  closed hseen := by
    rw [hd']
    exact h.closed (heof ▸ hseen)

theorem Tracks.event {ev : Event} {rest : List Event} (h : Tracks sock method d)
    (hphase : d.phase = .relay) (hevents : d.machine.events = ev :: rest) :
    Tracks sock method { d with
      machine := { d.machine with events := rest }
      caller := collect ev d.caller
      relayed := d.relayed ++ [ev] } where
  tidy := ⟨h.tidy.1.poll hevents, h.tidy.2⟩
  caller := by rw [h.caller, List.foldl_append, List.foldl_cons, List.foldl_nil]
  pending := h.pending
  streaming := h.streaming
  asked := h.asked
  sent _ := h.sent hphase
  follows hopen := by
    obtain ⟨hreceived, ⟨y, hy, hnorm⟩, hframed, hearly⟩ := h.follows hopen
    refine ⟨hreceived, ⟨y, hy, hnorm.trans ?_⟩, hframed, hearly⟩
    simp [ClientExchange.norm, hevents, delivered]
  closed := h.closed

/-- The end of the connection counts only where the body is framed by it. -/
theorem Tracks.eof {machine : ClientExchange} (h : Tracks sock method d)
    (hfirst : d.eofSeen = false) (hs : d.machine.state ≠ .done)
    (heof : handleEof d.machine = .ok () machine) :
    Tracks sock method { d with
      machine, eofSeen := true, reads := d.reads + 1, phase := .flush } := by
  have heof' : handled d.machine (d.machine.handleEof.map fun x => ((), x)) = .ok () machine := heof
  have hcall : d.machine.handleEof = .ok machine := by
    cases hx : d.machine.handleEof with
    | error e => simp [hx, handled, Except.map] at heof'
    | ok x =>
      simp [hx, handled, Except.map] at heof'
      rw [heof']
  obtain ⟨hstate, hfinish⟩ : d.machine.state = .eof ∧ machine = ClientExchange.finish
      { d.machine with body := d.machine.body ++ d.machine.rx, rx := [] } := by
    unfold ClientExchange.handleEof at hcall
    split at hcall
    · rename_i hstate
      cases hcall
      exact ⟨hstate, rfl⟩
    · contradiction
    · cases hcall
  have hsame := ClientExchange.sameRequest_finish
    { d.machine with body := d.machine.body ++ d.machine.rx, rx := [] }
  rw [← hfinish] at hsame
  obtain ⟨-, hmethod, hstreaming⟩ := hsame
  obtain ⟨head, hhead, hmode⟩ := (h.follows hfirst).framed hstate
  refine ⟨?_, h.caller, h.pending, hstreaming.trans h.streaming, hmethod.trans h.asked,
    (nomatch ·), (nomatch ·), fun _ => ⟨head, ?_, ?_⟩⟩
  · have hsession : Session.eof ⟨d.relayed, d.machine⟩ = .ok ⟨d.relayed, machine⟩ := by
      rw [Session.eof, hcall]
      rfl
    exact h.tidy.eof hsession
  · rw [hfinish]
    simp [ClientExchange.finish, hhead, h.streaming]
  · rw [hmethod, ← h.streaming]
    exact hmode

theorem Tracks.input {bytes pending : Bytes} {machine : ClientExchange} (h : Tracks sock method d)
    (hphase : d.phase = .relay) (hfirst : d.eofSeen = false) (hs : d.machine.state ≠ .done)
    (hread : sock.read d.reads = .ok bytes) (hsome : bytes ≠ [])
    (hfeed : feed d.machine (d.pending ++ bytes) = .ok pending machine) :
    Tracks sock method { d with
      machine, pending, reads := d.reads + 1, received := d.received ++ bytes
      phase := .flush } := by
  rw [h.pending, List.nil_append] at hfeed
  obtain ⟨hpending, hinput, z, hz, hmachine⟩ := feed_exchange hs h.streaming hsome hfeed
  obtain ⟨hreceived, ⟨y, hy, hnorm⟩, hframed, hearly⟩ := h.follows hfirst
  have hsame := (ClientExchange.sameRequest_advance hz).trans
    (ClientExchange.sameRequest_emitStreaming z)
  rw [← hmachine] at hsame
  obtain ⟨hout, hmethod, hstreaming⟩ := hsame
  have hout' : machine.out = [] := hout.trans (h.sent hphase)
  refine ⟨?_, h.caller, hpending, hstreaming.trans h.streaming, hmethod.trans h.asked,
    (nomatch ·), fun _ => ⟨?_, ?_, ?_, ?_⟩, fun hseen => ?_⟩
  · have hcall : Session.call (bytes, 0) ⟨d.relayed, d.machine⟩ = .ok ⟨d.relayed, machine⟩ := by
      rw [Session.call, hinput]
      rfl
    exact h.tidy.call hcall
  · cases bytes with
    | nil => exact absurd rfl hsome
    | cons b bytes => simp [Socket.firstReads, hreceived, hread]
  · -- input behind what was decoded is decoded from where the machine stands
    have hrx : (ClientExchange.push (newStreaming method []) (d.received ++ bytes)).advance =
        (y.push bytes).advance := by
      rw [ClientExchange.push_append]
      exact ClientExchange.advance_push hy bytes
    have hd : ({ d.machine with out := [] } : ClientExchange) = d.machine := by rw [← h.sent hphase]
    rw [hd] at hnorm
    have hmap := ClientExchange.advance_norm (ClientExchange.norm_push hnorm bytes)
    rw [hz] at hmap
    cases hy' : (y.push bytes).advance with
    | error e =>
      rw [hy'] at hmap
      cases hmap
    | ok y' =>
      rw [hy'] at hmap
      simp only [Except.map, Except.ok.injEq] at hmap
      refine ⟨y', hrx.trans hy', ?_⟩
      have hmachine' : ({ machine with out := [] } : ClientExchange) = machine := by rw [← hout']
      rw [hmap, hmachine', hmachine, ClientExchange.norm_emitStreaming]
  · have hpush : (d.machine.push bytes).EofFramed := hframed
    intro hstate
    simpa [hmachine] using hpush.advance hz (by simpa [hmachine] using hstate)
  · intro k hk before hbefore
    rcases Nat.lt_or_eq_of_le (Nat.le_of_lt_succ hk) with hk | rfl
    · exact hearly k hk before hbefore
    · rw [hreceived] at hbefore
      cases hbefore
      obtain ⟨y', hy', hstate, -⟩ := (h.follows hfirst).stands
      simp [isResponse, hy', hstate, hs]
  · simp [hfirst] at hseen

theorem Tracks.step {onEvent : Event → Collector → Except Error Collector}
    (hcollect : ∀ ev c, onEvent ev c = .ok (collect ev c)) (h : Tracks sock method d)
    (hstep : Driver.Step sock onEvent d d') : Tracks sock method d' := by
  cases hstep with
  | transmit hphase hpoll hsome =>
    exact h.sent' (pollTransmit_exchange hpoll).2 rfl rfl rfl rfl rfl rfl
  | idle hphase hpoll hout =>
    exact h.sent' (pollTransmit_exchange hpoll).2 rfl rfl rfl rfl rfl rfl
  | write hphase hpoll hout hwrite =>
    exact h.sent' (pollTransmit_exchange hpoll).2 rfl rfl rfl rfl rfl rfl
  | event hphase hpoll hcaller =>
    obtain ⟨rest, hevents, rfl⟩ := pollEvent_exchange hpoll
    cases (hcollect _ _).symm.trans hcaller
    exact h.event hphase hevents
  | eof hphase hpoll hopen hfirst hread heof =>
    exact h.eof hfirst (waiting_exchange hpoll hopen) heof
  | input hphase hpoll hopen hfirst hread hsome hfeed =>
    exact h.input hphase hfirst (waiting_exchange hpoll hopen) hread hsome hfeed

/-! ## Where the next response starts -/

/-- The collected head is the head of the machine. -/
theorem Tracks.head {head : ResponseHead} (h : Tracks sock method d)
    (hdone : d.machine.state = .done) (hevents : d.machine.events = [])
    (hhead : d.machine.head = some head) : d.caller.head = some head := by
  obtain ⟨head', chunks, hhead', -, hseen⟩ := (h.tidy.1.ended hdone).streamed h.streaming
  simp only [hevents, List.append_nil] at hseen
  have hchunks (chunks : List Bytes) (c : Collector) :
      ((chunks.map Event.body).foldl (fun c ev => collect ev c) c).head = c.head := by
    induction chunks generalizing c with
    | nil => rfl
    | cons chunk chunks ih => exact ih _
  rw [h.caller, hseen, List.foldl_cons, List.foldl_append, List.foldl_cons, List.foldl_nil]
  exact (hchunks chunks _).trans (hhead'.symm.trans hhead)

/-- A connection that is kept had not ended. -/
theorem Tracks.kept_open {codecs : Codecs} {req : Http.Request} {resp : Response}
    (h : Tracks sock (effectiveMethod req.toRequest) d) (hdone : d.machine.state = .done)
    (hevents : d.machine.events = []) (hresp : finishTransfer codecs req d.caller = .ok resp)
    (hreuse : responseIsReusable req.method resp = true) : d.eofSeen = false := by
  by_contra hseen
  obtain ⟨head, hhead, hmode⟩ := h.closed (Bool.not_eq_false _ ▸ hseen)
  rw [h.asked] at hmode
  unfold finishTransfer at hresp
  rw [h.head hdone hevents hhead] at hresp
  simp only at hresp
  split at hresp
  · cases hresp
  · rename_i headers body hdecode
    cases hresp
    rw [not_reusable_of_eof hmode hdecode rfl rfl] at hreuse
    cases hreuse

/-- Nothing is left behind exactly where a read ended with the response. -/
theorem Follows.surplus_iff (h : Follows sock method d) (hdone : d.machine.state = .done) :
    d.machine.rx = [] ↔ ∃ k bytes, sock.firstReads k = some bytes ∧ isResponse method bytes = true := by
  obtain ⟨y, hy, hstate, hrx⟩ := h.stands
  have hstate : y.state = .done := hstate.trans hdone
  constructor
  · intro hempty
    exact ⟨d.reads, d.received, h.received, by simp [isResponse, hy, hstate, hrx, hempty]⟩
  · rintro ⟨k, bytes, hbytes, hresponse⟩
    have hle : d.reads ≤ k := by
      by_contra hlt
      rw [h.early k (Nat.lt_of_not_le hlt) bytes hbytes] at hresponse
      cases hresponse
    -- reads after the last one only add to what is left
    obtain ⟨more, hmore⟩ := Socket.firstReads_mono h.received hle hbytes
    have hadv : decoded method bytes = .ok (y.push more) := by
      rw [hmore, decoded, ClientExchange.push_append]
      exact (ClientExchange.advance_push hy more).trans (ClientExchange.advance_done hstate)
    simp only [isResponse, hadv, ClientExchange.push_rx, hrx] at hresponse
    simp_all

/-- A connection is kept without surplus bytes exactly where one of its reads ended with the
response. -/
theorem parked_surplus_iff {codecs : Codecs} {sock : Socket} {fuel : Nat} {req : Http.Request}
    {mayPool : Bool} {run : Run ClientExchange}
    (h : runPlainCore codecs sock fuel req mayPool = some run) (hparked : run.parked = true) :
    run.surplus = [] ↔ ∃ k bytes, sock.firstReads k = some bytes ∧
      isResponse (effectiveMethod req.toRequest) bytes = true := by
  unfold runPlainCore at h
  split at h
  · cases h
    cases hparked
  · rename_i request hrequest
    obtain ⟨r, hr, rfl⟩ := Option.map_eq_some_iff.mp h
    obtain ⟨last, hlast, hend⟩ := Driver.drive_rule hr (tracks_start request) fun d d' hd hstep =>
      hd.step (fun _ _ => rfl) hstep
    cases r with
    | error e d => cases hparked
    | ok _ d =>
      cases hend with
      | finished hphase hpoll hfinished =>
        have hevents := no_event_exchange hpoll
        have hdone : last.machine.state = .done := by
          have hfinished' : last.machine.isFinished = true := hfinished
          simp only [ClientExchange.isFinished, Bool.and_eq_true, decide_eq_true_eq] at hfinished'
          exact hfinished'.1
        unfold Run.of at hparked ⊢
        simp only at hparked ⊢
        split at hparked
        · cases hparked
        · rename_i resp hresp
          simp only [Bool.and_eq_true] at hparked
          have hopen := hlast.kept_open hdone hevents hresp hparked.2
          rw [Run.surplus, hlast.pending, List.append_nil]
          exact (hlast.follows hopen).surplus_iff hdone

/-- A `GET` that is answered by these pieces. -/
def getRun (pieces : List String) : Option (Run ClientExchange) :=
  runPlainCore .unavailable (.scripted (pieces.map asBytes)) 20
    { method := "GET", url := ⟨"http", none, "a.example", 80, "/"⟩ } true

theorem parked_exact :
    ∃ run, getRun ["HTTP/1.1 200 OK\r\nContent-Length: 2\r\n\r\nh", "i"] = some run ∧
      run.parked = true ∧ run.surplus = [] := by
  have hparked : (getRun ["HTTP/1.1 200 OK\r\nContent-Length: 2\r\n\r\nh", "i"]).any Run.parked := by
    decide +kernel
  obtain ⟨run, hrun, hparked⟩ := (Option.any_eq_true _ _).mp hparked
  exact ⟨run, hrun, hparked, (parked_surplus_iff hrun hparked).mpr ⟨2, _, rfl, by decide +kernel⟩⟩

/-- A kept connection can have lost the start of the next response. -/
theorem parked_surplus : ¬∀ (codecs : Codecs) (sock : Socket) (fuel : Nat) (req : Http.Request)
    (mayPool : Bool) (run : Run ClientExchange),
    runPlainCore codecs sock fuel req mayPool = some run → run.parked = true → run.surplus = [] := by
  have hsurplus : (getRun ["HTTP/1.1 200 OK\r\nContent-Length: 2\r\n\r\nhiHTTP/1.1 "]).any
      fun run => run.parked && !run.surplus.isEmpty := by
    decide +kernel
  obtain ⟨run, hrun, hrun'⟩ := (Option.any_eq_true _ _).mp hsurplus
  simp only [Bool.and_eq_true, Bool.not_eq_true', List.isEmpty_eq_false_iff] at hrun'
  intro h
  exact hrun'.2 (h _ _ _ _ _ run hrun hrun'.1)

end Rsurl.Http1
