import Rsurl.Http1.Head
import Rsurl.Library.Loop

/-!
# The sans-IO exchange

One request and one response as a machine without sockets: bytes go in, events come out. The loop of
`advance` and the loop of `advance_chunked` inside it are one loop here, whose turns are the turns
of both.
-/

namespace Rsurl.Http1

open Library Text
open Library.Loop (Turn)
open Http2 (maxBodyBytes)

inductive Event where
  | response (head : ResponseHead) (body : Bytes)
  | head (head : ResponseHead)
  | body (chunk : Bytes)
  | «end»
  deriving DecidableEq, Repr

structure ChunkState where
  /-- Bytes of the current chunk still to come; 0 before a size line. -/
  remaining : Nat := 0
  crlfPending : Bool := false
  /-- The chunk of size 0 has come. -/
  inTrailers : Bool := false
  trailerBytes : Nat := 0
  deriving DecidableEq, Repr

inductive State where
  | head
  | length (n : Nat)
  | chunked (cs : ChunkState)
  | eof
  | done
  deriving DecidableEq, Repr

structure ClientExchange where
  /-- Request bytes still to be written. -/
  out : Bytes
  method : String
  /-- Bytes received and not consumed. -/
  rx : Bytes
  state : State
  head : Option ResponseHead
  body : Bytes
  /-- Body bytes decoded so far; a streaming exchange empties `body` as it goes. -/
  bodyTotal : Nat
  events : List Event
  streaming : Bool
  headEmitted : Bool
  /-- Interim heads skipped so far. -/
  interim : Nat
  deriving DecidableEq, Repr

namespace ClientExchange

def build (method : String) (requestBytes : Bytes) (streaming : Bool) : ClientExchange where
  out := requestBytes
  method := toAsciiUppercase method
  rx := []
  state := .head
  head := none
  body := []
  bodyTotal := 0
  events := []
  streaming
  headEmitted := false
  interim := 0

/-- The response is one event. -/
def new (method : String) (requestBytes : Bytes) : ClientExchange := build method requestBytes false

/-- The response comes out as it comes in. -/
def newStreaming (method : String) (requestBytes : Bytes) : ClientExchange :=
  build method requestBytes true

/-! ## Events -/

def emitHead (x : ClientExchange) : ClientExchange :=
  if x.headEmitted then x
  else match x.head with
    | none => x
    | some h => { x with events := x.events ++ [.head h], headEmitted := true }

def emitBody (x : ClientExchange) : ClientExchange :=
  if x.body.isEmpty then x else { x with events := x.events ++ [.body x.body], body := [] }

def emitStreaming (x : ClientExchange) : ClientExchange := x.emitHead.emitBody

/-- Queue the last event and move to `done`; the head is there whenever this is reached. -/
def finish (x : ClientExchange) : ClientExchange :=
  if x.streaming then
    { x.emitStreaming with events := x.emitStreaming.events ++ [.end], state := .done }
  else match x.head with
    | none => { x with state := .done }
    | some head =>
      { x with events := x.events ++ [.response head x.body], body := [], state := .done }

/-! ## Decoding -/

/-- The rest of a turn of `advance_chunked`, once the line end of a chunk is out of the way. The
flag says whether the body is complete. -/
def decodeChunk (x : ClientExchange) (cs : ChunkState) :
    Turn ClientExchange (Except Error (Bool × ClientExchange)) :=
  if cs.inTrailers then
    match x.rx.findIdx? (· == 0x0a) with
    | none =>
      if maxHeaderBytes < x.rx.length then .done (.error (.badResponse "trailer block too large"))
      else .done (.ok (false, x))
    | some nl =>
      let rest := { x with rx := x.rx.drop (nl + 1) }
      if (trimEol (x.rx.take (nl + 1))).isEmpty then .done (.ok (true, rest))
      else
        let trailerBytes := cs.trailerBytes + (nl + 1)
        if maxHeaderBytes < trailerBytes then
          .done (.error (.badResponse "trailer block too large"))
        else .next { rest with state := .chunked { cs with trailerBytes } }
  else if 0 < cs.remaining then
    let take := min cs.remaining x.rx.length
    if take = 0 then .done (.ok (false, x))
    else .next { x with
      body := x.body ++ x.rx.take take
      rx := x.rx.drop take
      bodyTotal := x.bodyTotal + take
      state := .chunked { cs with
        remaining := cs.remaining - take
        crlfPending := cs.crlfPending || cs.remaining - take == 0 } }
  else
    match x.rx.findIdx? (· == 0x0a) with
    | none =>
      if maxHeaderBytes < x.rx.length then
        .done (.error (.badResponse "chunk size line too large"))
      else .done (.ok (false, x))
    | some nl => match parseChunkSize (x.rx.take (nl + 1)) with
      | .error e => .done (.error e)
      | .ok size =>
        if !x.streaming && maxBodyBytes < x.bodyTotal + size then
          .done (.error (.badResponse "body too large"))
        else .next { x with
          rx := x.rx.drop (nl + 1)
          state := .chunked (if size = 0 then { cs with inTrailers := true }
            else { cs with remaining := size }) }

def advanceChunked (x : ClientExchange) (cs : ChunkState) :
    Turn ClientExchange (Except Error (Bool × ClientExchange)) :=
  if cs.crlfPending then
    if x.rx.length < 2 then .done (.ok (false, x))
    else if x.rx.take 2 ≠ [0x0d, 0x0a] then
      .done (.error (.badResponse "missing CRLF after chunk"))
    else decodeChunk
      { x with rx := x.rx.drop 2, state := .chunked { cs with crlfPending := false } }
      { cs with crlfPending := false }
  else decodeChunk x cs

/-- Start on the body. -/
def enter (x : ClientExchange) : BodyMode → ClientExchange
  | .none | .length 0 => x.finish
  | .length n => { x with state := .length n }
  | .chunked => { x with state := .chunked {} }
  | .eof => { x with state := .eof }

def turn (x : ClientExchange) : Turn ClientExchange (Except Error ClientExchange) :=
  match x.state with
  | .head => match findHeaderEnd x.rx with
    | none =>
      if maxHeaderBytes < x.rx.length then .done (.error (.badResponse "headers exceed 64 KiB"))
      else .done (.ok x)
    | some endPos => match parseHead (x.rx.take endPos) with
      | .error e => .done (.error e)
      | .ok head =>
        let rest := { x with rx := x.rx.drop endPos }
        if isInterimStatus head.status then
          if maxInterimResponses < x.interim + 1 then
            .done (.error (.badResponse "too many interim (1xx) responses"))
          else .next { rest with interim := x.interim + 1 }
        else match bodyMode x.method head x.streaming with
          | .error e => .done (.error e)
          | .ok mode => .next ({ rest with head := some head }.enter mode)
  | .length n =>
    if n ≤ x.bodyTotal + x.rx.length then
      let need := n - x.bodyTotal
      .next { x with
        body := x.body ++ x.rx.take need
        rx := x.rx.drop need
        bodyTotal := x.bodyTotal + need }.finish
    else .done (.ok { x with
      bodyTotal := x.bodyTotal + x.rx.length, body := x.body ++ x.rx, rx := [] })
  | .chunked cs => match x.advanceChunked cs with
    | .next x => .next x
    | .done (.error e) => .done (.error e)
    | .done (.ok (true, x)) => .next x.finish
    | .done (.ok (false, x)) => .done (.ok x)
  | .eof =>
    if !x.streaming && maxBodyBytes < x.bodyTotal + x.rx.length then
      .done (.error (.badResponse "body too large"))
    else .done (.ok { x with
      bodyTotal := x.bodyTotal + x.rx.length, body := x.body ++ x.rx, rx := [] })
  | .done => .done (.ok x)

/-- Bytes left, and one more turn to see that there are none. -/
def variant (x : ClientExchange) : Nat := x.rx.length + if x.state = .done then 0 else 1

@[simp] theorem emitHead_rx (x : ClientExchange) : x.emitHead.rx = x.rx := by
  unfold emitHead
  split
  · rfl
  · split <;> rfl

@[simp] theorem emitBody_rx (x : ClientExchange) : x.emitBody.rx = x.rx := by
  unfold emitBody
  split <;> rfl

@[simp] theorem finish_rx (x : ClientExchange) : x.finish.rx = x.rx := by
  unfold finish
  split
  · simp [emitStreaming]
  · split <;> rfl

@[simp] theorem finish_state (x : ClientExchange) : x.finish.state = .done := by
  unfold finish
  split
  · rfl
  · split <;> rfl

@[simp] theorem enter_rx (x : ClientExchange) (mode : BodyMode) : (x.enter mode).rx = x.rx := by
  unfold enter
  split <;> simp

/-- The line end of the chunk before is out of the way. -/
inductive Opens (x : ClientExchange) (cs : ChunkState) : ClientExchange → ChunkState → Prop where
  | already (h : cs.crlfPending = false) : Opens x cs x cs
  | crlf (h : cs.crlfPending = true) (hlen : 2 ≤ x.rx.length) (hrx : x.rx.take 2 = [0x0d, 0x0a]) :
      Opens x cs { x with rx := x.rx.drop 2, state := .chunked { cs with crlfPending := false } }
        { cs with crlfPending := false }

theorem Opens.advance {x y : ClientExchange} {cs cs' : ChunkState} (h : Opens x cs y cs') :
    x.advanceChunked cs = y.decodeChunk cs' := by
  cases h with
  | already h => simp [advanceChunked, h]
  | crlf h hlen hrx => simp [advanceChunked, h, Nat.not_lt.mpr hlen, hrx]

theorem Opens.pending {x y : ClientExchange} {cs cs' : ChunkState} (h : Opens x cs y cs') :
    cs'.crlfPending = false := by
  cases h with
  | already h => exact h
  | crlf => rfl

theorem Opens.length_le {x y : ClientExchange} {cs cs' : ChunkState} (h : Opens x cs y cs') :
    y.rx.length ≤ x.rx.length := by
  cases h with
  | already => exact le_rfl
  | crlf => simp

/-- A turn within chunks waits for a line end, misses it, or goes on behind it. -/
theorem advanceChunked_cases (x : ClientExchange) (cs : ChunkState) :
    (cs.crlfPending = true ∧ x.rx.length < 2 ∧ x.advanceChunked cs = .done (.ok (false, x))) ∨
    (cs.crlfPending = true ∧ 2 ≤ x.rx.length ∧ x.rx.take 2 ≠ [0x0d, 0x0a] ∧
      x.advanceChunked cs = .done (.error (.badResponse "missing CRLF after chunk"))) ∨
    ∃ y cs', Opens x cs y cs' := by
  by_cases hc : cs.crlfPending = true
  · by_cases hlen : x.rx.length < 2
    · exact .inl ⟨hc, hlen, by simp [advanceChunked, hc, hlen]⟩
    · by_cases hrx : x.rx.take 2 = [0x0d, 0x0a]
      · exact .inr (.inr ⟨_, _, .crlf hc (Nat.le_of_not_lt hlen) hrx⟩)
      · exact .inr (.inl ⟨hc, Nat.le_of_not_lt hlen, hrx, by simp [advanceChunked, hc, hlen, hrx]⟩)
  · exact .inr (.inr ⟨_, _, .already (Bool.not_eq_true _ ▸ hc)⟩)

/-- How a turn within chunks can go, once the line end is out of the way. -/
inductive Chunk (x : ClientExchange) (cs : ChunkState) :
    Turn ClientExchange (Except Error (Bool × ClientExchange)) → Prop where
  /-- A trailer line, or the line of a size, is not there yet. -/
  | waitLine (hline : cs.inTrailers = true ∨ cs.remaining = 0)
      (hnl : x.rx.findIdx? (· == 0x0a) = none) (hroom : x.rx.length ≤ maxHeaderBytes) :
      Chunk x cs (.done (.ok (false, x)))
  | longLine (hline : cs.inTrailers = true ∨ cs.remaining = 0)
      (hnl : x.rx.findIdx? (· == 0x0a) = none) (hroom : maxHeaderBytes < x.rx.length) :
      Chunk x cs (.done (.error (.badResponse
        (if cs.inTrailers then "trailer block too large" else "chunk size line too large"))))
  | blank {nl : Nat} (ht : cs.inTrailers = true) (hnl : x.rx.findIdx? (· == 0x0a) = some nl)
      (hblank : trimEol (x.rx.take (nl + 1)) = []) :
      Chunk x cs (.done (.ok (true, { x with rx := x.rx.drop (nl + 1) })))
  | trailers {nl : Nat} (ht : cs.inTrailers = true) (hnl : x.rx.findIdx? (· == 0x0a) = some nl)
      (hblank : trimEol (x.rx.take (nl + 1)) ≠ [])
      (hlong : maxHeaderBytes < cs.trailerBytes + (nl + 1)) :
      Chunk x cs (.done (.error (.badResponse "trailer block too large")))
  | trailer {nl : Nat} (ht : cs.inTrailers = true) (hnl : x.rx.findIdx? (· == 0x0a) = some nl)
      (hblank : trimEol (x.rx.take (nl + 1)) ≠ [])
      (hroom : cs.trailerBytes + (nl + 1) ≤ maxHeaderBytes) :
      Chunk x cs (.next { x with
        rx := x.rx.drop (nl + 1)
        state := .chunked { cs with trailerBytes := cs.trailerBytes + (nl + 1) } })
  | waitData (ht : cs.inTrailers = false) (hr : 0 < cs.remaining) (hrx : x.rx = []) :
      Chunk x cs (.done (.ok (false, x)))
  | data (ht : cs.inTrailers = false) (hr : 0 < cs.remaining) (hrx : x.rx ≠ []) :
      Chunk x cs (.next { x with
        body := x.body ++ x.rx.take cs.remaining
        rx := x.rx.drop cs.remaining
        bodyTotal := x.bodyTotal + min cs.remaining x.rx.length
        state := .chunked { cs with
          remaining := cs.remaining - x.rx.length
          crlfPending := cs.crlfPending || cs.remaining ≤ x.rx.length } })
  | badSize {nl : Nat} {e : Error} (ht : cs.inTrailers = false) (hr : cs.remaining = 0)
      (hnl : x.rx.findIdx? (· == 0x0a) = some nl)
      (hp : parseChunkSize (x.rx.take (nl + 1)) = .error e) : Chunk x cs (.done (.error e))
  | large {nl size : Nat} (ht : cs.inTrailers = false) (hr : cs.remaining = 0)
      (hnl : x.rx.findIdx? (· == 0x0a) = some nl)
      (hp : parseChunkSize (x.rx.take (nl + 1)) = .ok size) (hs : x.streaming = false)
      (hlarge : maxBodyBytes < x.bodyTotal + size) :
      Chunk x cs (.done (.error (.badResponse "body too large")))
  | size {nl size : Nat} (ht : cs.inTrailers = false) (hr : cs.remaining = 0)
      (hnl : x.rx.findIdx? (· == 0x0a) = some nl)
      (hp : parseChunkSize (x.rx.take (nl + 1)) = .ok size)
      (hroom : x.streaming = true ∨ x.bodyTotal + size ≤ maxBodyBytes) :
      Chunk x cs (.next { x with
        rx := x.rx.drop (nl + 1)
        state := .chunked (if size = 0 then { cs with inTrailers := true }
          else { cs with remaining := size }) })

theorem decodeChunk_cases (x : ClientExchange) (cs : ChunkState) : Chunk x cs (x.decodeChunk cs) := by
  unfold decodeChunk
  split
  · rename_i ht
    split
    · rename_i hnl
      split
      · rename_i hlong
        have := Chunk.longLine (.inl ht) hnl hlong
        rwa [if_pos ht] at this
      · rename_i hlong
        exact .waitLine (.inl ht) hnl (Nat.le_of_not_lt hlong)
    · rename_i nl hnl
      simp only
      split
      · rename_i hblank
        exact .blank ht hnl (List.isEmpty_iff.mp hblank)
      · rename_i hblank
        have hblank' : trimEol (x.rx.take (nl + 1)) ≠ [] := fun h => hblank (List.isEmpty_iff.mpr h)
        split
        · rename_i hlong
          exact .trailers ht hnl hblank' hlong
        · rename_i hlong
          exact .trailer ht hnl hblank' (Nat.le_of_not_lt hlong)
  · rename_i ht
    have ht' : cs.inTrailers = false := Bool.not_eq_true _ ▸ ht
    split
    · rename_i hr
      simp only
      split
      · rename_i htake
        exact .waitData ht' hr (List.length_eq_zero_iff.mp (by omega))
      · rename_i htake
        have hrx : x.rx ≠ [] := fun h => htake (by simp [h])
        have hdata := Chunk.data ht' hr hrx
        have htaken : x.rx.take (min cs.remaining x.rx.length) = x.rx.take cs.remaining := by simp
        have hleft : x.rx.drop (min cs.remaining x.rx.length) = x.rx.drop cs.remaining := by
          rcases Nat.le_total cs.remaining x.rx.length with h | h
          · rw [Nat.min_eq_left h]
          · rw [Nat.min_eq_right h, List.drop_length, List.drop_of_length_le h]
        have hrem : cs.remaining - min cs.remaining x.rx.length = cs.remaining - x.rx.length := by
          omega
        have hlast : (cs.remaining - x.rx.length == 0) = decide (cs.remaining ≤ x.rx.length) := by
          rw [Bool.eq_iff_iff, beq_iff_eq, decide_eq_true_eq]
          omega
        rwa [htaken, hleft, hrem, hlast]
    · rename_i hr
      have hr' : cs.remaining = 0 := Nat.eq_zero_of_not_pos hr
      split
      · rename_i hnl
        split
        · rename_i hlong
          have := Chunk.longLine (.inr hr') hnl hlong
          rwa [if_neg ht] at this
        · rename_i hlong
          exact .waitLine (.inr hr') hnl (Nat.le_of_not_lt hlong)
      · rename_i nl hnl
        split
        · rename_i e hp
          exact .badSize ht' hr' hnl hp
        · rename_i size hp
          split
          · rename_i hlarge
            simp only [Bool.and_eq_true, Bool.not_eq_true', decide_eq_true_eq] at hlarge
            exact .large ht' hr' hnl hp hlarge.1 hlarge.2
          · rename_i hlarge
            refine .size ht' hr' hnl hp ?_
            simp only [Bool.and_eq_true, Bool.not_eq_true', decide_eq_true_eq, not_and,
              Nat.not_lt] at hlarge
            cases hs : x.streaming with
            | true => exact .inl rfl
            | false => exact .inr (hlarge hs)

theorem Chunk.unique {x : ClientExchange} {cs : ChunkState}
    {t t' : Turn ClientExchange (Except Error (Bool × ClientExchange))} (h : Chunk x cs t)
    (h' : Chunk x cs t') : t = t' := by
  cases h <;> cases h' <;> grind

/-- The case a turn within chunks is in says what it does. -/
theorem Chunk.decode_eq {x : ClientExchange} {cs : ChunkState}
    {t : Turn ClientExchange (Except Error (Bool × ClientExchange))} (h : Chunk x cs t) :
    x.decodeChunk cs = t := (decodeChunk_cases x cs).unique h

/-- How a turn can go. -/
inductive Step (x : ClientExchange) : Turn ClientExchange (Except Error ClientExchange) → Prop where
  | waitHead (hs : x.state = .head) (he : findHeaderEnd x.rx = none)
      (hroom : x.rx.length ≤ maxHeaderBytes) : Step x (.done (.ok x))
  | longHead (hs : x.state = .head) (he : findHeaderEnd x.rx = none)
      (hroom : maxHeaderBytes < x.rx.length) :
      Step x (.done (.error (.badResponse "headers exceed 64 KiB")))
  | badHead {endPos : Nat} {e : Error} (hs : x.state = .head)
      (he : findHeaderEnd x.rx = some endPos) (hp : parseHead (x.rx.take endPos) = .error e) :
      Step x (.done (.error e))
  | interims {endPos : Nat} {head : ResponseHead} (hs : x.state = .head)
      (he : findHeaderEnd x.rx = some endPos) (hp : parseHead (x.rx.take endPos) = .ok head)
      (hi : isInterimStatus head.status = true) (hmany : maxInterimResponses < x.interim + 1) :
      Step x (.done (.error (.badResponse "too many interim (1xx) responses")))
  | interim {endPos : Nat} {head : ResponseHead} (hs : x.state = .head)
      (he : findHeaderEnd x.rx = some endPos) (hp : parseHead (x.rx.take endPos) = .ok head)
      (hi : isInterimStatus head.status = true) (hfew : x.interim + 1 ≤ maxInterimResponses) :
      Step x (.next { x with rx := x.rx.drop endPos, interim := x.interim + 1 })
  | unframed {endPos : Nat} {head : ResponseHead} {e : Error} (hs : x.state = .head)
      (he : findHeaderEnd x.rx = some endPos) (hp : parseHead (x.rx.take endPos) = .ok head)
      (hi : isInterimStatus head.status = false)
      (hm : bodyMode x.method head x.streaming = .error e) : Step x (.done (.error e))
  | final {endPos : Nat} {head : ResponseHead} {mode : BodyMode} (hs : x.state = .head)
      (he : findHeaderEnd x.rx = some endPos) (hp : parseHead (x.rx.take endPos) = .ok head)
      (hi : isInterimStatus head.status = false)
      (hm : bodyMode x.method head x.streaming = .ok mode) :
      Step x (.next (enter { x with rx := x.rx.drop endPos, head := some head } mode))
  | length {n : Nat} (hs : x.state = .length n) (hn : n ≤ x.bodyTotal + x.rx.length) :
      Step x (.next (finish { x with
        body := x.body ++ x.rx.take (n - x.bodyTotal)
        rx := x.rx.drop (n - x.bodyTotal)
        bodyTotal := x.bodyTotal + (n - x.bodyTotal) }))
  | waitLength {n : Nat} (hs : x.state = .length n) (hn : x.bodyTotal + x.rx.length < n) :
      Step x (.done (.ok { x with
        bodyTotal := x.bodyTotal + x.rx.length, body := x.body ++ x.rx, rx := [] }))
  | waitLineEnd {cs : ChunkState} (hs : x.state = .chunked cs) (hc : cs.crlfPending = true)
      (hlen : x.rx.length < 2) : Step x (.done (.ok x))
  | noLineEnd {cs : ChunkState} (hs : x.state = .chunked cs) (hc : cs.crlfPending = true)
      (hlen : 2 ≤ x.rx.length) (hrx : x.rx.take 2 ≠ [0x0d, 0x0a]) :
      Step x (.done (.error (.badResponse "missing CRLF after chunk")))
  | chunkNext {cs cs' : ChunkState} {y z : ClientExchange} (hs : x.state = .chunked cs)
      (ho : Opens x cs y cs') (hd : Chunk y cs' (.next z)) : Step x (.next z)
  | chunkLast {cs cs' : ChunkState} {y z : ClientExchange} (hs : x.state = .chunked cs)
      (ho : Opens x cs y cs') (hd : Chunk y cs' (.done (.ok (true, z)))) :
      Step x (.next z.finish)
  | chunkWait {cs cs' : ChunkState} {y z : ClientExchange} (hs : x.state = .chunked cs)
      (ho : Opens x cs y cs') (hd : Chunk y cs' (.done (.ok (false, z)))) : Step x (.done (.ok z))
  | chunkFail {cs cs' : ChunkState} {y : ClientExchange} {e : Error} (hs : x.state = .chunked cs)
      (ho : Opens x cs y cs') (hd : Chunk y cs' (.done (.error e))) : Step x (.done (.error e))
  | large (hs : x.state = .eof) (hm : x.streaming = false)
      (hlarge : maxBodyBytes < x.bodyTotal + x.rx.length) :
      Step x (.done (.error (.badResponse "body too large")))
  | eof (hs : x.state = .eof)
      (hroom : x.streaming = true ∨ x.bodyTotal + x.rx.length ≤ maxBodyBytes) :
      Step x (.done (.ok { x with
        bodyTotal := x.bodyTotal + x.rx.length, body := x.body ++ x.rx, rx := [] }))
  | done (hs : x.state = .done) : Step x (.done (.ok x))

/-- A turn within chunks, by how `advance_chunked` ends it. -/
theorem step_chunked {x : ClientExchange} {cs : ChunkState} (hs : x.state = .chunked cs) :
    Step x (match x.advanceChunked cs with
      | .next x => .next x
      | .done (.error e) => .done (.error e)
      | .done (.ok (true, x)) => .next x.finish
      | .done (.ok (false, x)) => .done (.ok x)) := by
  rcases advanceChunked_cases x cs with ⟨hc, hlen, heq⟩ | ⟨hc, hlen, hrx, heq⟩ | ⟨y, cs', ho⟩
  · rw [heq]
    exact .waitLineEnd hs hc hlen
  · rw [heq]
    exact .noLineEnd hs hc hlen hrx
  · have hd := decodeChunk_cases y cs'
    rw [ho.advance]
    generalize y.decodeChunk cs' = t at hd
    match t, hd with
    | .next z, hd => exact .chunkNext hs ho hd
    | .done (.error e), hd => exact .chunkFail hs ho hd
    | .done (.ok (true, z)), hd => exact .chunkLast hs ho hd
    | .done (.ok (false, z)), hd => exact .chunkWait hs ho hd

theorem turn_cases (x : ClientExchange) : Step x x.turn := by
  unfold turn
  split <;> rename_i hs
  · split <;> rename_i he
    · split <;> rename_i hroom
      · exact .longHead hs he hroom
      · exact .waitHead hs he (Nat.le_of_not_lt hroom)
    · split <;> rename_i hp
      · exact .badHead hs he hp
      · simp only
        split <;> rename_i hi
        · split <;> rename_i hmany
          · exact .interims hs he hp hi hmany
          · exact .interim hs he hp hi (Nat.le_of_not_lt hmany)
        · have hi' := Bool.eq_false_iff.mpr hi
          split <;> rename_i hm
          · exact .unframed hs he hp hi' hm
          · exact .final hs he hp hi' hm
  · split <;> rename_i hn
    · exact .length hs hn
    · exact .waitLength hs (Nat.lt_of_not_le hn)
  · exact step_chunked hs
  · split <;> rename_i hlarge
    · simp only [Bool.and_eq_true, Bool.not_eq_true', decide_eq_true_eq] at hlarge
      exact .large hs hlarge.1 hlarge.2
    · simp only [Bool.and_eq_true, Bool.not_eq_true', decide_eq_true_eq, not_and,
        Nat.not_lt] at hlarge
      refine .eof hs ?_
      cases hm : x.streaming with
      | true => exact .inl rfl
      | false => exact .inr (hlarge hm)
  · exact .done hs

/-- The case a turn is in says what it does. -/
theorem Step.turn_eq {x : ClientExchange} {t : Turn ClientExchange (Except Error ClientExchange)}
    (h : Step x t) : x.turn = t := by
  cases h with
  | waitHead hs he hroom => simp [turn, hs, he, Nat.not_lt.mpr hroom]
  | longHead hs he hroom => simp [turn, hs, he, hroom]
  | badHead hs he hp => simp [turn, hs, he, hp]
  | interims hs he hp hi hmany => simp [turn, hs, he, hp, hi, hmany]
  | interim hs he hp hi hfew => simp [turn, hs, he, hp, hi, Nat.not_lt.mpr hfew]
  | unframed hs he hp hi hm => simp [turn, hs, he, hp, hi, hm]
  | final hs he hp hi hm => simp [turn, hs, he, hp, hi, hm]
  | length hs hn => simp [turn, hs, hn]
  | waitLength hs hn => simp [turn, hs, Nat.not_le.mpr hn]
  | waitLineEnd hs hc hlen => simp [turn, hs, advanceChunked, hc, hlen]
  | noLineEnd hs hc hlen hrx => simp [turn, hs, advanceChunked, hc, Nat.not_lt.mpr hlen, hrx]
  | chunkNext hs ho hd => simp [turn, hs, ho.advance, hd.decode_eq]
  | chunkLast hs ho hd => simp [turn, hs, ho.advance, hd.decode_eq]
  | chunkWait hs ho hd => simp [turn, hs, ho.advance, hd.decode_eq]
  | chunkFail hs ho hd => simp [turn, hs, ho.advance, hd.decode_eq]
  | large hs hm hlarge => simp [turn, hs, hm, hlarge]
  | eof hs hroom =>
    rcases hroom with hm | hroom
    · simp [turn, hs, hm]
    · simp [turn, hs, Nat.not_lt.mpr hroom]
  | done hs => simp [turn, hs]

/-! ## The loop -/

theorem Chunk.length_lt {x z : ClientExchange} {cs : ChunkState} (h : Chunk x cs (.next z)) :
    z.rx.length < x.rx.length := by
  have hline {nl : Nat} (hnl : x.rx.findIdx? (· == 0x0a) = some nl) : nl < x.rx.length := by
    obtain ⟨hlt, -⟩ := List.findIdx?_eq_some_iff_getElem.mp hnl
    exact hlt
  cases h with
  | trailer _ hnl =>
    have := hline hnl
    simp only [List.length_drop]
    omega
  | data _ hr hrx =>
    have := List.length_pos_iff.mpr hrx
    simp only [List.length_drop]
    omega
  | size _ _ hnl =>
    have := hline hnl
    simp only [List.length_drop]
    omega

theorem turn_lowers : Loop.Lowers turn variant := by
  intro x x' hx
  have hstep := turn_cases x
  rw [hx] at hstep
  have hle (y : ClientExchange) : variant y ≤ y.rx.length + 1 := by
    unfold variant
    split <;> omega
  have hge (hs : x.state ≠ .done) : variant x = x.rx.length + 1 := by simp [variant, hs]
  cases hstep with
  | interim hs he =>
    have := findHeaderEnd_bounds he
    rw [hge (by simp [hs])]
    refine (hle _).trans_lt ?_
    simp only [List.length_drop]
    omega
  | final hs he =>
    have := findHeaderEnd_bounds he
    rw [hge (by simp [hs])]
    refine (hle _).trans_lt ?_
    simp only [enter_rx, List.length_drop]
    omega
  | length hs hn =>
    rw [hge (by simp [hs])]
    simp [variant]
  | chunkNext hs ho hd =>
    rw [hge (by simp [hs])]
    refine (hle _).trans_lt ?_
    have := hd.length_lt
    have := ho.length_le
    omega
  | chunkLast hs ho hd =>
    rw [hge (by simp [hs])]
    have := ho.length_le
    cases hd with
    | blank => simp [variant]; omega

/-- Make all the progress the received bytes allow. -/
def advance (x : ClientExchange) : Except Error ClientExchange :=
  Loop.run turn variant turn_lowers x

/-! ## The machine -/

def push (x : ClientExchange) (wire : Bytes) : ClientExchange := { x with rx := x.rx ++ wire }

/-- The machine takes all it is offered, unless it has finished. -/
def handleInput (x : ClientExchange) (wire : Bytes) : Except Error (Nat × ClientExchange) :=
  if x.state = .done then .ok (0, x)
  else match (x.push wire).advance with
    | .error e => .error e
    | .ok x => .ok (wire.length, if x.streaming then x.emitStreaming else x)

def handleEof (x : ClientExchange) : Except Error ClientExchange :=
  match x.state with
  | .eof => .ok (finish { x with body := x.body ++ x.rx, rx := [] })
  | .done => .ok x
  | _ => .error .unexpectedEof

def pollTransmit (x : ClientExchange) : Option (Bytes × ClientExchange) :=
  if x.out.isEmpty then none else some (x.out, { x with out := [] })

def pollEvent (x : ClientExchange) : Option (Event × ClientExchange) :=
  match x.events with
  | [] => none
  | e :: rest => some (e, { x with events := rest })

def isFinished (x : ClientExchange) : Bool := x.state = .done && x.events.isEmpty

end ClientExchange

end Rsurl.Http1
