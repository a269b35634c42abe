import Rsurl.Download.Response

/-!
# Fetching a chunk

`fetch_chunk_streaming` with `stream_chunk_once` and `pump_to_store`, one answer of the server or of
the store at a time. What a fetch has got is in the store, and it ends well only when it has got the
whole chunk.
-/

namespace Rsurl.Download

inductive ChunkResult where
  | ok
  | fallback
  | fatal (err : Error)
  deriving DecidableEq, Repr

/-- How `send_reader` ends: with an error, or with the head of a response. -/
inductive Reply where
  | failed (err : Error)
  | response (status : Nat) (reason : String) (contentRange : Option String)
  deriving DecidableEq, Repr

/-- How a write to the store goes; a write that fails may have stored some of the bytes. -/
inductive StoreAnswer where
  | stored
  | refused (landed : Nat) (kind : IoErrorKind) (msg : String)
  deriving DecidableEq, Repr

/-- What a turn of the loop of `pump_to_store` meets. -/
inductive Flow where
  | tooSlow
  | ended
  | failed (kind : IoErrorKind) (msg : String)
  | data (bytes : Bytes) (answer : StoreAnswer)
  deriving DecidableEq, Repr

/-- The head of a response with a range. -/
structure RangeHead where
  status : Nat
  range : ContentRange
  deriving DecidableEq, Repr

/-- Bytes in the store: from the body of the response with the head, to a request for the bytes from
`requested` on. -/
structure Put where
  chunk : Nat
  requested : Nat
  head : RangeHead
  offset : Nat
  bytes : Bytes
  deriving DecidableEq, Repr

/-- The variables of `fetch_chunk_streaming`. -/
structure Fetch where
  chunk : Nat
  start : Nat
  last : Nat
  got : Nat
  budget : Nat
  deriving DecidableEq, Repr

namespace Fetch

def want (f : Fetch) : Nat := f.last - f.start + 1

/-- The offset that is asked for next. -/
def next (f : Fetch) : Nat := f.start + f.got

end Fetch

/-- Where a fetch stands: about to ask, reading a body, or at its end. -/
inductive Fetching where
  | send (f : Fetch)
  | pump (f : Fetch) (head : RangeHead) (wrote : Nat)
  | settle (chunk : Nat) (result : ChunkResult)
  deriving DecidableEq, Repr

namespace Fetch

variable (total maxRetries : Nat)

/-- After `StreamOnce::Advanced`. -/
def advanced (f : Fetch) (wrote : Nat) (err : Option Error) (tooSlow : Bool) : Fetching :=
  let got := f.got + wrote
  if f.want ≤ got then .settle f.chunk .ok
  else
    let budget := if 0 < wrote ∧ tooSlow = false then maxRetries else f.budget
    if budget = 0 then .settle f.chunk (.fatal (err.getD .unexpectedEof))
    else .send { f with got := got, budget := budget - 1 }

/-- `stream_chunk_once`, up to the body. -/
def onReply (f : Fetch) : Reply → Fetching
  | .failed e =>
    if isTransient e then f.advanced maxRetries 0 (some e) false else .settle f.chunk (.fatal e)
  | .response status reason contentRange =>
    if status = 206 then
      match parseContentRange contentRange with
      | some cr =>
        if cr.start = f.next ∧ cr.total = some total then .pump f ⟨status, cr⟩ 0
        else .settle f.chunk .fallback
      | none => .settle f.chunk .fallback
    else if status = 200 then .settle f.chunk .fallback
    else if 400 ≤ status ∧ status < 500 then .settle f.chunk (.fatal (.status status reason))
    else if 500 ≤ status then f.advanced maxRetries 0 (some (.status status reason)) false
    else .settle f.chunk (.fatal (.badResponse s!"unexpected status {status}"))

/-- The pump stops with an error. -/
def broke (f : Fetch) (wrote : Nat) (err : Error) : Fetching :=
  if pumpOpenFailed err then .settle f.chunk (.fatal err)
  else f.advanced maxRetries wrote (some err) false

/-- How many bytes are read at most. -/
def cap (f : Fetch) (wrote : Nat) : Nat := min (f.want - f.got - wrote) bufferSize

/-- A turn of `pump_to_store`, and the bytes that it puts in the store; `floor` is whether a slow
connection is cut. -/
def onFlow (floor : Bool) (f : Fetch) (head : RangeHead) (wrote : Nat) :
    Flow → Option (Fetching × Option Put)
  | .tooSlow => if floor then some (f.advanced maxRetries wrote (some lowSpeedError) true, none)
    else none
  | .ended => some (f.advanced maxRetries wrote none false, none)
  | .failed kind msg => some (f.broke maxRetries wrote (.io kind msg), none)
  | .data bytes answer =>
    if bytes = [] ∨ f.cap wrote < bytes.length then none
    else
      let put (bytes : Bytes) : Put := ⟨f.chunk, f.next, head, f.next + wrote, bytes⟩
      match answer with
      | .stored => some (.pump f head (wrote + bytes.length), some (put bytes))
      | .refused landed kind msg =>
        some (f.broke maxRetries wrote (.io kind msg), some (put (bytes.take landed)))

end Fetch

/-- The server's answer to a request, or a turn of the pump. -/
inductive Answer where
  | reply (reply : Reply)
  | flow (flow : Flow)
  deriving DecidableEq, Repr

/-- What a fetch does that others see: it asks the server for bytes, or it puts bytes in the
store. -/
inductive FetchEvent where
  | asked (chunk first last : Nat)
  | put (put : Put)
  deriving DecidableEq, Repr

/-- One step of a fetch that is not at its end. -/
def Fetching.step (total maxRetries : Nat) (floor : Bool) :
    Fetching → Answer → Option (Fetching × List FetchEvent)
  | send f, .reply reply =>
    some (f.onReply total maxRetries reply, [.asked f.chunk f.next f.last])
  | pump f head wrote, .flow flow =>
    if f.want - f.got ≤ wrote then some (f.advanced maxRetries wrote none false, [])
    else (f.onFlow maxRetries floor head wrote flow).map fun (g, put) =>
      (g, (put.map FetchEvent.put).toList)
  | _, _ => none

/-! ## What a fetch has got -/

namespace Put

/-- The offset is one that was written. -/
def Has (put : Put) (p : Nat) : Prop := put.offset ≤ p ∧ p < put.offset + put.bytes.length

/-- The bytes belong to the chunk, and the response to the request and to the resource. -/
structure Fits (plan : List (Nat × Nat)) (total : Nat) (put : Put) : Prop where
  inside : ∃ start last, plan[put.chunk]? = some (start, last) ∧ start ≤ put.offset ∧
    put.offset + put.bytes.length ≤ last + 1
  status : put.head.status = 206
  start : put.head.range.start = put.requested
  total : put.head.range.total = some total

end Put

namespace Fetching

def chunk : Fetching → Nat
  | send f | pump f _ _ => f.chunk
  | settle i _ => i

/-- The offsets of the chunk that the fetch has got. -/
def Got (plan : List (Nat × Nat)) : Fetching → Nat → Prop
  | send f, p => f.start ≤ p ∧ p < f.next
  | pump f _ wrote, p => f.start ≤ p ∧ p < f.next + wrote
  | settle i .ok, p => ∃ start last, plan[i]? = some (start, last) ∧ start ≤ p ∧ p ≤ last
  | settle _ _, _ => False

/-- The fetch is about its chunk of the plan, and the body that it reads is that of a response to
its request. -/
def Of (plan : List (Nat × Nat)) (total : Nat) : Fetching → Prop
  | send f => plan[f.chunk]? = some (f.start, f.last) ∧ f.start ≤ f.last ∧ f.got ≤ f.want
  | pump f head wrote => plan[f.chunk]? = some (f.start, f.last) ∧ f.start ≤ f.last ∧
    head.status = 206 ∧ head.range.start = f.next ∧ head.range.total = some total ∧
    f.got + wrote ≤ f.want
  | settle _ _ => True

end Fetching

namespace Fetch

variable {plan : List (Nat × Nat)} {total maxRetries : Nat} {f : Fetch}

/-- What `advanced` can do. -/
theorem advanced_cases (maxRetries : Nat) (f : Fetch) (wrote : Nat) (err : Option Error)
    (tooSlow : Bool) :
    (f.want ≤ f.got + wrote ∧ f.advanced maxRetries wrote err tooSlow = .settle f.chunk .ok) ∨
    (∃ e, f.advanced maxRetries wrote err tooSlow = .settle f.chunk (.fatal e)) ∨
    ∃ budget, f.got + wrote < f.want ∧ f.advanced maxRetries wrote err tooSlow =
      .send { f with got := f.got + wrote, budget := budget } := by
  unfold advanced
  dsimp only
  generalize (if 0 < wrote ∧ tooSlow = false then maxRetries else f.budget) = budget
  by_cases hdone : f.want ≤ f.got + wrote
  · exact .inl ⟨hdone, if_pos hdone⟩
  · rw [if_neg hdone]
    by_cases hbudget : budget = 0
    · exact .inr (.inl ⟨_, if_pos hbudget⟩)
    · exact .inr (.inr ⟨_, by omega, if_neg hbudget⟩)

/-- After `wrote` more bytes a fetch has got no more than those. -/
theorem advanced_got (total maxRetries : Nat)
    (hplan : plan[f.chunk]? = some (f.start, f.last)) (hle : f.start ≤ f.last)
    (wrote : Nat) (err : Option Error) (tooSlow : Bool) :
    let g := f.advanced maxRetries wrote err tooSlow
    g.chunk = f.chunk ∧ g.Of plan total ∧
      ∀ p, g.Got plan p → f.start ≤ p ∧ p < f.next + wrote := by
  intro g
  rcases advanced_cases maxRetries f wrote err tooSlow with
    ⟨hdone, hg⟩ | ⟨e, hg⟩ | ⟨budget, hless, hg⟩
  · rw [show g = _ from hg]
    refine ⟨rfl, trivial, fun p hp => ?_⟩
    obtain ⟨start, last, hchunk, hp⟩ := hp
    rw [hplan] at hchunk
    cases hchunk
    unfold want at hdone
    unfold next
    omega
  · rw [show g = _ from hg]
    exact ⟨rfl, trivial, fun _ => False.elim⟩
  · rw [show g = _ from hg]
    refine ⟨rfl, ⟨hplan, hle, hless.le⟩, fun p hp => ?_⟩
    simp only [Fetching.Got, next] at hp ⊢
    omega

theorem onReply_got (hplan : plan[f.chunk]? = some (f.start, f.last)) (hle : f.start ≤ f.last)
    (hgot : f.got ≤ f.want) (reply : Reply) :
    let g := f.onReply total maxRetries reply
    g.chunk = f.chunk ∧ g.Of plan total ∧ ∀ p, g.Got plan p → f.start ≤ p ∧ p < f.next := by
  have hadvanced (err : Option Error) :=
    advanced_got total maxRetries hplan hle 0 err false
  have hfatal (e : Error) : (Fetching.settle f.chunk (.fatal e)).Of plan total := trivial
  cases reply with
  | failed e =>
    unfold onReply
    dsimp only
    split_ifs
    · exact hadvanced _
    · exact ⟨rfl, trivial, fun _ => False.elim⟩
  | response status reason contentRange =>
    unfold onReply
    dsimp only
    split_ifs with hstatus
    · split
      · rename_i cr hcr
        split_ifs with hrange
        · exact ⟨rfl, ⟨hplan, hle, hstatus, hrange.1, hrange.2, hgot⟩, fun p hp => hp⟩
        · exact ⟨rfl, trivial, fun _ => False.elim⟩
      · exact ⟨rfl, trivial, fun _ => False.elim⟩
    · exact ⟨rfl, trivial, fun _ => False.elim⟩
    · exact ⟨rfl, trivial, fun _ => False.elim⟩
    · exact hadvanced _
    · exact ⟨rfl, trivial, fun _ => False.elim⟩

theorem broke_got (total maxRetries : Nat)
    (hplan : plan[f.chunk]? = some (f.start, f.last)) (hle : f.start ≤ f.last)
    (wrote : Nat) (err : Error) :
    let g := f.broke maxRetries wrote err
    g.chunk = f.chunk ∧ g.Of plan total ∧
      ∀ p, g.Got plan p → f.start ≤ p ∧ p < f.next + wrote := by
  unfold broke
  split_ifs
  · exact ⟨rfl, trivial, fun _ => False.elim⟩
  · exact advanced_got total maxRetries hplan hle wrote _ false

end Fetch

/-- A step stays with its chunk, it puts only bytes there that fit, and what it has got it had
before or it has put. -/
theorem Fetching.step_got {plan : List (Nat × Nat)} {total maxRetries : Nat} {floor : Bool}
    {g g' : Fetching} {a : Answer} {events : List FetchEvent} (hof : g.Of plan total)
    (h : g.step total maxRetries floor a = some (g', events)) :
    g'.chunk = g.chunk ∧ g'.Of plan total ∧
      (∀ put, .put put ∈ events → put.chunk = g.chunk ∧ put.Fits plan total) ∧
      ∀ p, g'.Got plan p → g.Got plan p ∨ ∃ put, .put put ∈ events ∧ put.Has p := by
  cases g with
  | settle i result => cases h
  | send f => cases a with
    | flow flow => cases h
    | reply reply =>
      cases h
      obtain ⟨hplan, hle, hgot⟩ := hof
      obtain ⟨hchunk, hof', hgot'⟩ := Fetch.onReply_got hplan hle hgot reply
      exact ⟨hchunk, hof', by simp, fun p hp => .inl (hgot' p hp)⟩
  | pump f head wrote => cases a with
    | reply reply => cases h
    | flow flow =>
      obtain ⟨hplan, hle, hstatus, hstart, htotal, hwrote⟩ := hof
      simp only [step] at h
      have hadvanced (err : Option Error) (tooSlow : Bool) :=
        Fetch.advanced_got total maxRetries hplan hle wrote err tooSlow
      have hbroke (err : Error) :=
        Fetch.broke_got total maxRetries hplan hle wrote err
      by_cases hdone : f.want - f.got ≤ wrote
      · rw [if_pos hdone] at h
        cases h
        obtain ⟨hchunk, hof', hgot'⟩ := hadvanced none false
        exact ⟨hchunk, hof', by simp, fun p hp => .inl (hgot' p hp)⟩
      rw [if_neg hdone, Option.map_eq_some_iff] at h
      obtain ⟨⟨g, put⟩, hflow, heq⟩ := h
      cases heq
      cases flow with
      | tooSlow =>
        simp only [Fetch.onFlow] at hflow
        split_ifs at hflow
        cases hflow
        obtain ⟨hchunk, hof', hgot'⟩ := hadvanced (some lowSpeedError) true
        exact ⟨hchunk, hof', by simp, fun p hp => .inl (hgot' p hp)⟩
      | ended =>
        cases hflow
        obtain ⟨hchunk, hof', hgot'⟩ := hadvanced none false
        exact ⟨hchunk, hof', by simp, fun p hp => .inl (hgot' p hp)⟩
      | failed kind msg =>
        cases hflow
        obtain ⟨hchunk, hof', hgot'⟩ := hbroke (.io kind msg)
        exact ⟨hchunk, hof', by simp, fun p hp => .inl (hgot' p hp)⟩
      | data bytes answer =>
        simp only [Fetch.onFlow] at hflow
        split_ifs at hflow with hbad
        obtain ⟨hne, hcap⟩ := not_or.mp hbad
        have hlen : bytes.length ≤ f.want - f.got - wrote :=
          (Nat.le_of_not_lt hcap).trans (Nat.min_le_left _ _)
        -- what is put lies inside the chunk
        have hfits (b : Bytes) (hb : b.length ≤ bytes.length) :
            Put.Fits plan total ⟨f.chunk, f.next, head, f.next + wrote, b⟩ := by
          refine ⟨⟨f.start, f.last, hplan, ?_, ?_⟩, hstatus, hstart, htotal⟩ <;>
            simp only [Fetch.next, Fetch.want] at * <;> omega
        cases answer with
        | stored =>
          cases hflow
          refine ⟨rfl, ⟨hplan, hle, hstatus, hstart, htotal, by omega⟩, ?_, ?_⟩
          · intro put hput
            obtain rfl : put = _ := by simpa using hput
            exact ⟨rfl, hfits bytes le_rfl⟩
          · intro p hp
            simp only [Got] at hp ⊢
            by_cases hlow : p < f.next + wrote
            · exact .inl ⟨hp.1, hlow⟩
            · refine .inr ⟨_, List.mem_singleton.mpr rfl, ?_⟩
              simp only [Put.Has]
              omega
        | refused landed kind msg =>
          cases hflow
          obtain ⟨hchunk, hof', hgot'⟩ := hbroke (.io kind msg)
          refine ⟨hchunk, hof', ?_, fun p hp => .inl (hgot' p hp)⟩
          intro put hput
          obtain rfl : put = _ := by simpa using hput
          exact ⟨rfl, hfits _ (by rw [List.length_take]; omega)⟩

/-- A step asks for bytes of the chunk, or it asks for nothing. -/
theorem Fetching.step_asked {total maxRetries : Nat} {floor : Bool} {g g' : Fetching} {a : Answer}
    {events : List FetchEvent} (h : g.step total maxRetries floor a = some (g', events)) :
    (∃ first last, events = [.asked g.chunk first last]) ∨
      ∀ event ∈ events, ∃ put, event = .put put := by
  cases g with
  | settle i result => cases h
  | send f => cases a with
    | flow flow => cases h
    | reply reply =>
      cases h
      exact .inl ⟨_, _, rfl⟩
  | pump f head wrote => cases a with
    | reply reply => cases h
    | flow flow =>
      simp only [step] at h
      right
      split_ifs at h
      · cases h
        exact nofun
      · obtain ⟨⟨g, put⟩, -, heq⟩ := Option.map_eq_some_iff.mp h
        cases heq
        intro event hevent
        obtain ⟨put, -, rfl⟩ := Option.map_eq_some_iff.mp (Option.mem_toList.mp hevent)
        exact ⟨put, rfl⟩

end Rsurl.Download
