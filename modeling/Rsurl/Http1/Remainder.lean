import Rsurl.Http1.Legacy
import Rsurl.Http1.Segmentation

/-!
# Bodies that end with the connection

A body without a length of its own is what the connection delivers up to its end. The machine counts
it and refuses what is beyond the cap. The buffered reader stops at the cap and cannot tell that from
the end.
-/

namespace Rsurl.Http1

open Library Text Hpack
open Http2 (maxBodyBytes)

namespace ClientExchange

/-- Everything the connection delivers, then its end. -/
def untilEof (x : ClientExchange) (segments : List Bytes) : Except Error ClientExchange := do
  let x ← segments.foldlM (fun x wire => (x.handleInput wire).map Prod.snd) x
  x.handleEof

/-- A buffering exchange within such a body, `got` of which has come. -/
structure Awaits (head : ResponseHead) (got : Bytes) (x : ClientExchange) : Prop where
  state : x.state = .eof
  buffers : x.streaming = false
  head : x.head = some head
  rx : x.rx = []
  body : x.body = got
  total : x.bodyTotal = got.length

/-- More of the body. -/
def took (x : ClientExchange) (wire : Bytes) : ClientExchange :=
  { x with bodyTotal := x.bodyTotal + wire.length, body := x.body ++ wire }

variable {head : ResponseHead} {got : Bytes} {x : ClientExchange}

theorem Awaits.took (h : Awaits head got x) (wire : Bytes) :
    Awaits head (got ++ wire) (x.took wire) where
  state := h.state
  buffers := h.buffers
  head := h.head
  rx := h.rx
  body := by simp [ClientExchange.took, h.body]
  total := by simp [ClientExchange.took, h.total]

/-- The machine counts what comes, and refuses what is too much. -/
theorem Awaits.handleInput (h : Awaits head got x) (wire : Bytes) :
    x.handleInput wire = if got.length + wire.length ≤ maxBodyBytes then
      .ok (wire.length, x.took wire) else .error (.badResponse "body too large") := by
  have hne : x.state ≠ .done := by simp [h.state]
  have hstate : (x.push wire).state = .eof := h.state
  have hbuffers : (x.push wire).streaming = false := h.buffers
  have hrx : (x.push wire).rx = wire := by simp [push, h.rx]
  have htotal : (x.push wire).bodyTotal = got.length := h.total
  split
  · rename_i hroom
    have hturn := (Step.eof hstate (.inr (by rw [hrx, htotal]; exact hroom))).turn_eq
    have htook : { x.push wire with
        bodyTotal := (x.push wire).bodyTotal + (x.push wire).rx.length
        body := (x.push wire).body ++ (x.push wire).rx, rx := [] } = x.took wire := by
      simp [push, ClientExchange.took, h.rx]
    rw [ClientExchange.handleInput, if_neg hne, advance, Loop.run_done hturn, htook]
    simp [ClientExchange.took, h.buffers]
  · rename_i hlarge
    have hturn := (Step.large hstate hbuffers
      (by rw [hrx, htotal]; exact Nat.lt_of_not_le hlarge)).turn_eq
    rw [ClientExchange.handleInput, if_neg hne, advance, Loop.run_done hturn]

/-- However it is cut, a body within the cap is the response's, and another is refused. -/
theorem Awaits.untilEof (h : Awaits head got x) (hgot : got.length ≤ maxBodyBytes)
    (segments : List Bytes) :
    if (got ++ segments.flatten).length ≤ maxBodyBytes then
      ∃ y, x.untilEof segments = .ok y ∧
        y.events = x.events ++ [.response head (got ++ segments.flatten)]
    else x.untilEof segments = .error (.badResponse "body too large") := by
  induction segments generalizing x got with
  | nil =>
    rw [List.flatten_nil, List.append_nil, if_pos hgot]
    have heof : x.handleEof = .ok (finish { x with body := x.body ++ x.rx, rx := [] }) := by
      simp [handleEof, h.state]
    exact ⟨_, heof, by simp [finish, h.buffers, h.head, h.body, h.rx]⟩
  | cons wire rest ih =>
    rw [ClientExchange.untilEof, List.foldlM_cons, h.handleInput wire, List.flatten_cons,
      ← List.append_assoc]
    by_cases hroom : got.length + wire.length ≤ maxBodyBytes
    · rw [if_pos hroom]
      exact ih (h.took wire) (by rw [List.length_append]; exact hroom)
    · rw [if_neg hroom, if_neg (by rw [List.length_append, List.length_append]; omega)]
      rfl

end ClientExchange

/-! ## The buffered reader -/

/-- What is read is the whole remainder, and nothing is read of a remainder beyond the cap: this is
what the machine makes of it, however it is cut. -/
structure ReadsWhole (headers : List Header) (status : Nat) (method : String) (r : Reader) : Prop where
  whole : ∀ body r', readBody r headers status method = .ok (body, r') → body = r.input
  capped : maxBodyBytes < r.input.length → ∃ e, readBody r headers status method = .error e
  machine : r.truncated = false → ∀ (head : ResponseHead) (x : ClientExchange),
    x.Awaits head [] → ∀ segments : List Bytes, segments.flatten = r.input → ∀ body,
      (∃ r', readBody r headers status method = .ok (body, r')) ↔
        ∃ y, x.untilEof segments = .ok y ∧ y.events = x.events ++ [.response head body]

/-- The buffered reader reads a body that ends with the connection as a whole exactly where the body is
within the cap. -/
theorem readsWhole_iff {headers : List Header} {status : Nat} {method : String}
    (hmode : readBodyMode headers status method = .ok .eof) (r : Reader) :
    ReadsWhole headers status method r ↔ r.input.length ≤ maxBodyBytes := by
  have hread : readBody r headers status method =
      if r.truncated && r.input.length < maxBodyBytes then .error .unexpectedEof
      else .ok (r.input.take maxBodyBytes, r.drop maxBodyBytes) := by
    delta readBody
    rw [hmode]
    rfl
  constructor
  · intro h
    by_contra hlarge
    obtain ⟨e, he⟩ := h.capped (Nat.lt_of_not_le hlarge)
    have hend : ¬(r.truncated && decide (r.input.length < maxBodyBytes)) = true := by
      simp
      omega
    rw [hread, if_neg hend] at he
    cases he
  · intro hroom
    have htake : r.input.take maxBodyBytes = r.input := List.take_of_length_le hroom
    refine ⟨fun body r' h => ?_, fun hlarge => absurd hroom (Nat.not_le_of_lt hlarge),
      fun hclean head x hx segments hsegments body => ?_⟩
    · rw [hread, htake] at h
      split at h <;> cases h
      rfl
    · have hrun := hx.untilEof (Nat.zero_le _) segments
      rw [List.nil_append, hsegments, if_pos hroom] at hrun
      obtain ⟨y, hy, hevents⟩ := hrun
      have hok : readBody r headers status method = .ok (r.input, r.drop maxBodyBytes) := by
        rw [hread, htake, hclean]
        rfl
      constructor
      · rintro ⟨r', h⟩
        rw [hok] at h
        cases h
        exact ⟨y, hy, hevents⟩
      · rintro ⟨y', hy', hevents'⟩
        rw [hy] at hy'
        cases hy'
        rw [hevents, List.append_cancel_left_eq] at hevents'
        cases hevents'
        exact ⟨_, hok⟩

theorem readsWhole_short : ReadsWhole [] 200 "GET" ⟨asBytes "hello", false⟩ :=
  (readsWhole_iff (by decide +kernel) _).mpr (by decide +kernel)

/-- A body of one byte more than the cap. -/
def overlong : Reader := ⟨List.replicate (maxBodyBytes + 1) 0, false⟩

/-- Its prefix is returned as a success. -/
theorem reads_prefix :
    readBodyMode [] 200 "GET" = .ok .eof ∧
      readBody overlong [] 200 "GET" =
        .ok (overlong.input.take maxBodyBytes, overlong.drop maxBodyBytes) ∧
      overlong.input.take maxBodyBytes ≠ overlong.input ∧ ¬ReadsWhole [] 200 "GET" overlong := by
  have hmode : readBodyMode [] 200 "GET" = .ok .eof := by decide +kernel
  have hread : readBody overlong [] 200 "GET" =
      .ok (overlong.input.take maxBodyBytes, overlong.drop maxBodyBytes) := by
    delta readBody
    rw [hmode]
    rfl
  have hlength : overlong.input.length = maxBodyBytes + 1 := List.length_replicate
  have hne : overlong.input.take maxBodyBytes ≠ overlong.input := by
    intro h
    have hshort := congrArg List.length h
    rw [List.length_take, hlength] at hshort
    omega
  exact ⟨hmode, hread, hne, fun h => hne (h.whole _ _ hread)⟩

end Rsurl.Http1
