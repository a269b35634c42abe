import Rsurl.WebSocket.Writer

/-!
# permessage-deflate

One inflate context for a connection and the messages it is fed. The codec itself is a parameter;
`Inverts` is what is asked of it: its encoder ends every message with a final block, and a decoder
that is new or reset reads exactly up to that block.
-/

namespace Rsurl.WebSocket

open Library Library.Loop

/-! ## The codec -/

inductive Status where
  | inputEmpty
  | outputFull
  | streamEnd
  deriving DecidableEq, Repr

/-- One call of a decoder: the bytes read of its input, and what it put in the scratch buffer. -/
structure Progress where
  consumed : Nat
  written : Bytes
  deriving DecidableEq, Repr

/-- Raw DEFLATE: decoders `δ`, and limiters `ν` that hold a decoder. -/
structure Deflate (δ ν : Type*) where
  decoder : δ
  reset : δ → δ
  limited : δ → Nat → ν
  intoInner : ν → δ
  decode : ν → Bytes → Nat → Library.Outcome String ν (Progress × Status)
  compressToVec : Compress

variable {δ ν : Type*} (codec : Deflate δ ν)

namespace Deflate

/-- A decoder at the start of a stream. -/
def Ready (d : δ) : Prop :=
  d = codec.decoder ∨ ∃ d', d = codec.reset d'

/-- Called with the rest of its input until it reports the end of the stream, a limiter reads the
stream `z` and nothing of what comes after, and writes `p`. -/
inductive Inflates (scratch : Nat) : ν → Bytes → Bytes → Bytes → Prop where
  | ends {limited limited' z after p} :
      codec.decode limited (z ++ after) scratch = .ok (⟨z.length, p⟩, .streamEnd) limited' →
      Inflates scratch limited z after p
  | goesOn {limited limited' read z after written p status} :
      codec.decode limited (read ++ (z ++ after)) scratch =
        .ok (⟨read.length, written⟩, status) limited' →
      status = .outputFull ∨ (status = .inputEmpty ∧ z ++ after ≠ [] ∧ read ++ written ≠ []) →
      Inflates scratch limited' z after p →
      Inflates scratch limited (read ++ z) after (written ++ p)

/-- The encoder's output is a complete stream, and the decoder inverts it. -/
structure Inverts : Prop where
  complete : ∀ payload, ∃ z, codec.compressToVec payload = .ok z
  inflates : ∀ payload z, codec.compressToVec payload = .ok z → ∀ d, codec.Ready d →
    ∀ limit, payload.length ≤ limit → ∀ scratch, 0 < scratch → ∀ after,
      codec.Inflates scratch (codec.limited d limit) z after payload

end Deflate

/-! ## The connection's context -/

structure Pmd (δ : Type*) where
  serverNoContextTakeover : Bool
  decoder : δ
  deriving DecidableEq, Repr

/-- The loop state of `run_inflate`. -/
structure Inflating (ν : Type*) where
  limited : ν
  out : Bytes
  consumed : Nat

def scratchLen : Nat := 64 * 1024

/-- A turn of `run_inflate`. -/
def inflateTurn (input : Bytes) (s : Inflating ν) :
    Turn (Inflating ν) (Library.Outcome Error ν (Bytes × Bool × Nat)) :=
  match codec.decode s.limited (input.drop s.consumed) scratchLen with
  | .error e limited =>
    .done (.error (.badResponse s!"permessage-deflate inflate failed: {e}") limited)
  | .ok (p, status) limited =>
    let out := s.out ++ p.written
    let consumed := s.consumed + p.consumed
    match status with
    | .streamEnd => .done (.ok (out, true, consumed) limited)
    | .outputFull => .next ⟨limited, out, consumed⟩
    | .inputEmpty =>
      if input.length ≤ consumed ∨ (consumed = s.consumed ∧ out.length = s.out.length) then
        .done (.ok (out, false, consumed) limited)
      else .next ⟨limited, out, consumed⟩

/-- `none` when the fuel is used up. -/
def runInflate (fuel : Nat) (limited : ν) (input : Bytes) :
    Option (Library.Outcome Error ν (Bytes × Bool × Nat)) :=
  iterate (inflateTurn codec input) fuel ⟨limited, [], 0⟩

def Pmd.inflateMessage (fuel : Nat) (pmd : Pmd δ) (compressed : Bytes) :
    Option (Library.Outcome Error (Pmd δ) Bytes) :=
  let taken := if pmd.serverNoContextTakeover then codec.reset pmd.decoder else pmd.decoder
  let input := compressed ++ deflateTail
  match runInflate codec fuel (codec.limited taken maxPayloadBytes) input with
  | none => none
  -- the decoder goes back into its place in either case
  | some (.error e limited) => some (.error e { pmd with decoder := codec.intoInner limited })
  | some (.ok (out, streamEnded, consumed) limited) =>
    let pmd := { pmd with decoder := codec.intoInner limited }
    if streamEnded then
      let pmd := { pmd with decoder := codec.reset pmd.decoder }
      if consumed < compressed.length then
        some (.error (.badResponse "permessage-deflate: data after the final DEFLATE block") pmd)
      else some (.ok out pmd)
    else some (.ok out pmd)

/-- The messages in order, each to the context the one before left. -/
def Pmd.inflateMessages (fuel : Nat) : Pmd δ → List Bytes → Option (List (Except Error Bytes))
  | _, [] => some []
  | pmd, compressed :: rest =>
    match pmd.inflateMessage codec fuel compressed with
    | none => none
    | some outcome => (inflateMessages fuel outcome.state rest).map (outcome.result :: ·)

/-! ## Round trips -/

variable {codec}

/-- Where the decoder inflates a stream, the loop collects its payload and stops behind it. -/
theorem iterate_inflateTurn {limited : ν} {z after p input : Bytes}
    (h : codec.Inflates scratchLen limited z after p) (out : Bytes) (consumed : Nat)
    (hinput : input.drop consumed = z ++ after) :
    ∃ fuel limited', ∀ more, fuel ≤ more →
      iterate (inflateTurn codec input) more ⟨limited, out, consumed⟩ =
        some (.ok (out ++ p, true, consumed + z.length) limited') := by
  induction h generalizing out consumed with
  | @ends limited limited' z after p hdecode =>
    refine ⟨1, limited', fun more hmore => ?_⟩
    obtain ⟨more, rfl⟩ := Nat.exists_eq_add_of_le' hmore
    simp [iterate, inflateTurn, hinput, hdecode]
  | @goesOn limited limited' read z after written p status hdecode hstatus _ ih =>
    rw [List.append_assoc] at hinput
    have hrest : input.drop (consumed + read.length) = z ++ after := by
      rw [← List.drop_drop, hinput, List.drop_left]
    obtain ⟨fuel, last, hlast⟩ := ih (out ++ written) (consumed + read.length) hrest
    -- the turn hands on what it has read and written
    have hturn : inflateTurn codec input ⟨limited, out, consumed⟩ =
        .next ⟨limited', out ++ written, consumed + read.length⟩ := by
      obtain rfl | ⟨rfl, hleft, hprogress⟩ := hstatus
      · simp [inflateTurn, hinput, hdecode]
      · have hshort : consumed + read.length < input.length := by
          by_contra hlong
          exact hleft (hrest ▸ List.drop_eq_nil_of_le (not_lt.mp hlong))
        have hmoved : ¬(read = [] ∧ written = []) := by simpa using hprogress
        simp only [inflateTurn, hinput, hdecode]
        rw [if_neg]
        simp only [List.length_append, Nat.add_eq_left, List.length_eq_zero_iff]
        exact not_or.mpr ⟨not_le.mpr hshort, hmoved⟩
    refine ⟨fuel + 1, last, fun more hmore => ?_⟩
    obtain ⟨more, rfl⟩ : ∃ n, more = n + 1 := ⟨more - 1, by omega⟩
    rw [iterate]
    simp only [hturn]
    rw [hlast more (by omega)]
    simp [Nat.add_assoc]

/-- What is sent and the tail the receiver puts behind it are the stream and something after, and
the message sent is not longer than the stream. -/
theorem deflateMessage_eq {compressor : Compress} {payload z : Bytes}
    (h : compressor payload = .ok z) :
    ∃ compressed after, deflateMessage compressor payload = .ok compressed ∧
      compressed ++ deflateTail = z ++ after ∧ compressed.length ≤ z.length := by
  by_cases htail : deflateTail <:+ z
  · obtain ⟨compressed, rfl⟩ := htail
    refine ⟨compressed, [], ?_, by simp, by simp⟩
    simp [deflateMessage, h]
  · exact ⟨z, deflateTail, by simp [deflateMessage, h, htail], rfl, le_rfl⟩

theorem inflateMessage_deflateMessage (h : codec.Inverts) {pmd : Pmd δ}
    (hready : codec.Ready pmd.decoder) {payload : Bytes} (hlen : payload.length ≤ maxPayloadBytes) :
    ∃ compressed fuel pmd', deflateMessage codec.compressToVec payload = .ok compressed ∧
      codec.Ready pmd'.decoder ∧
      ∀ more, fuel ≤ more → pmd.inflateMessage codec more compressed = some (.ok payload pmd') := by
  obtain ⟨z, hz⟩ := h.complete payload
  obtain ⟨compressed, after, hdeflate, hinput, hshort⟩ := deflateMessage_eq hz
  let taken := if pmd.serverNoContextTakeover then codec.reset pmd.decoder else pmd.decoder
  have htaken : codec.Ready taken := by
    simp only [taken]
    split
    · exact .inr ⟨_, rfl⟩
    · exact hready
  have hinflates := h.inflates payload z hz taken htaken maxPayloadBytes hlen scratchLen
    (by decide) after
  obtain ⟨fuel, limited', hrun⟩ := iterate_inflateTurn hinflates [] 0 hinput
  refine ⟨compressed, fuel, { pmd with decoder := codec.reset (codec.intoInner limited') },
    hdeflate, .inr ⟨_, rfl⟩, fun more hmore => ?_⟩
  have hrun' := hrun more hmore
  simp only [List.nil_append, Nat.zero_add] at hrun'
  simp [Pmd.inflateMessage, runInflate, taken, hrun', not_lt.mpr hshort]

/-- From a decoder at the start of a stream, a whole sequence of messages comes back. -/
theorem inflateMessages_deflateMessage (h : codec.Inverts) {pmd : Pmd δ}
    (hready : codec.Ready pmd.decoder) (payloads : List Bytes)
    (hlen : ∀ payload ∈ payloads, payload.length ≤ maxPayloadBytes) :
    ∃ messages fuel, payloads.map (deflateMessage codec.compressToVec) = messages.map .ok ∧
      ∀ more, fuel ≤ more →
        pmd.inflateMessages codec more messages = some (payloads.map .ok) := by
  induction payloads generalizing pmd with
  | nil => exact ⟨[], 0, rfl, fun _ _ => rfl⟩
  | cons payload payloads ih =>
    obtain ⟨hhead, htail⟩ := List.forall_mem_cons.mp hlen
    obtain ⟨compressed, fuel, pmd', hdeflate, hready', hone⟩ :=
      inflateMessage_deflateMessage h hready hhead
    obtain ⟨messages, fuel', hmessages, hall⟩ := ih hready' htail
    refine ⟨compressed :: messages, max fuel fuel', by simp [hdeflate, hmessages],
      fun more hmore => ?_⟩
    simp [Pmd.inflateMessages, hone more (by omega), hall more (by omega)]

/-! ## Stored blocks

A codec that inverts: every byte is in a stored block of its own, and an empty one ends the stream.
Its final block ends with the tail that is stripped. -/

namespace Deflate

def storedBlock (b : UInt8) : Bytes := [0x00, 0x01, 0x00, 0xfe, 0xff, b]

def finalBlock : Bytes := [0x01, 0x00, 0x00, 0xff, 0xff]

/-- Read blocks while there is room for what they hold. -/
def inflateStored : Bytes → Nat → Nat → Except String (Progress × Status)
  | 0x01 :: 0x00 :: 0x00 :: 0xff :: 0xff :: _, _, _ => .ok (⟨5, []⟩, .streamEnd)
  | 0x00 :: 0x01 :: 0x00 :: 0xfe :: 0xff :: _ :: _, 0, _ => .ok (⟨0, []⟩, .outputFull)
  | 0x00 :: 0x01 :: 0x00 :: 0xfe :: 0xff :: _ :: _, _ + 1, 0 => .error "output limit exceeded"
  | 0x00 :: 0x01 :: 0x00 :: 0xfe :: 0xff :: b :: rest, room + 1, limit + 1 =>
    match inflateStored rest room limit with
    | .error e => .error e
    | .ok (p, status) => .ok (⟨6 + p.consumed, b :: p.written⟩, status)
  | _, _, _ => .ok (⟨0, []⟩, .inputEmpty)

/-- The decoder is whether the stream has ended, and a limiter adds what may still be written. -/
def stored : Deflate Bool (Bool × Nat) where
  decoder := false
  reset _ := false
  limited ended limit := (ended, limit)
  intoInner := Prod.fst
  decode limited input scratch :=
    if limited.1 then .ok (⟨0, []⟩, .streamEnd) limited
    else match inflateStored input scratch limited.2 with
    | .error e => .error e limited
    | .ok (p, status) =>
      .ok (p, status) (decide (status = .streamEnd), limited.2 - p.written.length)
  compressToVec payload := .ok (payload.flatMap storedBlock ++ finalBlock)

theorem inflateStored_all (payload after : Bytes) {room limit : Nat} (hroom : payload.length ≤ room)
    (hlimit : payload.length ≤ limit) :
    inflateStored (payload.flatMap storedBlock ++ finalBlock ++ after) room limit =
      .ok (⟨(payload.flatMap storedBlock ++ finalBlock).length, payload⟩, .streamEnd) := by
  induction payload generalizing room limit with
  | nil => simp [finalBlock, inflateStored]
  | cons b payload ih =>
    simp only [List.length_cons] at hroom hlimit
    obtain ⟨room, rfl⟩ : ∃ n, room = n + 1 := ⟨room - 1, by omega⟩
    obtain ⟨limit, rfl⟩ : ∃ n, limit = n + 1 := ⟨limit - 1, by omega⟩
    have htail := ih (Nat.le_of_succ_le_succ hroom) (Nat.le_of_succ_le_succ hlimit)
    simp only [List.flatMap_cons, storedBlock, List.cons_append, List.nil_append,
      inflateStored] at htail ⊢
    simp only [htail, List.length_cons, Nat.add_comm 6]

theorem inflateStored_full (payload rest : Bytes) (b : UInt8) (limit : Nat)
    (hlimit : payload.length ≤ limit) :
    inflateStored (payload.flatMap storedBlock ++ (storedBlock b ++ rest)) payload.length limit =
      .ok (⟨(payload.flatMap storedBlock).length, payload⟩, .outputFull) := by
  induction payload generalizing limit with
  | nil => simp [storedBlock, inflateStored]
  | cons c payload ih =>
    simp only [List.length_cons] at hlimit
    obtain ⟨limit, rfl⟩ : ∃ n, limit = n + 1 := ⟨limit - 1, by omega⟩
    have htail := ih limit (Nat.le_of_succ_le_succ hlimit)
    simp only [List.flatMap_cons, storedBlock, List.cons_append, List.nil_append,
      inflateStored, List.length_cons] at htail ⊢
    simp only [htail, List.length_cons, Nat.add_comm 6]

theorem stored_inflates {scratch : Nat} (hscratch : 0 < scratch) (payload after : Bytes)
    (limit : Nat) (hlimit : payload.length ≤ limit) :
    stored.Inflates scratch (false, limit) (payload.flatMap storedBlock ++ finalBlock) after
      payload := by
  induction hn : payload.length using Nat.strongRecOn generalizing payload limit with
  | ind n ih =>
    by_cases hroom : payload.length ≤ scratch
    · have hdecode : stored.decode (false, limit)
          (payload.flatMap storedBlock ++ finalBlock ++ after) scratch =
          .ok (⟨(payload.flatMap storedBlock ++ finalBlock).length, payload⟩, .streamEnd)
            (true, limit - payload.length) := by
        simp only [stored, inflateStored_all payload after hroom hlimit]
        rfl
      exact .ends hdecode
    · -- the scratch buffer is full before the payload is out
      rw [not_le] at hroom
      let written := payload.take scratch
      obtain ⟨b, rest, hrest⟩ := List.exists_cons_of_ne_nil
        (List.ne_nil_of_length_pos (l := payload.drop scratch) (by simpa using hroom))
      have hwritten : written.length = scratch := List.length_take_of_le hroom.le
      have hpayload : payload = written ++ (b :: rest) := by
        rw [← hrest, List.take_append_drop]
      have hsplit : payload.length = scratch + (b :: rest).length := by
        rw [hpayload, List.length_append, hwritten]
      have hdecode : stored.decode (false, limit) (written.flatMap storedBlock ++
          ((b :: rest).flatMap storedBlock ++ finalBlock ++ after)) scratch =
          .ok (⟨(written.flatMap storedBlock).length, written⟩, .outputFull)
            (false, limit - written.length) := by
        have hfull := inflateStored_full written (rest.flatMap storedBlock ++ finalBlock ++ after) b
          limit (by omega)
        simp only [hwritten] at hfull
        simp only [List.flatMap_cons, List.append_assoc] at hfull ⊢
        simp only [stored, hfull]
        rfl
      have hgoesOn := ih (b :: rest).length (by omega) (b :: rest) (limit - written.length)
        (by omega) rfl
      rw [hpayload, List.flatMap_append, List.append_assoc]
      exact .goesOn hdecode (.inl rfl) hgoesOn

theorem stored_inverts : stored.Inverts where
  complete _ := ⟨_, rfl⟩
  inflates payload z hz d hd limit hlimit scratch hscratch after := by
    obtain rfl : payload.flatMap storedBlock ++ finalBlock = z := by simpa [stored] using hz
    obtain rfl : d = false := by
      obtain rfl | ⟨d', rfl⟩ := hd <;> rfl
    exact stored_inflates hscratch payload after limit hlimit

example : deflateMessage stored.compressToVec [0x48] =
    .ok [0x00, 0x01, 0x00, 0xfe, 0xff, 0x48, 0x01] := by
  decide

end Deflate

/-! ## Connections -/

/-- For every sequence of payloads and either way the server takes over its context, what
`deflate_message` makes of them comes back from one `Pmd`. -/
theorem permessageDeflate_roundTrip (h : codec.Inverts) (serverNoContextTakeover : Bool)
    (payloads : List Bytes) (hlen : ∀ payload ∈ payloads, payload.length ≤ maxPayloadBytes) :
    ∃ messages fuel, payloads.map (deflateMessage codec.compressToVec) = messages.map .ok ∧
      ∀ more, fuel ≤ more →
        Pmd.inflateMessages codec more ⟨serverNoContextTakeover, codec.decoder⟩ messages =
          some (payloads.map .ok) :=
  inflateMessages_deflateMessage h (.inl rfl) payloads hlen

theorem permessageDeflate_roundTrip_stored :
    ∃ messages fuel, [[], [0x48, 0x69]].map (deflateMessage Deflate.stored.compressToVec) =
        messages.map .ok ∧
      ∀ more, fuel ≤ more → Pmd.inflateMessages Deflate.stored more ⟨false, false⟩ messages =
        some ([[], [0x48, 0x69]].map .ok) :=
  permessageDeflate_roundTrip Deflate.stored_inverts false [[], [0x48, 0x69]] (by decide)

end Rsurl.WebSocket
