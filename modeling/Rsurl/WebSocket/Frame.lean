import Rsurl.Error
import Rsurl.Library.Endian
import Rsurl.Library.Framing

/-!
# The WebSocket frame codec

Frames, the parser of server frames and the builder of masked client frames, shared by the blocking
and the async client. The random source of the masks is a parameter: the draws it answers, in order.
-/

namespace Rsurl.WebSocket

open Library
open Library.Endian (toBe fromBe)

def opcodeCont : UInt8 := 0x0
def opcodeText : UInt8 := 0x1
def opcodeBinary : UInt8 := 0x2
def opcodeClose : UInt8 := 0x8
def opcodePing : UInt8 := 0x9
def opcodePong : UInt8 := 0xa

def maxPayloadBytes : Nat := 64 * 1024 * 1024

/-- Max payload of a control frame. -/
def maxControlPayload : Nat := 125

structure Frame where
  fin : Bool
  rsv1 : Bool
  opcode : UInt8
  payload : Bytes
  deriving DecidableEq, Repr

def Frame.isControl (f : Frame) : Bool := 0x8 ≤ f.opcode

/-! ## Server frames -/

def controlTooLarge (n : Nat) : Error :=
  .badResponse s!"control frame payload too large: {n} bytes (max {maxControlPayload})"

/-- The payload length of a frame and where the payload starts; `none` if the buffer ends before. -/
def payloadLength (buf : Bytes) (len7 : Nat) : Except Error (Option (Nat × Nat)) :=
  if len7 ≤ 125 then .ok (some (len7, 2))
  else if len7 = 126 then
    if buf.length < 4 then .ok none
    else
      let v := fromBe ((buf.drop 2).take 2)
      if v < 126 then .error (.badResponse "non-minimal 16-bit WS payload length")
      else .ok (some (v, 4))
  else if buf.length < 10 then .ok none
  else
    let v := fromBe ((buf.drop 2).take 8)
    if 2 ^ 63 ≤ v then
      .error (.badResponse "WS payload length has its most significant bit set")
    else if v ≤ 65535 then .error (.badResponse "non-minimal 64-bit WS payload length")
    else .ok (some (v, 10))

/-- Parse one frame off the front of the buffer. -/
def tryParseFrame (buf : Bytes) : Except Error (Option (Frame × Nat)) :=
  match buf with
  | h0 :: h1 :: _ =>
    if h0 &&& 0x30 ≠ 0 then .error (.badResponse "non-zero RSV2/RSV3 bits on incoming WS frame")
    else if h1 &&& 0x80 ≠ 0 then .error (.badResponse "server-to-client frame is masked")
    else
      let opcode := h0 &&& 0x0f
      match payloadLength buf (h1 &&& 0x7f).toNat with
      | .error e => .error e
      | .ok none => .ok none
      | .ok (some (len, pos)) =>
        if 0x8 ≤ opcode ∧ maxControlPayload < len then .error (controlTooLarge len)
        else if maxPayloadBytes < len then
          .error (.badResponse s!"WS payload too large: {len} bytes")
        else if buf.length < pos + len then .ok none
        else .ok (some (⟨h0 &&& 0x80 ≠ 0, h0 &&& 0x40 ≠ 0, opcode, (buf.drop pos).take len⟩,
          pos + len))
  | _ => .ok none

/-! ## Client frames -/

/-- A masking key. -/
structure Mask where
  a : UInt8
  b : UInt8
  c : UInt8
  d : UInt8
  deriving DecidableEq, Repr

/-- The random source: what each draw of a mask gives. -/
abbrev Rng := Nat → Except Error Mask

/-- The payload under the mask, from the key byte `a` on. -/
def Mask.apply (m : Mask) : Bytes → Bytes
  | [] => []
  | x :: rest => (x ^^^ m.a) :: Mask.apply ⟨m.b, m.c, m.d, m.a⟩ rest

/-- The header of a frame of `n` payload bytes, its length in the shortest form. -/
def frameHeader (fin rsv1 masked : Bool) (opcode : UInt8) (n : Nat) : Bytes :=
  let maskBit := if masked then 0x80 else 0
  ((if fin then 0x80 else 0) ||| (if rsv1 then 0x40 else 0) ||| (opcode &&& 0x0f)) ::
    if n < 126 then [maskBit ||| UInt8.ofNat n]
    else if n ≤ 65535 then (maskBit ||| 126) :: toBe 2 n
    else (maskBit ||| 127) :: toBe 8 n

/-- A masked client-to-server frame. -/
def maskedFrame (f : Frame) (m : Mask) : Bytes :=
  frameHeader f.fin f.rsv1 true f.opcode f.payload.length ++ [m.a, m.b, m.c, m.d] ++
    m.apply f.payload

/-- `draw` is the mask the random source gives. -/
def buildClientFrameInner (draw : Except Error Mask) (fin : Bool) (opcode : UInt8) (payload : Bytes)
    (rsv1 : Bool) : Except Error Bytes :=
  draw.map (maskedFrame ⟨fin, rsv1, opcode, payload⟩)

def buildClientFrame (draw : Except Error Mask) (opcode : UInt8) (payload : Bytes) :
    Except Error Bytes :=
  buildClientFrameInner draw true opcode payload false

def buildClientFrameRsv1 (draw : Except Error Mask) (opcode : UInt8) (payload : Bytes) :
    Except Error Bytes :=
  buildClientFrameInner draw true opcode payload true

/-! ## The parser -/

theorem payloadLength_append {buf : Bytes} (w : Bytes) {len7 : Nat}
    (h : payloadLength buf len7 ≠ .ok none) :
    payloadLength (buf ++ w) len7 = payloadLength buf len7 := by
  unfold payloadLength at h ⊢
  have htake {n : Nat} (hn : n + 2 ≤ buf.length) :
      ((buf ++ w).drop 2).take n = (buf.drop 2).take n := by
    rw [List.drop_append_of_le_length (by omega),
      List.take_append_of_le_length (by rw [List.length_drop]; omega)]
  by_cases h1 : len7 ≤ 125
  · simp only [if_pos h1]
  by_cases h2 : len7 = 126
  · simp only [if_neg h1, if_pos h2] at h ⊢
    by_cases h3 : buf.length < 4
    · simp [h3] at h
    · rw [if_neg h3, if_neg (by rw [List.length_append]; omega), htake (by omega)]
  · simp only [if_neg h1, if_neg h2] at h ⊢
    by_cases h3 : buf.length < 10
    · simp [h3] at h
    · rw [if_neg h3, if_neg (by rw [List.length_append]; omega), htake (by omega)]

theorem payloadLength_pos {buf : Bytes} {len7 len pos : Nat}
    (h : payloadLength buf len7 = .ok (some (len, pos))) : 2 ≤ pos := by
  unfold payloadLength at h
  dsimp only at h
  split_ifs at h <;> cases h <;> omega

/-- What the parser said of the front of a stream, it says of the whole. -/
theorem tryParseFrame_append {buf : Bytes} (w : Bytes) (h : tryParseFrame buf ≠ .ok none) :
    tryParseFrame (buf ++ w) = tryParseFrame buf := by
  unfold tryParseFrame at h ⊢
  match buf, h with
  | h0 :: h1 :: rest, h =>
    simp only [List.cons_append] at h ⊢
    by_cases hrsv : h0 &&& 0x30 ≠ 0
    · simp only [if_pos hrsv]
    by_cases hmask : h1 &&& 0x80 ≠ 0
    · simp only [if_neg hrsv, if_pos hmask]
    simp only [if_neg hrsv, if_neg hmask] at h ⊢
    have happend (h : payloadLength (h0 :: h1 :: rest) (h1 &&& 0x7f).toNat ≠ .ok none) :=
      payloadLength_append w h
    cases hlen : payloadLength (h0 :: h1 :: rest) (h1 &&& 0x7f).toNat with
    | error e =>
      have := happend (by rw [hlen]; simp)
      simp only [List.cons_append, hlen] at this
      simp only [this]
    | ok found =>
      cases found with
      | none => exact absurd (by simp only [hlen]) h
      | some u =>
        obtain ⟨len, pos⟩ := u
        have := happend (by rw [hlen]; simp)
        simp only [List.cons_append, hlen] at this
        simp only [this, hlen] at h ⊢
        by_cases hcontrol : 0x8 ≤ h0 &&& 0x0f ∧ maxControlPayload < len
        · simp only [if_pos hcontrol]
        by_cases hmax : maxPayloadBytes < len
        · simp only [if_neg hcontrol, if_pos hmax]
        simp only [if_neg hcontrol, if_neg hmax] at h ⊢
        by_cases hshort : (h0 :: h1 :: rest).length < pos + len
        · exact absurd (if_pos hshort) h
        · have hlong : ¬(h0 :: h1 :: (rest ++ w)).length < pos + len := by
            simp only [List.length_cons, List.length_append] at hshort ⊢
            omega
          have hbody : ((h0 :: h1 :: (rest ++ w)).drop pos).take len =
              ((h0 :: h1 :: rest).drop pos).take len := by
            rw [← List.cons_append, ← List.cons_append,
              List.drop_append_of_le_length (by omega),
              List.take_append_of_le_length (by rw [List.length_drop]; omega)]
          rw [if_neg hshort, if_neg hlong, hbody]

theorem tryParseFrame_length {buf : Bytes} {f : Frame} {n : Nat}
    (h : tryParseFrame buf = .ok (some (f, n))) : 2 ≤ n ∧ n ≤ buf.length := by
  unfold tryParseFrame at h
  split at h
  · rename_i h0 h1 rest
    split_ifs at h
    split at h
    · cases h
    · cases h
    · rename_i len pos hlen
      have := payloadLength_pos hlen
      by_cases hcontrol : 0x8 ≤ h0 &&& 0x0f ∧ maxControlPayload < len
      · rw [if_pos hcontrol] at h
        cases h
      rw [if_neg hcontrol] at h
      split_ifs at h <;> cases h
      omega
  · cases h

theorem tryParseFrame_payload {buf : Bytes} {f : Frame} {n : Nat}
    (h : tryParseFrame buf = .ok (some (f, n))) : f.payload.length ≤ maxPayloadBytes := by
  unfold tryParseFrame at h
  split at h
  · rename_i h0 h1 rest
    split_ifs at h
    split at h
    · cases h
    · cases h
    · rename_i len pos hlen
      by_cases hcontrol : 0x8 ≤ h0 &&& 0x0f ∧ maxControlPayload < len
      · rw [if_pos hcontrol] at h
        cases h
      rw [if_neg hcontrol] at h
      split_ifs at h <;> cases h
      exact (List.length_take_le _ _).trans (by omega)
  · cases h

/-- What a read of the socket fails with. -/
abbrev ReadFailure := IoErrorKind × String

/-- `read_frame` -/
def frameFormat : Framing.Format Frame UInt8 Error ReadFailure where
  parse := tryParseFrame
  eof := .unexpectedEof
  lift failure := .io failure.1 failure.2

theorem stable_frameFormat : frameFormat.Stable where
  pos b f n h := by
    have := tryParseFrame_length h
    omega
  found b f n w (h : tryParseFrame b = _) := (tryParseFrame_append w (by rw [h]; simp)).trans h
  refused b e w (h : tryParseFrame b = _) := (tryParseFrame_append w (by rw [h]; simp)).trans h

/-! ## Frame headers -/

theorem headerByte_bits (fin rsv1 : Bool) {opcode : UInt8} (h : opcode ≤ 0x0f) :
    let h0 := (if fin then 0x80 else 0) ||| (if rsv1 then 0x40 else 0) ||| (opcode &&& 0x0f)
    h0 &&& 0x30 = 0 ∧ h0 &&& 0x0f = opcode ∧ decide (h0 &&& 0x80 ≠ 0) = fin ∧
      decide (h0 &&& 0x40 ≠ 0) = rsv1 := by
  have hlt : opcode.toNat < 16 := by
    rw [UInt8.le_iff_toNat_le] at h
    exact Nat.lt_succ_of_le h
  have hall : ∀ (n : Fin 16) (fin rsv1 : Bool),
      let h0 := (if fin then 0x80 else 0) ||| (if rsv1 then 0x40 else 0) |||
        (UInt8.ofNat n &&& 0x0f)
      h0 &&& 0x30 = 0 ∧ h0 &&& 0x0f = UInt8.ofNat n ∧ decide (h0 &&& 0x80 ≠ 0) = fin ∧
        decide (h0 &&& 0x40 ≠ 0) = rsv1 := by decide
  have hof : UInt8.ofNat opcode.toNat = opcode := UInt8.ofNat_toNat
  have := hall ⟨opcode.toNat, hlt⟩ fin rsv1
  rwa [hof] at this

theorem lengthByte_bits (masked : Bool) {n : Nat} (h : n < 128) :
    let h1 := (if masked then 0x80 else 0) ||| UInt8.ofNat n
    decide (h1 &&& 0x80 ≠ 0) = masked ∧ (h1 &&& 0x7f).toNat = n := by
  have hall : ∀ (masked : Bool) (n : Fin 128),
      let h1 := (if masked then 0x80 else 0) ||| UInt8.ofNat n
      decide (h1 &&& 0x80 ≠ 0) = masked ∧ (h1 &&& 0x7f).toNat = n := by decide
  exact hall masked ⟨n, h⟩

/-- A header, and all that a reader finds in it. -/
theorem frameHeader_spec (fin rsv1 masked : Bool) {opcode : UInt8} (hop : opcode ≤ 0x0f) {n : Nat}
    (hn : n < 2 ^ 63) (w : Bytes) : ∃ h0 h1 rest,
      frameHeader fin rsv1 masked opcode n = h0 :: h1 :: rest ∧
      h0 &&& 0x30 = 0 ∧ h0 &&& 0x0f = opcode ∧ decide (h0 &&& 0x80 ≠ 0) = fin ∧
      decide (h0 &&& 0x40 ≠ 0) = rsv1 ∧ decide (h1 &&& 0x80 ≠ 0) = masked ∧
      payloadLength (h0 :: h1 :: (rest ++ w)) (h1 &&& 0x7f).toNat =
        .ok (some (n, (h0 :: h1 :: rest).length)) := by
  obtain ⟨hrsv, hopcode, hfin, hrsv1⟩ := headerByte_bits fin rsv1 hop
  unfold frameHeader payloadLength
  by_cases h1 : n < 126
  · obtain ⟨hbit, hlen⟩ := lengthByte_bits masked (n := n) (by omega)
    have hle : n ≤ 125 := by omega
    refine ⟨_, (if masked then 0x80 else 0) ||| UInt8.ofNat n, [], by simp only [if_pos h1], hrsv, hopcode,
      hfin, hrsv1, hbit, ?_⟩
    simp [hlen, hle]
  by_cases h2 : n ≤ 65535
  · obtain ⟨hbit, hlen⟩ := lengthByte_bits masked (n := 126) (by omega)
    have hback : fromBe (toBe 2 n) = n := Endian.fromBe_toBe (by omega)
    have htake : (toBe 2 n ++ w).take 2 = toBe 2 n := List.take_left' (by simp)
    refine ⟨_, (if masked then 0x80 else 0) ||| 126, toBe 2 n, by simp only [if_neg h1, if_pos h2], hrsv,
      hopcode, hfin, hrsv1, hbit, ?_⟩
    have h7 : (((if masked then 0x80 else 0) ||| 126 : UInt8) &&& 0x7f).toNat = 126 := hlen
    simp only [h7, List.drop_succ_cons, List.drop_zero, htake]
    rw [hback]
    simp
    rw [if_neg (by omega), if_neg h1]
  · obtain ⟨hbit, hlen⟩ := lengthByte_bits masked (n := 127) (by omega)
    have hback : fromBe (toBe 8 n) = n := Endian.fromBe_toBe (by omega)
    have htake : (toBe 8 n ++ w).take 8 = toBe 8 n := List.take_left' (by simp)
    refine ⟨_, (if masked then 0x80 else 0) ||| 127, toBe 8 n, by simp only [if_neg h1, if_neg h2], hrsv,
      hopcode, hfin, hrsv1, hbit, ?_⟩
    have h7 : (((if masked then 0x80 else 0) ||| 127 : UInt8) &&& 0x7f).toNat = 127 := hlen
    simp only [h7, List.drop_succ_cons, List.drop_zero, htake]
    rw [hback]
    simp
    rw [if_neg (by omega), if_neg (by omega), if_neg h2]

/-! ## What a server sends -/

/-- A frame as a server writes it: not masked, its length in the shortest form. -/
def serverFrame (f : Frame) : Bytes :=
  frameHeader f.fin f.rsv1 false f.opcode f.payload.length ++ f.payload

/-- A frame that is within the limits. -/
structure Frame.Wf (f : Frame) : Prop where
  opcode : f.opcode ≤ 0x0f
  length : f.payload.length ≤ maxPayloadBytes
  control : f.isControl → f.payload.length ≤ maxControlPayload

/-- A server frame at the front of a stream is parsed, and the rest is left. -/
theorem tryParseFrame_serverFrame {f : Frame} (hf : f.Wf) (w : Bytes) :
    tryParseFrame (serverFrame f ++ w) = .ok (some (f, (serverFrame f).length)) := by
  have hmax := hf.length
  have hmaxVal : maxPayloadBytes = 64 * 1024 * 1024 := rfl
  obtain ⟨h0, h1, rest, hhead, hrsv, hopcode, hfin, hrsv1, hmask, hlen⟩ := frameHeader_spec f.fin
    f.rsv1 false hf.opcode (n := f.payload.length) (by omega) (f.payload ++ w)
  have hbuf : serverFrame f ++ w = h0 :: h1 :: (rest ++ (f.payload ++ w)) := by
    rw [serverFrame, hhead]
    simp
  have hcontrol : ¬(0x8 ≤ h0 &&& 0x0f ∧ maxControlPayload < f.payload.length) := by
    rintro ⟨hc, hlt⟩
    rw [hopcode] at hc
    have := hf.control (decide_eq_true hc)
    omega
  have hbody : ((h0 :: h1 :: (rest ++ (f.payload ++ w))).drop (h0 :: h1 :: rest).length).take
      f.payload.length = f.payload := by
    rw [← List.cons_append, ← List.cons_append, List.drop_left, List.take_left]
  rw [hbuf, tryParseFrame]
  simp only [hrsv, hlen]
  rw [if_neg (by simp), if_neg (of_decide_eq_false hmask), if_neg hcontrol, if_neg (by omega),
    if_neg (by simp; omega), hbody, hopcode, hfin, hrsv1]
  simp only [serverFrame, hhead, List.length_append]

/-! ## What a server reads -/

/-- A client frame as its peer reads it, with the mask taken off. -/
def readClientFrame (buf : Bytes) : Option Frame :=
  match buf with
  | h0 :: h1 :: _ =>
    if h1 &&& 0x80 ≠ 0 then
      match payloadLength buf (h1 &&& 0x7f).toNat with
      | .ok (some (len, pos)) => match buf.drop pos with
        | a :: b :: c :: d :: masked =>
          if masked.length = len then
            some ⟨h0 &&& 0x80 ≠ 0, h0 &&& 0x40 ≠ 0, h0 &&& 0x0f, Mask.apply ⟨a, b, c, d⟩ masked⟩
          else none
        | _ => none
      | _ => none
    else none
  | _ => none

theorem Mask.length_apply (m : Mask) (xs : Bytes) : (m.apply xs).length = xs.length := by
  induction xs generalizing m with
  | nil => rfl
  | cons x xs ih => simp [Mask.apply, ih]

theorem Mask.apply_apply (m : Mask) (xs : Bytes) : m.apply (m.apply xs) = xs := by
  induction xs generalizing m with
  | nil => rfl
  | cons x xs ih => simp [Mask.apply, ih]

/-- The peer reads the frame that was masked. -/
theorem readClientFrame_maskedFrame {f : Frame} (hop : f.opcode ≤ 0x0f)
    (hlen : f.payload.length < 2 ^ 63) (m : Mask) : readClientFrame (maskedFrame f m) = some f := by
  obtain ⟨h0, h1, rest, hhead, -, hopcode, hfin, hrsv1, hmask, hn⟩ := frameHeader_spec f.fin
    f.rsv1 true hop hlen ([m.a, m.b, m.c, m.d] ++ m.apply f.payload)
  have hbuf : maskedFrame f m =
      h0 :: h1 :: (rest ++ ([m.a, m.b, m.c, m.d] ++ m.apply f.payload)) := by
    rw [maskedFrame, hhead]
    simp
  have hdrop : (h0 :: h1 :: (rest ++ ([m.a, m.b, m.c, m.d] ++ m.apply f.payload))).drop
      (h0 :: h1 :: rest).length = m.a :: m.b :: m.c :: m.d :: m.apply f.payload := by
    rw [← List.cons_append, ← List.cons_append, List.drop_left]
    rfl
  rw [hbuf, readClientFrame]
  simp only [hn, hdrop]
  rw [if_pos (of_decide_eq_true hmask), if_pos (m.length_apply _), hfin, hrsv1, hopcode,
    m.apply_apply]

end Rsurl.WebSocket
