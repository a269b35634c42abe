import Rsurl.Error

/-!
# Frames, settings and flow-control windows

The wire frame with its byte-level reader and writer, the peer's settings and the four
flow-control windows. Stream ids, settings values and window increments are naturals below the
width the source gives them; windows are integers, because a stream's send window may go below
zero.
-/

namespace Rsurl.Http2

open Text

/-! ## Big-endian integers -/

def be16 (n : Nat) : Bytes := [UInt8.ofNat (n / 2 ^ 8), UInt8.ofNat n]

def be32 (n : Nat) : Bytes :=
  [UInt8.ofNat (n / 2 ^ 24), UInt8.ofNat (n / 2 ^ 16), UInt8.ofNat (n / 2 ^ 8), UInt8.ofNat n]

/-- The unsigned integer a byte string spells, most significant byte first. -/
def fromBe (bytes : Bytes) : Nat := bytes.foldl (fun acc b => acc * 256 + b.toNat) 0

/-- Clear the reserved top bit of a 32-bit word. -/
def mask31 (n : Nat) : Nat := n % 2 ^ 31

/-! ## Frames -/

/-- The client connection preface. -/
def preface : Bytes := asBytes "PRI * HTTP/2.0\r\n\r\nSM\r\n\r\n"

inductive FrameType where
  | data
  | headers
  | priority
  | rstStream
  | settings
  | pushPromise
  | ping
  | goaway
  | windowUpdate
  | continuation
  | unknown (code : UInt8)
  deriving DecidableEq, Repr

namespace FrameType

def code : FrameType → UInt8
  | data => 0x0
  | headers => 0x1
  | priority => 0x2
  | rstStream => 0x3
  | settings => 0x4
  | pushPromise => 0x5
  | ping => 0x6
  | goaway => 0x7
  | windowUpdate => 0x8
  | continuation => 0x9
  | unknown code => code

def ofCode (code : UInt8) : FrameType :=
  match code.toNat with
  | 0x0 => data
  | 0x1 => headers
  | 0x2 => priority
  | 0x3 => rstStream
  | 0x4 => settings
  | 0x5 => pushPromise
  | 0x6 => ping
  | 0x7 => goaway
  | 0x8 => windowUpdate
  | 0x9 => continuation
  | _ => unknown code

/-- The hexadecimal number error texts show. -/
def hex (t : FrameType) : String := Text.hex t.code.toNat

@[simp] theorem code_ofCode (b : UInt8) : (ofCode b).code = b := by
  unfold ofCode
  split <;> simp only [code]
  all_goals
    apply UInt8.toNat_inj.mp
    simp_all

end FrameType

def flagEndStream : UInt8 := 0x01
def flagAck : UInt8 := 0x01
def flagEndHeaders : UInt8 := 0x04
def flagPadded : UInt8 := 0x08
def flagPriority : UInt8 := 0x20

structure Frame where
  typ : FrameType
  flags : UInt8
  streamId : Nat
  payload : Bytes
  deriving DecidableEq, Repr

namespace Frame

def hasFlag (f : Frame) (flag : UInt8) : Bool := f.flags &&& flag != 0

def endStream (f : Frame) : Bool := f.hasFlag flagEndStream
def ack (f : Frame) : Bool := f.hasFlag flagAck
def endHeaders (f : Frame) : Bool := f.hasFlag flagEndHeaders
def padded (f : Frame) : Bool := f.hasFlag flagPadded
def prioritised (f : Frame) : Bool := f.hasFlag flagPriority

end Frame

def maxFramePayload : Nat := 2 ^ 20
def maxFrameSizeMin : Nat := 16384
def maxFrameSizeMax : Nat := 16777215
def ourMaxFrameSize : Nat := maxFrameSizeMin
def initialWindowSizeMax : Nat := 0x7fffffff

/-! ## The byte-level codec -/

/-- The bytes `write_frame` puts on the wire, or its refusal of an oversized payload. -/
def writeFrameBytes (f : Frame) : Except Error Bytes :=
  if maxFramePayload < f.payload.length then
    .error (.io .invalidInput "frame payload too large")
  else .ok ((be32 f.payload.length).drop 1 ++ [f.typ.code, f.flags] ++ be32 (mask31 f.streamId) ++
    f.payload)

/-- One frame off the front of a byte stream, and the bytes after it. -/
def readFrameBytes (bytes : Bytes) : Except Error (Frame × Bytes) :=
  if bytes.length < 9 then .error (.io .unexpectedEof "failed to fill whole buffer")
  else
    let length := fromBe (bytes.take 3)
    let typ := FrameType.ofCode (bytes.getD 3 0)
    let flags := bytes.getD 4 0
    let streamId := mask31 (fromBe ((bytes.drop 5).take 4))
    if ourMaxFrameSize < length then
      .error (.io .invalidData s!"frame payload too large: {length} (FRAME_SIZE_ERROR)")
    else if (bytes.drop 9).length < length then
      .error (.io .unexpectedEof "failed to fill whole buffer")
    else .ok (⟨typ, flags, streamId, (bytes.drop 9).take length⟩, (bytes.drop 9).drop length)

theorem fromBe_be32 {n : Nat} (h : n < 2 ^ 32) : fromBe (be32 n) = n := by
  simp only [fromBe, be32, List.foldl_cons, List.foldl_nil, UInt8.toNat_ofNat']
  omega

theorem fromBe_be24 {n : Nat} (h : n < 2 ^ 24) : fromBe ((be32 n).drop 1) = n := by
  simp only [fromBe, be32, List.drop_succ_cons, List.drop_zero, List.foldl_cons, List.foldl_nil,
    UInt8.toNat_ofNat']
  omega

/-- A frame a peer may send: a known or unassigned type, an id in 31 bits and a payload within
the size we advertise. -/
structure Frame.WellFormed (f : Frame) : Prop where
  typ : FrameType.ofCode f.typ.code = f.typ
  streamId : f.streamId < 2 ^ 31
  payload : f.payload.length ≤ ourMaxFrameSize

/-- A frame on the wire. Its reserved bit may be set, which says nothing. -/
def Frame.wire (reserved : Bool) (f : Frame) : Bytes :=
  (be32 f.payload.length).drop 1 ++ [f.typ.code, f.flags] ++
    be32 (f.streamId + if reserved then 2 ^ 31 else 0) ++ f.payload

theorem be32_fromBe {a b c d : UInt8} : be32 (fromBe [a, b, c, d]) = [a, b, c, d] := by
  have ha := a.toNat_lt
  have hb := b.toNat_lt
  have hc := c.toNat_lt
  have hd := d.toNat_lt
  simp only [be32, fromBe, List.foldl_cons, List.foldl_nil, List.cons.injEq, and_true]
  refine ⟨?_, ?_, ?_, ?_⟩
  all_goals
    apply UInt8.toNat_inj.mp
    rw [UInt8.toNat_ofNat']
    omega

theorem fromBe_lt4 (a b c d : UInt8) : fromBe [a, b, c, d] < 2 ^ 32 := by
  have ha := a.toNat_lt
  have hb := b.toNat_lt
  have hc := c.toNat_lt
  have hd := d.toNat_lt
  simp only [fromBe, List.foldl_cons, List.foldl_nil]
  omega

/-- What is read is a frame in range, and what is left follows it. -/
theorem readFrameBytes_iff {f : Frame} {bytes rest : Bytes} :
    readFrameBytes bytes = .ok (f, rest) ↔
      f.WellFormed ∧ ∃ reserved, bytes = f.wire reserved ++ rest := by
  have hmax : ourMaxFrameSize = 16384 := rfl
  constructor
  · intro h
    rcases bytes with _ | ⟨l0, _ | ⟨l1, _ | ⟨l2, _ | ⟨typ, _ | ⟨flags, _ | ⟨s0, _ | ⟨s1, _ | ⟨s2,
      _ | ⟨s3, more⟩⟩⟩⟩⟩⟩⟩⟩⟩
    iterate 9 cases h
    simp only [readFrameBytes, List.length_cons, List.take_succ_cons, List.take_zero,
      List.getD_cons_succ, List.getD_cons_zero, List.drop_succ_cons, List.drop_zero] at h
    split_ifs at h with hshort hlong hcut
    cases h
    have hlen : (more.take (fromBe [l0, l1, l2])).length = fromBe [l0, l1, l2] := by
      rw [List.length_take]
      omega
    have hsize : fromBe [l0, l1, l2] = fromBe [0, l0, l1, l2] := by simp [fromBe]
    refine ⟨⟨by simp, Nat.mod_lt _ (by decide), ?_⟩, ?_⟩
    · rw [hlen]
      exact Nat.le_of_not_lt hlong
    have hword := fromBe_lt4 s0 s1 s2 s3
    refine ⟨decide (2 ^ 31 ≤ fromBe [s0, s1, s2, s3]), ?_⟩
    have hstream : (mask31 (fromBe [s0, s1, s2, s3]) +
        if decide (2 ^ 31 ≤ fromBe [s0, s1, s2, s3]) = true then 2 ^ 31 else 0) =
        fromBe [s0, s1, s2, s3] := by
      rw [mask31]
      split_ifs with hbit
      all_goals
        rw [decide_eq_true_eq] at hbit
        omega
    rw [Frame.wire, hlen, hsize, be32_fromBe]
    simp only [hstream, be32_fromBe, FrameType.code_ofCode]
    simp
  · rintro ⟨⟨htyp, hid, hlen⟩, reserved, rfl⟩
    have hlength : fromBe ((be32 f.payload.length).drop 1) = f.payload.length :=
      fromBe_be24 (by omega)
    have hstream : mask31 (fromBe (be32 (f.streamId + if reserved then 2 ^ 31 else 0))) =
        f.streamId := by
      rw [fromBe_be32 (by split <;> omega), mask31]
      split <;> omega
    unfold Frame.wire
    generalize hword : be32 (f.streamId + if reserved then 2 ^ 31 else 0) = word at hstream ⊢
    obtain ⟨a, b, c, d, rfl⟩ : ∃ a b c d, word = [a, b, c, d] := ⟨_, _, _, _, hword.symm⟩
    generalize hsize : (be32 f.payload.length).drop 1 = size at hlength ⊢
    obtain ⟨x, y, z, rfl⟩ : ∃ x y z, size = [x, y, z] := ⟨_, _, _, hsize.symm⟩
    have hfits : ¬ourMaxFrameSize < f.payload.length := by omega
    simp [readFrameBytes, hlength, hstream, htyp, hfits]

/-- Frames off the front of a byte stream, one after another. -/
def readFrames : Nat → Bytes → Except Error (List Frame × Bytes)
  | 0, bytes => .ok ([], bytes)
  | n + 1, bytes =>
    match readFrameBytes bytes with
    | .error e => .error e
    | .ok (f, bytes) => (readFrames n bytes).map fun r => (f :: r.1, r.2)

def writeFrames : List Frame → Except Error Bytes
  | [] => .ok []
  | f :: fs =>
    match writeFrameBytes f with
    | .error e => .error e
    | .ok bytes => (writeFrames fs).map (bytes ++ ·)

theorem readFrames_iff {n : Nat} {fs : List Frame} {bytes rest : Bytes} :
    readFrames n bytes = .ok (fs, rest) ↔ fs.length = n ∧ (∀ f ∈ fs, f.WellFormed) ∧
      ∃ bits : List Bool, bits.length = n ∧
        bytes = (List.zipWith Frame.wire bits fs).flatten ++ rest := by
  induction n generalizing fs bytes with
  | zero =>
    simp only [readFrames, Except.ok.injEq, Prod.mk.injEq, List.length_eq_zero_iff]
    constructor
    · rintro ⟨rfl, rfl⟩
      simp
    · rintro ⟨rfl, -, bits, rfl, rfl⟩
      simp
  | succ n ih =>
    rw [readFrames]
    constructor
    · intro h
      cases hread : readFrameBytes bytes with
      | error e =>
        rw [hread] at h
        cases h
      | ok p =>
        obtain ⟨f, more⟩ := p
        obtain ⟨hf, reserved, rfl⟩ := readFrameBytes_iff.mp hread
        rw [hread] at h
        dsimp only at h
        cases hrest : readFrames n more with
        | error e =>
          rw [hrest] at h
          cases h
        | ok q =>
          rw [hrest] at h
          cases h
          obtain ⟨hlen, hall, bits, hbits, rfl⟩ := ih.mp hrest
          exact ⟨by simp [hlen], List.forall_mem_cons.mpr ⟨hf, hall⟩, reserved :: bits,
            by simp [hbits], by simp⟩
    · rintro ⟨hlen, hall, bits, hbits, rfl⟩
      obtain ⟨f, fs, rfl⟩ := List.exists_cons_of_length_eq_add_one hlen
      obtain ⟨reserved, bits, rfl⟩ := List.exists_cons_of_length_eq_add_one hbits
      obtain ⟨hf, hall⟩ := List.forall_mem_cons.mp hall
      rw [List.zipWith_cons_cons, List.flatten_cons, List.append_assoc,
        readFrameBytes_iff.mpr ⟨hf, reserved, rfl⟩]
      dsimp only
      rw [ih.mpr ⟨by simpa using hlen, hall, bits, by simpa using hbits, rfl⟩]
      rfl

/-- What is read are frames in range whose bytes, up to the reserved bits, are all that is taken;
and frames in range are written so that they are read back. -/
theorem frames_exact (fs : List Frame) (bytes rest : Bytes) :
    (readFrames fs.length bytes = .ok (fs, rest) ↔ (∀ f ∈ fs, f.WellFormed) ∧
      ∃ bits : List Bool, bits.length = fs.length ∧
        bytes = (List.zipWith Frame.wire bits fs).flatten ++ rest) ∧
    ((∀ f ∈ fs, f.WellFormed) → ∃ out, writeFrames fs = .ok out ∧
      readFrames fs.length (out ++ rest) = .ok (fs, rest)) := by
  refine ⟨by rw [readFrames_iff]; simp, fun hall => ?_⟩
  have hwrite : writeFrames fs =
      .ok (List.zipWith Frame.wire (List.replicate fs.length false) fs).flatten := by
    clear bytes
    induction fs with
    | nil => rfl
    | cons f fs ih =>
      obtain ⟨hf, hall⟩ := List.forall_mem_cons.mp hall
      have hfits : ¬maxFramePayload < f.payload.length := by
        have hpayload := hf.payload
        have hmax : ourMaxFrameSize = 16384 := rfl
        have hcap : maxFramePayload = 1048576 := rfl
        omega
      have hmask : mask31 f.streamId = f.streamId := Nat.mod_eq_of_lt hf.streamId
      rw [writeFrames, writeFrameBytes, if_neg hfits, hmask, ih hall]
      rfl
  exact ⟨_, hwrite, readFrames_iff.mpr ⟨rfl, hall, _, List.length_replicate, rfl⟩⟩

/-! ## Peer settings -/

/-- The peer's settings, within the ranges the parser enforces. -/
structure PeerSettings where
  headerTableSize : Nat
  enablePush : Bool
  maxConcurrentStreams : Nat
  initialWindowSize : Nat
  maxFrameSize : Nat
  maxHeaderListSize : Nat
  window_le : initialWindowSize ≤ initialWindowSizeMax
  frame_ge : maxFrameSizeMin ≤ maxFrameSize
  frame_le : maxFrameSize ≤ maxFrameSizeMax
  deriving DecidableEq, Repr

namespace PeerSettings

def default : PeerSettings where
  headerTableSize := 4096
  enablePush := true
  maxConcurrentStreams := 2 ^ 32 - 1
  initialWindowSize := 65535
  maxFrameSize := 16384
  maxHeaderListSize := 2 ^ 32 - 1
  window_le := by decide
  frame_ge := by decide
  frame_le := by decide

/-- One identifier and value of a SETTINGS payload. -/
def applyEntry (p : PeerSettings) (id val : Nat) : Except Error PeerSettings :=
  match id with
  | 0x1 => .ok { p with headerTableSize := val }
  | 0x2 =>
    if val = 0 then .ok { p with enablePush := false }
    else if val = 1 then .ok { p with enablePush := true }
    else .error (.badResponse s!"SETTINGS_ENABLE_PUSH must be 0 or 1, got {val}")
  | 0x3 => .ok { p with maxConcurrentStreams := val }
  | 0x4 =>
    if h : val ≤ initialWindowSizeMax then
      .ok { p with initialWindowSize := val, window_le := h }
    else .error (.badResponse
      s!"SETTINGS_INITIAL_WINDOW_SIZE {val} exceeds 2^31-1 (FLOW_CONTROL_ERROR)")
  | 0x5 =>
    if h : maxFrameSizeMin ≤ val ∧ val ≤ maxFrameSizeMax then
      .ok { p with maxFrameSize := val, frame_ge := h.1, frame_le := h.2 }
    else .error (.badResponse
      s!"SETTINGS_MAX_FRAME_SIZE {val} out of range [16384, 16777215]")
  | 0x6 => .ok { p with maxHeaderListSize := val }
  -- unknown identifiers must be ignored
  | _ => .ok p

/-- The entries in order; an out-of-range value ends the walk with the entries before it
applied. -/
def applyEntries (p : PeerSettings) : Bytes → Outcome PeerSettings Unit
  | a :: b :: c :: d :: e :: f :: rest =>
    match p.applyEntry (fromBe [a, b]) (fromBe [c, d, e, f]) with
    | .ok p => applyEntries p rest
    | .error err => .error err p
  | _ => .ok () p

def applySettingsPayload (p : PeerSettings) (payload : Bytes) : Outcome PeerSettings Unit :=
  if payload.length % 6 ≠ 0 then
    .error (.badResponse s!"SETTINGS payload length {payload.length} not a multiple of 6") p
  else p.applyEntries payload

end PeerSettings

/-! ## Flow-control windows -/

def windowMax : Int := 0x7fffffff
def ourInitialWindow : Nat := 65535
def defaultRecvWindow : Nat := 8 * 1024 * 1024

structure ConnSendWindow where
  available : Int
  deriving DecidableEq, Repr

namespace ConnSendWindow

def new : ConnSendWindow := ⟨65535⟩

def applyWindowUpdate (w : ConnSendWindow) (increment : Nat) : Except Error ConnSendWindow :=
  if increment = 0 then
    .error (.badResponse "WINDOW_UPDATE with zero increment on connection (FLOW_CONTROL_ERROR)")
  else
    let newVal := w.available + increment
    if windowMax < newVal then
      .error (.badResponse
        s!"WINDOW_UPDATE pushes conn send window to {newVal} > 2^31-1 (FLOW_CONTROL_ERROR)")
    else .ok { w with available := newVal }

def consume (w : ConnSendWindow) (n : Nat) : ConnSendWindow :=
  { w with available := w.available - n }

end ConnSendWindow

/-- A stream's send window and the initial size it is measured against. -/
structure StreamSendWindow where
  available : Int
  initialPeerWindow : Int
  deriving DecidableEq, Repr

namespace StreamSendWindow

def new (initial : Int) : StreamSendWindow := ⟨initial, initial⟩

def applyWindowUpdate (w : StreamSendWindow) (increment : Nat) :
    Except Error StreamSendWindow :=
  if increment = 0 then
    .error (.badResponse "WINDOW_UPDATE with zero increment on stream (PROTOCOL_ERROR)")
  else
    let newVal := w.available + increment
    if windowMax < newVal then
      .error (.badResponse
        s!"WINDOW_UPDATE pushes stream send window to {newVal} > 2^31-1 (FLOW_CONTROL_ERROR)")
    else .ok { w with available := newVal }

/-- Shift the window by the change of the initial size; the result may be negative. -/
def applyInitialWindowChange (w : StreamSendWindow) (newInitial : Nat) :
    Except Error StreamSendWindow :=
  let newI : Int := newInitial
  let delta := newI - w.initialPeerWindow
  let newAvailable := w.available + delta
  if windowMax < newAvailable then
    .error (.badResponse (s!"SETTINGS_INITIAL_WINDOW_SIZE delta pushes stream send window to " ++
      s!"{newAvailable} > 2^31-1 (FLOW_CONTROL_ERROR)"))
  else .ok { available := newAvailable, initialPeerWindow := newI }

def consume (w : StreamSendWindow) (n : Nat) : StreamSendWindow :=
  { w with available := w.available - n }

end StreamSendWindow

/-- A WINDOW_UPDATE frame; the increment is masked to 31 bits on the wire. -/
def windowUpdateFrame (streamId increment : Nat) : Frame :=
  ⟨.windowUpdate, 0, streamId, be32 (mask31 increment)⟩

/-- A receive window and the size it is topped up to. The connection and every stream have one;
`replenish` names the stream, which is 0 for the connection. -/
structure RecvWindow where
  available : Int
  initial : Int
  deriving DecidableEq, Repr

namespace RecvWindow

def new (initial : Int) : RecvWindow := ⟨initial, initial⟩

def consume (w : RecvWindow) (n : Nat) : RecvWindow :=
  { w with available := w.available - n }

/-- Top the window up once it has fallen below half, with the frame that tells the peer. The
increment is cast to 32 bits. -/
def replenish (w : RecvWindow) (streamId : Nat) : Option Frame × RecvWindow :=
  let threshold := w.initial / 2
  if w.available < threshold then
    let inc := ((w.initial - w.available) % 2 ^ 32).toNat
    (some (windowUpdateFrame streamId inc), { w with available := w.initial })
  else (none, w)

end RecvWindow

def parseWindowUpdate (payload : Bytes) : Except Error Nat :=
  if payload.length ≠ 4 then
    .error (.badResponse
      s!"WINDOW_UPDATE payload length {payload.length} (expected 4) (FRAME_SIZE_ERROR)")
  else .ok (mask31 (fromBe payload))

end Rsurl.Http2
