import Rsurl.Error
import Rsurl.Library.Endian
import Rsurl.Library.Source

/-!
# MQTT packets

A packet is a byte for its type and flags, the length of what remains in one to four bytes of seven
bits each, and so many bytes. Every reader here makes an interrupted read again, so that
interruptions are left out.
-/

namespace Rsurl.Mqtt

open Library Library.Endian Text

def pktPublish : UInt8 := 3

/-- 64 MiB. -/
def maxPacketBytes : Nat := 64 * 1024 * 1024

/-- An `io::Error`. -/
structure IoError where
  kind : IoErrorKind
  msg : String
  /-- It is the one that says that the deadline of the transfer has passed. -/
  isDeadlineExceeded : Bool
  deriving DecidableEq, Repr

def IoError.toError (e : IoError) : Error := .io e.kind e.msg

/-- What `read_exact` says of a stream that ends too early. -/
def shortRead : IoError := ⟨.unexpectedEof, "failed to fill whole buffer", false⟩

/-! ## Writing -/

/-- The loop of `write_remaining_length`. -/
def pushLength (out : Bytes) (x : Nat) : Bytes :=
  let byte := UInt8.ofNat (x &&& 0x7f)
  if 0 < x >>> 7 then pushLength (out ++ [byte ||| 0x80]) (x >>> 7) else out ++ [byte]
termination_by x
decreasing_by
  rw [Nat.shiftRight_eq_div_pow] at *
  omega

def writeRemainingLength (out : Bytes) (len : Nat) : Except Error Bytes :=
  if 268435455 < len then
    .error (.badResponse s!"mqtt: packet of {len} bytes exceeds the MQTT maximum (256 MiB)")
  else .ok (pushLength out len)

def pushStr (out : Bytes) (s : String) : Except Error Bytes :=
  let bytes := asBytes s
  if 65535 < bytes.length then
    .error (.badResponse
      s!"mqtt: string of {bytes.length} bytes exceeds MQTT maximum of {65535} bytes")
  else .ok (out ++ toBe 2 bytes.length ++ bytes)

/-- What the length of a PUBLISH packet says. -/
def bodyLen (topic : String) (payload : Bytes) (qos : UInt8) : Nat :=
  2 + len topic + (if 0 < qos then 2 else 0) + payload.length

def buildPublish (topic : String) (payload : Bytes) (qos : UInt8) (packetId : UInt16) :
    Except Error Bytes := do
  let out := [(pktPublish <<< 4) ||| ((qos &&& 0x03) <<< 1)]
  let out ← writeRemainingLength out (bodyLen topic payload qos)
  let out ← pushStr out topic
  let out := if 0 < qos then out ++ toBe 2 packetId.toNat else out
  .ok (out ++ payload)

/-! ## Reading -/

def extractPublishPayload (body : Bytes) : Except Error Bytes :=
  if body.length < 2 then .error (.badResponse "mqtt: short PUBLISH")
  else
    let topicLen := fromBe (body.take 2)
    let afterTopic := 2 + topicLen
    if body.length < afterTopic then
      .error (.badResponse "mqtt: PUBLISH topic length exceeds packet")
    else .ok (body.drop afterTopic)

section

variable {σ : Type} (src : Source σ UInt8 IoError)

/-- The loop of `read_remaining_length`, with so many turns left after this one. -/
def lengthLoop : Nat → Nat → Nat → σ → Library.Outcome IoError σ Nat
  | left, value, multiplier, r =>
    (Source.exact src shortRead 1 r).andThen fun b r =>
      let byte := b.headD 0
      let value := value + (byte &&& 0x7f).toNat * multiplier
      if byte &&& 0x80 = 0 then .ok value r
      else match left with
        | 0 => .error ⟨.invalidData, "mqtt: malformed remaining length (5th byte)", false⟩ r
        | left + 1 => lengthLoop left value (multiplier * 128) r

def readRemainingLength (r : σ) : Library.Outcome IoError σ Nat := lengthLoop src 3 0 1 r

def readExactOrEof (n : Nat) (r : σ) : Outcome σ Bytes :=
  match Source.exact src shortRead n r with
  | .ok buf r => .ok buf r
  | .error e r => .error (if e.kind = .unexpectedEof then .unexpectedEof else e.toError) r

/-- An `io::Error` is passed on as one of the crate's. -/
def orIo {α : Type} : Library.Outcome IoError σ α → Outcome σ α
  | .ok a r => .ok a r
  | .error e r => .error e.toError r

def readPacket (r : σ) : Outcome σ (UInt8 × Bytes) :=
  (readExactOrEof src 1 r).andThen fun hdr r =>
  let ctype := hdr.headD 0 >>> 4
  (orIo (readRemainingLength src r)).andThen fun rem r =>
  if maxPacketBytes < rem then .error (.badResponse "mqtt: packet too large") r
  else if 0 < rem then (readExactOrEof src rem r).andThen fun body r => .ok (ctype, body) r
  else .ok (ctype, []) r

def isTimeout (e : IoError) : Bool :=
  (e.kind == .wouldBlock || e.kind == .timedOut) && !e.isDeadlineExceeded

/-- Reader that retries read timeouts a few times (mid-packet), then gives up. -/
structure PatientReader (σ : Type) where
  inner : σ
  idle : Nat
  deriving DecidableEq, Repr

def PatientReader.read (n : Nat) (r : PatientReader σ) :
    Library.Outcome IoError (PatientReader σ) Bytes :=
  match src n r.inner with
  | .error e inner =>
    if isTimeout e ∧ r.idle < 2 then PatientReader.read n ⟨inner, r.idle + 1⟩
    else .error e ⟨inner, r.idle⟩
  | .ok got inner => .ok got ⟨inner, r.idle⟩
termination_by 2 - r.idle
decreasing_by
  simp_wf
  omega

/-- What `read_packet_or_idle` does behind the first byte of a packet. -/
def readRest (rest : PatientReader σ) : Outcome (PatientReader σ) Bytes :=
  (orIo (readRemainingLength (PatientReader.read src) rest)).andThen fun rem rest =>
  if maxPacketBytes < rem then .error (.badResponse "mqtt: packet too large") rest
  else
    (orIo (Source.upTo (PatientReader.read src) rem rest)).andThen fun body rest =>
    if body.length < rem then .error .unexpectedEof rest else .ok body rest

/-- No packet when the connection is idle. -/
def readPacketOrIdle (r : σ) : Outcome σ (Option (UInt8 × Bytes)) :=
  match src 1 r with
  | .ok [] r => .error .unexpectedEof r
  | .ok (first :: _) r =>
    ((readRest src ⟨r, 0⟩).andThen fun body rest => .ok (some (first >>> 4, body)) rest).mapState
      PatientReader.inner
  | .error e r => if isTimeout e then .ok none r else .error e.toError r

end

/-! ## Lengths -/

/-- Seven bits in each byte, the lowest first. -/
def encodedValue (enc : Bytes) : Nat :=
  enc.foldr (fun b value => (b &&& 0x7f).toNat + 128 * value) 0

/-- The high bit of a byte says that there is another. -/
def isTerminated : Bytes → Bool
  | [] => false
  | b :: rest => if b &&& 0x80 = 0 then rest.isEmpty else isTerminated rest

/-- A length in one to four bytes. -/
def Encodes (enc : Bytes) (v : Nat) : Prop :=
  isTerminated enc = true ∧ enc.length ≤ 4 ∧ encodedValue enc = v

end Rsurl.Mqtt
