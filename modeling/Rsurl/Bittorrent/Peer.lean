import Rsurl.Library.Checked
import Rsurl.Library.Endian
import Rsurl.Net.Wire

/-!
# Peer wire messages

A message is an id and a payload behind their length; one of length zero keeps the connection alive.
What is written is read back and the rest is left; what is read was written so, but for what may
stand behind the fields of a message without a variable part.
-/

namespace Rsurl.Bittorrent.Peer

open Library Net
open Library.Endian (toBe fromBe)
open Library.Framing (Read)

/-- Largest message that is accepted. -/
def maxMsgPayload : Nat := 2 ^ 20

def perr (msg : String) : Error := .badResponse ("bt peer: " ++ msg)

inductive Message where
  | keepAlive
  | choke
  | unchoke
  | interested
  | notInterested
  | «have» (index : UInt32)
  | bitfield (bits : Bytes)
  | request (index start length : UInt32)
  | piece (index start : UInt32) (block : Bytes)
  | cancel (index start length : UInt32)
  | port (p : UInt16)
  | extended (extId : UInt8) (payload : Bytes)
  deriving DecidableEq, Repr

@[match_pattern] def idChoke : UInt8 := 0
@[match_pattern] def idUnchoke : UInt8 := 1
@[match_pattern] def idInterested : UInt8 := 2
@[match_pattern] def idNotInterested : UInt8 := 3
@[match_pattern] def idHave : UInt8 := 4
@[match_pattern] def idBitfield : UInt8 := 5
@[match_pattern] def idRequest : UInt8 := 6
@[match_pattern] def idPiece : UInt8 := 7
@[match_pattern] def idCancel : UInt8 := 8
@[match_pattern] def idPort : UInt8 := 9
@[match_pattern] def idExtended : UInt8 := 20

/-! ## Reading -/

def be32 (p : Bytes) : Checked Error UInt32 :=
  if 4 ≤ p.length then .ok (UInt32.ofNat (fromBe (p.take 4))) else .error (perr "short u32 payload")

def threeBe32 (p : Bytes) : Checked Error (UInt32 × UInt32 × UInt32) :=
  if 12 ≤ p.length then
    .ok (UInt32.ofNat (fromBe (p.take 4)), UInt32.ofNat (fromBe ((p.drop 4).take 4)),
      UInt32.ofNat (fromBe ((p.drop 8).take 4)))
  else .error (perr "short request/cancel payload")

def decodePiece (payload : Bytes) : Checked Error Message := do
  if payload.length < 8 then .error (perr "short piece message")
  else
    let hdr ← Checked.takeTo payload 8
    let block ← Checked.dropFrom payload 8
    let index ← Checked.takeTo hdr 4
    let start ← Checked.dropFrom hdr 4
    return .piece (← be32 index) (← be32 start) block

def decodePayload (id : UInt8) (payload : Bytes) : Checked Error Message :=
  match id with
  | idChoke => return .choke
  | idUnchoke => return .unchoke
  | idInterested => return .interested
  | idNotInterested => return .notInterested
  | idHave => return .have (← be32 payload)
  | idBitfield => return .bitfield payload
  | idRequest => do
    let (i, b, l) ← threeBe32 payload
    return .request i b l
  | idPiece => decodePiece payload
  | idCancel => do
    let (i, b, l) ← threeBe32 payload
    return .cancel i b l
  | idPort => do
    if payload.length < 2 then .error (perr "short port message")
    else return .port (UInt16.ofNat (fromBe [← Checked.get payload 0, ← Checked.get payload 1]))
  | idExtended => do
    if payload.isEmpty then .error (perr "empty extended message")
    else return .extended (← Checked.get payload 0) (← Checked.dropFrom payload 1)
  | other => .error (perr s!"unknown message id {other}")

/-- The message of a body. -/
def decodeBody (body : Bytes) : Checked Error Message := do
  let id ← Checked.get body 0
  let payload ← Checked.dropFrom body 1
  decodePayload id payload

/-- A message, and what is left to read. -/
def readMessage (reads : List (Read Error UInt8)) :
    Checked Error Message × List (Read Error UInt8) :=
  match readExact 4 reads with
  | (.error e, rest) => (.error e, rest)
  | (.ok lenBuf, rest) =>
    let len := fromBe lenBuf
    if len = 0 then (.ok .keepAlive, rest)
    else if maxMsgPayload < len then (.error (perr s!"message too large: {len}"), rest)
    else match readExact len rest with
      | (.error e, rest) => (.error e, rest)
      | (.ok body, rest) => (decodeBody body, rest)

/-! ## Writing -/

/-- The length and the id of a message with a payload of so many bytes. -/
def header (id : UInt8) (payloadLen : Nat) : Bytes := toBe 4 (1 + payloadLen) ++ [id]

def frame (id : UInt8) (payload : Bytes) : Bytes := header id payload.length ++ payload

def beBytes (n : UInt32) : Bytes := toBe 4 n.toNat

def three (a b c : UInt32) : Bytes := beBytes a ++ beBytes b ++ beBytes c

def writeMessage : Message → Bytes
  | .keepAlive => toBe 4 0
  | .choke => frame idChoke []
  | .unchoke => frame idUnchoke []
  | .interested => frame idInterested []
  | .notInterested => frame idNotInterested []
  | .have i => frame idHave (beBytes i)
  | .bitfield b => frame idBitfield b
  | .request i b l => frame idRequest (three i b l)
  | .piece i b block => header idPiece (8 + block.length) ++ beBytes i ++ beBytes b ++ block
  | .cancel i b l => frame idCancel (three i b l)
  | .port p => frame idPort (toBe 2 p.toNat)
  | .extended extId payload => header idExtended (1 + payload.length) ++ [extId] ++ payload

/-! ## Bodies -/

/-- The id and the payload of a message. -/
def Message.body : Message → Bytes
  | .keepAlive => []
  | .choke => [idChoke]
  | .unchoke => [idUnchoke]
  | .interested => [idInterested]
  | .notInterested => [idNotInterested]
  | .have i => idHave :: beBytes i
  | .bitfield b => idBitfield :: b
  | .request i b l => idRequest :: three i b l
  | .piece i b block => idPiece :: (beBytes i ++ (beBytes b ++ block))
  | .cancel i b l => idCancel :: three i b l
  | .port p => idPort :: toBe 2 p.toNat
  | .extended extId payload => idExtended :: extId :: payload

/-- No part of the payload is variable. -/
def Message.Fixed : Message → Prop
  | .bitfield _ | .piece .. | .extended .. | .keepAlive => False
  | _ => True

@[simp] theorem length_beBytes (n : UInt32) : (beBytes n).length = 4 := Endian.length_toBe 4 _

theorem writeMessage_eq (m : Message) : writeMessage m = toBe 4 m.body.length ++ m.body := by
  cases m with
  | piece i b block =>
    have hlen : 1 + (8 + block.length) = (Message.piece i b block).body.length := by
      simp [Message.body]
      omega
    rw [writeMessage, header, hlen]
    simp [Message.body]
  | _ => simp [writeMessage, frame, header, Message.body, Nat.add_comm]

theorem beBytes_fromBe {p : Bytes} (h : p.length = 4) :
    beBytes (UInt32.ofNat (fromBe p)) = p := by
  have hlt := Endian.fromBe_lt p
  have hself := Endian.toBe_fromBe p
  rw [h] at hlt hself
  rw [beBytes, UInt32.toNat_ofNat_of_lt' hlt, hself]

theorem be32_append (n : UInt32) (surplus : Bytes) : be32 (beBytes n ++ surplus) = .ok n := by
  rw [be32, if_pos (by simp), List.take_left' (length_beBytes n), beBytes,
    Endian.fromBe_toBe n.toNat_lt, UInt32.ofNat_toNat]

theorem be32_eq_ok {p : Bytes} {n : UInt32} :
    be32 p = .ok n ↔ ∃ surplus, p = beBytes n ++ surplus := by
  constructor
  · intro h
    rw [be32] at h
    split_ifs at h with hlen
    cases h
    refine ⟨p.drop 4, ?_⟩
    rw [beBytes_fromBe (List.length_take_of_le hlen), List.take_append_drop]
  · rintro ⟨surplus, rfl⟩
    exact be32_append n surplus

theorem be32_eq_ok_of_length {p : Bytes} {n : UInt32} (h : p.length = 4) :
    be32 p = .ok n ↔ p = beBytes n := by
  rw [be32_eq_ok]
  constructor
  · rintro ⟨surplus, rfl⟩
    obtain rfl : surplus = [] := by
      rw [List.length_append, length_beBytes] at h
      exact List.length_eq_zero_iff.mp (by omega)
    exact List.append_nil _
  · rintro rfl
    exact ⟨[], (List.append_nil _).symm⟩

@[simp] theorem length_three (a b c : UInt32) : (three a b c).length = 12 := by simp [three]

theorem threeBe32_eq_ok {p : Bytes} {a b c : UInt32} :
    threeBe32 p = .ok (a, b, c) ↔ ∃ surplus, p = three a b c ++ surplus := by
  constructor
  · intro h
    rw [threeBe32] at h
    split_ifs at h with hlen
    cases h
    refine ⟨p.drop 12, ?_⟩
    rw [three, beBytes_fromBe (by rw [List.length_take]; omega),
      beBytes_fromBe (by rw [List.length_take, List.length_drop]; omega),
      beBytes_fromBe (by rw [List.length_take, List.length_drop]; omega), ← List.take_add,
      ← List.take_add, List.take_append_drop]
  · rintro ⟨surplus, rfl⟩
    have hfirst (n : UInt32) (rest : Bytes) :
        UInt32.ofNat (fromBe ((beBytes n ++ rest).take 4)) = n := by
      rw [List.take_left' (length_beBytes n), beBytes, Endian.fromBe_toBe n.toNat_lt,
        UInt32.ofNat_toNat]
    have hdrop (n : UInt32) (rest : Bytes) : (beBytes n ++ rest).drop 4 = rest :=
      List.drop_left' (length_beBytes n)
    have hsplit : three a b c ++ surplus = beBytes a ++ (beBytes b ++ (beBytes c ++ surplus)) := by
      simp [three]
    have hdrop₈ : (three a b c ++ surplus).drop 8 = beBytes c ++ surplus := by
      rw [hsplit, ← List.drop_drop (i := 4) (j := 4), hdrop, hdrop]
    rw [threeBe32, if_pos (by simp [length_three]), hdrop₈, hsplit, hdrop, hfirst, hfirst, hfirst]

theorem decodePiece_eq_ok {payload : Bytes} {m : Message} :
    decodePiece payload = .ok m ↔
      ∃ i b block, payload = beBytes i ++ (beBytes b ++ block) ∧ m = .piece i b block := by
  constructor
  · intro h
    rw [decodePiece] at h
    split_ifs at h with hshort
    have hlen : 8 ≤ payload.length := Nat.not_lt.mp hshort
    have hhdr : (payload.take 8).length = 8 := List.length_take_of_le hlen
    rw [Checked.takeTo_eq hlen, Checked.ok_bind, Checked.dropFrom_eq hlen, Checked.ok_bind,
      Checked.takeTo_eq (by omega), Checked.ok_bind, Checked.dropFrom_eq (by omega),
      Checked.ok_bind] at h
    obtain ⟨i, hi, h⟩ := Checked.bind_eq_ok.mp h
    obtain ⟨b, hb, hm⟩ := Checked.bind_eq_ok.mp h
    cases hm
    rw [be32_eq_ok_of_length (by rw [List.length_take]; omega)] at hi
    rw [be32_eq_ok_of_length (by rw [List.length_drop]; omega)] at hb
    refine ⟨i, b, payload.drop 8, ?_, rfl⟩
    rw [← hi, ← hb, ← List.append_assoc, List.take_append_drop, List.take_append_drop]
  · rintro ⟨i, b, block, rfl, rfl⟩
    have hhdr : (beBytes i ++ beBytes b).length = 8 := by simp
    have htake : (beBytes i ++ (beBytes b ++ block)).take 8 = beBytes i ++ beBytes b := by
      rw [← List.append_assoc, List.take_left' hhdr]
    have hdrop : (beBytes i ++ (beBytes b ++ block)).drop 8 = block := by
      rw [← List.append_assoc, List.drop_left' hhdr]
    have hlen : 8 ≤ (beBytes i ++ (beBytes b ++ block)).length := by
      simp only [List.length_append, length_beBytes]
      omega
    rw [decodePiece, if_neg (Nat.not_lt.mpr hlen), Checked.takeTo_eq hlen, Checked.ok_bind,
      Checked.dropFrom_eq hlen, Checked.ok_bind, htake, hdrop, Checked.takeTo_eq (by omega),
      Checked.ok_bind, Checked.dropFrom_eq (by omega), Checked.ok_bind,
      List.take_left' (length_beBytes i), List.drop_left' (length_beBytes i),
      (be32_eq_ok_of_length (length_beBytes i)).mpr rfl, Checked.ok_bind,
      (be32_eq_ok_of_length (length_beBytes b)).mpr rfl]
    rfl

theorem decodePayload_eq_ok {id : UInt8} {payload : Bytes} {m : Message} :
    decodePayload id payload = .ok m ↔ m ≠ .keepAlive ∧
      ∃ surplus, id :: payload = m.body ++ surplus ∧ (¬m.Fixed → surplus = []) := by
  constructor
  · intro h
    unfold decodePayload at h
    split at h
    · cases h
      exact ⟨nofun, payload, rfl, fun h => (h trivial).elim⟩
    · cases h
      exact ⟨nofun, payload, rfl, fun h => (h trivial).elim⟩
    · cases h
      exact ⟨nofun, payload, rfl, fun h => (h trivial).elim⟩
    · cases h
      exact ⟨nofun, payload, rfl, fun h => (h trivial).elim⟩
    · obtain ⟨i, hi, hm⟩ := Checked.bind_eq_ok.mp h
      cases hm
      obtain ⟨surplus, rfl⟩ := be32_eq_ok.mp hi
      exact ⟨nofun, surplus, rfl, fun h => (h trivial).elim⟩
    · cases h
      exact ⟨nofun, [], (List.append_nil _).symm, fun _ => rfl⟩
    · obtain ⟨⟨i, b, l⟩, hthree, hm⟩ := Checked.bind_eq_ok.mp h
      cases hm
      obtain ⟨surplus, rfl⟩ := threeBe32_eq_ok.mp hthree
      exact ⟨nofun, surplus, rfl, fun h => (h trivial).elim⟩
    · obtain ⟨i, b, block, rfl, rfl⟩ := decodePiece_eq_ok.mp h
      exact ⟨nofun, [], (List.append_nil _).symm, fun _ => rfl⟩
    · obtain ⟨⟨i, b, l⟩, hthree, hm⟩ := Checked.bind_eq_ok.mp h
      cases hm
      obtain ⟨surplus, rfl⟩ := threeBe32_eq_ok.mp hthree
      exact ⟨nofun, surplus, rfl, fun h => (h trivial).elim⟩
    · split_ifs at h with hshort
      match payload, hshort with
      | p₀ :: p₁ :: surplus, _ =>
        cases h
        refine ⟨nofun, surplus, ?_, fun h => (h trivial).elim⟩
        have hlt := Endian.fromBe_lt [p₀, p₁]
        have hself : toBe 2 (fromBe [p₀, p₁]) = [p₀, p₁] := Endian.toBe_fromBe [p₀, p₁]
        rw [Message.body, UInt16.toNat_ofNat_of_lt' (by simpa using hlt), hself]
        rfl
    · split_ifs at h with hempty
      match payload, hempty with
      | extId :: payload, _ =>
        cases h
        exact ⟨nofun, [], (List.append_nil _).symm, fun _ => rfl⟩
    · cases h
  · rintro ⟨hne, surplus, hbody, hfixed⟩
    cases m with
    | keepAlive => exact absurd rfl hne
    | choke =>
      obtain ⟨rfl, rfl⟩ := List.cons.inj hbody
      rfl
    | unchoke =>
      obtain ⟨rfl, rfl⟩ := List.cons.inj hbody
      rfl
    | interested =>
      obtain ⟨rfl, rfl⟩ := List.cons.inj hbody
      rfl
    | notInterested =>
      obtain ⟨rfl, rfl⟩ := List.cons.inj hbody
      rfl
    | «have» i =>
      obtain ⟨rfl, rfl⟩ := List.cons.inj hbody
      exact Checked.bind_eq_ok.mpr ⟨i, be32_append i surplus, rfl⟩
    | bitfield bits =>
      obtain rfl := hfixed (fun h => h)
      rw [List.append_nil] at hbody
      obtain ⟨rfl, rfl⟩ := List.cons.inj hbody
      rfl
    | request i b l =>
      obtain ⟨rfl, rfl⟩ := List.cons.inj hbody
      exact Checked.bind_eq_ok.mpr ⟨(i, b, l), threeBe32_eq_ok.mpr ⟨surplus, rfl⟩, rfl⟩
    | piece i b block =>
      obtain rfl := hfixed (fun h => h)
      rw [List.append_nil] at hbody
      obtain ⟨rfl, rfl⟩ := List.cons.inj hbody
      exact decodePiece_eq_ok.mpr ⟨i, b, block, rfl, rfl⟩
    | cancel i b l =>
      obtain ⟨rfl, rfl⟩ := List.cons.inj hbody
      exact Checked.bind_eq_ok.mpr ⟨(i, b, l), threeBe32_eq_ok.mpr ⟨surplus, rfl⟩, rfl⟩
    | port p =>
      obtain ⟨rfl, rfl⟩ := List.cons.inj hbody
      have hport : UInt16.ofNat (fromBe (toBe 2 p.toNat)) = p := by
        rw [Endian.fromBe_toBe p.toNat_lt, UInt16.ofNat_toNat]
      conv_rhs => rw [← hport]
      rfl
    | extended extId payload =>
      obtain rfl := hfixed (fun h => h)
      rw [List.append_nil] at hbody
      obtain ⟨rfl, rfl⟩ := List.cons.inj hbody
      rfl

theorem be32_ne_stuck (p : Bytes) : be32 p ≠ .stuck := by
  rw [be32]
  split_ifs <;> nofun

theorem threeBe32_ne_stuck (p : Bytes) : threeBe32 p ≠ .stuck := by
  rw [threeBe32]
  split_ifs <;> nofun

theorem decodePiece_ne_stuck (payload : Bytes) : decodePiece payload ≠ .stuck := by
  rw [decodePiece]
  split_ifs with hshort
  · nofun
  · have hlen : 8 ≤ payload.length := Nat.not_lt.mp hshort
    have hhdr : (payload.take 8).length = 8 := List.length_take_of_le hlen
    rw [Checked.takeTo_eq hlen, Checked.ok_bind, Checked.dropFrom_eq hlen, Checked.ok_bind,
      Checked.takeTo_eq (by omega), Checked.ok_bind, Checked.dropFrom_eq (by omega),
      Checked.ok_bind]
    exact Checked.bind_ne_stuck (be32_ne_stuck _) fun _ _ =>
      Checked.bind_ne_stuck (be32_ne_stuck _) fun _ _ => nofun

theorem decodePayload_ne_stuck (id : UInt8) (payload : Bytes) :
    decodePayload id payload ≠ .stuck := by
  unfold decodePayload
  split
  · nofun
  · nofun
  · nofun
  · nofun
  · exact Checked.bind_ne_stuck (be32_ne_stuck _) fun _ _ => nofun
  · nofun
  · exact Checked.bind_ne_stuck (threeBe32_ne_stuck _) fun _ _ => nofun
  · exact decodePiece_ne_stuck payload
  · exact Checked.bind_ne_stuck (threeBe32_ne_stuck _) fun _ _ => nofun
  · split_ifs with hshort
    · nofun
    · match payload, hshort with
      | [_], hshort => exact absurd Nat.one_lt_two hshort
      | _ :: _ :: _, _ => nofun
  · split_ifs with hempty
    · nofun
    · match payload, hempty with
      | _ :: _, _ => nofun
  · nofun

/-! ## Messages -/

theorem body_eq_nil {m : Message} : m.body = [] ↔ m = .keepAlive := by
  cases m <;> simp [Message.body]

theorem decodeBody_eq_ok {b : UInt8} {body : Bytes} {m : Message} :
    decodeBody (b :: body) = .ok m ↔ m ≠ .keepAlive ∧
      ∃ surplus, b :: body = m.body ++ surplus ∧ (¬m.Fixed → surplus = []) := by
  rw [decodeBody, Checked.get_cons_zero, Checked.ok_bind, Checked.dropFrom_cons_one,
    Checked.ok_bind]
  exact decodePayload_eq_ok

variable {reads rest : List (Read Error UInt8)} {m : Message}

theorem readMessage_ne_stuck (reads : List (Read Error UInt8)) :
    (readMessage reads).1 ≠ .stuck := by
  rw [readMessage]
  split
  · nofun
  · dsimp only
    split_ifs with hzero hlarge
    · nofun
    · nofun
    · split
      · nofun
      · next body _ hbody =>
        have hlen := (readExact_ok hbody).1
        match body, hlen with
        | [], hlen => exact absurd hlen.symm hzero
        | b :: body, _ => exact decodePayload_ne_stuck b body

/-- What is written is read, whatever follows and however it is cut. -/
theorem readMessage_writeMessage {s : Bytes} (hlen : m.body.length ≤ maxMsgPayload)
    (hdel : Delivers reads) (hreads : unread reads = writeMessage m ++ s) :
    ∃ rest, readMessage reads = (.ok m, rest) ∧ Delivers rest ∧ unread rest = s := by
  rw [writeMessage_eq, List.append_assoc] at hreads
  have hlead : (toBe 4 m.body.length).length = 4 := Endian.length_toBe _ _
  obtain ⟨afterLen, hread, hdel, hunread⟩ := readExact_of_le hdel (n := 4) (by
    rw [hreads, List.length_append, hlead]
    omega)
  rw [hreads, List.take_left' hlead] at hread
  rw [hreads, List.drop_left' hlead] at hunread
  have hvalue : fromBe (toBe 4 m.body.length) = m.body.length :=
    Endian.fromBe_toBe (hlen.trans_lt (by decide))
  rw [readMessage, hread]
  simp only [hvalue]
  by_cases hm : m = .keepAlive
  · subst hm
    exact ⟨afterLen, rfl, hdel, hunread⟩
  · have hne : m.body.length ≠ 0 := fun h => hm (body_eq_nil.mp (List.length_eq_zero_iff.mp h))
    obtain ⟨rest, hread, hdel, hrest⟩ := readExact_of_le hdel (n := m.body.length) (by
      rw [hunread, List.length_append]
      omega)
    rw [hunread, List.take_left' rfl] at hread
    rw [hunread, List.drop_left' rfl] at hrest
    have hdecode : decodeBody m.body = .ok m := by
      match hbody : m.body, hne with
      | b :: body, _ =>
        exact decodeBody_eq_ok.mpr ⟨hm, [], by rw [List.append_nil, hbody], fun _ => rfl⟩
    rw [if_neg hne, if_neg (Nat.not_lt.mpr hlen), hread]
    simp only [hdecode]
    exact ⟨rest, rfl, hdel, hrest⟩

/-- What is read was written so, but for what stands behind a message without a variable part. -/
theorem readMessage_ok (h : readMessage reads = (.ok m, rest)) :
    ∃ b, unread reads = b ++ unread rest ∧ b.length = 4 + fromBe (b.take 4) ∧
      ∃ surplus, b.drop 4 = m.body ++ surplus ∧ (¬m.Fixed → surplus = []) := by
  rw [readMessage] at h
  split at h
  · cases h
  · next lenBuf afterLen hlen =>
    obtain ⟨hfour, hunread⟩ := readExact_ok hlen
    have htake (body : Bytes) : (lenBuf ++ body).take 4 = lenBuf := List.take_left' hfour
    have hdrop (body : Bytes) : (lenBuf ++ body).drop 4 = body := List.drop_left' hfour
    dsimp only at h
    split_ifs at h with hzero hlarge
    · cases h
      refine ⟨lenBuf, hunread, ?_, [], ?_, fun _ => rfl⟩
      · rw [List.take_of_length_le hfour.le, hzero, hfour]
      · rw [List.drop_of_length_le hfour.le]
        rfl
    · cases h
    · split at h
      · cases h
      · next body afterBody hbody =>
        obtain ⟨hbodyLen, hrest⟩ := readExact_ok hbody
        obtain ⟨hdecode, rfl⟩ := Prod.mk.inj h
        refine ⟨lenBuf ++ body, by rw [hunread, hrest, List.append_assoc], ?_, ?_⟩
        · rw [htake, List.length_append, hfour, hbodyLen]
        · rw [hdrop]
          match body, hbodyLen with
          | [], hbodyLen => exact absurd hbodyLen.symm hzero
          | _ :: _, _ => exact (decodeBody_eq_ok.mp hdecode).2

/-- The bytes of a message are read as the message and nothing more is taken, and what is read as a
message is its bytes, but for a surplus where all fields are fixed; no index is out of range. -/
theorem peer_messages :
    (∀ (m : Message) (s : Bytes) (reads : List (Read Error UInt8)),
      m.body.length ≤ maxMsgPayload → Delivers reads → unread reads = writeMessage m ++ s →
        ∃ rest, readMessage reads = (.ok m, rest) ∧ Delivers rest ∧ unread rest = s) ∧
    (∀ (m : Message) (reads rest : List (Read Error UInt8)), readMessage reads = (.ok m, rest) →
      ∃ b, unread reads = b ++ unread rest ∧ b.length = 4 + fromBe (b.take 4) ∧
        (b = writeMessage m ∨
          m.Fixed ∧ ∃ surplus, b.drop 4 = (writeMessage m).drop 4 ++ surplus)) ∧
    ∀ reads, (readMessage reads).1 ≠ .stuck := by
  refine ⟨fun m s reads hlen hdel hreads => readMessage_writeMessage hlen hdel hreads, ?_,
    readMessage_ne_stuck⟩
  intro m reads rest h
  obtain ⟨b, hreads, hlen, surplus, hbody, hsurplus⟩ := readMessage_ok h
  refine ⟨b, hreads, hlen, ?_⟩
  have hlead (n : Nat) : (toBe 4 n).length = 4 := Endian.length_toBe _ _
  have hwritten : (writeMessage m).drop 4 = m.body := by
    rw [writeMessage_eq, List.drop_left' (hlead _)]
  by_cases hfixed : m.Fixed
  · exact .inr ⟨hfixed, surplus, by rw [hwritten, hbody]⟩
  · obtain rfl := hsurplus hfixed
    rw [List.append_nil] at hbody
    left
    have hfour : (b.take 4).length = 4 := by
      rw [List.length_take]
      omega
    have hbodyLen : fromBe (b.take 4) = m.body.length := by
      rw [← hbody, List.length_drop]
      omega
    have hself : toBe (b.take 4).length (fromBe (b.take 4)) = b.take 4 := Endian.toBe_fromBe _
    rw [hfour, hbodyLen] at hself
    rw [writeMessage_eq, hself, ← hbody, List.take_append_drop]

theorem peer_messages_request :
    (∃ rest, readMessage [.data 0 [0, 0, 13, 6, 0, 0, 0, 1, 0, 0, 64], .data 0 [0, 0, 64, 0, 7]] =
      (.ok (.request 1 16384 16384), rest) ∧ Delivers rest ∧ unread rest = [7]) ∧
    ∃ b, ([0, 0, 0, 2, 0, 9] : Bytes) = b ++ [] ∧ b.length = 4 + fromBe (b.take 4) ∧
      (b = writeMessage .choke ∨ Message.choke.Fixed ∧
        ∃ surplus, b.drop 4 = (writeMessage .choke).drop 4 ++ surplus) :=
  ⟨peer_messages.1 (.request 1 16384 16384) [7] _ (by decide) (by simp [Delivers]) (by decide),
    peer_messages.2.1 .choke [.data 0 [0, 0, 2, 0, 9]] [] (by decide)⟩

end Rsurl.Bittorrent.Peer
