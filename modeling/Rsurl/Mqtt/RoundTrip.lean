import Rsurl.Hpack.Integer
import Rsurl.Library.Checked
import Rsurl.Mqtt.Packet

/-!
# What is framed is read back
-/

namespace Rsurl.Mqtt

open Library Library.Endian Text
open Library.Framing (Read unread)
open Library.Source (Supply ofReads readsSupply delivered after spent)

/-! ## Lengths -/

theorem pushLength_eq (out : Bytes) (x : Nat) : pushLength out x = out ++ pushLength [] x := by
  induction x using Nat.strongRecOn generalizing out with
  | ind x ih =>
    rw [pushLength.eq_def out, pushLength.eq_def []]
    dsimp only
    split
    · rename_i hmore
      rw [Nat.shiftRight_eq_div_pow] at hmore
      have hlt : x >>> 7 < x := by
        rw [Nat.shiftRight_eq_div_pow]
        omega
      rw [ih _ hlt, ih _ hlt ([] ++ _), List.nil_append, List.append_assoc]
    · rfl

theorem pushLength_last {x : Nat} (h : x < 128) : pushLength [] x = [UInt8.ofNat x] := by
  have hlast : ¬0 < x >>> 7 := by
    rw [Nat.shiftRight_eq_div_pow]
    omega
  rw [pushLength, if_neg hlast, Nat.and_two_pow_sub_one_eq_mod x 7, Nat.mod_eq_of_lt h,
    List.nil_append]

theorem pushLength_more {x : Nat} (h : ¬x < 128) :
    pushLength [] x = (UInt8.ofNat (x % 128) ||| 0x80) :: pushLength [] (x / 128) := by
  have hmore : 0 < x >>> 7 := by
    rw [Nat.shiftRight_eq_div_pow]
    omega
  rw [pushLength, if_pos hmore, Nat.and_two_pow_sub_one_eq_mod x 7, pushLength_eq,
    Nat.shiftRight_eq_div_pow]
  rfl

theorem isTerminated_cons_last {b : UInt8} {rest : Bytes} (h : b &&& 0x80 = 0) :
    isTerminated (b :: rest) = true ↔ rest = [] := by
  rw [isTerminated, if_pos h, List.isEmpty_iff]

theorem isTerminated_cons_more {b : UInt8} {rest : Bytes} (h : ¬b &&& 0x80 = 0) :
    isTerminated (b :: rest) = true ↔ isTerminated rest = true := by
  rw [isTerminated, if_neg h]

theorem encodedValue_cons (b : UInt8) (rest : Bytes) :
    encodedValue (b :: rest) = (b &&& 0x7f).toNat + 128 * encodedValue rest := rfl

/-- A number of so many groups of seven bits takes no more bytes than that. -/
theorem pushLength_spec {n x : Nat} (h : x < 128 ^ (n + 1)) :
    isTerminated (pushLength [] x) = true ∧ (pushLength [] x).length ≤ n + 1 ∧
      encodedValue (pushLength [] x) = x := by
  induction n generalizing x with
  | zero =>
    rw [Nat.zero_add, Nat.pow_one] at h
    obtain ⟨-, -, hvalue, hlast⟩ := Hpack.group_byte x h
    rw [pushLength_last h]
    exact ⟨(isTerminated_cons_last hlast).mpr rfl, le_rfl, by rw [encodedValue_cons, hvalue]; rfl⟩
  | succ n ih =>
    by_cases hlt : x < 128
    · obtain ⟨-, -, hvalue, hlast⟩ := Hpack.group_byte x hlt
      rw [pushLength_last hlt]
      refine ⟨(isTerminated_cons_last hlast).mpr rfl, ?_, by rw [encodedValue_cons, hvalue]; rfl⟩
      rw [List.length_singleton]
      omega
    · obtain ⟨hvalue, hmore, -, -⟩ := Hpack.group_byte (x % 128) (Nat.mod_lt _ (by decide))
      have hdiv : x / 128 < 128 ^ (n + 1) := by
        rw [Nat.pow_succ] at h
        exact Nat.div_lt_of_lt_mul (by omega)
      obtain ⟨hterm, hlen, hrest⟩ := ih hdiv
      rw [pushLength_more hlt]
      refine ⟨(isTerminated_cons_more hmore).mpr hterm, ?_, ?_⟩
      · rw [List.length_cons]
        omega
      · rw [encodedValue_cons, hvalue, hrest]
        omega

theorem encodes_pushLength {len : Nat} (h : len ≤ 268435455) : Encodes (pushLength [] len) len :=
  pushLength_spec (n := 3) (by omega)

section

variable {σ : Type} {src : Source σ UInt8 IoError} (sup : Supply src) {s s' : σ}

theorem exact_one {b : UInt8} {rest : Bytes} (h : sup.pending s = b :: rest) (short : IoError) :
    Source.exact src short 1 s = .ok [b] (sup.skip 1 s) ∧ sup.pending (sup.skip 1 s) = rest := by
  have hlen : 1 ≤ (sup.pending s).length := by
    rw [h, List.length_cons]
    omega
  rw [Source.exact_of_le sup hlen, sup.pending_skip s 1 hlen, h]
  exact ⟨rfl, rfl⟩

/-- One turn. -/
theorem lengthLoop_cons {b : UInt8} {rest : Bytes} (h : sup.pending s = b :: rest)
    (left value multiplier : Nat) :
    lengthLoop src left value multiplier s =
      let value := value + (b &&& 0x7f).toNat * multiplier
      if b &&& 0x80 = 0 then .ok value (sup.skip 1 s)
      else match left with
        | 0 => .error ⟨.invalidData, "mqtt: malformed remaining length (5th byte)", false⟩
            (sup.skip 1 s)
        | left + 1 => lengthLoop src left value (multiplier * 128) (sup.skip 1 s) := by
  cases left <;> rw [lengthLoop, (exact_one sup h shortRead).1] <;> rfl

/-- The turns that are left read a length that is there, and no other. -/
theorem lengthLoop_eq_ok {left value multiplier v : Nat} :
    lengthLoop src left value multiplier s = .ok v s' ↔
      ∃ enc, isTerminated enc = true ∧ enc.length ≤ left + 1 ∧ enc <+: sup.pending s ∧
        v = value + encodedValue enc * multiplier ∧ s' = sup.skip enc.length s := by
  induction left using Nat.strongRecOn generalizing value multiplier s with
  | ind left ih =>
    cases hp : sup.pending s with
    | nil =>
      constructor
      · intro h
        rw [lengthLoop.eq_def] at h
        obtain ⟨b, t, hread, -⟩ := Outcome.andThen_eq_ok.mp h
        have hle := Source.le_of_exact_eq_ok sup hread
        rw [hp] at hle
        cases hle
      · rintro ⟨enc, hterm, -, hpre, -⟩
        rw [List.prefix_nil.mp hpre] at hterm
        cases hterm
    | cons b rest =>
      rw [lengthLoop_cons sup hp]
      dsimp only
      -- an encoding that is there begins with the byte that is there
      have hhead : ∀ enc, isTerminated enc = true → enc <+: b :: rest →
          ∃ tail, enc = b :: tail ∧ tail <+: rest := by
        intro enc hterm hpre
        rcases List.prefix_cons_iff.mp hpre with rfl | h
        · cases hterm
        · exact h
      by_cases hlast : b &&& 0x80 = 0
      · rw [if_pos hlast]
        constructor
        · intro h
          cases h
          refine ⟨[b], (isTerminated_cons_last hlast).mpr rfl, by simp, by simp, ?_, rfl⟩
          rw [encodedValue_cons]
          rfl
        · rintro ⟨enc, hterm, -, hpre, rfl, rfl⟩
          obtain ⟨tail, rfl, -⟩ := hhead enc hterm hpre
          cases (isTerminated_cons_last hlast).mp hterm
          rfl
      · rw [if_neg hlast]
        have hrest : sup.pending (sup.skip 1 s) = rest := (exact_one sup hp shortRead).2
        have hone : 1 ≤ (sup.pending s).length := by simp [hp]
        cases left with
        | zero =>
          constructor
          · intro h
            cases h
          · rintro ⟨enc, hterm, hlen, hpre, -⟩
            obtain ⟨tail, rfl, -⟩ := hhead enc hterm hpre
            rw [isTerminated_cons_more hlast] at hterm
            rw [List.length_cons] at hlen
            have hnil : tail = [] := List.length_eq_zero_iff.mp (by omega)
            rw [hnil] at hterm
            cases hterm
        | succ left =>
          dsimp only
          rw [ih left (by omega), hrest]
          constructor
          · rintro ⟨tail, hterm, hlen, hpre, rfl, rfl⟩
            refine ⟨b :: tail, (isTerminated_cons_more hlast).mpr hterm, ?_, ?_, ?_, ?_⟩
            · rw [List.length_cons]
              omega
            · exact (List.prefix_cons_inj b).mpr hpre
            · rw [encodedValue_cons]
              ring
            · rw [sup.skip_skip s 1 _ hone, List.length_cons, Nat.add_comm]
          · rintro ⟨enc, hterm, hlen, hpre, rfl, rfl⟩
            obtain ⟨tail, rfl, htail⟩ := hhead enc hterm hpre
            refine ⟨tail, (isTerminated_cons_more hlast).mp hterm, ?_, htail, ?_, ?_⟩
            · rw [List.length_cons] at hlen
              omega
            · rw [encodedValue_cons]
              ring
            · rw [sup.skip_skip s 1 _ hone, List.length_cons, Nat.add_comm]

/-- A length is read just when an encoding of it is there, and so many bytes are gone. -/
theorem readRemainingLength_eq_ok {v : Nat} :
    readRemainingLength src s = .ok v s' ↔
      ∃ enc, Encodes enc v ∧ enc <+: sup.pending s ∧ s' = sup.skip enc.length s := by
  rw [readRemainingLength, lengthLoop_eq_ok sup]
  constructor
  · rintro ⟨enc, hterm, hlen, hpre, rfl, rfl⟩
    exact ⟨enc, ⟨hterm, hlen, by omega⟩, hpre, rfl⟩
  · rintro ⟨enc, ⟨hterm, hlen, rfl⟩, hpre, rfl⟩
    exact ⟨enc, hterm, hlen, hpre, by omega, rfl⟩

/-- Whatever becomes of it, no more than four bytes are gone. -/
theorem readRemainingLength_conserves {left : σ → Bytes} (hsrc : Source.Conserves src left)
    (s : σ) :
    ∃ taken, taken.length ≤ 4 ∧ left s = taken ++ left (readRemainingLength src s).state := by
  have hloop : ∀ turns value multiplier s, ∃ taken, taken.length ≤ turns + 1 ∧
      left s = taken ++ left (lengthLoop src turns value multiplier s).state := by
    intro turns
    induction turns using Nat.strongRecOn with
    | ind turns ih =>
      intro value multiplier s
      obtain ⟨taken, hlen, heq⟩ := hsrc.exact shortRead 1 s
      rw [lengthLoop.eq_def]
      dsimp only
      cases hread : Source.exact src shortRead 1 s with
      | error e t =>
        rw [hread] at heq
        exact ⟨taken, by omega, heq⟩
      | ok b t =>
        rw [hread] at heq
        rw [Outcome.ok_andThen]
        split
        · exact ⟨taken, by omega, heq⟩
        cases turns with
        | zero => exact ⟨taken, hlen, heq⟩
        | succ turns =>
          obtain ⟨more, hmore, heq'⟩ := ih turns (by omega) (value + (b.headD 0 &&& 0x7f).toNat *
            multiplier) (multiplier * 128) t
          refine ⟨taken ++ more, ?_, ?_⟩
          · rw [List.length_append]
            omega
          · rw [heq, Outcome.state, heq', List.append_assoc]
  exact hloop 3 0 1 s

/-! ## Packets -/

theorem readExactOrEof_of_le {n : Nat} (h : n ≤ (sup.pending s).length) :
    readExactOrEof src n s = .ok ((sup.pending s).take n) (sup.skip n s) := by
  rw [readExactOrEof, Source.exact_of_le sup h]

/-- A packet: its first byte, the length of its body, and its body. -/
theorem readPacket_eq {first : UInt8} {enc body w : Bytes}
    (hp : sup.pending s = first :: (enc ++ (body ++ w))) (henc : Encodes enc body.length)
    (hmax : body.length ≤ maxPacketBytes) :
    readPacket src s =
      .ok (first >>> 4, body) (sup.skip (first :: (enc ++ body)).length s) := by
  have hone : 1 ≤ (sup.pending s).length := by simp [hp]
  have hlen := congrArg List.length hp
  rw [List.length_cons, List.length_append, List.length_append] at hlen
  have hfirst : sup.pending (sup.skip 1 s) = enc ++ (body ++ w) := by
    rw [sup.pending_skip s 1 hone, hp]
    rfl
  have hskip : sup.skip enc.length (sup.skip 1 s) = sup.skip (1 + enc.length) s :=
    sup.skip_skip s 1 _ hone
  have hrest : sup.pending (sup.skip (1 + enc.length) s) = body ++ w := by
    rw [← hskip, sup.pending_skip _ _ (by rw [hfirst, List.length_append]; omega), hfirst,
      List.drop_left]
  have hread : readRemainingLength src (sup.skip 1 s) =
      .ok body.length (sup.skip (1 + enc.length) s) :=
    (readRemainingLength_eq_ok sup).mpr ⟨enc, henc, hfirst ▸ List.prefix_append _ _, hskip.symm⟩
  rw [readPacket, readExactOrEof_of_le sup hone, Outcome.ok_andThen, hread, orIo,
    Outcome.ok_andThen, if_neg (by omega), hp]
  have htotal : (first :: (enc ++ body)).length = 1 + enc.length + body.length := by
    rw [List.length_cons, List.length_append]
    omega
  rw [htotal]
  split
  · rw [readExactOrEof_of_le sup (by rw [hrest, List.length_append]; omega), hrest, List.take_left,
      sup.skip_skip _ _ _ (by omega)]
    rfl
  · rename_i hempty
    rw [List.length_eq_zero_iff.mp (by omega : body.length = 0)]
    rfl

/-- The same with patience, behind the first byte. -/
theorem readRest_eq (sup : Supply (PatientReader.read src)) {r : PatientReader σ}
    {enc body w : Bytes} (hp : sup.pending r = enc ++ (body ++ w)) (henc : Encodes enc body.length)
    (hmax : body.length ≤ maxPacketBytes) :
    readRest src r = .ok body (sup.skip (enc ++ body).length r) := by
  have hlen := congrArg List.length hp
  rw [List.length_append, List.length_append] at hlen
  have hrest : sup.pending (sup.skip enc.length r) = body ++ w := by
    rw [sup.pending_skip _ _ (by omega), hp, List.drop_left]
  have hread : readRemainingLength (PatientReader.read src) r =
      .ok body.length (sup.skip enc.length r) :=
    (readRemainingLength_eq_ok sup).mpr ⟨enc, henc, hp ▸ List.prefix_append _ _, rfl⟩
  have hbody : body.length ≤ (sup.pending (sup.skip enc.length r)).length := by
    rw [hrest, List.length_append]
    omega
  rw [readRest, hread, orIo, Outcome.ok_andThen, if_neg (by omega), Source.upTo_of_le sup hbody,
    orIo, Outcome.ok_andThen, hrest, List.take_left, if_neg (Nat.lt_irrefl _),
    sup.skip_skip _ _ _ (by omega), List.length_append]

end

/-! ## Patience -/

abbrev Reads := List (Read IoError UInt8)

theorem PatientReader.read_data {n : Nat} (hn : 0 < n) (first : UInt8) (more : Bytes) (rest : Reads)
    (idle : Nat) :
    ∃ k, 0 < k ∧ k ≤ n ∧ k ≤ (first :: more).length ∧
      PatientReader.read ofReads n ⟨.data first more :: rest, idle⟩ =
        .ok ((first :: more).take k) ⟨after k (.data first more :: rest), idle⟩ ∧
      spent k (.data first more :: rest) = 0 := by
  obtain ⟨k, hpos, hkn, hk, hread, hspent⟩ := Source.ofReads_data hn first more rest
  refine ⟨k, hpos, hkn, hk, ?_, hspent⟩
  rw [PatientReader.read, hread]

theorem PatientReader.read_failed (n : Nat) (e : IoError) (rest : Reads) (idle : Nat) :
    PatientReader.read ofReads n ⟨.failed e :: rest, idle⟩ =
      if isTimeout e ∧ idle < 2 then PatientReader.read ofReads n ⟨rest, idle + 1⟩
      else .error e ⟨rest, idle⟩ := by
  rw [PatientReader.read, ofReads]

theorem delivered_failed (e : IoError) (rest : Reads) (idle : Nat) :
    delivered isTimeout (2 - idle) (.failed e :: rest) =
      if isTimeout e ∧ idle < 2 then delivered isTimeout (2 - (idle + 1)) rest else [] := by
  by_cases hidle : idle < 2
  · obtain ⟨budget, hbudget⟩ : ∃ budget, 2 - idle = budget + 1 := ⟨1 - idle, by omega⟩
    have hrest : 2 - (idle + 1) = budget := by omega
    rw [hbudget, hrest, delivered]
    simp [hidle]
  · have hzero : 2 - idle = 0 := by omega
    rw [hzero, delivered, if_neg fun h => hidle h.2]

/-- A patient reader is forgiven two timeouts. -/
def patientSupply : Supply (PatientReader.read (ofReads : Source Reads UInt8 IoError)) where
  pending r := delivered isTimeout (2 - r.idle) r.inner
  skip k r := ⟨after k r.inner, r.idle + spent k r.inner⟩
  skip_zero r := by rw [Source.after_zero, Source.spent_zero, Nat.add_zero]
  skip_skip r k l _ := by
    dsimp only
    rw [Source.after_after, Nat.add_assoc, Source.spent_after]
  pending_skip r k h := by
    rw [← Source.delivered_after h]
    congr 1
    dsimp only
    omega
  gives r n hn hne := by
    obtain ⟨inner, idle⟩ := r
    induction inner generalizing idle with
    | nil => exact (hne rfl).elim
    | cons r rest ih =>
      cases r with
      | data first more =>
        obtain ⟨k, hpos, hkn, hk, hread, hspent⟩ := PatientReader.read_data hn first more rest idle
        dsimp only
        rw [Source.delivered_data, ← List.cons_append]
        refine ⟨k, hpos, hkn, ?_, ?_⟩
        · rw [List.length_append]
          omega
        · rw [List.take_append_of_le_length hk, hread, hspent]
          rfl
      | failed e =>
        dsimp only at hne ⊢
        rw [delivered_failed] at hne ⊢
        rw [PatientReader.read_failed]
        by_cases hretry : isTimeout e ∧ idle < 2
        · rw [if_pos hretry] at hne ⊢
          rw [if_pos hretry]
          obtain ⟨k, hpos, hkn, hk, hread⟩ := ih (idle + 1) hne
          refine ⟨k, hpos, hkn, hk, ?_⟩
          obtain ⟨m, rfl⟩ : ∃ m, k = m + 1 := ⟨k - 1, by omega⟩
          rw [hread, after, spent, Nat.add_assoc, Nat.add_comm 1]
        · rw [if_neg hretry] at hne
          exact (hne rfl).elim
  stops r n got s' hn hnil h := by
    obtain ⟨inner, idle⟩ := r
    induction inner generalizing idle with
    | nil =>
      rw [PatientReader.read] at h
      cases h
      rfl
    | cons r rest ih =>
      cases r with
      | data first more =>
        dsimp only at hnil
        rw [Source.delivered_data] at hnil
        cases hnil
      | failed e =>
        dsimp only at hnil
        rw [delivered_failed] at hnil
        rw [PatientReader.read_failed] at h
        split at h
        · rename_i hretry
          rw [if_pos hretry] at hnil
          exact ih (idle + 1) hnil h
        · cases h

/-! ## PUBLISH -/

/-- What is behind the topic. -/
def behindTopic (payload : Bytes) (qos : UInt8) (packetId : UInt16) : Bytes :=
  (if 0 < qos then toBe 2 packetId.toNat else []) ++ payload

variable {topic : String} {payload packet : Bytes} {qos : UInt8} {packetId : UInt16}

set_option maxRecDepth 8000 in
theorem publish_type (qos : UInt8) :
    ((pktPublish <<< 4) ||| ((qos &&& 0x03) <<< 1)) >>> 4 = pktPublish := by
  have hall : ∀ n : Fin 256,
      ((pktPublish <<< 4) ||| ((UInt8.ofNat n &&& 0x03) <<< 1)) >>> 4 = pktPublish := by decide
  simpa using hall ⟨qos.toNat, qos.toNat_lt⟩

theorem buildPublish_eq_ok (h : buildPublish topic payload qos packetId = .ok packet) :
    len topic ≤ 65535 ∧ ∃ first enc body, packet = first :: (enc ++ body) ∧
      first >>> 4 = pktPublish ∧ Encodes enc body.length ∧
      body.length = bodyLen topic payload qos ∧
      body = toBe 2 (len topic) ++ asBytes topic ++ behindTopic payload qos packetId := by
  obtain ⟨out, hlen, h⟩ := Checked.except_bind_eq_ok.mp h
  obtain ⟨out', hstr, h⟩ := Checked.except_bind_eq_ok.mp h
  unfold writeRemainingLength at hlen
  unfold pushStr at hstr
  split at hlen
  · cases hlen
  dsimp only at hstr
  split at hstr
  · cases hstr
  rename_i hmax htopic
  cases hlen
  cases hstr
  cases h
  have hbody : (toBe 2 (len topic) ++ asBytes topic ++ behindTopic payload qos packetId).length =
      bodyLen topic payload qos := by
    rw [bodyLen, behindTopic, List.length_append, List.length_append, List.length_append,
      length_toBe, ← Nat.add_assoc]
    congr 2
    split
    · exact length_toBe 2 _
    · rfl
  refine ⟨Nat.le_of_not_lt htopic, _, pushLength [] (bodyLen topic payload qos),
    toBe 2 (len topic) ++ asBytes topic ++ behindTopic payload qos packetId, ?_,
    publish_type qos, ?_, hbody, rfl⟩
  · rw [pushLength_eq, behindTopic]
    split <;> simp [len]
  · rw [hbody]
    exact encodes_pushLength (Nat.le_of_not_lt hmax)

theorem extractPublishPayload_eq (htopic : len topic ≤ 65535) (rest : Bytes) :
    extractPublishPayload (toBe 2 (len topic) ++ asBytes topic ++ rest) = .ok rest := by
  have htake : fromBe ((toBe 2 (len topic) ++ asBytes topic ++ rest).take 2) = len topic := by
    rw [List.append_assoc, List.take_append_of_le_length (by simp),
      List.take_of_length_le (by simp), fromBe_toBe (by omega)]
  have hlen : (toBe 2 (len topic) ++ asBytes topic ++ rest).length =
      2 + len topic + rest.length := by
    rw [List.length_append, List.length_append, length_toBe, len]
  rw [extractPublishPayload, htake, hlen, if_neg (by omega), if_neg (by omega)]
  congr 1
  refine List.drop_left' ?_
  rw [List.length_append, length_toBe, len]

/-- A packet that comes before anything fails is read whole, and no more than it. -/
theorem readPacket_publish (hbuild : buildPublish topic payload qos packetId = .ok packet)
    (hmax : bodyLen topic payload qos ≤ maxPacketBytes) :
    ∃ body, extractPublishPayload body = .ok (behindTopic payload qos packetId) ∧
      ∀ reads : Reads,
        (packet <+: delivered (fun _ => false) 0 reads →
          readPacket ofReads reads = .ok (pktPublish, body) (after packet.length reads)) ∧
        ((reads.head?.any fun r => r.isData) = true → packet <+: delivered isTimeout 2 reads →
          readPacketOrIdle ofReads reads =
            .ok (some (pktPublish, body)) (after packet.length reads)) := by
  obtain ⟨htopic, first, enc, body, rfl, htype, henc, hlen, hbody⟩ := buildPublish_eq_ok hbuild
  rw [← hlen] at hmax
  refine ⟨body, hbody ▸ extractPublishPayload_eq htopic _, fun reads => ⟨?_, ?_⟩⟩
  · rintro ⟨w, hw⟩
    rw [List.cons_append, List.append_assoc] at hw
    rw [readPacket_eq readsSupply hw.symm henc hmax, htype]
    rfl
  · rintro hdata ⟨w, hw⟩
    cases reads with
    | nil => cases hdata
    | cons r rest =>
      cases r with
      | failed e => cases hdata
      | data b more =>
        rw [Source.delivered_data, List.cons_append, List.append_assoc] at hw
        cases (List.cons.inj hw).1
        have hpending : patientSupply.pending ⟨Source.leftover more rest, 0⟩ =
            enc ++ (body ++ w) :=
          (Source.delivered_leftover 2 more rest).trans (List.cons.inj hw).2.symm
        have hread : readRest ofReads ⟨Source.leftover more rest, 0⟩ =
            .ok body (patientSupply.skip (enc ++ body).length ⟨Source.leftover more rest, 0⟩) :=
          readRest_eq patientSupply hpending henc hmax
        have hfirst : ofReads 1 (.data first more :: rest : Reads) =
            .ok [first] (Source.leftover more rest) := rfl
        rw [readPacketOrIdle, hfirst]
        dsimp only
        rw [hread, Outcome.ok_andThen, htype, List.length_cons, Source.after_succ_data]
        rfl

/-- A packet that is read back gives its payload when its QoS is 0, and its packet identifier with
it otherwise, wherever its reads are cut and whatever comes behind it. A length is read just when
its encoding is there, and no byte behind it. -/
theorem framing_exact :
    (∀ topic payload qos packetId packet, buildPublish topic payload qos packetId = .ok packet →
      bodyLen topic payload qos ≤ maxPacketBytes →
      ∃ body, extractPublishPayload body =
          .ok ((if 0 < qos then toBe 2 packetId.toNat else []) ++ payload) ∧
        ∀ (front back : Reads) (w : Bytes), unread [] front = packet ++ w →
          (Framing.failures front = 0 →
            ∃ rest, readPacket ofReads (front ++ back) = .ok (pktPublish, body) rest ∧
              unread [] rest = w ++ unread [] back) ∧
          ((front.head?.any fun r => r.isData) = true → Framing.failures front ≤ 2 →
            (∀ e, Read.failed e ∈ front → isTimeout e = true) →
            ∃ rest, readPacketOrIdle ofReads (front ++ back) =
                .ok (some (pktPublish, body)) rest ∧
              unread [] rest = w ++ unread [] back)) ∧
    ∀ (reads : Reads) (v : Nat),
      ((∃ rest, readRemainingLength ofReads reads = .ok v rest) ↔
        ∃ enc, Encodes enc v ∧ enc <+: delivered (fun _ => false) 0 reads) ∧
      (∀ rest, readRemainingLength ofReads reads = .ok v rest →
        ∃ enc, Encodes enc v ∧ unread [] reads = enc ++ unread [] rest) ∧
      ∃ taken, taken.length ≤ 4 ∧
        unread [] reads = taken ++ unread [] (readRemainingLength ofReads reads).state := by
  refine ⟨?_, fun reads v => ⟨?_, ?_, ?_⟩⟩
  · intro topic payload qos packetId packet hbuild hmax
    obtain ⟨body, hextract, hreads⟩ := readPacket_publish hbuild hmax
    refine ⟨body, hextract, fun front back w hw => ?_⟩
    obtain ⟨hplain, hpatient⟩ := hreads (front ++ back)
    have hrest : unread [] (after packet.length (front ++ back)) = w ++ unread [] back := by
      rw [Source.unread_after, Source.unread_append, hw, List.append_assoc, List.drop_left]
    have hpre : packet <+: unread [] front := hw ▸ List.prefix_append _ _
    constructor
    · intro hfails
      refine ⟨_, hplain (hpre.trans (Source.delivered_append ?_ hfails.le)), hrest⟩
      intro e he
      exact Source.isData_of_failures_eq_zero hfails he
    · intro hdata hfails htimeout
      refine ⟨_, hpatient ?_ (hpre.trans (Source.delivered_append htimeout hfails)), hrest⟩
      cases front with
      | nil => cases hdata
      | cons r front => exact hdata
  · constructor
    · rintro ⟨rest, h⟩
      obtain ⟨enc, henc, hpre, -⟩ := (readRemainingLength_eq_ok readsSupply).mp h
      exact ⟨enc, henc, hpre⟩
    · rintro ⟨enc, henc, hpre⟩
      exact ⟨_, (readRemainingLength_eq_ok readsSupply).mpr ⟨enc, henc, hpre, rfl⟩⟩
  · intro rest h
    obtain ⟨enc, henc, ⟨w, hw⟩, rfl⟩ := (readRemainingLength_eq_ok readsSupply).mp h
    refine ⟨enc, henc, ?_⟩
    have hprefix : enc <+: unread [] reads :=
      (List.prefix_append enc w).trans (hw ▸ Source.delivered_prefix 0 reads)
    obtain ⟨tail, htail⟩ := hprefix
    have hunread : unread [] (after enc.length reads) = tail := by
      rw [Source.unread_after, ← htail, List.drop_left]
    exact hunread ▸ htail.symm
  · exact readRemainingLength_conserves Source.ofReads_conserves reads

/-- A packet in three reads with a timeout between them, and a byte behind it. -/
theorem framing_exact_timeout :
    ∃ body, extractPublishPayload body = .ok [0x68] ∧
      ∃ rest, readPacketOrIdle ofReads
          ([.data 0x30 [4], .failed ⟨.timedOut, "timed out", false⟩,
            .data 0 [1, 0x74, 0x68, 0xff]] : Reads) = .ok (some (pktPublish, body)) rest ∧ unread [] rest = [0xff] := by
  have hbuild : buildPublish "t" [0x68] 0 0 = .ok [0x30, 4, 0, 1, 0x74, 0x68] := by decide +kernel
  obtain ⟨body, hextract, hreads⟩ := framing_exact.1 "t" [0x68] 0 0 _ hbuild (by decide)
  obtain ⟨rest, hread, hrest⟩ := (hreads [.data 0x30 [4], .failed ⟨.timedOut, "timed out", false⟩,
    .data 0 [1, 0x74, 0x68, 0xff]] [] [0xff] rfl).2 rfl (by decide) (by
      intro e he
      simp only [List.mem_cons, List.not_mem_nil, or_false, reduceCtorEq, false_or,
        Read.failed.injEq] at he
      rw [he]
      rfl)
  exact ⟨body, hextract, rest, hread, hrest⟩

/-- With a QoS of 1 the packet identifier is read as the front of the payload. -/
theorem identifier_in_payload :
    buildPublish "t" [0x68] 1 7 = .ok [0x32, 6, 0, 1, 0x74, 0, 7, 0x68] ∧
      readPacket ofReads ([.data 0x32 [6, 0, 1, 0x74, 0, 7, 0x68]] : Reads) =
        .ok (pktPublish, [0, 1, 0x74, 0, 7, 0x68]) [] ∧
      extractPublishPayload [0, 1, 0x74, 0, 7, 0x68] = .ok [0, 7, 0x68] ∧
      extractPublishPayload [0, 1, 0x74, 0, 7, 0x68] ≠ .ok [0x68] := by
  decide +kernel

end Rsurl.Mqtt
