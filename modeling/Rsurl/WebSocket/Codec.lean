import Rsurl.WebSocket.Frame

/-!
# The codec is exact

A frame is parsed from its encoding and from nothing else. What the parser refuses it refuses for
good. Where it asks for more, the header is not complete, or more bytes make a frame.
-/

namespace Rsurl.WebSocket

open Library
open Library.Endian (toBe fromBe)

/-! ## Headers -/

set_option maxRecDepth 8000 in
/-- The first byte is put together from what is read off it. -/
theorem headerByte_eq {h0 : UInt8} (h : h0 &&& 0x30 = 0) :
    (if decide (h0 &&& 0x80 ≠ 0) then 0x80 else 0) ||| (if decide (h0 &&& 0x40 ≠ 0) then 0x40 else 0) |||
      ((h0 &&& 0x0f) &&& 0x0f) = h0 ∧ h0 &&& 0x0f ≤ 0x0f := by
  have hall : ∀ n : Fin 256, let h0 := UInt8.ofNat n
      h0 &&& 0x30 = 0 → (if decide (h0 &&& 0x80 ≠ 0) then 0x80 else 0) |||
        (if decide (h0 &&& 0x40 ≠ 0) then 0x40 else 0) ||| ((h0 &&& 0x0f) &&& 0x0f) = h0 ∧
          h0 &&& 0x0f ≤ 0x0f := by decide +kernel
  have hof : UInt8.ofNat h0.toNat = h0 := UInt8.ofNat_toNat
  have hbyte := hall ⟨h0.toNat, h0.toNat_lt⟩
  simp only [hof] at hbyte
  exact hbyte h

set_option maxRecDepth 8000 in
/-- A second byte without the mask bit is the length it says. -/
theorem lengthByte_eq {h1 : UInt8} (h : h1 &&& 0x80 = 0) :
    UInt8.ofNat (h1 &&& 0x7f).toNat = h1 ∧ (h1 &&& 0x7f).toNat < 128 := by
  have hall : ∀ n : Fin 256, let h1 := UInt8.ofNat n
      h1 &&& 0x80 = 0 → UInt8.ofNat (h1 &&& 0x7f).toNat = h1 ∧ (h1 &&& 0x7f).toNat < 128 := by
    decide
  have hof : UInt8.ofNat h1.toNat = h1 := UInt8.ofNat_toNat
  have hbyte := hall ⟨h1.toNat, h1.toNat_lt⟩
  simp only [hof] at hbyte
  exact hbyte h

/-- How many bytes the header takes, as far as its length form is known. -/
def headerLength (buf : Bytes) : Nat :=
  match buf with
  | _ :: h1 :: _ =>
    if (h1 &&& 0x7f).toNat ≤ 125 then 2 else if (h1 &&& 0x7f).toNat = 126 then 4 else 10
  | _ => 2

/-- A length that is found was written in the shortest form. -/
theorem payloadLength_ok {h0 h1 : UInt8} {rest : Bytes} (hmask : h1 &&& 0x80 = 0) {len pos : Nat}
    (h : payloadLength (h0 :: h1 :: rest) (h1 &&& 0x7f).toNat = .ok (some (len, pos)))
    {fin rsv1 : Bool} {opcode : UInt8}
    (hbyte : (if fin then 0x80 else 0) ||| (if rsv1 then 0x40 else 0) ||| (opcode &&& 0x0f) = h0) :
    pos ≤ (h0 :: h1 :: rest).length ∧
      (h0 :: h1 :: rest).take pos = frameHeader fin rsv1 false opcode len := by
  obtain ⟨hlength, hlt⟩ := lengthByte_eq hmask
  unfold payloadLength at h
  unfold frameHeader
  dsimp only at h ⊢
  rw [hbyte]
  by_cases h125 : (h1 &&& 0x7f).toNat ≤ 125
  · rw [if_pos h125] at h
    cases h
    rw [if_pos (by omega), hlength]
    exact ⟨by simp, by simp⟩
  rw [if_neg h125] at h
  by_cases h126 : (h1 &&& 0x7f).toNat = 126
  · rw [if_pos h126] at h
    by_cases hshort : (h0 :: h1 :: rest).length < 4
    · rw [if_pos hshort] at h
      cases h
    rw [if_neg hshort] at h
    have hbytes : (rest.take 2).length = 2 := by
      simp only [List.length_cons, List.length_take] at hshort ⊢
      omega
    have hvalue := Endian.fromBe_lt (rest.take 2)
    have hback := Endian.toBe_fromBe (rest.take 2)
    rw [hbytes] at hvalue hback
    have hone : h1 = 126 := by rw [← hlength, h126]; rfl
    simp only [List.drop_succ_cons, List.drop_zero] at h
    by_cases hmin : fromBe (rest.take 2) < 126
    · rw [if_pos hmin] at h
      cases h
    rw [if_neg hmin] at h
    cases h
    rw [if_neg hmin, if_pos (by omega), hback, hone]
    exact ⟨by simp only [List.length_cons] at hshort ⊢; omega, by simp⟩
  · rw [if_neg h126] at h
    by_cases hshort : (h0 :: h1 :: rest).length < 10
    · rw [if_pos hshort] at h
      cases h
    rw [if_neg hshort] at h
    have hbytes : (rest.take 8).length = 8 := by
      simp only [List.length_cons, List.length_take] at hshort ⊢
      omega
    have hback := Endian.toBe_fromBe (rest.take 8)
    rw [hbytes] at hback
    have hone : h1 = 127 := by
      rw [← hlength, show (h1 &&& 0x7f).toNat = 127 by omega]
      rfl
    simp only [List.drop_succ_cons, List.drop_zero] at h
    by_cases hmsb : 2 ^ 63 ≤ fromBe (rest.take 8)
    · rw [if_pos hmsb] at h
      cases h
    rw [if_neg hmsb] at h
    by_cases hmin : fromBe (rest.take 8) ≤ 65535
    · rw [if_pos hmin] at h
      cases h
    rw [if_neg hmin] at h
    cases h
    rw [if_neg (by omega), if_neg hmin, hback, hone]
    exact ⟨by simp only [List.length_cons] at hshort ⊢; omega, by simp⟩

/-- No length is found only where the header is not complete. -/
theorem payloadLength_none {h0 h1 : UInt8} {rest : Bytes}
    (h : payloadLength (h0 :: h1 :: rest) (h1 &&& 0x7f).toNat = .ok none) :
    (h0 :: h1 :: rest).length < headerLength (h0 :: h1 :: rest) ∧ (h0 :: h1 :: rest).length < 10 := by
  unfold payloadLength at h
  unfold headerLength
  dsimp only at h ⊢
  split_ifs at h ⊢ <;> (first | omega | cases h)

theorem payloadLength_header {h0 h1 : UInt8} {rest : Bytes} {len pos : Nat}
    (h : payloadLength (h0 :: h1 :: rest) (h1 &&& 0x7f).toNat = .ok (some (len, pos))) :
    pos = headerLength (h0 :: h1 :: rest) ∧ pos ≤ 10 := by
  unfold payloadLength at h
  unfold headerLength
  dsimp only at h ⊢
  split_ifs at h ⊢ <;> cases h <;> omega

/-! ## The parser -/

/-- What the parser looks at before it asks for the payload. -/
theorem tryParseFrame_cons {h0 h1 : UInt8} {rest : Bytes} (hrsv : h0 &&& 0x30 = 0)
    (hmask : h1 &&& 0x80 = 0) {len pos : Nat}
    (hlen : payloadLength (h0 :: h1 :: rest) (h1 &&& 0x7f).toNat = .ok (some (len, pos))) :
    tryParseFrame (h0 :: h1 :: rest) =
      if 0x8 ≤ h0 &&& 0x0f ∧ maxControlPayload < len then .error (controlTooLarge len)
      else if maxPayloadBytes < len then
        .error (.badResponse s!"WS payload too large: {len} bytes")
      else if (h0 :: h1 :: rest).length < pos + len then .ok none
      else .ok (some (⟨h0 &&& 0x80 ≠ 0, h0 &&& 0x40 ≠ 0, h0 &&& 0x0f,
        ((h0 :: h1 :: rest).drop pos).take len⟩, pos + len)) := by
  unfold tryParseFrame
  simp only [hrsv, hmask, ne_eq, not_true_eq_false, if_false, hlen]

/-- The bytes of a server, where they begin with a header that is not refused at once. -/
theorem tryParseFrame_cases {buf : Bytes} (h : ∀ e, tryParseFrame buf ≠ .error e) :
    buf.length < 2 ∨ ∃ h0 h1 rest, buf = h0 :: h1 :: rest ∧ h0 &&& 0x30 = 0 ∧ h1 &&& 0x80 = 0 ∧
      ((payloadLength buf (h1 &&& 0x7f).toNat = .ok none ∧ tryParseFrame buf = .ok none) ∨
        ∃ len pos, payloadLength buf (h1 &&& 0x7f).toNat = .ok (some (len, pos)) ∧
          ¬(0x8 ≤ h0 &&& 0x0f ∧ maxControlPayload < len) ∧ len ≤ maxPayloadBytes) := by
  match buf with
  | [] => exact .inl (by simp)
  | [_] => exact .inl (by simp)
  | h0 :: h1 :: rest =>
    have hrsv : h0 &&& 0x30 = 0 := by
      by_contra hrsv
      exact h _ (by rw [tryParseFrame, if_pos hrsv])
    have hmask : h1 &&& 0x80 = 0 := by
      by_contra hmask
      exact h _ (by rw [tryParseFrame, if_neg (not_not.mpr hrsv), if_pos hmask])
    refine .inr ⟨h0, h1, rest, rfl, hrsv, hmask, ?_⟩
    cases hlen : payloadLength (h0 :: h1 :: rest) (h1 &&& 0x7f).toNat with
    | error e =>
      refine absurd ?_ (h e)
      rw [tryParseFrame, if_neg (not_not.mpr hrsv), if_neg (not_not.mpr hmask)]
      simp only [hlen]
    | ok found =>
      cases found with
      | none =>
        refine .inl ⟨rfl, ?_⟩
        rw [tryParseFrame, if_neg (not_not.mpr hrsv), if_neg (not_not.mpr hmask)]
        simp only [hlen]
      | some found =>
        obtain ⟨len, pos⟩ := found
        refine .inr ⟨len, pos, rfl, fun hcontrol => ?_, Nat.le_of_not_lt fun hmax => ?_⟩
        · exact h _ ((tryParseFrame_cons hrsv hmask hlen).trans (if_pos hcontrol))
        · by_cases hcontrol : 0x8 ≤ h0 &&& 0x0f ∧ maxControlPayload < len
          · exact h _ ((tryParseFrame_cons hrsv hmask hlen).trans (if_pos hcontrol))
          · have hlarge := tryParseFrame_cons hrsv hmask hlen
            rw [if_neg hcontrol, if_pos hmax] at hlarge
            exact h _ hlarge

/-- What is parsed is the encoding of the frame. -/
theorem serverFrame_of_tryParseFrame {buf : Bytes} {f : Frame} {n : Nat}
    (h : tryParseFrame buf = .ok (some (f, n))) : f.Wf ∧ buf.take n = serverFrame f := by
  have hok : ∀ e, tryParseFrame buf ≠ .error e := fun e he => by
    rw [h] at he
    cases he
  rcases tryParseFrame_cases hok with
    hshort | ⟨h0, h1, rest, rfl, hrsv, hmask, ⟨-, hnone⟩ | ⟨len, pos, hlen, hcontrol, hmax⟩⟩
  · have := tryParseFrame_length h
    omega
  · rw [h] at hnone
    cases hnone
  · rw [tryParseFrame_cons hrsv hmask hlen, if_neg hcontrol, if_neg (by omega)] at h
    split at h
    · cases h
    · rename_i hwhole
      cases h
      obtain ⟨hbyte, hop⟩ := headerByte_eq hrsv
      obtain ⟨hpos, hhead⟩ := payloadLength_ok hmask hlen hbyte
      have hbody : (((h0 :: h1 :: rest).drop pos).take len).length = len := by
        rw [List.length_take, List.length_drop]
        omega
      refine ⟨⟨hop, hbody.symm ▸ hmax, fun hc => ?_⟩, ?_⟩
      · rw [hbody]
        exact Nat.le_of_not_lt fun hlt => hcontrol ⟨of_decide_eq_true hc, hlt⟩
      · rw [serverFrame, hbody, ← hhead, List.take_add]

/-- A complete header that is not refused is that of a frame. -/
theorem exists_extension {buf : Bytes} (h : tryParseFrame buf = .ok none)
    (hhead : headerLength buf ≤ buf.length) :
    ∃ w f n, tryParseFrame (buf ++ w) = .ok (some (f, n)) := by
  have hok : ∀ e, tryParseFrame buf ≠ .error e := fun e he => by
    rw [h] at he
    cases he
  rcases tryParseFrame_cases hok with
    hshort | ⟨h0, h1, rest, rfl, hrsv, hmask, ⟨hnone, -⟩ | ⟨len, pos, hlen, hcontrol, hmax⟩⟩
  · have htwo : headerLength buf = 2 := by
      match buf, hshort with
      | [], _ => rfl
      | [_], _ => rfl
    omega
  · have := (payloadLength_none hnone).1
    omega
  · have hlen' := payloadLength_append (List.replicate len 0) (by rw [hlen]; simp)
    rw [hlen, List.cons_append, List.cons_append] at hlen'
    have hwhole : ¬(h0 :: h1 :: (rest ++ List.replicate len 0)).length < pos + len := by
      obtain ⟨hpos, -⟩ := payloadLength_header hlen
      simp only [List.length_cons, List.length_append, List.length_replicate] at hhead ⊢
      omega
    have hparse := tryParseFrame_cons hrsv hmask hlen'
    rw [if_neg hcontrol, if_neg (by omega), if_neg hwhole] at hparse
    exact ⟨List.replicate len 0, _, _, hparse⟩

/-- Enough bytes are a frame or are refused. -/
theorem tryParseFrame_decides {buf : Bytes} (h : 10 + maxPayloadBytes ≤ buf.length) :
    tryParseFrame buf ≠ .ok none := by
  intro hnone
  have hok : ∀ e, tryParseFrame buf ≠ .error e := fun e he => by
    rw [hnone] at he
    cases he
  rcases tryParseFrame_cases hok with
    hshort | ⟨h0, h1, rest, rfl, hrsv, hmask, ⟨hlen, -⟩ | ⟨len, pos, hlen, hcontrol, hmax⟩⟩
  · omega
  · have := (payloadLength_none hlen).2
    omega
  · obtain ⟨-, hpos⟩ := payloadLength_header hlen
    rw [tryParseFrame_cons hrsv hmask hlen, if_neg hcontrol, if_neg (by omega),
      if_neg (by omega)] at hnone
    cases hnone

/-! ## Client frames -/

/-- The byte of a mask that goes with an offset. -/
def Mask.key (m : Mask) (i : Nat) : UInt8 :=
  match i % 4 with
  | 0 => m.a
  | 1 => m.b
  | 2 => m.c
  | _ => m.d

theorem Mask.key_succ (m : Mask) (i : Nat) : Mask.key ⟨m.b, m.c, m.d, m.a⟩ i = m.key (i + 1) := by
  unfold Mask.key
  have hi : i % 4 < 4 := Nat.mod_lt i (by decide)
  rw [Nat.add_mod]
  generalize i % 4 = k at hi
  interval_cases k <;> rfl

/-- The mask goes round. -/
theorem Mask.apply_eq (m : Mask) (xs : Bytes) : m.apply xs = xs.mapIdx fun i b => b ^^^ m.key i := by
  induction xs generalizing m with
  | nil => rfl
  | cons x xs ih =>
    rw [Mask.apply, ih, List.mapIdx_cons]
    have hkey : (fun (i : Nat) (b : UInt8) => b ^^^ Mask.key ⟨m.b, m.c, m.d, m.a⟩ i) =
        fun (i : Nat) (b : UInt8) => b ^^^ m.key (i + 1) := by
      funext i b
      rw [Mask.key_succ]
    rw [hkey]
    rfl

/-- A masked header is the other with the mask bit set. -/
theorem frameHeader_masked (fin rsv1 : Bool) (opcode : UInt8) (n : Nat) :
    ∃ h0 h1 ext, h1 &&& 0x80 = 0 ∧ frameHeader fin rsv1 false opcode n = h0 :: h1 :: ext ∧
      frameHeader fin rsv1 true opcode n = h0 :: (0x80 ||| h1) :: ext := by
  unfold frameHeader
  refine ⟨(if fin then 0x80 else 0) ||| (if rsv1 then 0x40 else 0) ||| (opcode &&& 0x0f), ?_⟩
  by_cases h126 : n < 126
  · have hbit : UInt8.ofNat n &&& 0x80 = 0 := by
      have := (lengthByte_bits false (n := n) (by omega)).1
      simpa using this
    exact ⟨UInt8.ofNat n, [], hbit, by simp [h126], by simp [h126]⟩
  by_cases h16 : n ≤ 65535
  · exact ⟨126, toBe 2 n, by decide, by simp [h126, h16], by simp [h126, h16]⟩
  · exact ⟨127, toBe 8 n, by decide, by simp [h126, h16], by simp [h126, h16]⟩

/-- A client frame is the server frame with the mask bit, the mask behind the length and the payload
under it. -/
def IsMasked (f : Frame) (m : Mask) (out : Bytes) : Prop :=
  ∃ h0 h1 ext, serverFrame f = h0 :: h1 :: (ext ++ f.payload) ∧ h1 &&& 0x80 = 0 ∧
    out = h0 :: (0x80 ||| h1) :: (ext ++ [m.a, m.b, m.c, m.d] ++
      f.payload.mapIdx fun i b => b ^^^ m.key i)

theorem isMasked_maskedFrame (f : Frame) (m : Mask) : IsMasked f m (maskedFrame f m) := by
  obtain ⟨h0, h1, ext, hbit, hplain, hmasked⟩ :=
    frameHeader_masked f.fin f.rsv1 f.opcode f.payload.length
  refine ⟨h0, h1, ext, ?_, hbit, ?_⟩
  · rw [serverFrame, hplain]
    rfl
  · rw [maskedFrame, hmasked, Mask.apply_eq]
    rfl

/-! ## The codec -/

/-- Parsing is the inverse of encoding on whatever bytes arrive. It errs for good, and asks for more
only in a header, or where more bytes make a frame; enough of them always decide. -/
theorem frame_codec_exact :
    (∀ f : Frame, f.Wf → ∀ w, tryParseFrame (serverFrame f ++ w) =
      .ok (some (f, (serverFrame f).length))) ∧
    (∀ buf f n, tryParseFrame buf = .ok (some (f, n)) → f.Wf ∧ buf.take n = serverFrame f) ∧
    (∀ buf, tryParseFrame buf = .ok none →
      (headerLength buf ≤ buf.length → ∃ w f n, tryParseFrame (buf ++ w) = .ok (some (f, n))) ∧
        ∀ w : Bytes, 10 + maxPayloadBytes ≤ w.length → tryParseFrame (buf ++ w) ≠ .ok none) ∧
    (∀ buf e, tryParseFrame buf = .error e → ∀ w, tryParseFrame (buf ++ w) = .error e) ∧
    ∀ (draw : Except Error Mask) (fin : Bool) (opcode : UInt8) (payload : Bytes) (rsv1 : Bool),
      match draw with
      | .error e => buildClientFrameInner draw fin opcode payload rsv1 = .error e
      | .ok m => ∃ out, buildClientFrameInner draw fin opcode payload rsv1 = .ok out ∧
          IsMasked ⟨fin, rsv1, opcode, payload⟩ m out := by
  refine ⟨fun f hf w => tryParseFrame_serverFrame hf w, fun buf f n => serverFrame_of_tryParseFrame,
    fun buf h => ⟨exists_extension h, fun w hw => ?_⟩, fun buf e h w => ?_, fun draw _ _ _ _ => ?_⟩
  · refine tryParseFrame_decides ?_
    rw [List.length_append]
    omega
  · rw [tryParseFrame_append w (by rw [h]; simp), h]
  · cases draw with
    | error e => rfl
    | ok m => exact ⟨_, rfl, isMasked_maskedFrame _ m⟩

/-- Reserved bits, and a control frame with a long length, that are asked to go on. -/
theorem incomplete_never_parses :
    (tryParseFrame [0x30] = .ok none ∧
      ∀ w f n, tryParseFrame ([0x30] ++ w) ≠ .ok (some (f, n))) ∧
    ¬∀ buf, tryParseFrame buf = .ok none →
      ∃ w f n, tryParseFrame (buf ++ w) = .ok (some (f, n)) := by
  have hnone : tryParseFrame [0x30] = .ok none := rfl
  have hnever : ∀ w f n, tryParseFrame ([0x30] ++ w) ≠ .ok (some (f, n)) := by
    intro w f n h
    cases w with
    | nil => cases h
    | cons h1 rest =>
      have hrsv : (0x30 : UInt8) &&& 0x30 ≠ 0 := by decide
      rw [List.singleton_append, tryParseFrame, if_pos hrsv] at h
      cases h
  refine ⟨⟨hnone, hnever⟩, fun h => ?_⟩
  obtain ⟨w, f, n, hparse⟩ := h _ hnone
  exact hnever w f n hparse

end Rsurl.WebSocket
