import Rsurl.Net.Wire

/-!
# Behind the handshake

What a dialogue does after its handshake, and when two connections are the same to it from there on:
what counts of a stream that is read line by line is the bytes and the failures, not the reads that
bring them.
-/

/-!
## What dialogues ask

The rules for the operations of a connection, whatever the answers are. A dialogue that upgrades its
connection is looked at up to the handshake that succeeds.
-/

namespace Rsurl.Net

open Library Text

/-- The connection is a TLS session from here on. -/
def Secured : Event → Prop
  | ⟨.handshake _, .ok _⟩ => True
  | _ => False

namespace Session

variable {stop : Event → Prop} {may : Op → Prop}

theorem until_dial {host : String} {port : Nat} (h : may (.dial host port)) :
    (dial host port).Until stop may fun _ => True :=
  (Talk.until_request h fun _ => .inr trivial).bind fun _ _ => Talk.until_ofExcept fun _ _ => trivial

theorem until_send {bytes : Bytes} (h : may (.send bytes)) :
    (send bytes).Until stop may fun _ => True :=
  (Talk.until_request h fun _ => .inr trivial).bind fun _ _ => Talk.until_ofExcept fun _ _ => trivial

theorem until_line {cap : Nat} (h : may (.line cap)) : (line cap).Until stop may fun _ => True :=
  (Talk.until_request h fun _ => .inr trivial).bind fun _ _ => Talk.until_ofExcept fun _ _ => trivial

theorem until_chunk {n : Nat} (h : may (.chunk n)) : (chunk n).Until stop may fun _ => True :=
  (Talk.until_request h fun _ => .inr trivial).bind fun _ _ => Talk.until_ofExcept fun _ _ => trivial

theorem until_connect {dest : Dest} {port : Nat} (h : may (.connect dest port)) :
    (connect dest port).Until stop may fun _ => True :=
  (Talk.until_request h fun _ => .inr trivial).bind fun _ _ => Talk.until_ofExcept fun _ _ => trivial

theorem until_secure {host : String} (h : may (.secure host)) :
    (secure host).Until stop may fun _ => True :=
  (Talk.until_request h fun _ => .inr trivial).bind fun _ _ => Talk.until_ofExcept fun _ _ => trivial

theorem until_copy (h : may .copy) : copy.Until stop may fun _ => True :=
  (Talk.until_request h fun _ => .inr trivial).bind fun _ _ => Talk.until_ofExcept fun _ _ => trivial

/-- After a handshake there is no more to look at. -/
theorem until_handshake {host : String} {post : Unit → Prop} (h : may (.handshake host)) :
    (handshake host).Until Secured may post := by
  have hrequest :
      (Talk.request (Op.handshake host) : Session (Except Error Unit)).Until Secured may
        fun a => ∃ e, a = .error e := by
    refine Talk.until_request h ?_
    rintro (e | a)
    · exact .inr ⟨e, rfl⟩
    · exact .inl trivial
  apply hrequest.bind
  rintro x ⟨e, rfl⟩
  simp [Talk.ofExcept]

end Session

/-- What may be asked of a plain connection: of commands, the lines of the greeting. -/
def Opening (greetings : List String) : Op → Prop
  | .send bytes => ∃ line ∈ greetings, bytes = asBytes line ++ crlf
  | .connect _ _ => False
  | .secure _ => False
  | .copy => False
  | _ => True

/-- Before the connection is a TLS session nothing is written but lines of the greeting, and unless
it is one the dialogue fails. -/
def FailsClosed {α : Type} (greetings : List String) (t : Session α) : Prop :=
  ∀ w : Wire,
    (∀ before ev after, t.events Wire.answer w = before ++ ev :: after →
      (∀ x ∈ before, ¬Secured x) → Opening greetings ev.op) ∧
    ((∀ x ∈ t.events Wire.answer w, ¬Secured x) → ∃ e w', t.exec Wire.answer w = .error e w')

/-- It is enough to look at the program. -/
theorem failsClosed_of_until {α : Type} {greetings : List String} {t : Session α}
    (h : t.Until Secured (Opening greetings) fun _ => False) : FailsClosed greetings t := by
  intro w
  obtain ⟨hbefore, hnever⟩ := h.run (Talk.run_events Wire.answer t w)
  refine ⟨hbefore, fun hall => ?_⟩
  cases hexec : t.exec Wire.answer w with
  | ok a w' =>
    rw [hexec] at hnever
    exact absurd rfl (hnever hall a)
  | error e w' => exact ⟨e, w', rfl⟩

end Rsurl.Net

namespace Rsurl.Net

open Library Text
open Library.Framing (Read)

/-- As `Secured`. -/
def secured : Event → Bool
  | ⟨.handshake _, .ok _⟩ => true
  | _ => false

/-- What is written after the handshake, and the result, if there is a handshake. -/
def afterHandshake {α : Type} (t : Session α) (w : Wire) : Option (List Bytes × Except Error α) :=
  (t.resume Wire.answer secured w).map fun (k, s) =>
    (written (k.events Wire.answer s), (k.exec Wire.answer s).result)

/-- The connection as it was dialled: what is sent and received leaves this as it is. -/
def Wire.Same (w w' : Wire) : Prop := w.peers = w'.peers ∧ w.session = w'.session ∧ w.data = w'.data

theorem Wire.same_answer (w₀ : Wire) (op : Op) (w : Wire) (h : Same w₀ w) :
    Same w₀ (answer op w).2 := by
  cases op with
  | handshake host =>
    have hkept : Same w (answer (.handshake host) w).2 := by
      cases hs : w.session <;> simp [answer, hs, Same]
    exact ⟨h.1.trans hkept.1, h.2.1.trans hkept.2.1, h.2.2.trans hkept.2.2⟩
  | _ => exact h

theorem handshake_side {op : Op} {w : Wire} (h : secured ⟨op, (Wire.answer op w).1⟩ = true) :
    (Wire.answer op w).2.session = .ok (Wire.answer op w).2.side := by
  cases op with
  | handshake host =>
    cases hs : w.session with
    | ok side => simp [Wire.answer, hs]
    | error e => simp [Wire.answer, hs, secured] at h
  | _ => cases h

/-- Behind the handshake the connection is the session, and what was dialled is the same. -/
theorem of_resume {α : Type} {t k : Session α} {w s : Wire}
    (h : t.resume Wire.answer secured w = some (k, s)) : w.Same s ∧ w.session = .ok s.side := by
  have hsame := Talk.resume_keeps (Wire.same_answer w) h ⟨rfl, rfl, rfl⟩
  exact ⟨hsame, hsame.2.1.trans (Talk.resume_stopped (J := fun s => s.session = .ok s.side)
    (fun _ _ => handshake_side) h)⟩

/-! ## Streams -/

/-- The bytes and failures of the reads. -/
def stream (reads : List (Read Error UInt8)) : List (Except Error UInt8) :=
  reads.flatMap fun r => match r with
    | .data first more => (first :: more).map .ok
    | .failed e => [.error e]

/-- A line of at most so many bytes, and what is left. -/
def lineOf : Nat → List (Except Error UInt8) → Except Error Bytes × List (Except Error UInt8)
  | 0, st => (.ok [], st)
  | _ + 1, [] => (.ok [], [])
  | n + 1, .ok b :: st =>
    if b = 0x0a then (.ok [b], st)
    else
      let (r, rest) := lineOf n st
      (r.map (b :: ·), rest)
  | _ + 1, .error e :: st => (.error e, st)

theorem lineEnd_cons (cap : Nat) (b : UInt8) (bytes : Bytes) :
    lineEnd (cap + 1) (b :: bytes) =
      if b = 0x0a then some 1 else (lineEnd cap bytes).map (· + 1) := by
  unfold lineEnd
  rw [List.take_succ_cons, List.findIdx?_cons]
  by_cases hb : b = 0x0a
  · simp [hb]
  · simp only [beq_eq_false_iff_ne.mpr hb, hb, Bool.false_eq_true, if_false, List.length_cons,
      Nat.add_le_add_iff_right]
    cases (bytes.take cap).findIdx? (· == 0x0a) with
    | some i => rfl
    | none =>
      simp only [Option.map_none]
      split <;> rfl

theorem lt_of_lineEnd {cap : Nat} {bytes : Bytes} (h : lineEnd cap bytes = none) :
    bytes.length < cap := by
  by_contra hle
  unfold lineEnd at h
  split at h
  · cases h
  · rw [if_pos (Nat.le_of_not_lt hle)] at h
    cases h

/-- Bytes that have a line, and bytes that have not. -/
theorem lineOf_bytes (cap : Nat) (bytes : Bytes) (st : List (Except Error UInt8)) :
    lineOf cap (bytes.map .ok ++ st) = match lineEnd cap bytes with
      | some n => (.ok (bytes.take n), (bytes.drop n).map .ok ++ st)
      | none =>
        let (r, rest) := lineOf (cap - bytes.length) st
        (r.map (bytes ++ ·), rest) := by
  induction bytes generalizing cap with
  | nil =>
    cases cap with
    | zero => rfl
    | succ cap =>
      show lineOf (cap + 1) st = _
      simp only [lineEnd, List.take_nil, List.findIdx?_nil, List.length_nil]
      rw [if_neg (Nat.not_succ_le_zero cap)]
      cases hline : lineOf (cap + 1) st with
      | mk r rest => cases r <;> simp [Except.map]
  | cons b bytes ih =>
    cases cap with
    | zero => rfl
    | succ cap =>
      rw [lineEnd_cons, List.map_cons, List.cons_append, lineOf]
      by_cases hb : b = 0x0a
      · simp [hb]
      · rw [if_neg hb, if_neg hb, ih]
        cases hend : lineEnd cap bytes with
        | some n => rfl
        | none =>
          simp only [Option.map_none, List.length_cons, Nat.add_sub_add_right]
          cases hline : lineOf (cap - bytes.length) st with
          | mk r rest => cases r <;> simp [Except.map]

/-- A line is read off the stream, whatever the reads are. -/
theorem readLine_stream (cap : Nat) (buffer : Bytes) (reads : List (Read Error UInt8)) :
    lineOf cap (buffer.map .ok ++ stream reads) =
      ((readLine cap buffer reads).1,
        (readLine cap buffer reads).2.1.map .ok ++ stream (readLine cap buffer reads).2.2) := by
  induction reads generalizing buffer with
  | nil =>
    rw [lineOf_bytes, readLine]
    cases hend : lineEnd cap buffer with
    | some n => rfl
    | none =>
      obtain ⟨n, hn⟩ := Nat.exists_eq_succ_of_ne_zero (Nat.sub_ne_zero_of_lt (lt_of_lineEnd hend))
      simp [hn, stream, lineOf, Except.map]
  | cons r reads ih =>
    cases hend : lineEnd cap buffer with
    | some n =>
      rw [lineOf_bytes]
      cases r <;> simp [readLine, hend]
    | none =>
      cases r with
      | data first more =>
        have hstream : buffer.map .ok ++ stream (.data first more :: reads) =
            (buffer ++ first :: more).map .ok ++ stream reads := by simp [stream]
        have hread : readLine cap buffer (.data first more :: reads) =
            readLine cap (buffer ++ first :: more) reads := by simp [readLine, hend]
        rw [hstream, ih, hread]
      | failed e =>
        obtain ⟨n, hn⟩ := Nat.exists_eq_succ_of_ne_zero (Nat.sub_ne_zero_of_lt (lt_of_lineEnd hend))
        rw [lineOf_bytes]
        simp [readLine, hend, hn, stream, lineOf, Except.map]

/-! ## Two connections -/

/-- What a dialogue may ask once its connection is settled. -/
def LineOp : Op → Prop
  | .send _ => True
  | .line _ => True
  | .connect _ _ => True
  | .secure _ => True
  | .copy => True
  | _ => False

/-- Everything but the handshake. -/
def Plain : Op → Prop
  | .handshake _ => False
  | _ => True

theorem secured_of_plain (op : Op) (x : Ans op) (h : Plain op) : secured ⟨op, x⟩ = false := by
  cases op with
  | handshake host => cases h
  | _ => rfl

/-- What makes no handshake runs to its end, and the dialogue goes on from there. -/
theorem resume_of_exec {α β : Type} {t : Session α} {next : α → Session β} {w s : Wire} {a : α}
    (ht : t.Asks Plain) (h : t.exec Wire.answer w = .ok a s) :
    (t >>= next).resume Wire.answer secured w = (next a).resume Wire.answer secured s := by
  have hnone : t.resume Wire.answer secured w = none := Talk.resume_eq_none ht secured_of_plain
  clear ht
  induction t generalizing w with
  | done b =>
    cases h
    rfl
  | fail e => cases h
  | ask op rest ih =>
    rw [Talk.resume] at hnone
    rw [Talk.ask_bind, Talk.resume]
    split at hnone
    · cases hnone
    · rename_i hstop
      rw [if_neg hstop]
      exact ih _ h hnone

/-- The same lines are still to be read, and the same happens otherwise. -/
structure Alike (s u : Wire) : Prop where
  ahead : s.buffer.map .ok ++ stream s.side.reads = u.buffer.map .ok ++ stream u.side.reads
  sends : s.side.sends = u.side.sends
  data : s.data = u.data

theorem Alike.answer {op : Op} {s u : Wire} (hop : LineOp op) (h : Alike s u) :
    (Wire.answer op s).1 = (Wire.answer op u).1 ∧
      Alike (Wire.answer op s).2 (Wire.answer op u).2 := by
  cases op with
  | send bytes =>
    refine ⟨?_, ?_, ?_, h.data⟩
    · simp only [Wire.answer, Side.write, h.sends]
      split <;> rfl
    · simp only [Wire.answer, Side.write, h.sends]
      split <;> exact h.ahead
    · simp only [Wire.answer, Side.write, h.sends]
      split <;> rfl
  | line cap =>
    have hs := readLine_stream cap s.buffer s.side.reads
    rw [h.ahead, readLine_stream] at hs
    obtain ⟨hline, hrest⟩ := Prod.mk.inj hs
    exact ⟨hline.symm, hrest.symm, h.sends, h.data⟩
  | connect dest port => exact ⟨congrArg Data.connected h.data, h⟩
  | secure host => exact ⟨congrArg Data.secured h.data, h⟩
  | copy => exact ⟨congrArg Data.copied h.data, h⟩
  | _ => cases hop

/-- Behind the handshake the servers send the same bytes, and all else is the same. -/
structure Behind (w w' : Wire) : Prop where
  peers : w.peers = w'.peers
  data : w.data = w'.data
  session : ∀ a b, w.session = .ok a → w'.session = .ok b →
    stream a.reads = stream b.reads ∧ a.sends = b.sends

/-- What comes before the handshake changes nothing after it. -/
def Sealed {α : Type} (t : Session α) : Prop :=
  ∀ w w' : Wire, Behind w w' → ∀ r r', afterHandshake t w = some r → afterHandshake t w' = some r' →
    r = r'

/-- It is enough that the rest of the dialogue is always the same, and that it begins with an empty
buffer. -/
theorem sealed_of_rest {α : Type} {t : Session α} {rest : IpAddr × IpAddr → Session α}
    (hasks : ∀ peers, (rest peers).Asks LineOp)
    (hrest : ∀ w k s, t.resume Wire.answer secured w = some (k, s) →
      s.buffer = [] ∧ ∃ peers, w.peers = .ok peers ∧ k = rest peers) : Sealed t := by
  intro w w' hbehind r r' hr hr'
  obtain ⟨⟨k, s⟩, hk, rfl⟩ := Option.map_eq_some_iff.mp hr
  obtain ⟨⟨k', s'⟩, hk', rfl⟩ := Option.map_eq_some_iff.mp hr'
  obtain ⟨hbuffer, peers, hpeers, rfl⟩ := hrest w k s hk
  obtain ⟨hbuffer', peers', hpeers', rfl⟩ := hrest w' k' s' hk'
  obtain rfl : peers = peers' := Except.ok.inj (hpeers.symm.trans (hbehind.peers.trans hpeers'))
  obtain ⟨hsame, hside⟩ := of_resume hk
  obtain ⟨hsame', hside'⟩ := of_resume hk'
  obtain ⟨hreads, hsends⟩ := hbehind.session _ _ hside hside'
  have halike : Alike s s' := by
    refine ⟨by rw [hbuffer, hbuffer', hreads], hsends, ?_⟩
    rw [← hsame.2.2, ← hsame'.2.2, hbehind.data]
  have hanswer (op : Op) (s u : Wire) (hop : LineOp op) (h : Alike s u) :
      (Wire.answer op s).1 = (Wire.answer op u).1 ∧
        Alike (Wire.answer op s).2 (Wire.answer op u).2 := h.answer hop
  have hexec := Talk.exec_alike hanswer (hasks peers) halike
  dsimp only
  rw [hexec.1, hexec.2.result]

end Rsurl.Net
