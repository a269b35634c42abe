import Rsurl.Library.Framing
import Rsurl.Library.Talk
import Rsurl.Net.Addr

/-!
# Control connections

What the line protocols do with their connection, as programs that talk. The transport delivers bytes
in reads of any size, any of which may fail; the connection is plain until a handshake succeeds, and
then what the transport delivers is a session of its own. A reader with a buffer keeps what it has
read ahead.
-/

namespace Rsurl.Net

open Library Text
open Library.Framing (Read)

/-- Where a connection goes: a name is looked up, an address is taken as it is. -/
inductive Dest where
  | name (host : String)
  | ip (addr : IpAddr)
  deriving DecidableEq, Repr

inductive Op where
  /-- Connect, and set the timeouts: the address of the peer and our own. -/
  | dial (host : String) (port : Nat)
  /-- The TLS handshake. -/
  | handshake (host : String)
  /-- Write all of it, and flush. -/
  | send (bytes : Bytes)
  /-- Read up to a line end, through the buffer, or so many bytes. -/
  | line (cap : Nat)
  /-- Whether the reader has something in its buffer. -/
  | buffered
  /-- Take the transport out of its reader, and put it into a new one. -/
  | unwrap
  /-- Read so many bytes, past the buffer. -/
  | exact (n : Nat)
  /-- One read of at most so many bytes, past the buffer. -/
  | chunk (n : Nat)
  /-- A second connection, for data. -/
  | connect (dest : Dest) (port : Nat)
  /-- The TLS handshake on the connection for data. -/
  | secure (host : String)
  /-- Copy what comes on the connection for data into the sink, and close it. -/
  | copy
  deriving DecidableEq, Repr

abbrev Ans : Op → Type
  | .dial _ _ => Except Error (IpAddr × IpAddr)
  | .handshake _ => Except Error Unit
  | .send _ => Except Error Unit
  | .line _ => Except Error Bytes
  | .buffered => Bool
  | .unwrap => Unit
  | .exact _ => Except Error Bytes
  | .chunk _ => Except Error Bytes
  | .connect _ _ => Except Error Unit
  | .secure _ => Except Error Unit
  | .copy => Except Error Bytes

abbrev Session := Talk Op Ans Error

abbrev Event := Talk.Event Op Ans

/-- The end of a line of the line protocols. -/
def crlf : Bytes := [0x0d, 0x0a]

namespace Session

def dial (host : String) (port : Nat) : Session (IpAddr × IpAddr) := do
  Talk.ofExcept (← Talk.request (.dial host port))

def handshake (host : String) : Session Unit := do Talk.ofExcept (← Talk.request (.handshake host))

def send (bytes : Bytes) : Session Unit := do Talk.ofExcept (← Talk.request (.send bytes))

def line (cap : Nat) : Session Bytes := do Talk.ofExcept (← Talk.request (.line cap))

def buffered : Session Bool := Talk.request Op.buffered

def unwrap : Session Unit := Talk.request Op.unwrap

def exact (n : Nat) : Session Bytes := do Talk.ofExcept (← Talk.request (.exact n))

def chunk (n : Nat) : Session Bytes := do Talk.ofExcept (← Talk.request (.chunk n))

def connect (dest : Dest) (port : Nat) : Session Unit := do
  Talk.ofExcept (← Talk.request (.connect dest port))

def secure (host : String) : Session Unit := do Talk.ofExcept (← Talk.request (.secure host))

def copy : Session Bytes := do Talk.ofExcept (← Talk.request .copy)

theorem run_send {bytes : Bytes} {evs : List Event} {a : Unit} :
    (send bytes).Run evs (.ok a) ↔ evs = [⟨.send bytes, .ok ()⟩] := by
  constructor
  · rintro ⟨x, rest, rfl, h⟩
    obtain ⟨rfl, rfl⟩ := Talk.run_ofExcept.mp h
    rfl
  · rintro rfl
    exact ⟨_, [], rfl, rfl, rfl⟩

theorem run_exact {n : Nat} {evs : List Event} {got : Bytes} :
    (exact n).Run evs (.ok got) ↔ evs = [⟨.exact n, .ok got⟩] := by
  constructor
  · rintro ⟨x, rest, rfl, h⟩
    obtain ⟨rfl, rfl⟩ := Talk.run_ofExcept.mp h
    rfl
  · rintro rfl
    exact ⟨_, [], rfl, rfl, rfl⟩

theorem run_chunk {n : Nat} {evs : List Event} {got : Bytes} :
    (chunk n).Run evs (.ok got) ↔ evs = [⟨.chunk n, .ok got⟩] := by
  constructor
  · rintro ⟨x, rest, rfl, h⟩
    obtain ⟨rfl, rfl⟩ := Talk.run_ofExcept.mp h
    rfl
  · rintro rfl
    exact ⟨_, [], rfl, rfl, rfl⟩

end Session

/-! ## The world -/

/-- What a transport delivers, and how the writes to it end; later ones succeed. -/
structure Side where
  reads : List (Read Error UInt8)
  sends : List (Option Error)
  deriving DecidableEq, Repr

/-- What becomes of the connection for data. -/
structure Data where
  connected : Except Error Unit
  secured : Except Error Unit
  copied : Except Error Bytes

structure Wire where
  peers : Except Error (IpAddr × IpAddr)
  /-- What the buffer of the reader holds. -/
  buffer : Bytes
  side : Side
  secure : Bool
  /-- What is behind the handshake. -/
  session : Except Error Side
  data : Data

/-- How many bytes a bounded read up to a line end takes, if it need not wait for more. -/
def lineEnd (cap : Nat) (bytes : Bytes) : Option Nat :=
  match (bytes.take cap).findIdx? (· == 0x0a) with
  | some i => some (i + 1)
  | none => if cap ≤ bytes.length then some cap else none

/-- A stream that ends makes for a short line, and a failing read loses what was read of it. -/
def readLine (cap : Nat) : Bytes → List (Read Error UInt8) →
    Except Error Bytes × Bytes × List (Read Error UInt8)
  | buffer, reads => match lineEnd cap buffer with
    | some n => (.ok (buffer.take n), buffer.drop n, reads)
    | none => match reads with
      | [] => (.ok buffer, [], [])
      | .failed e :: rest => (.error e, [], rest)
      | .data first more :: rest => readLine cap (buffer ++ first :: more) rest

/-- Bytes of a read that nobody has taken. -/
def putBack (bytes : Bytes) (reads : List (Read Error UInt8)) : List (Read Error UInt8) :=
  match bytes with
  | [] => reads
  | b :: rest => .data b rest :: reads

def readExact : Nat → List (Read Error UInt8) → Except Error Bytes × List (Read Error UInt8)
  | 0, reads => (.ok [], reads)
  | _ + 1, [] => (.error .unexpectedEof, [])
  | _ + 1, .failed e :: rest => (.error e, rest)
  | n + 1, .data first more :: rest =>
    if n < more.length then (.ok (first :: more.take n), putBack (more.drop n) rest)
    else
      let (got, rest) := readExact (n - more.length) rest
      (got.map (first :: more ++ ·), rest)

def readChunk (n : Nat) : List (Read Error UInt8) → Except Error Bytes × List (Read Error UInt8)
  | [] => (.ok [], [])
  | .failed e :: rest => (.error e, rest)
  | .data first more :: rest =>
    (.ok ((first :: more).take n), putBack ((first :: more).drop n) rest)

def Side.write (side : Side) : Except Error Unit × Side :=
  match side.sends with
  | some e :: rest => (.error e, { side with sends := rest })
  | _ => (.ok (), { side with sends := side.sends.tail })

namespace Wire

def answer : Talk.World Op Ans Wire
  | .dial _ _, w => (w.peers, w)
  | .handshake _, w => match w.session with
    | .ok side => (.ok (), { w with side := side, secure := true })
    | .error e => (.error e, w)
  | .send _, w =>
    let (r, side) := w.side.write
    (r, { w with side := side })
  | .line cap, w =>
    let (r, buffer, reads) := readLine cap w.buffer w.side.reads
    (r, { w with buffer := buffer, side := { w.side with reads := reads } })
  | .buffered, w => (!w.buffer.isEmpty, w)
  | .unwrap, w => ((), { w with buffer := [] })
  | .exact n, w =>
    let (r, reads) := readExact n w.side.reads
    (r, { w with side := { w.side with reads := reads } })
  | .chunk n, w =>
    let (r, reads) := readChunk n w.side.reads
    (r, { w with side := { w.side with reads := reads } })
  | .connect _ _, w => (w.data.connected, w)
  | .secure _, w => (w.data.secured, w)
  | .copy, w => (w.data.copied, w)

/-- A connection that only delivers. -/
def delivering (reads : List (Read Error UInt8)) : Wire :=
  ⟨.ok (.unspecified, .unspecified), [], ⟨reads, []⟩, false, .error .unexpectedEof,
    ⟨.ok (), .ok (), .ok []⟩⟩

end Wire

/-! ## Reading past the buffer -/

/-- The bytes that the reads will bring. -/
def unread (reads : List (Read Error UInt8)) : Bytes := reads.flatMap Read.bytes

theorem unread_putBack (bytes : Bytes) (reads : List (Read Error UInt8)) :
    unread (putBack bytes reads) = bytes ++ unread reads := by
  cases bytes <;> rfl

theorem readExact_ok {n : Nat} {reads rest : List (Read Error UInt8)} {got : Bytes}
    (h : readExact n reads = (.ok got, rest)) : got.length = n ∧ unread reads = got ++ unread rest := by
  induction reads generalizing n got with
  | nil =>
    cases n with
    | zero =>
      cases h
      exact ⟨rfl, rfl⟩
    | succ n => cases h
  | cons r reads ih =>
    cases n with
    | zero =>
      cases h
      exact ⟨rfl, rfl⟩
    | succ n =>
      cases r with
      | failed e => cases h
      | data first more =>
        rw [readExact] at h
        by_cases hlong : n < more.length
        · rw [if_pos hlong] at h
          cases h
          refine ⟨by simp; omega, ?_⟩
          rw [unread_putBack, List.cons_append, ← List.append_assoc, List.take_append_drop]
          rfl
        · rw [if_neg hlong] at h
          dsimp only at h
          cases hrest : readExact (n - more.length) reads with
          | mk got' rest' =>
            rw [hrest] at h
            cases got' with
            | error e => cases h
            | ok got' =>
              cases h
              obtain ⟨hlen, hunread⟩ := ih hrest
              refine ⟨by simp [hlen]; omega, ?_⟩
              rw [List.append_assoc, ← hunread]
              rfl

theorem readChunk_ok {n : Nat} {reads rest : List (Read Error UInt8)} {got : Bytes}
    (h : readChunk n reads = (.ok got, rest)) : got.length ≤ n ∧ unread reads = got ++ unread rest := by
  cases reads with
  | nil =>
    cases h
    exact ⟨Nat.zero_le n, rfl⟩
  | cons r reads =>
    cases r with
    | failed e => cases h
    | data first more =>
      cases h
      refine ⟨List.length_take_le _ _, ?_⟩
      rw [unread_putBack, ← List.append_assoc, List.take_append_drop]
      rfl

/-- Nothing but writes, and reads past the buffer that succeed. -/
def Raw : Event → Prop
  | ⟨.send _, _⟩ => True
  | ⟨.exact _, .ok _⟩ => True
  | ⟨.chunk _, .ok _⟩ => True
  | _ => False

/-- What a read past the buffer gives. -/
def taken (evs : List Event) : Bytes :=
  evs.flatMap fun ev => match ev with
    | ⟨.exact _, .ok got⟩ => got
    | ⟨.chunk _, .ok got⟩ => got
    | _ => []

theorem taken_cons (ev : Event) (evs : List Event) : taken (ev :: evs) = taken [ev] ++ taken evs := by
  simp [taken]

def written (evs : List Event) : List Bytes :=
  evs.filterMap fun ev => match ev.op with
    | .send bytes => some bytes
    | _ => none

/-- A read gives no more than it was asked for. -/
def Sized : Event → Prop
  | ⟨.exact n, .ok got⟩ => got.length = n
  | ⟨.chunk n, .ok got⟩ => got.length ≤ n
  | _ => True

theorem Wire.answer_raw {op : Op} {w : Wire} (h : Raw ⟨op, (answer op w).1⟩) :
    Sized ⟨op, (answer op w).1⟩ ∧
      unread w.side.reads = taken [⟨op, (answer op w).1⟩] ++ unread (answer op w).2.side.reads := by
  cases op with
  | send bytes =>
    refine ⟨trivial, ?_⟩
    show unread w.side.reads = unread w.side.write.2.reads
    unfold Side.write
    split <;> rfl
  | exact n =>
    cases hr : readExact n w.side.reads with
    | mk r rest =>
      have hans : answer (.exact n) w = (r, { w with side := { w.side with reads := rest } }) := by
        rw [answer, hr]
      rw [hans] at h ⊢
      cases r with
      | error e => cases h
      | ok got =>
        obtain ⟨hlen, hunread⟩ := readExact_ok hr
        exact ⟨hlen, by simpa [taken] using hunread⟩
  | chunk n =>
    cases hr : readChunk n w.side.reads with
    | mk r rest =>
      have hans : answer (.chunk n) w = (r, { w with side := { w.side with reads := rest } }) := by
        rw [answer, hr]
      rw [hans] at h ⊢
      cases r with
      | error e => cases h
      | ok got =>
        obtain ⟨hlen, hunread⟩ := readChunk_ok hr
        exact ⟨hlen, by simpa [taken] using hunread⟩
  | dial host port => cases h
  | handshake host => cases h
  | line cap => cases h
  | buffered => cases h
  | unwrap => cases h
  | connect dest port => cases h
  | secure host => cases h
  | copy => cases h

/-- A program that reads past the buffer takes what it is given from the front, and no more. -/
theorem events_raw {ε α : Type} (t : Talk Op Ans ε α) (w : Wire)
    (h : ∀ ev ∈ t.events Wire.answer w, Raw ev) :
    (∀ ev ∈ t.events Wire.answer w, Sized ev) ∧ unread w.side.reads =
      taken (t.events Wire.answer w) ++ unread (t.exec Wire.answer w).state.side.reads := by
  induction t generalizing w with
  | done a => exact ⟨fun ev hev => absurd hev List.not_mem_nil, rfl⟩
  | fail e => exact ⟨fun ev hev => absurd hev List.not_mem_nil, rfl⟩
  | ask op next ih =>
    obtain ⟨hfirst, htaken⟩ := Wire.answer_raw (h _ (.head _))
    obtain ⟨hrest, hunread⟩ := ih _ _ fun ev hev => h ev (.tail _ hev)
    refine ⟨fun ev hev => ?_, ?_⟩
    · rcases List.mem_cons.mp hev with rfl | hev
      · exact hfirst
      · exact hrest ev hev
    · rw [htaken, hunread, ← List.append_assoc, ← taken_cons]
      rfl

end Rsurl.Net

/-!
## Reads that do not fail

A transport that only delivers: how its bytes are cut into reads makes no difference to who reads so
many bytes, or as many as there are.
-/

namespace Rsurl.Net

open Library.Framing (Read)

/-- `Read::take` and `read_to_end`: so many bytes, or as many as there are. -/
def readUpTo : Nat → List (Read Error UInt8) → Except Error Bytes × List (Read Error UInt8)
  | 0, reads => (.ok [], reads)
  | _ + 1, [] => (.ok [], [])
  | _ + 1, .failed e :: rest => (.error e, rest)
  | n + 1, .data first more :: rest =>
    if n < more.length then (.ok (first :: more.take n), putBack (more.drop n) rest)
    else
      let (got, rest) := readUpTo (n - more.length) rest
      (got.map (first :: more ++ ·), rest)

/-- No read fails. -/
def Delivers (reads : List (Read Error UInt8)) : Prop := ∀ e, Read.failed e ∉ reads

variable {reads : List (Read Error UInt8)} {n : Nat}

theorem Delivers.tail {r : Read Error UInt8} (h : Delivers (r :: reads)) : Delivers reads :=
  fun e he => h e (List.mem_cons_of_mem _ he)

theorem Delivers.putBack (h : Delivers reads) (bytes : Bytes) : Delivers (putBack bytes reads) := by
  cases bytes with
  | nil => exact h
  | cons b bytes =>
    intro e he
    rcases List.mem_cons.mp he with heq | he
    · cases heq
    · exact h e he

theorem unread_data (first : UInt8) (more : Bytes) (reads : List (Read Error UInt8)) :
    unread (.data first more :: reads) = first :: (more ++ unread reads) := rfl

theorem readUpTo_eq (h : Delivers reads) (n : Nat) :
    ∃ rest, readUpTo n reads = (.ok ((unread reads).take n), rest) ∧ Delivers rest ∧
      unread rest = (unread reads).drop n := by
  fun_induction readUpTo n reads with
  | case1 reads => exact ⟨reads, rfl, h, rfl⟩
  | case2 n => exact ⟨[], rfl, h, rfl⟩
  | case3 n e rest => exact (h e List.mem_cons_self).elim
  | case4 n first more rest hlt =>
    refine ⟨Net.putBack (more.drop n) rest, ?_, h.tail.putBack _, ?_⟩
    · rw [unread_data, List.take_succ_cons, List.take_append_of_le_length hlt.le]
    · rw [unread_putBack, unread_data, List.drop_succ_cons, List.drop_append_of_le_length hlt.le]
  | case5 n first more reads hlt got rest heq ih =>
    obtain ⟨rest', hread, hdel, hunread⟩ := ih h.tail
    rw [heq] at hread
    cases hread
    refine ⟨rest, ?_, hdel, ?_⟩
    · rw [unread_data, List.take_succ_cons, List.take_append,
        List.take_of_length_le (Nat.le_of_not_lt hlt)]
      rfl
    · rw [hunread, unread_data, List.drop_succ_cons, List.drop_append,
        List.drop_of_length_le (Nat.le_of_not_lt hlt), List.nil_append]

/-- What is there is read the same way when it has to be. -/
theorem readExact_eq_readUpTo (hn : n ≤ (unread reads).length) :
    readExact n reads = readUpTo n reads := by
  induction reads generalizing n with
  | nil =>
    cases n with
    | zero => rfl
    | succ n => simp [unread] at hn
  | cons r reads ih =>
    cases n with
    | zero => rfl
    | succ n =>
      cases r with
      | failed e => rfl
      | data first more =>
        rw [unread_data, List.length_cons, List.length_append] at hn
        rw [readExact, readUpTo]
        split
        · rfl
        · rw [ih (by omega)]

theorem readExact_of_le (h : Delivers reads) (hn : n ≤ (unread reads).length) :
    ∃ rest, readExact n reads = (.ok ((unread reads).take n), rest) ∧ Delivers rest ∧
      unread rest = (unread reads).drop n := by
  rw [readExact_eq_readUpTo hn]
  exact readUpTo_eq h n

theorem readExact_of_lt (h : Delivers reads) (hn : (unread reads).length < n) :
    ∃ rest, readExact n reads = (.error .unexpectedEof, rest) := by
  fun_induction readExact n reads with
  | case1 reads => exact (Nat.not_lt_zero _ hn).elim
  | case2 n => exact ⟨_, rfl⟩
  | case3 n e rest => exact (h e List.mem_cons_self).elim
  | case4 n first more rest hlt =>
    rw [unread_data, List.length_cons, List.length_append] at hn
    omega
  | case5 n first more reads hlt got rest heq ih =>
    rw [unread_data, List.length_cons, List.length_append] at hn
    obtain ⟨rest', hread⟩ := ih h.tail (by omega)
    rw [heq] at hread
    cases hread
    exact ⟨_, rfl⟩

end Rsurl.Net
