import Rsurl.Tmpfile.Blob

/-!
# A blob is a byte vector

What a blob is for: a plain byte vector with a cursor. Every operation of a blob answers what the
vector answers, wherever the bytes are and whenever they move; only when the anonymous file cannot be
created or filled does an operation fail that would not fail on a vector, and then it changes nothing.
-/

namespace Rsurl.Tmpfile

open Library

/-- A byte vector with a cursor. -/
structure PlainVec where
  bytes : Bytes
  pos : Nat
  deriving DecidableEq, Repr

inductive Op where
  | writeAt (start : UInt64) (buf : Bytes)
  | write (buf : Bytes)
  | setLen (n : UInt64)
  | clear
  | spill
  | readAt (want : Nat) (start : UInt64)
  | seek (target : SeekFrom)
  | read (want : Nat)
  | toVec
  deriving DecidableEq, Repr

inductive Reply where
  | done
  | count (n : Nat)
  | data (bytes : Bytes)
  deriving DecidableEq, Repr

namespace PlainVec

/-- A write grows the vector with zeros if it has to; an empty one changes nothing. -/
def writeAt (start : Nat) (buf : Bytes) (v : PlainVec) : Outcome PlainVec Unit :=
  if buf.isEmpty then .ok () v
  else if wordLimit ≤ start + buf.length then .error offsetOverflow v
  else
    let room := v.bytes.takeD (max v.bytes.length (start + buf.length)) 0
    .ok () { v with bytes := copyFromSlice room start buf }

def readAt (v : PlainVec) (want start : Nat) : Bytes := (v.bytes.drop start).take want

/-- The cursor goes where the sum points, if that is a `u64`. -/
def seek (target : SeekFrom) (v : PlainVec) : Outcome PlainVec Nat :=
  let p : Int := match target with
    | .start n => n.toNat
    | .fromEnd d => v.bytes.length + d.toInt
    | .current d => v.pos + d.toInt
  if 0 ≤ p ∧ p < wordLimit then .ok p.toNat { v with pos := p.toNat } else .error badSeek v

def apply (op : Op) (v : PlainVec) : Outcome PlainVec Reply :=
  match op with
  | .writeAt start buf => (v.writeAt start.toNat buf).andThen fun _ v => .ok .done v
  | .write buf => (v.writeAt v.bytes.length buf).andThen fun _ v => .ok (.count buf.length) v
  | .setLen n => .ok .done { v with bytes := v.bytes.takeD n.toNat 0 }
  | .clear => .ok .done { v with bytes := [] }
  | .spill => .ok .done v
  | .readAt want start => .ok (.data (v.readAt want start.toNat)) v
  | .seek target => (v.seek target).andThen fun p v => .ok (.count p) v
  | .read want =>
    let data := v.readAt want v.pos
    .ok (.data data) { v with pos := v.pos + data.length }
  | .toVec => .ok (.data v.bytes) v

/-- A vector that is told which operations are refused, and with what error. -/
def run : List (Op × Option Error) → PlainVec → List (Except Error Reply) × PlainVec
  | [], v => ([], v)
  | (_, some e) :: rest, v => ((.error e) :: (run rest v).1, (run rest v).2)
  | (op, none) :: rest, v =>
    let r := v.apply op
    (r.result :: (run rest r.state).1, (run rest r.state).2)

end PlainVec

/-- A call of an operation, with what creating and filling the file answers if it comes to that. -/
structure Call where
  op : Op
  fill : Except Error Unit

namespace TempBlob

def apply (c : Call) (b : TempBlob) : Outcome TempBlob Reply :=
  match c.op with
  | .writeAt start buf => (b.writeAt c.fill start.toNat buf).andThen fun _ b => .ok .done b
  | .write buf => (b.write c.fill buf).andThen fun n b => .ok (.count n) b
  | .setLen n => (b.setLen c.fill n.toNat).andThen fun _ b => .ok .done b
  | .clear => (b.clear c.fill).andThen fun _ b => .ok .done b
  | .spill => (b.spill c.fill).andThen fun _ b => .ok .done b
  | .readAt want start =>
    (Outcome.ofExcept (b.readAt want start.toNat) b).andThen fun data b => .ok (.data data) b
  | .seek target => (b.seek target).andThen fun p b => .ok (.count p) b
  | .read want => (b.read want).andThen fun data b => .ok (.data data) b
  | .toVec => (Outcome.ofExcept b.toVec b).andThen fun data b => .ok (.data data) b

def run : List Call → TempBlob → List (Except Error Reply) × TempBlob
  | [], b => ([], b)
  | c :: rest, b =>
    let r := b.apply c
    (r.result :: (run rest r.state).1, (run rest r.state).2)

end TempBlob

/-! ## One operation -/

/-- The blob holds the bytes and the cursor of the vector. -/
structure Represents (b : TempBlob) (v : PlainVec) : Prop where
  bytes : b.inner.bytes = v.bytes
  len : b.len = v.bytes.length
  pos : b.pos = v.pos
  bounded : v.bytes.length < wordLimit
  cursor : v.pos < wordLimit

theorem usizeLen_ok {n : Nat} (h : n < wordLimit) : usizeLen n = .ok n := if_pos h

theorem writeAllAt_eq (f : Bytes) (start : Nat) (buf : Bytes) :
    writeAllAt f start buf = copyFromSlice (f.takeD (max f.length (start + buf.length)) 0) start buf := by
  have hlen : (f.takeD (max f.length (start + buf.length)) 0).length =
      max f.length (start + buf.length) := List.takeD_length ..
  rw [copyFromSlice, ← Extent.writeAt_of_le 0 (by omega), writeAllAt]
  by_cases h : f.length ≤ start + buf.length
  · rw [Nat.max_eq_right h, Extent.writeAt_takeD 0 h le_rfl]
  · rw [Nat.max_eq_left (by omega), List.takeD_eq_take 0 le_rfl, List.take_length]

/-- Moving the bytes to a file does not change them; it fails only if the file does. -/
theorem spillLocked_cases (fill : Except Error Unit) (inner : Backing) :
    (∃ moved, spillLocked fill inner = .ok moved ∧ moved.bytes = inner.bytes) ∨
      ∃ e, fill = .error e ∧ spillLocked fill inner = .error e := by
  cases inner with
  | file f => exact .inl ⟨_, rfl, rfl⟩
  | mem v =>
    cases fill with
    | error e => exact .inr ⟨e, rfl, rfl⟩
    | ok u =>
      refine .inl ⟨_, rfl, ?_⟩
      cases v with
      | nil => rfl
      | cons x rest => exact Extent.writeAt_zero 0 (x :: rest)

namespace Represents

variable {b : TempBlob} {v : PlainVec}

theorem withInner (h : Represents b v) {inner : Backing} (hi : inner.bytes = b.inner.bytes) :
    Represents { b with inner } v :=
  ⟨hi.trans h.bytes, h.len, h.pos, h.bounded, h.cursor⟩

theorem spillFor (h : Represents b v) (fill : Except Error Unit) (n : Nat) :
    (∃ moved, b.spillFor fill n = .ok () moved ∧ Represents moved v) ∨
      ∃ e, fill = .error e ∧ b.spillFor fill n = .error e b := by
  unfold TempBlob.spillFor
  cases hi : b.inner with
  | file f => exact .inl ⟨b, rfl, h⟩
  | mem w =>
    by_cases hn : n > b.threshold
    · simp only [if_pos hn, TempBlob.spill]
      rcases spillLocked_cases fill b.inner with ⟨moved, hs, hm⟩ | ⟨e, he, hs⟩
      · exact .inl ⟨_, by rw [hs], h.withInner hm⟩
      · exact .inr ⟨e, he, by rw [hs]⟩
    · exact .inl ⟨b, if_neg hn, h⟩

theorem setBytes (h : Represents b v) {inner : Backing} {bytes : Bytes} {n : Nat}
    (hi : inner.bytes = bytes) (hn : bytes.length = n) (hlt : n < wordLimit) :
    Represents { b with inner, len := n } { v with bytes } :=
  ⟨hi, hn.symm, h.pos, hn ▸ hlt, h.cursor⟩

end Represents

/-- Under the lock the bytes are written as into a vector. -/
theorem writeLocked_spec (b : TempBlob) {start last : Nat} {buf : Bytes}
    (hlast : last = start + buf.length) (hlt : last < wordLimit) :
    ∃ inner, b.writeLocked start buf last = .ok () { b with inner } ∧ inner.bytes =
      copyFromSlice (b.inner.bytes.takeD (max b.inner.bytes.length last) 0) start buf := by
  subst hlast
  unfold TempBlob.writeLocked
  cases hi : b.inner with
  | file f => exact ⟨_, rfl, writeAllAt_eq f start buf⟩
  | mem w =>
    have hstart : usizeLen start = .ok start := usizeLen_ok (by omega)
    by_cases hw : w.length < start + buf.length
    · refine ⟨_, by simp [hw, usizeLen_ok hlt, hstart, Except.map]; rfl, ?_⟩
      rw [Backing.bytes, Backing.bytes, Nat.max_eq_right hw.le]
    · refine ⟨_, by simp [hw, hstart]; rfl, ?_⟩
      rw [Backing.bytes, Backing.bytes, Nat.max_eq_left (by omega), List.takeD_eq_take 0 le_rfl,
        List.take_length]

/-- What an operation of a blob comes to: what the vector does, or nothing, when the file fails. -/
def Follows (fill : Except Error Unit) {α : Type} (b : TempBlob) (v : PlainVec)
    (r : Outcome TempBlob α) (s : Outcome PlainVec α) : Prop :=
  Outcome.Rel Represents r s ∨ Represents b v ∧ ∃ e, fill = .error e ∧ r = .error e b

section

variable {b : TempBlob} {v : PlainVec} {fill : Except Error Unit}

theorem length_copyFromSlice {w buf : Bytes} {start : Nat} (h : start + buf.length ≤ w.length) :
    (copyFromSlice w start buf).length = w.length := by
  simp only [copyFromSlice, List.length_append, List.length_take, List.length_drop]
  omega

theorem follows_writeAt (h : Represents b v) (start : Nat) (buf : Bytes) :
    Follows fill b v (b.writeAt fill start buf) (v.writeAt start buf) := by
  unfold TempBlob.writeAt PlainVec.writeAt
  by_cases hempty : buf.isEmpty
  · simp only [if_pos hempty]
    exact .inl (.ok h)
  simp only [if_neg hempty]
  by_cases hover : wordLimit ≤ start + buf.length
  · simp only [if_pos hover]
    exact .inl (.error h)
  simp only [if_neg hover]
  have hlt : start + buf.length < wordLimit := Nat.lt_of_not_le hover
  -- Wherever the bytes are after a possible spill, they are written the same way.
  have hwritten : ∀ moved : TempBlob, Represents moved v → Outcome.Rel Represents
      ((moved.writeLocked start buf (start + buf.length)).andThen fun _ b =>
        .ok () (b.growTo (start + buf.length)))
      (.ok () ⟨copyFromSlice (v.bytes.takeD (max v.bytes.length (start + buf.length)) 0) start buf,
        v.pos⟩) := by
    intro moved hm
    obtain ⟨inner, hw, hbytes⟩ := writeLocked_spec moved rfl hlt
    have hlen : (copyFromSlice (v.bytes.takeD (max v.bytes.length (start + buf.length)) 0) start
        buf).length = max v.bytes.length (start + buf.length) := by
      rw [length_copyFromSlice (by rw [List.takeD_length]; omega), List.takeD_length]
    have hgrown : moved.len = v.bytes.length := hm.len
    rw [hm.bytes] at hbytes
    rw [hw]
    refine .ok ?_
    simp only [TempBlob.growTo, hgrown]
    exact hm.setBytes hbytes hlen (by have := hm.bounded; omega)
  cases hi : b.inner with
  | file f =>
    have := hwritten b h
    simp only [TempBlob.writeLocked, hi, Outcome.andThen] at this
    exact .inl this
  | mem w =>
    simp only
    rcases h.spillFor fill (start + buf.length) with ⟨moved, hs, hm⟩ | ⟨e, he, hs⟩
    · rw [hs]
      exact .inl (hwritten moved hm)
    · exact .inr ⟨h, e, he, by rw [hs]; rfl⟩

theorem follows_setLen (h : Represents b v) {n : Nat} (hn : n < wordLimit) :
    Follows fill b v (b.setLen fill n) (.ok () { v with bytes := v.bytes.takeD n 0 }) := by
  unfold TempBlob.setLen
  rcases h.spillFor fill n with ⟨moved, hs, hm⟩ | ⟨e, he, hs⟩
  · refine .inl ?_
    have hlen : (v.bytes.takeD n 0).length = n := List.takeD_length ..
    rw [hs, Outcome.andThen]
    have hbytes := hm.bytes
    cases hi : moved.inner with
    | file f =>
      rw [hi] at hbytes
      exact .ok (hm.setBytes (congrArg (List.takeD n · 0) hbytes) hlen hn)
    | mem w =>
      rw [hi] at hbytes
      simp only [usizeLen_ok hn, Outcome.ofExcept, Outcome.andThen]
      exact .ok (hm.setBytes (congrArg (List.takeD n · 0) hbytes) hlen hn)
  · exact .inr ⟨h, e, he, by rw [hs]; rfl⟩

theorem follows_spill (h : Represents b v) : Follows fill b v (b.spill fill) (.ok () v) := by
  unfold TempBlob.spill
  rcases spillLocked_cases fill b.inner with ⟨moved, hs, hm⟩ | ⟨e, he, hs⟩
  · rw [hs]
    exact .inl (.ok (h.withInner hm))
  · exact .inr ⟨h, e, he, by rw [hs]⟩

theorem readAt_eq (h : Represents b v) (want start : Nat) :
    b.readAt want start = .ok (v.readAt want start) := by
  unfold TempBlob.readAt PlainVec.readAt
  have hbound := h.bounded
  have hbytes := h.bytes
  rw [h.len]
  by_cases hnone : want = 0 ∨ v.bytes.length ≤ start
  · rw [if_pos hnone]
    rcases hnone with rfl | hle
    · simp
    · rw [List.drop_eq_nil_of_le hle, List.take_nil]
  obtain ⟨-, hlt⟩ := not_or.mp hnone
  have hmod : (v.bytes.length - start) % wordLimit = v.bytes.length - start :=
    Nat.mod_eq_of_lt (by omega)
  have hcap : (v.bytes.drop start).take (min (v.bytes.length - start) want) =
      (v.bytes.drop start).take want := by
    rw [Nat.min_comm, ← List.take_take, ← List.length_drop, List.take_length]
  simp only [if_neg hnone, hmod]
  cases hi : b.inner with
  | file f =>
    rw [hi] at hbytes
    cases hbytes
    exact congrArg _ hcap
  | mem w =>
    rw [hi] at hbytes
    cases hbytes
    have husize : usizeLen start = .ok start := usizeLen_ok (by omega)
    have hmin : min (min (v.bytes.length - start) want) (v.bytes.length - start) =
        min (v.bytes.length - start) want := by omega
    simp only [husize, Except.map]
    rw [hmin]
    exact congrArg _ hcap

theorem toVec_eq (h : Represents b v) : b.toVec = .ok v.bytes := by
  have hlen := h.len
  unfold TempBlob.toVec
  rw [hlen, usizeLen_ok h.bounded, Except.bind]
  -- The first turn reads everything, the second finds nothing left to read.
  have hend : b.toVecTurn v.bytes.length v.bytes = .done (.ok v.bytes) := by
    rw [TempBlob.toVecTurn, if_neg (lt_irrefl _)]
  cases hv : v.bytes with
  | nil =>
    rw [hv] at hend
    exact Loop.run_done hend
  | cons x rest =>
    have hfirst : b.toVecTurn v.bytes.length [] = .next v.bytes := by
      have hread := readAt_eq h v.bytes.length 0
      rw [PlainVec.readAt, List.drop_zero, List.take_length] at hread
      unfold TempBlob.toVecTurn
      rw [if_pos (by rw [hv]; simp), List.length_nil, Nat.sub_zero, hread, hv]
      rfl
    rw [← hv]
    exact (Loop.run_next hfirst).trans (Loop.run_done hend)

theorem offset_eq {base : Nat} (hbase : base < wordLimit) (delta : Int) :
    offset base delta = if 0 ≤ base + delta ∧ base + delta < wordLimit then
      some (base + delta).toNat else none := by
  unfold offset
  by_cases hd : 0 ≤ delta
  · rw [if_pos hd]
    by_cases hlt : base + delta.toNat < wordLimit
    · rw [if_pos hlt, if_pos (by omega)]
      congr 1
      omega
    · rw [if_neg hlt, if_neg (by omega)]
  · rw [if_neg hd]
    by_cases hle : delta.natAbs ≤ base
    · rw [if_pos hle, if_pos (by omega)]
      congr 1
      omega
    · rw [if_neg hle, if_neg (by omega)]

theorem rel_seek (h : Represents b v) (target : SeekFrom) :
    Outcome.Rel Represents (b.seek target) (v.seek target) := by
  have hpos {p : Nat} (hp : p < wordLimit) : Represents { b with pos := p } { v with pos := p } :=
    ⟨h.bytes, h.len, rfl, h.bounded, hp⟩
  unfold TempBlob.seek PlainVec.seek
  cases target with
  | start n =>
    have hn : (0 : Int) ≤ n.toNat ∧ (n.toNat : Int) < wordLimit := by
      have := n.toNat_lt
      simp only [wordLimit]
      omega
    simp only [if_pos hn, Int.toNat_natCast]
    exact .ok (hpos (by omega))
  | fromEnd d =>
    have hoffset := offset_eq h.bounded d.toInt
    rw [← h.len] at hoffset
    simp only [hoffset, ← h.len]
    by_cases hp : 0 ≤ (b.len : Int) + d.toInt ∧ (b.len : Int) + d.toInt < wordLimit
    · simp only [if_pos hp]
      exact .ok (hpos (by omega))
    · simp only [if_neg hp]
      exact .error h
  | current d =>
    have hoffset := offset_eq h.cursor d.toInt
    rw [← h.pos] at hoffset
    simp only [hoffset, ← h.pos]
    by_cases hp : 0 ≤ (b.pos : Int) + d.toInt ∧ (b.pos : Int) + d.toInt < wordLimit
    · simp only [if_pos hp]
      exact .ok (hpos (by omega))
    · simp only [if_neg hp]
      exact .error h

theorem Follows.andThen {α β : Type} {r : Outcome TempBlob α} {s : Outcome PlainVec α}
    {f : α → TempBlob → Outcome TempBlob β} {g : α → PlainVec → Outcome PlainVec β}
    (h : Follows fill b v r s) (hf : ∀ a b v, Represents b v → Outcome.Rel Represents (f a b) (g a v)) :
    Follows fill b v (r.andThen f) (s.andThen g) := by
  rcases h with h | ⟨hr, e, he, rfl⟩
  · exact .inl (h.andThen hf)
  · exact .inr ⟨hr, e, he, rfl⟩

/-- The step lemma: one case for each operation. -/
theorem follows_apply (h : Represents b v) (c : Call) :
    Follows c.fill b v (b.apply c) (v.apply c.op) := by
  unfold TempBlob.apply PlainVec.apply
  cases c.op with
  | writeAt start buf => exact (follows_writeAt h _ buf).andThen fun _ _ _ h => .ok h
  | write buf =>
    simp only [TempBlob.write, h.len, Outcome.andThen_assoc]
    exact (follows_writeAt h _ buf).andThen fun _ _ _ h => .ok h
  | setLen n => exact (follows_setLen h n.toNat_lt).andThen fun _ _ _ h => .ok h
  | clear =>
    have hclear : Follows c.fill b v (b.setLen c.fill 0) _ :=
      follows_setLen h (by decide : 0 < wordLimit)
    rw [List.takeD_zero] at hclear
    exact hclear.andThen fun _ _ _ h => .ok h
  | spill => exact (follows_spill h).andThen fun _ _ _ h => .ok h
  | readAt want start =>
    simp only [readAt_eq h]
    exact .inl (.ok h)
  | seek target => exact .inl ((rel_seek h target).andThen fun _ _ _ h => .ok h)
  | read want =>
    simp only [TempBlob.read, readAt_eq h, ← h.pos]
    refine .inl (.ok ⟨h.bytes, h.len, rfl, h.bounded, ?_⟩)
    rw [h.pos]
    have hbound := h.bounded
    have hcursor := h.cursor
    simp only [PlainVec.readAt, List.length_take, List.length_drop]
    omega
  | toVec =>
    simp only [toVec_eq h]
    exact .inl (.ok h)

end

/-! ## Whole runs -/

theorem represents_new (threshold : Nat) :
    Represents (TempBlob.withThreshold threshold) ⟨[], 0⟩ :=
  ⟨rfl, rfl, rfl, by decide, by decide⟩

/-- How the vector is told of a call: as refused only if the file could not be created or filled. -/
def Call.Told (c : Call) (told : Op × Option Error) : Prop :=
  told.1 = c.op ∧ ∀ e, told.2 = some e → c.fill = .error e

theorem run_follows {b : TempBlob} {v : PlainVec} (h : Represents b v) (calls : List Call) :
    ∃ told, List.Forall₂ Call.Told calls told ∧ (b.run calls).1 = (v.run told).1 ∧
      Represents (b.run calls).2 (v.run told).2 := by
  induction calls generalizing b v with
  | nil => exact ⟨[], .nil, rfl, h⟩
  | cons c rest ih =>
    rcases follows_apply h c with hrel | ⟨-, e, he, hr⟩
    · obtain ⟨told, htold, hreplies, hrest⟩ := ih hrel.state
      refine ⟨(c.op, none) :: told, .cons ⟨rfl, by simp⟩ htold, ?_, hrest⟩
      simp only [TempBlob.run, PlainVec.run, hrel.result, hreplies]
    · obtain ⟨told, htold, hreplies, hrest⟩ := ih h
      refine ⟨(c.op, some e) :: told, .cons ⟨rfl, by simpa using he⟩ htold, ?_, ?_⟩
      · simp only [TempBlob.run, PlainVec.run, hr, Outcome.result, Outcome.state, hreplies]
      · simpa only [TempBlob.run, PlainVec.run, hr, Outcome.state] using hrest

/-- For every threshold and every sequence of calls a blob answers as a byte vector does, and holds
its bytes, their number and its cursor at the end. Calls that spill when the file cannot be created
or filled fail with that error, and the vector is left out of them. -/
theorem blob_refines_vec (threshold : Nat) (calls : List Call) :
    ∃ told, List.Forall₂ Call.Told calls told ∧
      ((TempBlob.withThreshold threshold).run calls).1 = (PlainVec.run told ⟨[], 0⟩).1 ∧
      Represents ((TempBlob.withThreshold threshold).run calls).2 (PlainVec.run told ⟨[], 0⟩).2 :=
  run_follows (represents_new threshold) calls

/-- A write across the threshold, with a file and without one. -/
example : (TempBlob.run [⟨.write [1, 2], .ok ()⟩, ⟨.writeAt 3 [4], .error (.io .other "")⟩,
    ⟨.writeAt 3 [4], .ok ()⟩, ⟨.toVec, .ok ()⟩] (.withThreshold 3)).1 =
      [.ok (.count 2), .error (.io .other ""), .ok .done, .ok (.data [1, 2, 0, 4])] := by
  decide

end Rsurl.Tmpfile
