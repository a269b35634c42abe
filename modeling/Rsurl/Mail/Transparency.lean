import Rsurl.Library.LineEnds
import Rsurl.Mail.Pop3
import Rsurl.Net.Resumed

/-!
# The message on the wire

A message is sent line by line and ended by a line of a single dot, so that a line that begins with
one gets another. What SMTP sends is read back whole, up to the line ends that are made whole on the
way out. POP3 reads line by line, each line up to LF, and takes the dots off at the end.
-/

namespace Rsurl.Mail.Smtp

open Library Library.Stuffing

/-- Who receives a message: it is cut at CRLF, ends at the line of a single dot, and the dot that
begins another line is taken off. -/
def recv (stream : Bytes) : Option (Bytes × Bytes) := receive 0x0d 0x0a 0x2e stream

/-- CRLF for LF, if there is no CR before it; the last byte before is known. -/
def crlfEnds (last : Option UInt8) : Bytes → Bytes
  | [] => []
  | b :: rest =>
    (if b = 0x0a ∧ last ≠ some 0x0d then [0x0d, 0x0a] else [b]) ++ crlfEnds (some b) rest

/-- A line end behind a text that is not empty and does not end in one. -/
def ended (text : Bytes) : Bytes :=
  if text = [] ∨ [0x0d, 0x0a] <:+ text then text else text ++ [0x0d, 0x0a]

/-! ## Line by line -/

variable {line rest : Bytes} {last : Option UInt8}

/-- The line end that is sent behind this byte. -/
def lineFeed (last : Option UInt8) : Bytes := if last = some 0x0d then [0x0a] else [0x0d, 0x0a]

theorem dotStuffFrom_line (h : 0x0a ∉ line) (lineStart : Bool) (last : Option UInt8)
    (rest : Bytes) : dotStuffFrom lineStart last (line ++ 0x0a :: rest) =
      (if lineStart then stuff 0x2e line else line) ++ lineFeed (line.getLast?.or last) ++
        dotStuffFrom true (some 0x0a) rest := by
  induction line generalizing lineStart last with
  | nil => cases lineStart <;> rfl
  | cons b line ih =>
    obtain ⟨hb, hline⟩ := List.ne_and_not_mem_of_not_mem_cons h
    have hlast : (b :: line).getLast?.or last = line.getLast?.or (some b) := by
      cases line <;> simp [List.getLast?_cons]
    rw [List.cons_append, dotStuffFrom, if_neg hb.symm, ih hline, hlast]
    cases lineStart
    · simp
    · by_cases hdot : b = 0x2e <;> simp [stuff, hdot]

theorem dotStuffFrom_last (h : 0x0a ∉ line) (lineStart : Bool) (last : Option UInt8) :
    dotStuffFrom lineStart last line = if lineStart then stuff 0x2e line else line := by
  induction line generalizing lineStart last with
  | nil => cases lineStart <;> rfl
  | cons b line ih =>
    obtain ⟨hb, hline⟩ := List.ne_and_not_mem_of_not_mem_cons h
    rw [dotStuffFrom, if_neg hb.symm, ih hline]
    cases lineStart
    · simp
    · by_cases hdot : b = 0x2e <;> simp [stuff, hdot]

theorem crlfEnds_line (h : 0x0a ∉ line) (last : Option UInt8) (rest : Bytes) :
    crlfEnds last (line ++ 0x0a :: rest) =
      line ++ lineFeed (line.getLast?.or last) ++ crlfEnds (some 0x0a) rest := by
  induction line generalizing last with
  | nil => by_cases hlast : last = some 0x0d <;> simp [crlfEnds, lineFeed, hlast]
  | cons b line ih =>
    obtain ⟨hb, hline⟩ := List.ne_and_not_mem_of_not_mem_cons h
    have hlast : (b :: line).getLast?.or last = line.getLast?.or (some b) := by
      cases line <;> simp [List.getLast?_cons]
    rw [List.cons_append, crlfEnds, if_neg fun hlf => hb hlf.1.symm, ih hline, hlast]
    simp

theorem crlfEnds_last (h : 0x0a ∉ line) (last : Option UInt8) : crlfEnds last line = line := by
  induction line generalizing last with
  | nil => rfl
  | cons b line ih =>
    obtain ⟨hb, hline⟩ := List.ne_and_not_mem_of_not_mem_cons h
    rw [crlfEnds, if_neg fun hlf => hb hlf.1.symm, ih hline]
    rfl

/-- A line up to LF is sent as a line up to CRLF: the CR before the LF is not part of it. -/
theorem whole_line (h : 0x0a ∉ line) (hlast : last ≠ some 0x0d) : ∃ whole : Bytes, 0x0a ∉ whole ∧
    ∀ rest, dotStuffFrom true last (line ++ 0x0a :: rest) =
        stuff 0x2e whole ++ 0x0d :: 0x0a :: dotStuffFrom true (some 0x0a) rest ∧
      crlfEnds last (line ++ 0x0a :: rest) =
        whole ++ 0x0d :: 0x0a :: crlfEnds (some 0x0a) rest := by
  rcases List.eq_nil_or_concat' line with rfl | ⟨front, b, rfl⟩
  · refine ⟨[], h, fun rest => ⟨?_, ?_⟩⟩
    · rw [dotStuffFrom_line h]
      simp [stuff, lineFeed, hlast]
    · rw [crlfEnds_line h]
      simp [lineFeed, hlast]
  · have hend : (front ++ [b]).getLast?.or last = some b := by simp
    by_cases hb : b = 0x0d
    · subst hb
      have hstuff : stuff 0x2e (front ++ [0x0d]) = stuff 0x2e front ++ [0x0d] := by
        cases front with
        | nil => rfl
        | cons c front => by_cases hc : c = 0x2e <;> simp [stuff, hc]
      refine ⟨front, fun hmem => h (List.mem_append_left _ hmem), fun rest => ⟨?_, ?_⟩⟩
      · rw [dotStuffFrom_line h, hend, if_pos rfl, hstuff]
        simp [lineFeed]
      · rw [crlfEnds_line h, hend]
        simp [lineFeed]
    · refine ⟨front ++ [b], h, fun rest => ⟨?_, ?_⟩⟩
      · rw [dotStuffFrom_line h, hend]
        simp [lineFeed, hb]
      · rw [crlfEnds_line h, hend]
        simp [lineFeed, hb]

/-! ## The end -/

/-- Behind a line end, a text ends in one if it is empty or does so itself. -/
theorem ends_append (front rest : Bytes) :
    [0x0d, 0x0a] <:+ front ++ 0x0d :: 0x0a :: rest ↔ rest = [] ∨ [0x0d, 0x0a] <:+ rest := by
  constructor
  · rintro ⟨start, hstart⟩
    rcases List.eq_nil_or_concat rest with rfl | ⟨rest, b, rfl⟩
    · exact .inl rfl
    · rcases List.eq_nil_or_concat rest with rfl | ⟨rest, a, rfl⟩
      · have h := congrArg List.reverse hstart
        simp at h
      · have h := congrArg List.reverse hstart
        simp at h
        exact .inr ⟨rest, by simp [← h.1, ← h.2.1]⟩
  · rintro (rfl | ⟨start, rfl⟩)
    · exact List.suffix_append front _
    · exact ⟨front ++ 0x0d :: 0x0a :: start, by simp⟩

theorem endOfData_append (front rest : Bytes) :
    endOfData (front ++ 0x0d :: 0x0a :: rest) = endOfData rest := by
  unfold endOfData
  congr 1
  rw [eq_iff_iff, Bool.or_eq_true, Bool.or_eq_true, List.isSuffixOf_iff_suffix,
    List.isSuffixOf_iff_suffix, ends_append]
  simp

theorem ended_append (front rest : Bytes) :
    ended (front ++ 0x0d :: 0x0a :: rest) = front ++ 0x0d :: 0x0a :: ended rest := by
  have hne : front ++ 0x0d :: 0x0a :: rest ≠ [] := by simp
  have hends := ends_append front rest
  unfold ended
  by_cases h : rest = [] ∨ [0x0d, 0x0a] <:+ rest
  · rw [if_pos (.inr (hends.mpr h)), if_pos h]
  · rw [if_neg (not_or.mpr ⟨hne, mt hends.mp h⟩), if_neg h]
    simp

theorem not_ends (h : 0x0a ∉ line) : ¬[0x0d, 0x0a] <:+ line := fun hsuffix =>
  h (hsuffix.subset (by simp))

/-! ## Reading back -/

theorem recv_dotStuffFrom {last : Option UInt8} (body s : Bytes) (hlast : last ≠ some 0x0d) :
    recv (dotStuffFrom true last body ++ endOfData (dotStuffFrom true last body) ++ s) =
      some (ended (crlfEnds last body), s) := by
  have hends : (0x0d : UInt8) ≠ 0x0a := by decide
  have hdot : (0x2e : UInt8) ≠ 0x0a := by decide
  by_cases hlf : 0x0a ∈ body
  · obtain ⟨line, rest, hbody, hline⟩ := List.eq_append_cons_of_mem hlf
    obtain ⟨whole, hwhole, hsent⟩ := whole_line hline hlast
    have hlen : rest.length < body.length := by
      rw [hbody, List.length_append, List.length_cons]
      omega
    have hlf : some (0x0a : UInt8) ≠ some 0x0d := by decide
    have ih := recv_dotStuffFrom rest s hlf
    rw [hbody, (hsent rest).1, (hsent rest).2, endOfData_append, ended_append, recv,
      List.append_assoc, List.append_assoc, List.cons_append, List.cons_append, receive_line hends hdot hwhole,
      ← List.append_assoc, ← recv, ih]
    simp
  · rw [dotStuffFrom_last hlf, if_pos rfl, crlfEnds_last hlf]
    cases body with
    | nil => exact receive_dot hends hdot s
    | cons b body =>
      have hne : stuff 0x2e (b :: body) ≠ [] := by
        unfold stuff
        split <;> simp
      have hstuff : 0x0a ∉ stuff 0x2e (b :: body) := by
        unfold stuff
        split
        · rw [List.mem_cons, not_or]
          exact ⟨by decide, hlf⟩
        · exact hlf
      have hend : endOfData (stuff 0x2e (b :: body)) = [0x0d, 0x0a, 0x2e, 0x0d, 0x0a] := by
        refine if_neg ?_
        rw [Bool.or_eq_true, List.isSuffixOf_iff_suffix, List.isEmpty_iff]
        exact not_or.mpr ⟨hne, not_ends hstuff⟩
      have hended : ended (b :: body) = b :: body ++ [0x0d, 0x0a] :=
        if_neg (not_or.mpr ⟨List.cons_ne_nil _ _, not_ends hlf⟩)
      have hsent : stuff 0x2e (b :: body) ++ [0x0d, 0x0a, 0x2e, 0x0d, 0x0a] ++ s =
          stuff 0x2e (b :: body) ++ 0x0d :: 0x0a :: 0x2e :: 0x0d :: 0x0a :: s := by simp
      rw [hend, hended, hsent, recv, receive_line hends hdot hlf, receive_dot hends hdot]
      simp
termination_by body.length
decreasing_by exact hlen

/-- There is a CR before every LF. -/
theorem isChain_dotStuffFrom (lineStart : Bool) (last : Option UInt8) (body : Bytes) :
    List.IsChain (fun a b => b = 0x0a → a = 0x0d)
      (last.getD 0 :: dotStuffFrom lineStart last body) := by
  induction body generalizing lineStart last with
  | nil => exact List.isChain_singleton _
  | cons b body ih =>
    rw [dotStuffFrom]
    by_cases hb : b = 0x0a
    · have hrest := ih true (some 0x0a)
      by_cases hlast : last = some 0x0d <;> simpa [hb, hlast] using hrest
    · have hrest := ih false (some b)
      split
      · contradiction
      · split <;> simpa [hb] using hrest

theorem cr_of_lf {body p q : Bytes} (h : dotStuff body = p ++ 0x0a :: q) :
    ∃ p', p = p' ++ [0x0d] := by
  have hchain := isChain_dotStuffFrom true none body
  rw [← dotStuff, h] at hchain
  rcases List.eq_nil_or_concat' p with rfl | ⟨p, b, rfl⟩
  · exact absurd ((List.isChain_cons_cons.mp hchain).1 rfl) (by decide)
  · rw [List.append_assoc, ← List.cons_append] at hchain
    exact ⟨p, by rw [(List.isChain_append_cons_cons.mp hchain).2.1 rfl]⟩

/-- The receiver stops where the message ends, and has the message, its line ends made whole. -/
theorem data_exact (body s : Bytes) :
    recv (dotStuff body ++ endOfData (dotStuff body) ++ s) = some (ended (crlfEnds none body), s) ∧
      ∀ p q, dotStuff body = p ++ 0x0a :: q → ∃ p', p = p' ++ [0x0d] := by
  exact ⟨recv_dotStuffFrom body s nofun, fun p q h => cr_of_lf h⟩

end Rsurl.Mail.Smtp

namespace Rsurl.Mail.Pop3

open Library Library.LineEnds Library.Stuffing Net

/-- A message as it is sent: its lines, which end in CRLF, with the dots that are put in front, and
the line of a single dot. -/
def encode (lines : List Bytes) : Bytes :=
  joinLines 0x0d 0x0a (lines.map (stuff 0x2e)) ++ [0x2e, 0x0d, 0x0a]

/-- The message that `RETR` is answered with. -/
def message : Session Bytes := do return unDotStuff (← readMultiline)

/-- What is still to be read. -/
def ahead (w : Wire) : List (Except Error UInt8) := w.buffer.map .ok ++ stream w.side.reads

/-- However it is cut into reads, the message is read as it is, and no more than it. -/
def Intact (lines : List Bytes) : Prop :=
  ∀ (s : Bytes) (w : Wire), ahead w = (encode lines ++ s).map .ok →
    ∃ w', message.exec Wire.answer w = .ok (joinLines 0x0d 0x0a lines) w' ∧ ahead w' = s.map .ok

/-- There is a line of a single dot, which ends in CRLF or LF. -/
def Terminated (st : List (Except Error UInt8)) : Prop :=
  ∃ (front : Bytes) (rest : List (Except Error UInt8)), (front = [] ∨ ∃ f, front = f ++ [0x0a]) ∧
    (st = (front ++ [0x2e, 0x0d, 0x0a]).map .ok ++ rest ∨
      st = (front ++ [0x2e, 0x0a]).map .ok ++ rest)

/-! ## Dots -/

variable {line rest : Bytes}

theorem length_unDotStuffFrom (lineStart : Bool) (l : Bytes) :
    (unDotStuffFrom lineStart l).length ≤ l.length := by
  induction l generalizing lineStart with
  | nil => exact Nat.le_refl 0
  | cons b l ih =>
    rw [unDotStuffFrom]
    split
    · exact Nat.le_succ_of_le (ih false)
    · exact Nat.succ_le_succ (ih _)

/-- Nothing is taken off unless a dot begins a line. -/
theorem unDotStuffFrom_eq_self {lineStart : Bool} {l : Bytes} : unDotStuffFrom lineStart l = l ↔
    (lineStart = true → l.head? ≠ some 0x2e) ∧ ¬[0x0a, 0x2e] <:+: l := by
  induction l generalizing lineStart with
  | nil => simp [unDotStuffFrom]
  | cons b l ih =>
    have hinfix : [0x0a, 0x2e] <:+: b :: l ↔
        (b = 0x0a ∧ l.head? = some 0x2e) ∨ [0x0a, 0x2e] <:+: l := by
      rw [List.infix_cons_iff, List.cons_prefix_cons]
      refine or_congr_left (and_congr eq_comm ?_)
      cases l <;> simp [eq_comm]
    rw [unDotStuffFrom, hinfix]
    by_cases hdot : lineStart = true ∧ b = 0x2e
    · obtain ⟨rfl, rfl⟩ := hdot
      have hlen := length_unDotStuffFrom false l
      refine iff_of_false (fun h => ?_) fun h => h.1 rfl rfl
      have hcons := congrArg List.length h
      simp at hcons
      omega
    · rw [if_neg (by simpa using hdot), List.cons.injEq, ih]
      simp only [decide_eq_true_eq, not_or, not_and]
      simp only [not_and] at hdot
      simp
      tauto

theorem unDotStuffFrom_line (lineStart : Bool) (line rest : Bytes) :
    unDotStuffFrom lineStart (line ++ 0x0d :: 0x0a :: rest) =
      unDotStuffFrom lineStart line ++ 0x0d :: 0x0a :: unDotStuffFrom true rest := by
  induction line generalizing lineStart with
  | nil => simp [unDotStuffFrom]
  | cons b line ih =>
    rw [List.cons_append, unDotStuffFrom, unDotStuffFrom]
    split
    · exact ih false
    · rw [ih]
      rfl

theorem unDotStuffFrom_stuff (line : Bytes) :
    unDotStuffFrom true (stuff 0x2e line) = unDotStuffFrom false line := by
  cases line with
  | nil => rfl
  | cons b line => by_cases hb : b = 0x2e <;> simp [stuff, unDotStuffFrom, hb]

theorem joinLines_cons (line : Bytes) (lines : List Bytes) : joinLines 0x0d 0x0a (line :: lines) =
    line ++ 0x0d :: 0x0a :: joinLines 0x0d 0x0a lines := by
  simp [joinLines]

/-- The dots in front of lines are gone, and those that follow a bare LF. -/
theorem unDotStuff_joinLines (lines : List Bytes) :
    unDotStuff (joinLines 0x0d 0x0a (lines.map (stuff 0x2e))) =
      joinLines 0x0d 0x0a (lines.map (unDotStuffFrom false)) := by
  induction lines with
  | nil => rfl
  | cons line lines ih =>
    rw [List.map_cons, List.map_cons, joinLines_cons, joinLines_cons, unDotStuff,
      unDotStuffFrom_line, unDotStuffFrom_stuff, ← unDotStuff, ih]

theorem length_joinLines_le (lines : List Bytes) :
    (joinLines 0x0d 0x0a (lines.map (unDotStuffFrom false))).length ≤
      (joinLines 0x0d 0x0a lines).length := by
  induction lines with
  | nil => exact Nat.le_refl 0
  | cons line lines ih =>
    have hline := length_unDotStuffFrom false line
    rw [List.map_cons, joinLines_cons, joinLines_cons]
    simp only [List.length_append, List.length_cons]
    omega

/-- The message is as it was exactly if no bare LF is followed by a dot. -/
theorem unDotStuff_eq_iff (lines : List Bytes) :
    unDotStuff (joinLines 0x0d 0x0a (lines.map (stuff 0x2e))) = joinLines 0x0d 0x0a lines ↔
      ∀ line ∈ lines, ¬[0x0a, 0x2e] <:+: line := by
  rw [unDotStuff_joinLines]
  induction lines with
  | nil => simp
  | cons line lines ih =>
    rw [List.map_cons, joinLines_cons, joinLines_cons, List.forall_mem_cons, ← ih]
    constructor
    · intro h
      have hline := length_unDotStuffFrom false line
      have hlines := length_joinLines_le lines
      have hlen := congrArg List.length h
      simp only [List.length_append, List.length_cons] at hlen
      obtain ⟨hfirst, hrest⟩ := List.append_inj h (by omega)
      exact ⟨(unDotStuffFrom_eq_self.mp hfirst).2, (List.cons.inj (List.cons.inj hrest).2).2⟩
    · rintro ⟨hline, hrest⟩
      rw [unDotStuffFrom_eq_self.mpr ⟨fun h => absurd h Bool.false_ne_true, hline⟩, hrest]

/-! ## Reading lines -/

variable {cap left : Nat} {out body : Bytes} {st : List (Except Error UInt8)} {w w' : Wire}

theorem lineOf_line (h : 0x0a ∉ line) (hcap : line.length < cap) (rest : Bytes)
    (st : List (Except Error UInt8)) : lineOf cap ((line ++ 0x0a :: rest).map .ok ++ st) =
      (.ok (line ++ [0x0a]), rest.map .ok ++ st) := by
  induction line generalizing cap with
  | nil =>
    obtain ⟨cap, rfl⟩ := Nat.exists_eq_succ_of_ne_zero (Nat.ne_of_gt hcap)
    simp [lineOf]
  | cons b line ih =>
    obtain ⟨hb, hline⟩ := List.ne_and_not_mem_of_not_mem_cons h
    obtain ⟨cap, rfl⟩ := Nat.exists_eq_succ_of_ne_zero (Nat.ne_zero_of_lt hcap)
    rw [List.cons_append, List.map_cons, List.cons_append, lineOf, if_neg hb.symm,
      ih hline (Nat.lt_of_succ_lt_succ hcap)]
    rfl

/-- What a line is: it ends in LF, or it is as long as it may be, or the stream ends. -/
theorem lineOf_ok {st' : List (Except Error UInt8)} (h : lineOf cap st = (.ok line, st')) :
    st = line.map .ok ++ st' ∧ line.length ≤ cap ∧
      ((∃ l, line = l ++ [0x0a]) ∨ line.length = cap ∨ st' = []) := by
  induction cap generalizing st line with
  | zero =>
    cases h
    exact ⟨rfl, Nat.le_refl 0, .inr (.inl rfl)⟩
  | succ cap ih =>
    cases st with
    | nil =>
      cases h
      exact ⟨rfl, Nat.zero_le _, .inr (.inr rfl)⟩
    | cons x st =>
      cases x with
      | error e => cases h
      | ok b =>
        rw [lineOf] at h
        by_cases hb : b = 0x0a
        · rw [if_pos hb] at h
          cases h
          exact ⟨rfl, Nat.succ_le_succ (Nat.zero_le _), .inl ⟨[], by rw [hb]; rfl⟩⟩
        · rw [if_neg hb] at h
          cases hl : lineOf cap st with
          | mk r st₁ =>
            rw [hl] at h
            cases r with
            | error e => cases h
            | ok l =>
              cases h
              obtain ⟨hst, hlen, hend⟩ := ih hl
              refine ⟨by rw [hst]; rfl, Nat.succ_le_succ hlen, ?_⟩
              rcases hend with ⟨l', rfl⟩ | hend | hend
              · exact .inl ⟨b :: l', rfl⟩
              · exact .inr (.inl (congrArg Nat.succ hend))
              · exact .inr (.inr hend)

/-- A line is read off what is still to be read. -/
theorem exec_line (cap : Nat) (w : Wire) : ∃ w', ahead w' = (lineOf cap (ahead w)).2 ∧
    (Session.line cap).exec Wire.answer w = Outcome.ofExcept (lineOf cap (ahead w)).1 w' := by
  have hline : lineOf cap (ahead w) = _ := readLine_stream cap w.buffer w.side.reads
  refine ⟨(Wire.answer (.line cap) w).2, ?_, ?_⟩
  · rw [hline]
    rfl
  · rw [hline]
    show (Talk.ofExcept (readLine cap w.buffer w.side.reads).1).exec _ _ = _
    cases (readLine cap w.buffer w.side.reads).1 <;> rfl

/-- The lines that end a message. -/
abbrev IsEnd (line : Bytes) : Prop := line = [0x2e, 0x0d, 0x0a] ∨ line = [0x2e, 0x0a]

theorem exec_more (left : Nat)
    (h : lineOf (maxResponseBytes - out.length + 1) (ahead w) = (.ok line, st))
    (hne : line ≠ []) (hend : ¬IsEnd line) (hlen : line.length ≤ maxResponseBytes - out.length) :
    ∃ w', ahead w' = st ∧ (readMultilineFrom (left + 1) out).exec Wire.answer w =
      (readMultilineFrom left (out ++ line)).exec Wire.answer w' := by
  obtain ⟨w', hahead, hexec⟩ := exec_line (maxResponseBytes - out.length + 1) w
  rw [h] at hahead hexec
  refine ⟨w', hahead, ?_⟩
  rw [readMultilineFrom, Talk.exec_bind, hexec, Outcome.ofExcept, Outcome.andThen,
    if_neg (by simpa using hne), if_neg hend, if_neg (Nat.not_lt.mpr hlen)]

theorem exec_end (h : lineOf (maxResponseBytes - out.length + 1) (ahead w) = (.ok line, st))
    (hend : IsEnd line) : ∃ w', ahead w' = st ∧
      (readMultilineFrom (left + 1) out).exec Wire.answer w = .ok out w' := by
  obtain ⟨w', hahead, hexec⟩ := exec_line (maxResponseBytes - out.length + 1) w
  rw [h] at hahead hexec
  have hne : ¬line.isEmpty = true := by rcases hend with rfl | rfl <;> simp
  refine ⟨w', hahead, ?_⟩
  rw [readMultilineFrom, Talk.exec_bind, hexec, Outcome.ofExcept, Outcome.andThen, if_neg hne,
    if_pos hend]
  rfl

/-! ## Reading messages -/

/-- A dot that begins a line has another one behind it. -/
def Guarded : Bool → Bytes → Prop
  | _, [] => True
  | lineStart, b :: rest =>
    (lineStart = true → b = 0x2e → rest.head? = some 0x2e) ∧ Guarded (b = 0x0a) rest

theorem guarded_line {lineStart : Bool} (hhead : lineStart = true → line.head? ≠ some 0x2e)
    (hline : ¬[0x0a, 0x2e] <:+: line) (hrest : Guarded true rest) :
    Guarded lineStart (line ++ 0x0d :: 0x0a :: rest) := by
  induction line generalizing lineStart with
  | nil => exact ⟨fun _ h => absurd h (by decide), fun _ h => absurd h (by decide), hrest⟩
  | cons b line ih =>
    refine ⟨fun hstart hb => absurd (congrArg some hb) (hhead hstart), ih (fun hb hdot => ?_) ?_⟩
    · obtain rfl : b = 0x0a := of_decide_eq_true hb
      obtain ⟨more, rfl⟩ := List.head?_eq_some_iff.mp hdot
      exact hline ⟨[], more, rfl⟩
    · exact fun h => hline (List.infix_cons h)

theorem guarded_stuff (hline : ¬[0x0a, 0x2e] <:+: line) (hrest : Guarded true rest) :
    Guarded true (stuff 0x2e line ++ 0x0d :: 0x0a :: rest) := by
  by_cases hdot : line.head? = some 0x2e
  · rw [stuff, if_pos hdot]
    obtain ⟨more, rfl⟩ := List.head?_eq_some_iff.mp hdot
    exact ⟨fun _ _ => rfl, guarded_line (fun h => absurd h Bool.false_ne_true) hline hrest⟩
  · rw [stuff, if_neg hdot]
    exact guarded_line (fun _ => hdot) hline hrest

theorem guarded_joinLines {lines : List Bytes} (h : ∀ line ∈ lines, ¬[0x0a, 0x2e] <:+: line) :
    Guarded true (joinLines 0x0d 0x0a (lines.map (stuff 0x2e))) := by
  induction lines with
  | nil => trivial
  | cons line lines ih =>
    obtain ⟨hline, hlines⟩ := List.forall_mem_cons.mp h
    rw [List.map_cons, joinLines_cons]
    exact guarded_stuff hline (ih hlines)

theorem Guarded.behind {lineStart : Bool} (h : Guarded lineStart (line ++ 0x0a :: rest)) :
    Guarded true rest := by
  induction line generalizing lineStart with
  | nil => exact h.2
  | cons b line ih => exact ih h.2

theorem Guarded.not_end (h : Guarded true (line ++ 0x0a :: rest)) : ¬IsEnd (line ++ [0x0a]) := by
  rintro (hend | hend)
  · obtain rfl : line = [0x2e, 0x0d] := List.append_cancel_right hend
    exact absurd (h.1 rfl rfl) (by simp)
  · obtain rfl : line = [0x2e] := List.append_cancel_right hend
    exact absurd (h.1 rfl rfl) (by simp)

/-- Lines are read until the single dot, if there is room for it. -/
theorem exec_body {s : Bytes} (hlast : ∀ b ∈ body.getLast?, b = 0x0a) (hguard : Guarded true body)
    (hlen : out.length + body.length + 2 ≤ maxResponseBytes)
    (hleft : maxResponseBytes < left + out.length)
    (hahead : ahead w = (body ++ [0x2e, 0x0d, 0x0a] ++ s).map .ok) :
    ∃ w', ahead w' = s.map .ok ∧
      (readMultilineFrom left out).exec Wire.answer w = .ok (out ++ body) w' := by
  induction hn : body.length using Nat.strong_induction_on generalizing body out left w with
  | _ n ih =>
    obtain ⟨left, rfl⟩ := Nat.exists_eq_succ_of_ne_zero (show left ≠ 0 by omega)
    rcases List.eq_nil_or_concat' body with rfl | ⟨front, b, hbody⟩
    · have hline : lineOf (maxResponseBytes - out.length + 1) (ahead w) =
          (.ok [0x2e, 0x0d, 0x0a], s.map .ok) := by
        have hdot : (0x0a : UInt8) ∉ [0x2e, 0x0d] := by decide
        have hread := lineOf_line hdot
          (show _ < maxResponseBytes - out.length + 1 by simp; omega) s []
        simpa [hahead] using hread
      obtain ⟨w', hw', hexec⟩ := exec_end hline (.inl rfl)
      exact ⟨w', hw', by rw [hexec, List.append_nil]⟩
    · have hmem : 0x0a ∈ body := by
        have hb := hlast b (by simp [hbody])
        rw [hbody, hb]
        exact List.mem_append_right _ (List.mem_singleton_self _)
      obtain ⟨line, rest, rfl, hline⟩ := List.eq_append_cons_of_mem hmem
      have hlength : (line ++ 0x0a :: rest).length = line.length + rest.length + 1 := by
        rw [List.length_append, List.length_cons]
        omega
      rw [hlength] at hlen hn
      have hread : lineOf (maxResponseBytes - out.length + 1) (ahead w) =
          (.ok (line ++ [0x0a]), (rest ++ [0x2e, 0x0d, 0x0a] ++ s).map .ok) := by
        have hread := lineOf_line hline
          (show line.length < maxResponseBytes - out.length + 1 by omega)
          (rest ++ [0x2e, 0x0d, 0x0a] ++ s) []
        simpa [hahead] using hread
      have hshort : (line ++ [0x0a]).length ≤ maxResponseBytes - out.length := by
        rw [List.length_append, List.length_singleton]
        omega
      obtain ⟨w₁, hw₁, hexec⟩ := exec_more left hread (by simp) hguard.not_end hshort
      have hrest : ∀ b ∈ rest.getLast?, b = 0x0a := by
        intro b hb
        refine hlast b ?_
        rw [Option.mem_def] at hb
        simp [List.getLast?_append, List.getLast?_cons, hb]
      have hroom : (out ++ (line ++ [0x0a])).length + rest.length + 2 ≤ maxResponseBytes := by
        simp only [List.length_append, List.length_singleton]
        omega
      have hturns : maxResponseBytes < left + (out ++ (line ++ [0x0a])).length := by
        simp only [List.length_append, List.length_singleton]
        omega
      obtain ⟨w', hw', hexec'⟩ :=
        ih rest.length (by omega) hrest hguard.behind hroom hturns hw₁ rfl
      exact ⟨w', hw', by rw [hexec, hexec']; simp⟩

/-- What is read, if it is read: whole lines, and the single dot, for which there was room. -/
theorem exec_ok {out' : Bytes} (hout : out.length ≤ maxResponseBytes)
    (h : (readMultilineFrom left out).exec Wire.answer w = .ok out' w') :
    ∃ body term, IsEnd term ∧ out' = out ++ body ∧ (∀ b ∈ body.getLast?, b = 0x0a) ∧
      ahead w = (body ++ term).map .ok ++ ahead w' ∧
      out.length + body.length + term.length ≤ maxResponseBytes + 1 := by
  induction left generalizing out w with
  | zero => cases h
  | succ left ih =>
    obtain ⟨w₁, hahead, hexec⟩ := exec_line (maxResponseBytes - out.length + 1) w
    rw [readMultilineFrom, Talk.exec_bind, hexec] at h
    cases hline : lineOf (maxResponseBytes - out.length + 1) (ahead w) with
    | mk r st =>
      rw [hline] at h hahead
      replace hahead : ahead w₁ = st := hahead
      cases r with
      | error e => cases h
      | ok line =>
        obtain ⟨hst, hlen, hend⟩ := lineOf_ok hline
        rw [Outcome.ofExcept, Outcome.andThen] at h
        by_cases hne : line.isEmpty = true
        · rw [if_pos hne] at h
          cases h
        rw [if_neg hne] at h
        by_cases hterm : IsEnd line
        · rw [if_pos hterm] at h
          cases h
          exact ⟨[], line, hterm, (List.append_nil _).symm, nofun, by rw [hst, hahead]; rfl,
            by simp; omega⟩
        rw [if_neg hterm] at h
        by_cases hlong : maxResponseBytes - out.length < line.length
        · rw [if_pos hlong] at h
          cases h
        rw [if_neg hlong] at h
        obtain ⟨body, term, hterm', rfl, hlast, hrest, hlen'⟩ :=
          ih (by rw [List.length_append]; omega) h
        rw [List.length_append] at hlen'
        -- the line is not cut short, as there is a line after it
        obtain ⟨l, rfl⟩ : ∃ l, line = l ++ [0x0a] := by
          rcases hend with hend | hend | hend
          · exact hend
          · omega
          · rw [hahead, hend] at hrest
            rcases hterm' with rfl | rfl <;> simp at hrest
        refine ⟨l ++ [0x0a] ++ body, term, hterm', by simp, ?_, ?_, ?_⟩
        · intro b hb
          rcases List.eq_nil_or_concat' body with rfl | ⟨front, c, rfl⟩
          · simpa [eq_comm] using hb
          · rw [← List.append_assoc, List.getLast?_concat] at hb
            exact hlast b (by rwa [List.getLast?_concat])
        · rw [hst, ← hahead, hrest]
          simp
        · rw [List.length_append]
          omega

theorem exec_message_ok {text : Bytes} (h : message.exec Wire.answer w = .ok text w') :
    ∃ raw, text = unDotStuff raw ∧ readMultiline.exec Wire.answer w = .ok raw w' := by
  rw [message, Talk.exec_bind] at h
  obtain ⟨raw, w₁, hraw, hdone⟩ := Outcome.andThen_eq_ok.mp h
  cases hdone
  exact ⟨raw, rfl, hraw⟩

theorem last_joinLines (lines : List Bytes) {b : UInt8}
    (h : b ∈ (joinLines 0x0d 0x0a lines).getLast?) : b = 0x0a := by
  rcases List.eq_nil_or_concat' lines with rfl | ⟨front, line, rfl⟩
  · cases h
  · simpa [joinLines, eq_comm] using h

/-- A message arrives as it was exactly if there is room for it up to the CR behind the single dot,
and no LF in a line is followed by a dot. -/
theorem intact_iff (lines : List Bytes) : Intact lines ↔
    (joinLines 0x0d 0x0a (lines.map (stuff 0x2e))).length + 2 ≤ maxResponseBytes ∧
      ∀ line ∈ lines, ¬[0x0a, 0x2e] <:+: line := by
  generalize hraw : joinLines 0x0d 0x0a (lines.map (stuff 0x2e)) = raw
  have hnil : ([] : Bytes).length ≤ maxResponseBytes := Nat.zero_le _
  constructor
  · intro h
    obtain ⟨w, hw⟩ : ∃ w, ahead w = (encode lines).map .ok :=
      ⟨{ Wire.delivering [] with buffer := encode lines }, by simp [ahead, Wire.delivering, stream]⟩
    obtain ⟨w', hexec, hw'⟩ := h [] w (by rw [hw, List.append_nil])
    obtain ⟨raw', htext, hread⟩ := exec_message_ok hexec
    obtain ⟨body, term, hterm, hout, -, hall, hlen⟩ := exec_ok hnil hread
    obtain rfl : raw' = body := hout
    rw [hw, hw', List.map_nil, List.append_nil, encode, hraw] at hall
    have hbytes : raw ++ [0x2e, 0x0d, 0x0a] = raw' ++ term :=
      List.map_injective_iff.mpr (fun _ _ => Except.ok.inj) hall
    rcases hterm with rfl | rfl
    · obtain rfl : raw = raw' := List.append_cancel_right hbytes
      refine ⟨by simp at hlen; omega, (unDotStuff_eq_iff lines).mp ?_⟩
      rw [hraw, ← htext]
    · have hrev := congrArg List.reverse hbytes
      simp at hrev
  · rintro ⟨hlen, hlines⟩ s w hw
    have hguard := guarded_joinLines hlines
    have htext := (unDotStuff_eq_iff lines).mpr hlines
    have hlast := fun b => last_joinLines (lines.map (stuff 0x2e)) (b := b)
    rw [encode] at hw
    rw [hraw] at hguard htext hlast hw
    have hroom : ([] : Bytes).length + raw.length + 2 ≤ maxResponseBytes := by simpa using hlen
    have hturns : maxResponseBytes < maxResponseBytes + 1 + ([] : Bytes).length := by simp
    obtain ⟨w', hw', hexec⟩ := exec_body hlast hguard hroom hturns hw
    refine ⟨w', ?_, hw'⟩
    rw [message, Talk.exec_bind, readMultiline, hexec, List.nil_append, ← htext]
    rfl

/-- Messages arrive as they were under these conditions, and without the single dot nothing does. -/
theorem retr_exact (lines : List Bytes) (w : Wire) :
    (Intact lines ↔
      (joinLines 0x0d 0x0a (lines.map (stuff 0x2e))).length + 2 ≤ maxResponseBytes ∧
        ∀ line ∈ lines, ¬[0x0a, 0x2e] <:+: line) ∧
    (¬Terminated (ahead w) → ∃ e w', message.exec Wire.answer w = .error e w') := by
  refine ⟨intact_iff lines, fun hw => ?_⟩
  have hnil : ([] : Bytes).length ≤ maxResponseBytes := Nat.zero_le _
  cases hexec : message.exec Wire.answer w with
  | error e w' => exact ⟨e, w', rfl⟩
  | ok text w' =>
    obtain ⟨raw, -, hread⟩ := exec_message_ok hexec
    obtain ⟨body, term, hterm, -, hlast, hall, -⟩ := exec_ok hnil hread
    refine absurd ⟨body, ahead w', ?_, ?_⟩ hw
    · rcases List.eq_nil_or_concat' body with rfl | ⟨front, b, rfl⟩
      · exact .inl rfl
      · exact .inr ⟨front, by rw [hlast b (by simp)]⟩
    · rcases hterm with rfl | rfl
      · exact .inl hall
      · exact .inr hall

/-- A message of one line that is as long as it may be, and one with a line end of its own. -/
theorem not_intact_longest : ¬Intact [List.replicate (maxResponseBytes - 2) 0x61] ∧
    (joinLines 0x0d 0x0a
      ([List.replicate (maxResponseBytes - 2) (0x61 : UInt8)].map (stuff 0x2e))).length ≤
        maxResponseBytes ∧
    ¬Intact [[0x61, 0x0a, 0x2e, 0x62]] := by
  have hstuff : stuff 0x2e (List.replicate (maxResponseBytes - 2) (0x61 : UInt8)) =
      List.replicate (maxResponseBytes - 2) 0x61 := by
    refine if_neg fun h => ?_
    obtain ⟨more, hmore⟩ := List.head?_eq_some_iff.mp h
    have hmem : (0x2e : UInt8) ∈ List.replicate (maxResponseBytes - 2) 0x61 := by
      rw [hmore]
      exact List.mem_cons_self
    exact absurd (List.eq_of_mem_replicate hmem) (by decide)
  have hlen : (joinLines 0x0d 0x0a
      ([List.replicate (maxResponseBytes - 2) (0x61 : UInt8)].map (stuff 0x2e))).length =
        maxResponseBytes := by
    rw [List.map_singleton, hstuff, joinLines, List.flatMap_singleton, List.length_append,
      List.length_replicate]
    rfl
  refine ⟨fun h => ?_, hlen.le, fun h => ?_⟩
  · have hroom := ((intact_iff _).mp h).1
    omega
  · exact ((intact_iff _).mp h).2 _ List.mem_cons_self ⟨[0x61], [0x62], rfl⟩

end Rsurl.Mail.Pop3
