import Rsurl.Http.Digest
import Rsurl.Slice

/-!
# Parameters by position

The parameters of a challenge are read at byte positions, and cut out of the text between them. No
cut is inside a character, every turn of the loop goes on, and what is read is what stands there.
-/

namespace Rsurl.Http.Digest

open Library Text
open Library.Loop (Turn)

/-! ## At positions -/

def isSeparator (b : UInt8) : Bool :=
  b == 0x2c || b == 0x20 || b == 0x09 || b == 0x0a || b == 0x0d || b == 0x0c

/-- The closing quote of a value, or the end. -/
def skipQuoted (bytes : Bytes) (i : Nat) : Nat :=
  if h : i < bytes.length then
    if bytes[i] = 0x22 then i
    else if bytes[i] = 0x5c ∧ i + 1 < bytes.length then skipQuoted bytes (i + 2)
    else skipQuoted bytes (i + 1)
  else i
termination_by bytes.length - i

/-- A value, quoted or a token, and the position behind it. -/
def valueAt (bytes : Bytes) (i : Nat) : Checked Empty (String × Nat) :=
  if bytes[i]? = some 0x22 then do
    let start := i + 1
    let i := skipQuoted bytes start
    let v ← slice bytes start (min i bytes.length)
    .ok (v, if i < bytes.length then i + 1 else i)
  else do
    let start := i
    let i := skipWhile (· != 0x2c) bytes start
    let v ← slice bytes start i
    .ok (trim v, i)

abbrev Params := List (String × String)

def insert (map : Params) (key value : String) : Params :=
  if key = "" then map else map ++ [(key, value)]

/-- One turn of `parse_params`. -/
def paramsTurn (bytes : Bytes) : Nat × Params → Checked Empty (Turn (Nat × Params) Params)
  | (i, map) =>
    if i < bytes.length then do
      let keyStart := skipWhile isSeparator bytes i
      let i := skipWhile (fun b => b != 0x3d && b != 0x2c) bytes keyStart
      let raw ← slice bytes keyStart i
      let key := toAsciiLowercase (trim raw)
      if bytes[i]? = some 0x3d then do
        let (value, i) ← valueAt bytes (i + 1)
        .ok (.next (i, insert map key value))
      else .ok (.next (i, insert map key ""))
    else .ok (.done map)

def parseParamsAt (s : String) : Checked Empty Params :=
  Checked.loop (fun (i, _) => (asBytes s).length - i) (paramsTurn (asBytes s)) (0, [])

/-! ## Between characters -/

variable {front rest : List Char}

/-- A byte test that no byte above ASCII fails, or that all fail, is the test of characters that it
is on ASCII. -/
theorem agree_of_ascii {p : UInt8 → Bool} {q : Char → Bool} (high : Bool)
    (hascii : ∀ n : Fin 128, p (UInt8.ofNat n) = q (Char.ofNat n))
    (hp : ∀ b : UInt8, 0x80 ≤ b → p b = high) (hq : ∀ c : Char, 0x80 ≤ c.toNat → q c = high)
    (c : Char) (b : UInt8) (hb : b ∈ String.utf8EncodeChar c) : p b = q c := by
  by_cases h : c.toNat < 0x80
  · rw [utf8EncodeChar_ascii h, List.mem_singleton] at hb
    rw [hb]
    simpa using hascii ⟨c.toNat, h⟩
  · have hle := Nat.le_of_not_lt h
    rw [hp b (le_of_mem_utf8EncodeChar hle hb), hq c hle]

theorem ne_of_high {c d : Char} (hc : 0x80 ≤ c.toNat) (hd : d.toNat < 0x80) : c ≠ d := by
  rintro rfl
  omega

theorem byte_ne_of_high {b d : UInt8} (hb : 0x80 ≤ b) (hd : d < 0x80) : b ≠ d := by
  rintro rfl
  exact absurd hd (UInt8.not_lt.mpr hb)

theorem isSeparator_agrees : ∀ c, ∀ b ∈ String.utf8EncodeChar c,
    isSeparator b = (c == ',' || isAsciiWhitespace c) := by
  refine agree_of_ascii false (by decide +kernel) (fun b hb => ?_) fun c hc => ?_
  · have hne : ∀ d : UInt8, d < 0x80 → (b == d) = false :=
      fun d hd => beq_false_of_ne (byte_ne_of_high hb hd)
    simp only [isSeparator, hne 0x2c (by decide), hne 0x20 (by decide), hne 0x09 (by decide),
      hne 0x0a (by decide), hne 0x0d (by decide), hne 0x0c (by decide), Bool.or_self]
  · have hne : ∀ d : Char, d.toNat < 0x80 → (c == d) = false :=
      fun d hd => beq_false_of_ne (ne_of_high hc hd)
    have hff : (c.toNat == 0x0c) = false := beq_false_of_ne (by omega)
    simp only [isAsciiWhitespace, hff, hne ',' (by decide), hne ' ' (by decide),
      hne '\t' (by decide), hne '\n' (by decide), hne '\r' (by decide), Bool.or_self]

theorem inKey_agrees : ∀ c, ∀ b ∈ String.utf8EncodeChar c,
    (b != 0x3d && b != 0x2c) = (decide (c ≠ '=') && decide (c ≠ ',')) := by
  refine agree_of_ascii true (by decide) (fun b hb => ?_) fun c hc => ?_
  · simp [byte_ne_of_high hb]
  · simp [ne_of_high hc]

theorem inToken_agrees : ∀ c, ∀ b ∈ String.utf8EncodeChar c, (b != 0x2c) = decide (c ≠ ',') := by
  refine agree_of_ascii true (by decide) (fun b hb => ?_) fun c hc => ?_
  · simp [byte_ne_of_high hb]
  · simp [ne_of_high hc]

theorem byte_ne_of_char_ne {c d : Char} (hd : d.toNat < 0x80) (h : c ≠ d) {b : UInt8}
    (hb : b ∈ String.utf8EncodeChar c) : b ≠ UInt8.ofNat d.toNat := by
  rintro rfl
  have hmem : UInt8.ofNat d.toNat ∈ asBytes (String.ofList [c]) := by
    rw [asBytes_ofList, List.flatMap_singleton]
    exact hb
  rw [mem_asBytes hd, String.toList_ofList, List.mem_singleton] at hmem
  exact h hmem.symm

/-- The byte at a character that is ASCII. -/
theorem at_utf8 {c d : Char} (hd : d.toNat < 0x80) :
    (utf8 (front ++ c :: rest))[(utf8 front).length]? = some (UInt8.ofNat d.toNat) ↔ c = d := by
  rw [← List.head?_drop, drop_utf8, utf8_cons]
  obtain ⟨first, more, heq, -⟩ := head_utf8EncodeChar c
  rw [heq, List.cons_append, List.head?_cons, Option.some.injEq]
  constructor
  · intro hfirst
    by_contra hne
    exact byte_ne_of_char_ne hd hne (heq ▸ List.mem_cons_self) hfirst
  · rintro rfl
    rw [utf8EncodeChar_ascii hd] at heq
    exact (List.cons.inj heq).1.symm

theorem length_utf8_snoc (front : List Char) (c : Char) :
    (utf8 (front ++ [c])).length = (utf8 front).length + (String.utf8EncodeChar c).length := by
  rw [utf8_append, List.length_append, utf8_singleton]

theorem length_utf8_ascii (front : List Char) {c : Char} (h : c.toNat < 0x80) :
    (utf8 (front ++ [c])).length = (utf8 front).length + 1 := by
  rw [length_utf8_snoc, utf8EncodeChar_ascii h, List.length_singleton]

/-! ## Values -/

section

variable {bytes tail : Bytes} {i : Nat} {b : UInt8}

theorem lt_of_drop_eq_cons (h : bytes.drop i = b :: tail) : i < bytes.length := by
  by_contra hge
  rw [List.drop_of_length_le (Nat.le_of_not_lt hge)] at h
  cases h

theorem drop_succ_of_drop_eq_cons (h : bytes.drop i = b :: tail) : bytes.drop (i + 1) = tail := by
  rw [← List.tail_drop, h, List.tail_cons]

theorem getElem_of_drop_eq_cons (h : bytes.drop i = b :: tail) (hi : i < bytes.length) :
    bytes[i] = b := by
  rw [List.drop_eq_getElem_cons hi] at h
  exact (List.cons.inj h).1

theorem skipQuoted_end (h : bytes.drop i = []) : skipQuoted bytes i = i := by
  rw [skipQuoted, dif_neg (Nat.not_lt.mpr (List.drop_eq_nil_iff.mp h))]

theorem skipQuoted_quote (h : bytes.drop i = 0x22 :: tail) : skipQuoted bytes i = i := by
  have hi := lt_of_drop_eq_cons h
  rw [skipQuoted, dif_pos hi, if_pos (getElem_of_drop_eq_cons h hi)]

theorem skipQuoted_escape (h : bytes.drop i = 0x5c :: b :: tail) :
    skipQuoted bytes i = skipQuoted bytes (i + 2) := by
  have hi := lt_of_drop_eq_cons h
  have hnext := lt_of_drop_eq_cons (drop_succ_of_drop_eq_cons h)
  have hbyte := getElem_of_drop_eq_cons h hi
  rw [skipQuoted, dif_pos hi, if_neg (by rw [hbyte]; decide), if_pos ⟨hbyte, hnext⟩]

/-- A byte that is neither a quote nor a backslash before another is passed over. -/
theorem skipQuoted_pass (h : bytes.drop i = b :: tail) (hquote : b ≠ 0x22)
    (hescape : b = 0x5c → tail = []) : skipQuoted bytes i = skipQuoted bytes (i + 1) := by
  have hi := lt_of_drop_eq_cons h
  have hbyte := getElem_of_drop_eq_cons h hi
  rw [skipQuoted, dif_pos hi, if_neg (by rw [hbyte]; exact hquote), if_neg]
  rintro ⟨heq, hnext⟩
  have hnil := hescape (hbyte ▸ heq)
  have htail := drop_succ_of_drop_eq_cons h
  rw [hnil, List.drop_eq_nil_iff] at htail
  omega

theorem skipQuoted_passes {pass : Bytes} (h : bytes.drop i = pass ++ tail)
    (hpass : ∀ b ∈ pass, b ≠ 0x22 ∧ b ≠ 0x5c) :
    skipQuoted bytes i = skipQuoted bytes (i + pass.length) := by
  induction pass generalizing i with
  | nil => rfl
  | cons b pass ih =>
    obtain ⟨hb, hrest⟩ := List.forall_mem_cons.mp hpass
    rw [List.cons_append] at h
    rw [skipQuoted_pass h hb.1 fun heq => (hb.2 heq).elim,
      ih (drop_succ_of_drop_eq_cons h) hrest, List.length_cons]
    congr 1
    omega

end

/-- A quoted value ends at the first quote that is not escaped. -/
theorem skipQuoted_utf8 (front rest : List Char) :
    skipQuoted (utf8 (front ++ rest)) (utf8 front).length =
        (utf8 (front ++ (readQuoted rest).1)).length ∧
      (rest = (readQuoted rest).1 ++ '"' :: (readQuoted rest).2 ∨
        rest = (readQuoted rest).1 ∧ (readQuoted rest).2 = []) := by
  fun_induction readQuoted rest generalizing front with
  | case1 =>
    refine ⟨?_, .inr ⟨rfl, rfl⟩⟩
    simpa using skipQuoted_end (drop_utf8 front [])
  | case2 rest =>
    refine ⟨?_, .inl rfl⟩
    have hdrop := drop_utf8 front ('"' :: rest)
    rw [utf8_cons_ascii (by decide)] at hdrop
    simpa using skipQuoted_quote hdrop
  | case3 c rest v rest' heq ih =>
    rw [heq] at ih
    obtain ⟨hskip, hrest⟩ := ih (front ++ ['\\', c])
    obtain ⟨first, more, hbytes, -, hmore⟩ := head_utf8EncodeChar c
    have hdrop := drop_utf8 front ('\\' :: c :: rest)
    rw [utf8_cons_ascii (by decide), utf8_cons, hbytes, List.cons_append] at hdrop
    have hbehind := drop_succ_of_drop_eq_cons (drop_succ_of_drop_eq_cons hdrop)
    have hpass : ∀ b ∈ more, b ≠ 0x22 ∧ b ≠ 0x5c := fun b hb =>
      ⟨byte_ne_of_high (hmore b hb) (by decide), byte_ne_of_high (hmore b hb) (by decide)⟩
    have hlen : (utf8 (front ++ ['\\', c])).length = (utf8 front).length + 2 + more.length := by
      rw [utf8_append, List.length_append, utf8_cons_ascii (by decide), utf8_singleton, hbytes,
        List.length_cons, List.length_cons]
      omega
    constructor
    · rw [skipQuoted_escape hdrop, skipQuoted_passes hbehind hpass, ← hlen]
      simpa using hskip
    · rcases hrest with hrest | ⟨hrest, hnil⟩
      · exact .inl (by rw [hrest]; rfl)
      · exact .inr ⟨by rw [hrest], hnil⟩
  | case4 c rest hquote hescape v rest' heq ih =>
    rw [heq] at ih
    obtain ⟨hskip, hrest⟩ := ih (front ++ [c])
    have hdrop := drop_utf8 front (c :: rest)
    rw [utf8_cons] at hdrop
    have hlen := length_utf8_snoc front c
    constructor
    · have hpass : skipQuoted (utf8 (front ++ c :: rest)) (utf8 front).length =
          skipQuoted (utf8 (front ++ c :: rest)) (utf8 (front ++ [c])).length := by
        by_cases hback : c = '\\'
        · subst hback
          have hnil : rest = [] := by
            cases rest with
            | nil => rfl
            | cons d rest => exact (hescape d rest rfl rfl).elim
          subst hnil
          rw [utf8EncodeChar_ascii (by decide)] at hdrop hlen
          rw [hlen]
          exact skipQuoted_pass hdrop (by decide) fun _ => rfl
        · rw [hlen]
          exact skipQuoted_passes hdrop fun b hb =>
            ⟨byte_ne_of_char_ne (d := '"') (by decide) hquote hb,
              byte_ne_of_char_ne (d := '\\') (by decide) hback hb⟩
      rw [hpass]
      simpa using hskip
    · rcases hrest with hrest | ⟨hrest, hnil⟩
      · exact .inl (by rw [hrest]; rfl)
      · exact .inr ⟨by rw [hrest], hnil⟩

theorem valueAt_quoted (front r : List Char) :
    ∃ front', front ++ '"' :: r = front' ++ (readQuoted r).2 ∧ (readQuoted r).2.length ≤ r.length ∧
      valueAt (utf8 (front ++ '"' :: r)) (utf8 front).length =
        .ok (String.ofList (readQuoted r).1, (utf8 front').length) := by
  have hat : (utf8 (front ++ '"' :: r))[(utf8 front).length]? = some 0x22 :=
    (at_utf8 (d := '"') (by decide)).mpr rfl
  have hstart := length_utf8_ascii front (c := '"') (by decide)
  obtain ⟨hskip, hsplit⟩ := skipQuoted_utf8 (front ++ ['"']) r
  cases hread : readQuoted r with
  | mk v r' =>
    rw [hread] at hskip hsplit
    dsimp only at hskip hsplit ⊢
    obtain ⟨tail, rfl⟩ : ∃ tail, r = v ++ tail := by
      rcases hsplit with heq | ⟨heq, -⟩
      · exact ⟨_, heq⟩
      · exact ⟨[], by rw [List.append_nil, heq]⟩
    have htext : front ++ '"' :: (v ++ tail) = front ++ ['"'] ++ (v ++ tail) := by simp
    have hle : (utf8 (front ++ ['"'] ++ v)).length ≤
        (utf8 (front ++ ['"'] ++ (v ++ tail))).length := by
      rw [← List.append_assoc, utf8_append _ tail, List.length_append]
      exact Nat.le_add_right _ _
    have hslice := slice_utf8 (front ++ ['"']) v tail
    rw [valueAt, if_pos hat]
    dsimp only
    rw [← hstart, htext, hskip, Nat.min_eq_left hle, hslice, Checked.ok_bind]
    rcases hsplit with heq | ⟨heq, hnil⟩
    · cases List.append_cancel_left heq
      have hquote := length_utf8_ascii (front ++ ['"'] ++ v) (c := '"') (by decide)
      have hlt : (utf8 (front ++ ['"'] ++ v)).length <
          (utf8 (front ++ ['"'] ++ (v ++ '"' :: r'))).length := by
        rw [← List.append_assoc, utf8_append _ ('"' :: r'), utf8_cons_ascii (by decide),
          List.length_append, List.length_cons]
        omega
      refine ⟨front ++ ['"'] ++ v ++ ['"'], by simp, ?_, ?_⟩
      · rw [List.length_append, List.length_cons]
        omega
      · rw [if_pos hlt, hquote]
    · have htail : tail = [] := by simpa using heq
      subst htail hnil
      refine ⟨front ++ ['"'] ++ v, by simp, Nat.zero_le _, ?_⟩
      rw [List.append_nil, if_neg (Nat.lt_irrefl _)]

theorem valueAt_utf8 (front rest : List Char) :
    ∃ front', front ++ rest = front' ++ (readValue rest).2 ∧
      (readValue rest).2.length ≤ rest.length ∧
      valueAt (utf8 (front ++ rest)) (utf8 front).length =
        .ok ((readValue rest).1, (utf8 front').length) := by
  by_cases hquote : ∃ r, rest = '"' :: r
  · obtain ⟨r, rfl⟩ := hquote
    obtain ⟨front', hsplit, hlen, hvalue⟩ := valueAt_quoted front r
    rw [readValue]
    refine ⟨front', hsplit, ?_, hvalue⟩
    rw [List.length_cons]
    exact Nat.le_succ_of_le hlen
  · have hat : ¬(utf8 (front ++ rest))[(utf8 front).length]? = some 0x22 := by
      cases rest with
      | nil => simp
      | cons c r =>
        intro h
        have hc := (at_utf8 (d := '"') (by decide)).mp h
        exact hquote ⟨r, by rw [hc]⟩
    have hsplit : rest.takeWhile (fun c => decide (c ≠ ',')) ++
        rest.drop (rest.takeWhile fun c => decide (c ≠ ',')).length = rest :=
      List.prefix_iff_eq_append.mp (List.takeWhile_prefix _)
    have hskip := skipWhile_utf8 inToken_agrees front rest
    have hslice := slice_utf8 front (rest.takeWhile fun c => decide (c ≠ ','))
      (rest.drop (rest.takeWhile fun c => decide (c ≠ ',')).length)
    rw [hsplit] at hslice
    have hvalue : readValue rest = (trim (String.ofList (rest.takeWhile fun c => decide (c ≠ ','))),
        rest.drop (rest.takeWhile fun c => decide (c ≠ ',')).length) := by
      rw [readValue.eq_2]
      exact fun r h => hquote ⟨r, h⟩
    refine ⟨front ++ rest.takeWhile (fun c => decide (c ≠ ',')), ?_, ?_, ?_⟩
    · rw [hvalue, List.append_assoc, hsplit]
    · rw [hvalue]
      exact (List.length_drop ..).trans_le (Nat.sub_le _ _)
    · rw [valueAt, if_neg hat]
      dsimp only
      rw [hskip, hslice, Checked.ok_bind, hvalue]

/-! ## Turns -/

def kept (raw : List Char) (value : String) : Params :=
  insert [] (toAsciiLowercase (trim (String.ofList raw))) value

/-- The characters of a key. -/
def rawKey (s : List Char) : List Char := s.takeWhile fun c => c ≠ '=' && c ≠ ','

/-- What one turn reads behind the separators, and what it leaves. -/
def oneParam (s : List Char) : Params × List Char :=
  match s.drop (rawKey s).length with
  | '=' :: rest => (kept (rawKey s) (readValue rest).1, (readValue rest).2)
  | rest => (kept (rawKey s) "", rest)

theorem insert_eq (map : Params) (key value : String) :
    insert map key value = map ++ insert [] key value := by
  unfold insert
  split <;> simp

theorem paramsFrom_succ (fuel : Nat) {s : List Char} (h : s ≠ []) :
    paramsFrom (fuel + 1) s =
      (oneParam (s.dropWhile fun c => c == ',' || isAsciiWhitespace c)).1 ++
        paramsFrom fuel (oneParam (s.dropWhile fun c => c == ',' || isAsciiWhitespace c)).2 := by
  have hempty : ¬s.isEmpty = true := by simpa using h
  rw [paramsFrom, if_neg hempty, oneParam]
  dsimp only [rawKey, kept, insert]
  split <;> simp_all

theorem oneParam_equals {s rest : List Char} (h : s.drop (rawKey s).length = '=' :: rest) :
    oneParam s = (kept (rawKey s) (readValue rest).1, (readValue rest).2) := by
  rw [oneParam, h]
  rfl

theorem oneParam_bare {s : List Char} (h : ∀ rest, s.drop (rawKey s).length ≠ '=' :: rest) :
    oneParam s = (kept (rawKey s) "", s.drop (rawKey s).length) := by
  unfold oneParam
  split
  · rename_i rest heq
    exact (h rest heq).elim
  · rfl

/-- One turn reads one parameter, and is further on. -/
theorem paramsTurn_utf8 (front : List Char) {rest s : List Char}
    (hs : s = rest.dropWhile fun c => c == ',' || isAsciiWhitespace c) (h : rest ≠ [])
    (map : Params) :
    ∃ front', front ++ rest = front' ++ (oneParam s).2 ∧ (oneParam s).2.length < rest.length ∧
      paramsTurn (utf8 (front ++ rest)) ((utf8 front).length, map) =
        .ok (.next ((utf8 front').length, map ++ (oneParam s).1)) := by
  have hlt : (utf8 front).length < (utf8 (front ++ rest)).length := by
    obtain ⟨c, r, rfl⟩ := List.exists_cons_of_ne_nil h
    have := length_utf8_pos c
    rw [utf8_append, utf8_cons, List.length_append, List.length_append]
    omega
  have hsep : rest.takeWhile (fun c => c == ',' || isAsciiWhitespace c) ++ s = rest := by
    rw [hs]
    exact List.takeWhile_append_dropWhile
  have hskip := skipWhile_utf8 isSeparator_agrees front rest
  -- what is left begins with no separator
  have hhead : ∀ c, s.head? = some c → c ≠ ',' := by
    intro c hc hcomma
    have hnot := List.head?_dropWhile_not (fun c => c == ',' || isAsciiWhitespace c) rest
    rw [← hs, hc, hcomma] at hnot
    cases hnot
  generalize rest.takeWhile (fun c => c == ',' || isAsciiWhitespace c) = seps at hsep hskip
  subst hsep
  have hkey : rawKey s ++ s.drop (rawKey s).length = s :=
    List.prefix_iff_eq_append.mp (List.takeWhile_prefix _)
  have hskipKey := skipWhile_utf8 inKey_agrees (front ++ seps) s
  change _ = (utf8 (front ++ seps ++ rawKey s)).length at hskipKey
  have hslice := slice_utf8 (front ++ seps) (rawKey s) (s.drop (rawKey s).length)
  rw [hkey] at hslice
  have hassoc : front ++ (seps ++ s) = front ++ seps ++ s := (List.append_assoc ..).symm
  have hturn : paramsTurn (utf8 (front ++ seps ++ s)) ((utf8 front).length, map) =
      if (utf8 (front ++ seps ++ s))[(utf8 (front ++ seps ++ rawKey s)).length]? = some 0x3d then do
        let (value, i) ← valueAt (utf8 (front ++ seps ++ s))
          ((utf8 (front ++ seps ++ rawKey s)).length + 1)
        .ok (.next (i, insert map (toAsciiLowercase (trim (String.ofList (rawKey s)))) value))
      else .ok (.next ((utf8 (front ++ seps ++ rawKey s)).length,
        insert map (toAsciiLowercase (trim (String.ofList (rawKey s)))) "")) := by
    rw [hassoc] at hlt hskip
    rw [paramsTurn, if_pos hlt]
    dsimp only
    rw [hskip, hskipKey, hslice, Checked.ok_bind]
  have hcut : front ++ seps ++ s = front ++ seps ++ rawKey s ++ s.drop (rawKey s).length := by
    rw [List.append_assoc _ (rawKey s), hkey]
  have hlen := congrArg List.length hkey
  rw [List.length_append] at hlen
  have htotal : (seps ++ s).length = seps.length + s.length := List.length_append
  rw [hassoc, hturn, htotal]
  by_cases hequals : ∃ r, s.drop (rawKey s).length = '=' :: r
  · obtain ⟨r, hr⟩ := hequals
    rw [hr] at hcut hlen
    have hat : (utf8 (front ++ seps ++ s))[(utf8 (front ++ seps ++ rawKey s)).length]? =
        some 0x3d := by
      rw [hcut]
      exact (at_utf8 (d := '=') (by decide)).mpr rfl
    obtain ⟨front', hsplit, hrest, hvalue⟩ := valueAt_utf8 (front ++ seps ++ rawKey s ++ ['=']) r
    have htext : front ++ seps ++ rawKey s ++ ['='] ++ r = front ++ seps ++ s := by
      rw [hcut, List.append_assoc _ ['=']]
      rfl
    rw [htext] at hsplit hvalue
    rw [length_utf8_ascii _ (by decide)] at hvalue
    rw [oneParam_equals hr, if_pos hat, hvalue, Checked.ok_bind]
    rw [List.length_cons] at hlen
    refine ⟨front', hsplit, ?_, ?_⟩
    · dsimp only
      omega
    · dsimp only
      rw [insert_eq, kept]
  · have hbare : ∀ r, s.drop (rawKey s).length ≠ '=' :: r := fun r hr => hequals ⟨r, hr⟩
    have hat : ¬(utf8 (front ++ seps ++ s))[(utf8 (front ++ seps ++ rawKey s)).length]? =
        some 0x3d := by
      rw [hcut]
      cases hdrop : s.drop (rawKey s).length with
      | nil => simp
      | cons c r =>
        intro h
        have hc := (at_utf8 (d := '=') (by decide)).mp h
        exact hbare r (by rw [hdrop, hc])
    rw [oneParam_bare hbare, if_neg hat]
    refine ⟨front ++ seps ++ rawKey s, hcut, ?_, ?_⟩
    · dsimp only
      cases s with
      | nil =>
        have hpos := List.length_pos_iff.mpr h
        rw [List.append_nil] at hpos
        rw [List.drop_nil, List.length_nil]
        omega
      | cons c t =>
        -- a character that is neither a separator nor an equals sign is part of the key
        have hcomma := hhead c rfl
        have hfirst : c ≠ '=' := by
          rintro rfl
          exact hbare t rfl
        have hraw : rawKey (c :: t) = c :: rawKey t := by
          rw [rawKey, List.takeWhile_cons_of_pos (by simp [hcomma, hfirst])]
          rfl
        rw [hraw, List.length_cons, List.length_cons] at hlen
        rw [hraw, List.length_cons, List.length_cons]
        omega
    · rw [insert_eq]
      dsimp only [kept]

/-- Less is left behind a front that is longer. -/
theorem length_utf8_lt {front' rest' : List Char} (h : front ++ rest = front' ++ rest')
    (hlt : rest'.length < rest.length) : (utf8 front).length < (utf8 front').length := by
  have hlen := congrArg List.length h
  rw [List.length_append, List.length_append] at hlen
  obtain ⟨extra, rfl⟩ := List.prefix_of_prefix_length_le (List.prefix_append front rest)
    (h ▸ List.prefix_append front' rest') (by omega)
  cases extra with
  | nil =>
    rw [List.append_nil] at hlen
    omega
  | cons c extra =>
    have := length_utf8_pos c
    rw [utf8_append, utf8_cons, List.length_append, List.length_append]
    omega

/-- Every text is read to its end, and cut between characters only. -/
theorem parseParamsAt_eq (s : String) : parseParamsAt s = .ok (parseParams s.toList) := by
  have hloop : ∀ fuel (front rest : List Char) (map : Params), rest.length < fuel →
      Checked.loop (fun (i, _) => (utf8 (front ++ rest)).length - i)
        (paramsTurn (utf8 (front ++ rest))) ((utf8 front).length, map) = .ok (map ++ paramsFrom fuel rest) := by
    intro fuel
    induction fuel with
    | zero =>
      intro front rest map hlen
      cases hlen
    | succ fuel ih =>
      intro front rest map hlen
      by_cases hrest : rest = []
      · subst hrest
        refine Checked.loop_done ?_
        rw [paramsTurn, if_neg (by simp), paramsFrom, List.isEmpty_nil, if_pos rfl, List.append_nil]
      · obtain ⟨front', hsplit, hshort, hturn⟩ := paramsTurn_utf8 front rfl hrest map
        rw [paramsFrom_succ fuel hrest]
        generalize oneParam (rest.dropWhile fun c => c == ',' || isAsciiWhitespace c) = p at *
        have hvariant : (utf8 (front ++ rest)).length - (utf8 front').length <
            (utf8 (front ++ rest)).length - (utf8 front).length := by
          have hbytes := length_utf8_lt hsplit hshort
          have hle : (utf8 front').length ≤ (utf8 (front ++ rest)).length := by
            rw [hsplit, utf8_append, List.length_append]
            exact Nat.le_add_right _ _
          omega
        rw [Checked.loop_next hturn hvariant, hsplit, ih front' p.2 _ (by omega),
          List.append_assoc]
  have h := hloop (s.toList.length + 1) [] s.toList [] (Nat.lt_succ_self _)
  rw [parseParamsAt, asBytes_eq_flatMap]
  exact h

end Rsurl.Http.Digest
