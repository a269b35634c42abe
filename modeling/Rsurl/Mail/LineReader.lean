import Rsurl.Library.Delimited
import Rsurl.Mail.Imap
import Rsurl.Net.Wire
import Rsurl.Url.Parts
import Rsurl.Utf8

/-!
# Reading a response of IMAP

A response is made of lines, some of which are interrupted by literals: octets of which the segment
before has announced how many there are. The reader returns the literals and leaves what is behind
the response, however the connection cuts it. It counts what it has decoded, takes a marker with
blanks behind it for one, and does not see the end of a response in a line that holds a literal.
-/

namespace Rsurl.Mail.Imap

open Library Text Net
open Library.Framing (Read)

/-! ## Where a line ends -/

/-- `find_crlf` -/
def findCrlf : Bytes → Option Nat
  | a :: b :: rest =>
    if a = 0x0d ∧ b = 0x0a then some 0 else (findCrlf (b :: rest)).map (· + 1)
  | _ => none

/-- `read_line`: what has been scanned is not scanned again, but for its last byte. -/
def readLineScanned : Nat → Nat → Bytes → Session (String × Bytes)
  | 0, _, _ => Talk.fail (.badResponse
    s!"imap: response line exceeds maximum {maxResponseBytes} bytes")
  | left + 1, scanned, buf =>
    match findCrlf (buf.drop scanned) with
    | some rel =>
      let pos := scanned + rel
      return (fromUtf8Lossy (buf.take pos), buf.drop (pos + 2))
    | none => do
      if maxResponseBytes < buf.length then
        Talk.fail (.badResponse s!"imap: response line exceeds maximum {maxResponseBytes} bytes")
      else
        let got ← Session.chunk 4096
        if got.isEmpty then
          if buf.isEmpty then Talk.fail .unexpectedEof else return (fromUtf8Lossy buf, [])
        else readLineScanned left (buf.length - 1) (buf ++ got)

theorem splitCrlf_eq_findCrlf (buf : Bytes) :
    splitCrlf buf = (findCrlf buf).map fun pos => (buf.take pos, buf.drop (pos + 2)) := by
  fun_induction splitCrlf buf with
  | case1 rest => rfl
  | case2 b rest hne ih =>
    rw [ih]
    cases rest with
    | nil => rfl
    | cons c rest =>
      have hcrlf : ¬(b = 0x0d ∧ c = 0x0a) := fun ⟨hb, hc⟩ => hne rest hb (by rw [hc])
      rw [findCrlf, if_neg hcrlf, Option.map_map, Option.map_map]
      rfl
  | case3 => rfl

/-- A scan may begin later, if there is no line end before. -/
theorem findCrlf_drop {buf : Bytes} {k : Nat} (h : findCrlf (buf.take (k + 1)) = none) :
    findCrlf buf = (findCrlf (buf.drop k)).map (k + ·) := by
  induction k generalizing buf with
  | zero => simp
  | succ k ih =>
    match buf with
    | [] => rfl
    | [a] => simp [findCrlf]
    | a :: b :: rest =>
      rw [List.take_succ_cons, List.take_succ_cons, findCrlf] at h
      split_ifs at h with hcrlf
      rw [Option.map_eq_none_iff, ← List.take_succ_cons] at h
      rw [findCrlf, if_neg hcrlf, ih h, Option.map_map, List.drop_succ_cons]
      congr 1
      funext i
      simp only [Function.comp_apply]
      omega

theorem findCrlf_append {buf : Bytes} (h : findCrlf buf = none) (got : Bytes) :
    findCrlf ((buf ++ got).take (buf.length - 1 + 1)) = none := by
  cases buf with
  | nil => cases got <;> rfl
  | cons b buf =>
    have hlen : (b :: buf).length - 1 + 1 = (b :: buf).length := rfl
    rw [hlen, List.take_left]
    exact h

theorem readLineScanned_eq {scanned : Nat} {buf : Bytes}
    (h : findCrlf (buf.take (scanned + 1)) = none) (left : Nat) :
    readLineScanned left scanned buf = readLineFrom left buf := by
  induction left generalizing scanned buf with
  | zero => rfl
  | succ left ih =>
    rw [readLineScanned, readLineFrom, splitCrlf_eq_findCrlf, findCrlf_drop h]
    cases hfind : findCrlf (buf.drop scanned) with
    | some rel => rfl
    | none =>
      have hnone : findCrlf buf = none := by rw [findCrlf_drop h, hfind]; rfl
      have hnext : ∀ got, readLineScanned left (buf.length - 1) (buf ++ got) =
          readLineFrom left (buf ++ got) := fun got => ih (findCrlf_append hnone got)
      simp only [Option.map_none, hnext]

/-- The scan that goes on where the last one has ended finds the lines that are there. -/
theorem readLine_eq_scanned (buf : Bytes) :
    readLine buf = readLineScanned (maxResponseBytes + 2) 0 buf := by
  refine (readLineScanned_eq ?_ _).symm
  cases buf <;> rfl

/-! ## Reading -/

/-- The bytes are what the buffer holds and the connection will deliver. -/
def Ahead (buf : Bytes) (w : Wire) (bytes : Bytes) : Prop :=
  Delivers w.side.reads ∧ buf ++ unread w.side.reads = bytes

variable {buf line rest bytes : Bytes} {w : Wire}

theorem splitCrlf_eq_cutAt (buf : Bytes) : splitCrlf buf = Delimited.cutAt crlf buf := by
  fun_induction splitCrlf buf with
  | case1 rest =>
    have hpre : crlf <+: 0x0d :: 0x0a :: rest := ⟨rest, rfl⟩
    rw [Delimited.cutAt, if_pos hpre]
    rfl
  | case2 b rest hne ih =>
    have hpre : ¬crlf <+: b :: rest := by
      rintro ⟨more, hmore⟩
      obtain ⟨rfl, hrest⟩ := List.cons.inj hmore
      exact hne more rfl hrest.symm
    rw [Delimited.cutAt, if_neg hpre, ih]
  | case3 => rfl

theorem splitCrlf_line (h : ¬crlf <:+: line) (rest : Bytes) :
    splitCrlf (line ++ (crlf ++ rest)) = some (line, rest) := by
  have hd : (0x0d : UInt8) ∉ [0x0a] := by decide
  rw [splitCrlf_eq_cutAt]
  exact Delimited.cutAt_of_not_infix hd h rest

/-- Without a line end in it, the buffer does not reach beyond the CR behind the line. -/
theorem length_le_of_splitCrlf (h : splitCrlf buf = none) {more : Bytes}
    (hbuf : buf ++ more = line ++ (crlf ++ rest)) : buf.length ≤ line.length + 1 := by
  by_contra hlong
  rw [splitCrlf_eq_cutAt] at h
  refine Delimited.not_infix_of_cutAt (List.cons_ne_nil _ _) h ?_
  have hpre : line ++ crlf <+: buf := by
    refine List.prefix_of_prefix_length_le ?_ (List.prefix_append buf more) ?_
    · rw [hbuf, ← List.append_assoc]
      exact List.prefix_append _ _
    · rw [List.length_append]
      change line.length + 2 ≤ buf.length
      omega
  exact (List.suffix_append line crlf).isInfix.trans hpre.isInfix

theorem exec_chunk (h : Delivers w.side.reads) {n : Nat} (hn : 0 < n) :
    ∃ got w', (Session.chunk n).exec Wire.answer w = .ok got w' ∧ Delivers w'.side.reads ∧
      unread w.side.reads = got ++ unread w'.side.reads ∧ got.length ≤ n ∧
      (got = [] → unread w.side.reads = []) := by
  obtain ⟨n, rfl⟩ := Nat.exists_eq_succ_of_ne_zero hn.ne'
  cases hreads : w.side.reads with
  | nil =>
    refine ⟨[], (Wire.answer (.chunk (n + 1)) w).2, ?_, ?_, ?_, Nat.zero_le _, fun _ => rfl⟩
    · simp [Session.chunk, Talk.request, Talk.ofExcept, Talk.exec, Wire.answer, readChunk, hreads]
    · simp [Wire.answer, readChunk, hreads, Delivers]
    · simp [Wire.answer, readChunk, hreads]
  | cons r reads =>
    cases r with
    | failed e => exact absurd (hreads ▸ List.mem_cons_self) (h e)
    | data first more =>
      refine ⟨(first :: more).take (n + 1), (Wire.answer (.chunk (n + 1)) w).2, ?_, ?_, ?_,
        List.length_take_le _ _, fun hgot => by cases hgot⟩
      · simp [Session.chunk, Talk.request, Talk.ofExcept, Talk.exec, Wire.answer, readChunk, hreads]
      · rw [hreads] at h
        simpa [Wire.answer, readChunk, hreads] using h.tail.putBack _
      · simp [Wire.answer, readChunk, hreads, unread_putBack, unread_data, ← List.append_assoc]

theorem exec_readLineFrom (hline : ¬crlf <:+: line) {left : Nat}
    (hahead : Ahead buf w (line ++ (crlf ++ rest)))
    (hleft : maxResponseBytes + 2 ≤ left + min buf.length (maxResponseBytes + 1)) :
    (∃ buf' w', (readLineFrom left buf).exec Wire.answer w = .ok (fromUtf8Lossy line, buf') w' ∧
      Ahead buf' w' rest) ∨
    maxResponseBytes ≤ line.length ∧ ∃ e w', (readLineFrom left buf).exec Wire.answer w =
      .error e w' := by
  obtain ⟨hdel, hbytes⟩ := hahead
  induction left generalizing buf w with
  | zero => omega
  | succ left ih =>
    cases hcut : splitCrlf buf with
    | some cut =>
      obtain ⟨l, r⟩ := cut
      have hmore := splitCrlf_line hline rest
      rw [splitCrlf_eq_cutAt] at hcut hmore
      rw [← hbytes, Delimited.cutAt_append_of_some hcut] at hmore
      cases hmore
      exact .inl ⟨r, w, by simp [readLineFrom, splitCrlf_eq_cutAt, hcut, Talk.exec], hdel, rfl⟩
    | none =>
      have hshort := length_le_of_splitCrlf hcut hbytes
      by_cases hroom : maxResponseBytes < buf.length
      · refine .inr ⟨by omega, .badResponse
          s!"imap: response line exceeds maximum {maxResponseBytes} bytes", w, ?_⟩
        simp only [readLineFrom, hcut, if_pos hroom]
        rfl
      obtain ⟨got, w', hexec, hdel', hunread, -, hempty⟩ := exec_chunk hdel (show 0 < 4096 by omega)
      have hgot : got ≠ [] := by
        intro hgot
        have hall := congrArg List.length hbytes
        rw [hempty hgot] at hall
        simp [crlf] at hall
        omega
      have hpos := List.length_pos_iff.mpr hgot
      have hbytes' : buf ++ got ++ unread w'.side.reads = line ++ (crlf ++ rest) := by
        rw [List.append_assoc, ← hunread, hbytes]
      have hleft' :
          maxResponseBytes + 2 ≤ left + min (buf ++ got).length (maxResponseBytes + 1) := by
        rw [List.length_append]
        omega
      have hnext : (readLineFrom (left + 1) buf).exec Wire.answer w =
          (readLineFrom left (buf ++ got)).exec Wire.answer w' := by
        simp only [readLineFrom, hcut, if_neg hroom, Talk.exec_bind, hexec, Outcome.andThen]
        rw [if_neg (by simpa using hgot)]
      rw [hnext]
      exact ih hleft' hdel' hbytes'

/-- A line is read however it arrives, unless it is too long. -/
theorem exec_readLine (hline : ¬crlf <:+: line) (hahead : Ahead buf w (line ++ (crlf ++ rest))) :
    (∃ buf' w', (readLine buf).exec Wire.answer w = .ok (fromUtf8Lossy line, buf') w' ∧
      Ahead buf' w' rest) ∨
    maxResponseBytes ≤ line.length ∧ ∃ e w', (readLine buf).exec Wire.answer w = .error e w' :=
  exec_readLineFrom hline hahead (Nat.le_add_right _ _)

theorem exec_readLine_short (hline : ¬crlf <:+: line)
    (hlen : size (lossyChars line) < maxResponseBytes)
    (hahead : Ahead buf w (line ++ (crlf ++ rest))) :
    ∃ buf' w', (readLine buf).exec Wire.answer w = .ok (fromUtf8Lossy line, buf') w' ∧
      Ahead buf' w' rest := by
  have hle := length_le_size_lossyChars line
  exact (exec_readLine hline hahead).resolve_right fun hlong => by omega

theorem exec_readLine_eof (hahead : Ahead buf w []) :
    ∃ w', (readLine buf).exec Wire.answer w = .error .unexpectedEof w' := by
  obtain ⟨hdel, hbytes⟩ := hahead
  obtain ⟨rfl, hunread⟩ := List.append_eq_nil_iff.mp hbytes
  obtain ⟨got, w', hexec, -, hall, -, -⟩ := exec_chunk hdel (show 0 < 4096 by omega)
  obtain ⟨rfl, -⟩ := List.append_eq_nil_iff.mp (hall.symm.trans hunread)
  refine ⟨w', ?_⟩
  have hroom : ¬maxResponseBytes < ([] : Bytes).length := Nat.not_lt_zero _
  rw [readLine, readLineFrom]
  simp only [splitCrlf, if_neg hroom, Talk.exec_bind, hexec, Outcome.andThen]
  rfl

theorem exec_readExactFrom {out : Bytes} (hdel : Delivers w.side.reads)
    (hbytes : out ++ unread w.side.reads = bytes ++ rest) (hlen : out.length ≤ bytes.length)
    {left : Nat} (hleft : bytes.length < left + out.length) :
    ∃ w', (readExactFrom left bytes.length out).exec Wire.answer w = .ok bytes w' ∧
      Ahead [] w' rest := by
  induction left generalizing out w with
  | zero => omega
  | succ left ih =>
    by_cases hmore : out.length < bytes.length
    · obtain ⟨got, w', hexec, hdel', hunread, hgotlen, hempty⟩ :=
        exec_chunk hdel (show 0 < min (bytes.length - out.length) 4096 by omega)
      have hgot : got ≠ [] := by
        intro hgot
        have hall := congrArg List.length hbytes
        rw [hempty hgot] at hall
        simp at hall
        omega
      have hpos := List.length_pos_iff.mpr hgot
      have hbytes' : out ++ got ++ unread w'.side.reads = bytes ++ rest := by
        rw [List.append_assoc, ← hunread, hbytes]
      obtain ⟨w'', hread, hahead⟩ := ih hdel' hbytes' (by rw [List.length_append]; omega)
        (by rw [List.length_append]; omega)
      refine ⟨w'', ?_, hahead⟩
      simp only [readExactFrom, if_pos hmore, Talk.exec_bind, hexec, Outcome.andThen]
      rw [if_neg (by simpa using hgot), hread]
    · obtain ⟨rfl, hrest⟩ := List.append_inj hbytes (by omega)
      exact ⟨w, by simp [readExactFrom, Talk.exec], hdel, by simpa using hrest⟩

/-- So are octets. -/
theorem exec_readExact (hahead : Ahead buf w (bytes ++ rest)) :
    ∃ buf' w', (readExact bytes.length buf).exec Wire.answer w = .ok (bytes, buf') w' ∧
      Ahead buf' w' rest := by
  obtain ⟨hdel, hbytes⟩ := hahead
  rcases Nat.le_total buf.length bytes.length with hle | hle
  · obtain ⟨w', hread, hdel', hrest⟩ := exec_readExactFrom hdel hbytes hle
      (show bytes.length < bytes.length + 1 + buf.length by omega)
    refine ⟨[], w', ?_, hdel', hrest⟩
    rw [readExact, List.take_of_length_le hle, List.drop_of_length_le hle, Talk.exec_bind, hread]
    rfl
  · obtain ⟨more, rfl⟩ : bytes <+: buf := List.prefix_of_prefix_length_le
      ⟨rest, rfl⟩ ⟨unread w.side.reads, hbytes⟩ hle
    have hrest : more ++ unread w.side.reads = rest := by simpa using hbytes
    refine ⟨more, w, ?_, hdel, hrest⟩
    rw [readExact, List.take_left, List.drop_left, readExactFrom, if_neg (lt_irrefl _)]
    rfl

/-! ## Markers -/

/-- `{n}` or `{n+}` -/
def marker (ds : List Char) (plus : Bool) : List Char :=
  '{' :: (ds ++ if plus then ['+'] else []) ++ ['}']

/-- The segment ends in a marker that announces so many octets. -/
def Announces (text : Bytes) (n : Nat) : Prop :=
  ∃ front ds plus, text = front ++ (marker ds plus).flatMap String.utf8EncodeChar ∧
    ds ≠ [] ∧ (∀ c ∈ ds, c.isDigit = true) ∧ Nat.ofDigitChars 10 ds 0 = n

theorem rdropWhile_append_of_neg {p : Char → Bool} {s : List Char} (hs : ∀ c ∈ s, p c = false)
    (l : List Char) : (s ++ l).rdropWhile p = s ++ l.rdropWhile p := by
  induction l using List.reverseRecOn with
  | nil =>
    rw [List.append_nil, List.rdropWhile_nil, List.append_nil, List.rdropWhile_eq_self_iff]
    exact fun hne => by simp [hs _ (List.getLast_mem hne)]
  | append_singleton l c ih =>
    rw [← List.append_assoc, List.rdropWhile_concat, List.rdropWhile_concat]
    split
    · exact ih
    · rw [List.append_assoc]

theorem rsplitOnceAt_append {c : Char} {after : List Char} (h : c ∉ after) (before : List Char) :
    rsplitOnceAt [c] (before ++ c :: after) = some (before, after) := by
  have hcut := @splitOnceAt_append c after.reverse [] (by simpa using h) before.reverse
  have hrev : (before ++ c :: after).reverse = after.reverse ++ [c] ++ before.reverse := by simp
  rw [rsplitOnceAt, List.reverse_singleton, hrev, hcut]
  simp

theorem lossyChars_marker (front : Bytes) (ds : List Char) (plus : Bool) :
    lossyChars (front ++ (marker ds plus).flatMap String.utf8EncodeChar) =
      lossyChars front ++ marker ds plus := by
  have hbrace : (0x7b : UInt8) < 0x80 := by decide
  have hrest := lossyChars_flatMap (ds ++ (if plus then ['+'] else []) ++ ['}'])
  rw [marker, List.cons_append, List.flatMap_cons]
  exact (lossyChars_append_ascii hbrace front _).trans (congrArg _ (congrArg _ hrest))

/-- What a marker has inside is the number. -/
theorem digits_inside {ds : List Char} (hne : ds ≠ []) (hdigits : ∀ c ∈ ds, c.isDigit = true)
    (hn : Nat.ofDigitChars 10 ds 0 < 2 ^ 64) (plus : Bool) :
    let inside := ds ++ if plus then ['+'] else []
    digits (2 ^ 64 - 1) (if inside.getLast? = some '+' then inside.dropLast else inside) =
      some (Nat.ofDigitChars 10 ds 0) := by
  intro inside
  have hall : ds.all Char.isDigit = true := List.all_eq_true.mpr hdigits
  have hempty : ds.isEmpty = false := by simpa using hne
  have hread : digits (2 ^ 64 - 1) ds = some (Nat.ofDigitChars 10 ds 0) := by
    rw [digits, hall, hempty, if_neg (by simp), parseUnsigned_digits hdigits hne,
      if_pos (Nat.le_sub_one_of_lt hn)]
  cases plus with
  | true => simpa [inside] using hread
  | false =>
    have hlast : ds.getLast? ≠ some '+' := fun hlast =>
      absurd (hdigits '+' (List.mem_of_getLast? hlast)) (by decide)
    simpa [inside, hlast] using hread

/-- An announcement is seen. -/
theorem extractLiteralSize_of_announces {text : Bytes} {n : Nat} (h : Announces text n)
    (hn : n < 2 ^ 64) : extractLiteralSize (fromUtf8Lossy text) = some n := by
  obtain ⟨front, ds, plus, rfl, hne, hdigits, rfl⟩ := h
  have htext := lossyChars_marker front ds plus
  generalize lossyChars front = before at htext
  have hbrace : '{' ∉ ds ++ (if plus then ['+'] else []) := by
    intro hin
    rcases List.mem_append.mp hin with hin | hin
    · exact absurd (hdigits _ hin) (by decide)
    · cases plus <;> simp at hin
  have heol : ¬isEol '}' = true := by decide
  have hblank : ¬isWhitespace '}' = true := by decide
  have hread := digits_inside hne hdigits hn plus
  unfold extractLiteralSize
  rw [fromUtf8Lossy, htext, marker, ← List.append_assoc]
  simp only [trimEndMatches, trimEnd, String.toList_ofList, List.rdropWhile_concat_neg _ _ _ heol,
    List.rdropWhile_concat_neg _ _ _ hblank, List.getLast?_concat, List.dropLast_concat, if_true,
    rsplitOnceAt_append hbrace, Option.bind_eq_bind, Option.bind_some]
  exact hread

theorem extractLiteralSize_of_last {s : String} (before : List Char) (c : Char)
    (hs : s.toList = before ++ [c]) (heol : isEol c = false) (hblank : isWhitespace c = false)
    (hbrace : c ≠ '}') : extractLiteralSize s = none := by
  have heol' : ¬isEol c = true := by simp [heol]
  have hblank' : ¬isWhitespace c = true := by simp [hblank]
  unfold extractLiteralSize
  simp only [trimEndMatches, trimEnd, hs, String.toList_ofList,
    List.rdropWhile_concat_neg _ _ _ heol', List.rdropWhile_concat_neg _ _ _ hblank',
    List.getLast?_concat, Option.some.injEq, hbrace, if_false]

/-! ## The end of a response -/

/-- A tag is made of visible characters. -/
def IsTag (tag : String) : Prop :=
  tag.toList ≠ [] ∧ ∀ c ∈ tag.toList, 0x21 ≤ c.toNat ∧ c.toNat ≤ 0x7e

/-- The line ends a response, or asks for more. -/
def Ends (tag line : String) : Prop :=
  trimEnd line = "+" ∨ startsWith "+ " (trimEnd line) = true ∨
    isTaggedLine (trimEnd line) tag = true

variable {tag : String} {seg : Bytes}

theorem isWhitespace_of_visible {c : Char} (h : 0x21 ≤ c.toNat ∧ c.toNat ≤ 0x7e) :
    isWhitespace c = false := by
  simp [isWhitespace]
  omega

theorem isTaggedLine_iff {line tag : String} : isTaggedLine line tag = true ↔
    ∃ rest, line.toList = tag.toList ++ rest ∧ (rest = [] ∨ rest.head? = some ' ') := by
  unfold isTaggedLine afterPrefix startsWith
  by_cases hpre : tag.toList.isPrefixOf line.toList = true
  · obtain ⟨rest, hrest⟩ := List.isPrefixOf_iff_prefix.mp hpre
    have hdrop : line.toList.drop tag.toList.length = rest := by rw [← hrest, List.drop_left]
    rw [if_pos hpre, hdrop, ← hrest]
    cases rest with
    | nil => simp
    | cons c rest =>
      simp
      exact eq_comm
  · rw [if_neg hpre]
    rw [List.isPrefixOf_iff_prefix] at hpre
    constructor
    · nofun
    · rintro ⟨rest, hrest, -⟩
      exact absurd ⟨rest, hrest.symm⟩ hpre

theorem toList_trimEnd (bytes : Bytes) : (trimEnd (fromUtf8Lossy bytes)).toList =
    (lossyChars bytes).rdropWhile isWhitespace := by
  rw [trimEnd, trimEndMatches, fromUtf8Lossy, String.toList_ofList, String.toList_ofList]

/-- A line that ends a response begins with the tag or with a plus. -/
theorem prefix_of_ends (h : Ends tag (fromUtf8Lossy seg)) :
    "+".toList <+: lossyChars seg ∨ tag.toList <+: lossyChars seg := by
  have htrim : (trimEnd (fromUtf8Lossy seg)).toList <+: lossyChars seg := by
    rw [toList_trimEnd]
    exact List.rdropWhile_prefix _ _
  rcases h with h | h | h
  · exact .inl (h ▸ htrim)
  · rw [startsWith, List.isPrefixOf_iff_prefix] at h
    have hplus : "+".toList <+: "+ ".toList := ⟨[' '], rfl⟩
    exact .inl (hplus.trans (h.trans htrim))
  · obtain ⟨rest, hrest, -⟩ := isTaggedLine_iff.mp h
    exact .inr (List.IsPrefix.trans ⟨rest, hrest.symm⟩ htrim)

theorem prefix_of_lossyChars {s : String} (hs : ∀ c ∈ s.toList, c.toNat < 0x80)
    (h : s.toList <+: lossyChars seg) : asBytes s <+: seg := by
  obtain ⟨rest, hrest⟩ := h
  obtain ⟨more, rfl, -⟩ := eq_append_of_lossyChars hs hrest.symm
  exact ⟨more, by rw [asBytes_eq_flatMap]⟩

theorem lossyChars_of_prefix {s : String} (h : asBytes s <+: seg) :
    ∃ more, lossyChars seg = s.toList ++ more := by
  obtain ⟨rest, rfl⟩ := h
  exact ⟨_, by rw [asBytes_eq_flatMap, lossyChars_flatMap_append]⟩

/-- What stands behind a literal does not end the response. -/
theorem not_ends_later (htag : IsTag tag) (h : ¬asBytes tag <+: seg)
    (hplus : ¬asBytes "+" <+: seg) : ¬Ends tag (fromUtf8Lossy seg) := by
  intro hends
  rcases prefix_of_ends hends with hpre | hpre
  · exact hplus (prefix_of_lossyChars (by simp) hpre)
  · exact h (prefix_of_lossyChars (fun c hc => by have := htag.2 c hc; omega) hpre)

theorem ends_tagged (htag : IsTag tag) (h : asBytes (tag ++ " ") <+: seg) :
    Ends tag (fromUtf8Lossy seg) := by
  obtain ⟨more, hmore⟩ := lossyChars_of_prefix h
  have hvisible : ∀ c ∈ tag.toList, isWhitespace c = false := fun c hc =>
    isWhitespace_of_visible (htag.2 c hc)
  refine .inr (.inr (isTaggedLine_iff.mpr ⟨(' ' :: more).rdropWhile isWhitespace, ?_, ?_⟩))
  · have hline : lossyChars seg = tag.toList ++ ' ' :: more := by rw [hmore]; simp
    rw [toList_trimEnd, hline, rdropWhile_append_of_neg hvisible]
  · have hpre := List.rdropWhile_prefix isWhitespace (' ' :: more)
    cases hrest : (' ' :: more).rdropWhile isWhitespace with
    | nil => exact .inl rfl
    | cons c rest =>
      rw [hrest, List.cons_prefix_cons] at hpre
      exact .inr (congrArg some hpre.1)

/-- Nor does an untagged line. -/
theorem not_ends_untagged (htag : IsTag tag) (h : asBytes "* " <+: seg)
    (hne : ¬asBytes (tag ++ " ") <+: seg) : ¬Ends tag (fromUtf8Lossy seg) := by
  intro hends
  obtain ⟨more, hmore⟩ := lossyChars_of_prefix h
  have hline : lossyChars seg = '*' :: ' ' :: more := by rw [hmore]; rfl
  have hpre := prefix_of_ends hends
  rw [hline] at hpre
  rcases hpre with hpre | hpre
  · exact absurd (List.cons_prefix_cons.mp hpre).1 (by decide)
  · -- the tag would be an asterisk
    obtain ⟨hnil, hvisible⟩ := htag
    cases hchars : tag.toList with
    | nil => exact hnil hchars
    | cons c cs =>
      rw [hchars, List.cons_prefix_cons] at hpre
      obtain ⟨rfl, hpre⟩ := hpre
      cases cs with
      | nil =>
        obtain rfl : tag = "*" := String.toList_injective hchars
        exact hne h
      | cons c cs =>
        obtain ⟨rfl, -⟩ := List.cons_prefix_cons.mp hpre
        have hspace := hvisible ' ' (by simp [hchars])
        exact absurd hspace.1 (by decide)

/-! ## Responses -/

/-- A segment, and the octets behind it unless it is the last of its line. -/
abbrev Piece := Bytes × Option Bytes

def Piece.wire (p : Piece) : Bytes := p.1 ++ (crlf ++ p.2.getD [])

/-- What a piece is decoded to. -/
def Piece.text (p : Piece) : String :=
  fromUtf8Lossy p.1 ++ "\r\n" ++ fromUtf8Lossy (p.2.getD [])

/-- Segments with the octets that they announce, and the last segment. -/
structure LogicalLine where
  literals : List (Bytes × Bytes)
  last : Bytes

def LogicalLine.pieces (l : LogicalLine) : List Piece :=
  l.literals.map (fun p => (p.1, some p.2)) ++ [(l.last, none)]

/-- A line as the syntax has it. -/
structure LogicalLine.WellFormed (l : LogicalLine) : Prop where
  unbroken : ∀ p ∈ l.pieces, ¬crlf <:+: p.1
  announced : ∀ p ∈ l.literals, Announces p.1 p.2.length
  ended : ∀ n, ¬Announces l.last n

structure Response where
  untagged : List LogicalLine
  tagged : LogicalLine

namespace Response

def lines (r : Response) : List LogicalLine := r.untagged ++ [r.tagged]

def pieces (r : Response) : List Piece := r.lines.flatMap LogicalLine.pieces

def wire (r : Response) : Bytes := r.pieces.flatMap Piece.wire

def literals (r : Response) : List Bytes := r.pieces.filterMap Prod.snd

/-- What the response is decoded to. -/
def text (r : Response) : String := String.join (r.pieces.map Piece.text)

/-- A response to the command of a tag: only its last line begins with the tag, and behind a literal
there is neither the tag nor a plus. -/
structure WellFormed (tag : String) (r : Response) : Prop where
  lines : ∀ l ∈ r.lines, l.WellFormed
  untagged : ∀ l ∈ r.untagged, ∀ p ∈ l.pieces.head?,
    asBytes "* " <+: p.1 ∧ ¬asBytes (tag ++ " ") <+: p.1
  tagged : ∀ p ∈ r.tagged.pieces.head?, asBytes (tag ++ " ") <+: p.1
  later : ∀ l ∈ r.lines, ∀ p ∈ l.pieces.tail, ¬asBytes tag <+: p.1 ∧ ¬asBytes "+" <+: p.1

end Response

/-- The reader goes on behind the piece. -/
def Quiet (tag : String) (p : Piece) : Prop :=
  ¬crlf <:+: p.1 ∧ match p.2 with
    | some octets => Announces p.1 octets.length
    | none => extractLiteralSize (fromUtf8Lossy p.1) = none ∧ ¬Ends tag (fromUtf8Lossy p.1)

theorem len_append (s t : String) : len (s ++ t) = len s + len t := by
  rw [len, asBytes_append, List.length_append]
  rfl

theorem len_fromUtf8Lossy (bytes : Bytes) :
    len (fromUtf8Lossy bytes) = size (lossyChars bytes) := by
  rw [len, asBytes_eq_flatMap, fromUtf8Lossy, String.toList_ofList, size]

theorem len_line (text : String) (seg : Bytes) :
    len (text ++ fromUtf8Lossy seg ++ "\r\n") = len text + (size (lossyChars seg) + 2) := by
  rw [len_append, len_append, len_fromUtf8Lossy, Nat.add_assoc]
  rfl

section

variable {octets : Bytes} (tag text : String) (literals : List Bytes) (left : Nat)

/-- What becomes of a line that has been read. -/
def afterLine (tag : String) (left : Nat) (text : String) (literals : List Bytes) (line : String)
    (buf : Bytes) : Session (String × List Bytes × Bytes) :=
  if maxResponseBytes < len (text ++ line ++ "\r\n") then Talk.fail tooLong
  else match extractLiteralSize line with
    | some n =>
      if maxLiteralBytes < n then
        Talk.fail (.badResponse s!"imap: literal size {n} exceeds maximum {maxLiteralBytes}")
      else if maxResponseBytes < len (text ++ line ++ "\r\n") + n then Talk.fail tooLong
      else do
        let (bytes, buf) ← readExact n buf
        readResponseFrom tag left (text ++ line ++ "\r\n" ++ fromUtf8Lossy bytes)
          (literals ++ [bytes]) buf
    | none =>
      if trimEnd line = "+" ∨ startsWith "+ " (trimEnd line) then
        return (text ++ line ++ "\r\n", literals, buf)
      else if isTaggedLine (trimEnd line) tag then
        return (text ++ line ++ "\r\n", literals, buf)
      else readResponseFrom tag left (text ++ line ++ "\r\n") literals buf

theorem readResponseFrom_succ (tag : String) (left : Nat) (text : String) (literals : List Bytes)
    (buf : Bytes) : readResponseFrom tag (left + 1) text literals buf = (do
      let (line, buf) ← readLine buf
      afterLine tag left text literals line buf) := by
  refine congrArg (readLine buf >>= ·) (funext fun x => ?_)
  cases hsize : extractLiteralSize x.1 <;> simp only [afterLine, hsize]

theorem exec_readResponseFrom {l : String} {buf₁ : Bytes} {w₁ : Wire}
    (h : (readLine buf).exec Wire.answer w = .ok (l, buf₁) w₁) :
    (readResponseFrom tag (left + 1) text literals buf).exec Wire.answer w =
      (afterLine tag left text literals l buf₁).exec Wire.answer w₁ := by
  rw [readResponseFrom_succ, Talk.exec_bind, h]
  rfl

/-- A line that is too long, with what it announces. -/
theorem exec_long (hline : ¬crlf <:+: line) (hahead : Ahead buf w (line ++ (crlf ++ rest)))
    (hlong : maxResponseBytes < len text + (size (lossyChars line) + 2) +
      (extractLiteralSize (fromUtf8Lossy line)).getD 0) :
    ∃ e w', (readResponseFrom tag (left + 1) text literals buf).exec Wire.answer w =
      .error e w' := by
  rcases exec_readLine hline hahead with ⟨buf₁, w₁, hread, -⟩ | ⟨-, e, w₁, hread⟩
  · rw [← len_line] at hlong
    rw [exec_readResponseFrom tag text literals left hread, afterLine]
    by_cases hline : maxResponseBytes < len (text ++ fromUtf8Lossy line ++ "\r\n")
    · exact ⟨tooLong, w₁, by rw [if_pos hline]; rfl⟩
    · rw [if_neg hline]
      cases hsize : extractLiteralSize (fromUtf8Lossy line) with
      | none => exact absurd (by simpa [hsize] using hlong) hline
      | some n =>
        rw [hsize, Option.getD_some] at hlong
        dsimp only
        by_cases hn : maxLiteralBytes < n
        · exact ⟨_, w₁, by rw [if_pos hn]; rfl⟩
        · exact ⟨tooLong, w₁, by rw [if_neg hn, if_pos hlong]; rfl⟩
  · refine ⟨e, w₁, ?_⟩
    rw [readResponseFrom_succ, Talk.exec_bind, hread]
    rfl

/-- A line that announces a literal. -/
theorem exec_literal (hline : ¬crlf <:+: line)
    (hahead : Ahead buf w (line ++ (crlf ++ (octets ++ rest))))
    (hsize : extractLiteralSize (fromUtf8Lossy line) = some octets.length)
    (hshort : len text + (size (lossyChars line) + 2) + octets.length ≤ maxResponseBytes) :
    ∃ buf' w', Ahead buf' w' rest ∧
      (readResponseFrom tag (left + 1) text literals buf).exec Wire.answer w =
        (readResponseFrom tag left (text ++ fromUtf8Lossy line ++ "\r\n" ++ fromUtf8Lossy octets)
          (literals ++ [octets]) buf').exec Wire.answer w' := by
  obtain ⟨buf₁, w₁, hread, hahead₁⟩ := exec_readLine_short hline (by omega) hahead
  obtain ⟨buf₂, w₂, hread₂, hahead₂⟩ := exec_readExact hahead₁
  refine ⟨buf₂, w₂, hahead₂, ?_⟩
  rw [← len_line] at hshort
  have hone : ¬maxLiteralBytes < octets.length := by
    have hmax : maxLiteralBytes = maxResponseBytes := rfl
    omega
  rw [exec_readResponseFrom tag text literals left hread, afterLine, if_neg (by omega)]
  simp only [hsize]
  rw [if_neg hone, if_neg (by omega), Talk.exec_bind, hread₂]
  rfl

/-- A line without a literal. -/
theorem exec_plain (hline : ¬crlf <:+: line) (hahead : Ahead buf w (line ++ (crlf ++ rest)))
    (hsize : extractLiteralSize (fromUtf8Lossy line) = none)
    (hshort : len text + (size (lossyChars line) + 2) ≤ maxResponseBytes)
    (hends : ¬Ends tag (fromUtf8Lossy line)) :
    ∃ buf' w', Ahead buf' w' rest ∧
      (readResponseFrom tag (left + 1) text literals buf).exec Wire.answer w =
        (readResponseFrom tag left (text ++ fromUtf8Lossy line ++ "\r\n") literals buf').exec
          Wire.answer w' := by
  obtain ⟨buf₁, w₁, hread, hahead₁⟩ := exec_readLine_short hline (by omega) hahead
  refine ⟨buf₁, w₁, hahead₁, ?_⟩
  rw [← len_line] at hshort
  simp only [Ends, not_or] at hends
  obtain ⟨hplus, hmore, htagged⟩ := hends
  rw [exec_readResponseFrom tag text literals left hread, afterLine, if_neg (by omega)]
  simp only [hsize]
  rw [if_neg (not_or.mpr ⟨hplus, hmore⟩), if_neg htagged]

/-- The last line. -/
theorem exec_end (hline : ¬crlf <:+: line) (hahead : Ahead buf w (line ++ (crlf ++ rest)))
    (hsize : extractLiteralSize (fromUtf8Lossy line) = none)
    (hshort : len text + (size (lossyChars line) + 2) ≤ maxResponseBytes)
    (hends : Ends tag (fromUtf8Lossy line)) :
    ∃ buf' w', Ahead buf' w' rest ∧
      (readResponseFrom tag (left + 1) text literals buf).exec Wire.answer w =
        .ok (text ++ fromUtf8Lossy line ++ "\r\n", literals, buf') w' := by
  obtain ⟨buf₁, w₁, hread, hahead₁⟩ := exec_readLine_short hline (by omega) hahead
  refine ⟨buf₁, w₁, hahead₁, ?_⟩
  rw [← len_line] at hshort
  rw [exec_readResponseFrom tag text literals left hread, afterLine, if_neg (by omega)]
  simp only [hsize]
  split_ifs with hplus htagged
  · rfl
  · rfl
  · rcases hends with h | h | h
    · exact absurd (.inl h) hplus
    · exact absurd (.inr h) hplus
    · exact absurd h htagged

theorem len_pieceText (p : Piece) : len p.text =
    size (lossyChars p.1) + 2 + size (lossyChars (p.2.getD [])) := by
  rw [Piece.text, len_append, len_append, len_fromUtf8Lossy, len_fromUtf8Lossy]
  rfl

/-- Where nothing more comes, the response has no end. -/
theorem exec_eof (hahead : Ahead buf w []) :
    ∃ w', (readResponseFrom tag (left + 1) text literals buf).exec Wire.answer w =
      .error .unexpectedEof w' := by
  obtain ⟨w', heof⟩ := exec_readLine_eof hahead
  refine ⟨w', ?_⟩
  rw [readResponseFrom_succ, Talk.exec_bind, heof]
  rfl

/-- The text gets longer by what is decoded, or is too long by then. -/
theorem exec_quiet {p : Piece} (hq : Quiet tag p) (hword : ∀ o ∈ p.2, o.length < 2 ^ 64)
    (hahead : Ahead buf w (p.wire ++ rest)) :
    (∃ buf' w', Ahead buf' w' rest ∧
      (readResponseFrom tag (left + 1) text literals buf).exec Wire.answer w =
        (readResponseFrom tag left (text ++ p.text) (literals ++ p.2.toList) buf').exec
          Wire.answer w') ∨
    maxResponseBytes < len text + len p.text ∧ ∃ e w',
      (readResponseFrom tag (left + 1) text literals buf).exec Wire.answer w = .error e w' := by
  obtain ⟨seg, octets⟩ := p
  obtain ⟨hline, hq⟩ := hq
  have hwire : Piece.wire (seg, octets) ++ rest = seg ++ (crlf ++ (octets.getD [] ++ rest)) := by
    simp [Piece.wire]
  have htext := len_pieceText (seg, octets)
  dsimp only at hline hq htext
  rw [hwire] at hahead
  cases octets with
  | none =>
    by_cases hshort : len text + (size (lossyChars seg) + 2) ≤ maxResponseBytes
    · obtain ⟨buf', w', hahead', hexec⟩ :=
        exec_plain tag text literals left hline hahead hq.1 hshort hq.2
      refine .inl ⟨buf', w', hahead', ?_⟩
      rw [hexec, Piece.text, ← String.append_assoc, ← String.append_assoc]
      simp [fromUtf8Lossy, lossyChars, lossyFrom]
    · refine .inr ⟨by omega, exec_long tag text literals left hline hahead ?_⟩
      rw [hq.1, Option.getD_none]
      omega
  | some octets =>
    have hoctets := length_le_size_lossyChars octets
    rw [Option.getD_some] at htext hahead
    have hsize := extractLiteralSize_of_announces hq (hword octets rfl)
    by_cases hshort : len text + (size (lossyChars seg) + 2) + octets.length ≤ maxResponseBytes
    · obtain ⟨buf', w', hahead', hexec⟩ :=
        exec_literal tag text literals left hline hahead hsize hshort
      refine .inl ⟨buf', w', hahead', ?_⟩
      rw [hexec, Piece.text, ← String.append_assoc, ← String.append_assoc]
      rfl
    · refine .inr ⟨by omega, exec_long tag text literals left hline hahead ?_⟩
      rw [hsize, Option.getD_some]
      omega

/-- So does a run of the reader over pieces. -/
theorem exec_quiets {ps : List Piece} (hq : ∀ p ∈ ps, Quiet tag p)
    (hword : ∀ o ∈ ps.filterMap Prod.snd, o.length < 2 ^ 64)
    (hahead : Ahead buf w (ps.flatMap Piece.wire ++ rest)) :
    (∃ buf' w', Ahead buf' w' rest ∧
      (readResponseFrom tag (left + ps.length) text literals buf).exec Wire.answer w =
        (readResponseFrom tag left (text ++ String.join (ps.map Piece.text))
          (literals ++ ps.filterMap Prod.snd) buf').exec Wire.answer w') ∨
    maxResponseBytes < len text + len (String.join (ps.map Piece.text)) ∧ ∃ e w',
      (readResponseFrom tag (left + ps.length) text literals buf).exec Wire.answer w =
        .error e w' := by
  induction ps generalizing buf w text literals with
  | nil => exact .inl ⟨buf, w, hahead, by simp⟩
  | cons p ps ih =>
    obtain ⟨hp, hps⟩ := List.forall_mem_cons.mp hq
    rw [List.flatMap_cons, List.append_assoc] at hahead
    have htext : String.join ((p :: ps).map Piece.text) =
        p.text ++ String.join (ps.map Piece.text) := by simp
    have hlits : (p :: ps).filterMap Prod.snd = p.2.toList ++ ps.filterMap Prod.snd := by
      obtain ⟨seg, octets⟩ := p
      cases octets <;> simp
    rw [hlits] at hword
    have hword₁ : ∀ o ∈ p.2, o.length < 2 ^ 64 := fun o ho =>
      hword o (List.mem_append_left _ (Option.mem_toList.mpr ho))
    have hword₂ : ∀ o ∈ ps.filterMap Prod.snd, o.length < 2 ^ 64 := fun o ho =>
      hword o (List.mem_append_right _ ho)
    rw [htext, len_append, hlits, List.length_cons, ← Nat.add_assoc]
    rcases exec_quiet tag text literals (left + ps.length) hp hword₁ hahead with
      ⟨buf₁, w₁, hahead₁, hexec⟩ | ⟨hlong, herror⟩
    · rw [hexec]
      rcases ih (text ++ p.text) (literals ++ p.2.toList) hps hword₂ hahead₁ with
        ⟨buf', w', hahead', hexec'⟩ | ⟨hlong, herror⟩
      · refine .inl ⟨buf', w', hahead', ?_⟩
        rw [hexec', String.append_assoc, List.append_assoc]
      · rw [len_append] at hlong
        exact .inr ⟨by omega, herror⟩
    · exact .inr ⟨by omega, herror⟩

/-- More pieces than there are turns do not fit. -/
theorem exec_many {ps : List Piece} (hq : ∀ p ∈ ps, Quiet tag p)
    (hword : ∀ o ∈ ps.filterMap Prod.snd, o.length < 2 ^ 64) (hleft : left ≤ ps.length)
    (hahead : Ahead buf w (ps.flatMap Piece.wire ++ rest)) :
    ∃ e w', (readResponseFrom tag left text literals buf).exec Wire.answer w = .error e w' := by
  rw [← List.take_append_drop left ps, List.flatMap_append, List.append_assoc] at hahead
  have hword' : ∀ o ∈ (ps.take left).filterMap Prod.snd, o.length < 2 ^ 64 := fun o ho =>
    hword o (((List.take_prefix left ps).filterMap _).subset ho)
  have hturns := exec_quiets tag text literals 0 (fun p hp => hq p (List.mem_of_mem_take hp)) hword'
    hahead
  rw [List.length_take_of_le hleft, Nat.zero_add] at hturns
  rcases hturns with ⟨buf', w', -, hexec⟩ | ⟨-, herror⟩
  · exact ⟨tooLong, w', by rw [hexec]; rfl⟩
  · exact herror

end

/-- Within a line, the reader goes on: a segment ends it only as the last. -/
theorem quiet_pieces {l : LogicalLine} (hl : l.WellFormed)
    (hsize : extractLiteralSize (fromUtf8Lossy l.last) = none)
    (hends : ¬Ends tag (fromUtf8Lossy l.last)) : ∀ p ∈ l.pieces, Quiet tag p := by
  intro p hp
  refine ⟨hl.unbroken p hp, ?_⟩
  rcases List.mem_append.mp hp with hp | hp
  · obtain ⟨q, hq, rfl⟩ := List.mem_map.mp hp
    exact hl.announced q hq
  · obtain rfl := List.mem_singleton.mp hp
    exact ⟨hsize, hends⟩

theorem not_ends_of_literals (htag : IsTag tag) {r : Response} (hr : r.WellFormed tag)
    {l : LogicalLine} (hl : l ∈ r.lines) (hne : l.literals ≠ []) :
    ¬Ends tag (fromUtf8Lossy l.last) := by
  obtain ⟨p, ps, hps⟩ := List.exists_cons_of_ne_nil hne
  have htail : (l.last, none) ∈ l.pieces.tail := by simp [LogicalLine.pieces, hps]
  obtain ⟨hlater, hplus⟩ := hr.later l hl _ htail
  exact not_ends_later htag hlater hplus

theorem not_ends_of_untagged (htag : IsTag tag) {r : Response} (hr : r.WellFormed tag)
    {l : LogicalLine} (hl : l ∈ r.untagged) : ¬Ends tag (fromUtf8Lossy l.last) := by
  by_cases hne : l.literals = []
  · have hhead : (l.last, none) ∈ l.pieces.head? := by simp [LogicalLine.pieces, hne]
    obtain ⟨hstar, hother⟩ := hr.untagged l hl _ hhead
    exact not_ends_untagged htag hstar hother
  · exact not_ends_of_literals htag hr (List.mem_append_left _ hl) hne

/-- No segment that is the last of its line is taken for an announcement. -/
def Response.NoFalseMarker (r : Response) : Prop :=
  ∀ l ∈ r.lines, extractLiteralSize (fromUtf8Lossy l.last) = none

theorem length_le_of_pieces (ps : List Piece) :
    ps.length ≤ len (String.join (ps.map Piece.text)) := by
  induction ps with
  | nil => exact le_rfl
  | cons p ps ih =>
    have htext : String.join ((p :: ps).map Piece.text) =
        p.text ++ String.join (ps.map Piece.text) := by simp
    rw [htext, len_append, len_pieceText, List.length_cons]
    omega

/-- A response whose last line is whole is read, if there is room for what it is decoded to. -/
theorem exec_response (htag : IsTag tag) {r : Response} (hr : r.WellFormed tag)
    (hword : ∀ o ∈ r.literals, o.length < 2 ^ 64) (hmarker : r.NoFalseMarker)
    (hlast : r.tagged.literals = []) (hahead : Ahead buf w (r.wire ++ rest)) :
    (∃ buf' w', Ahead buf' w' rest ∧
      (readResponse tag buf).exec Wire.answer w = .ok (r.text, r.literals, buf') w') ∧
        len r.text ≤ maxResponseBytes ∨
    maxResponseBytes < len r.text ∧
      ∃ e w', (readResponse tag buf).exec Wire.answer w = .error e w' := by
  obtain ⟨ps, hps⟩ : ∃ ps, ps = r.untagged.flatMap LogicalLine.pieces := ⟨_, rfl⟩
  have hpieces : r.pieces = ps ++ [(r.tagged.last, none)] := by
    simp [Response.pieces, Response.lines, LogicalLine.pieces, hlast, hps]
  have hquiet : ∀ p ∈ ps, Quiet tag p := by
    intro p hp
    rw [hps] at hp
    obtain ⟨l, hl, hp⟩ := List.mem_flatMap.mp hp
    have hlines : l ∈ r.lines := List.mem_append_left _ hl
    exact quiet_pieces (hr.lines l hlines) (hmarker l hlines) (not_ends_of_untagged htag hr hl) p hp
  have htagged : r.tagged ∈ r.lines := List.mem_append_right _ (List.mem_singleton_self _)
  have hends : Ends tag (fromUtf8Lossy r.tagged.last) := by
    refine ends_tagged htag (hr.tagged (r.tagged.last, none) ?_)
    simp [LogicalLine.pieces, hlast]
  have hline : ¬crlf <:+: r.tagged.last :=
    (hr.lines _ htagged).unbroken (r.tagged.last, none) (by simp [LogicalLine.pieces])
  have htext : r.text =
      String.join (ps.map Piece.text) ++ fromUtf8Lossy r.tagged.last ++ "\r\n" := by
    have hnil : fromUtf8Lossy [] = "" := rfl
    simp [Response.text, hpieces, Piece.text, hnil, String.append_assoc]
  have hliterals : r.literals = ps.filterMap Prod.snd := by
    simp [Response.literals, hpieces]
  have hwire : r.wire = ps.flatMap Piece.wire ++ (r.tagged.last ++ crlf) := by
    simp [Response.wire, hpieces, Piece.wire]
  have hcount := length_le_of_pieces ps
  rw [hliterals] at hword
  rw [hwire, List.append_assoc, List.append_assoc] at hahead
  rw [readResponse, hliterals, htext, len_line]
  by_cases hmany : maxResponseBytes < ps.length
  · exact .inr ⟨by omega, exec_many tag "" [] _ hquiet hword hmany hahead⟩
  obtain ⟨left, hleft⟩ : ∃ left, maxResponseBytes + 1 = left + 1 + ps.length :=
    ⟨maxResponseBytes - ps.length, by omega⟩
  rw [hleft]
  rcases exec_quiets tag "" [] (left + 1) hquiet hword hahead with
    ⟨buf₁, w₁, hahead₁, hexec⟩ | ⟨hlong, herror⟩
  · rw [hexec, String.empty_append, List.nil_append]
    by_cases hshort : len (String.join (ps.map Piece.text)) +
        (size (lossyChars r.tagged.last) + 2) ≤ maxResponseBytes
    · obtain ⟨buf', w', hahead', hexec'⟩ := exec_end tag _ (ps.filterMap Prod.snd) left hline
        hahead₁ (hmarker _ htagged) hshort hends
      exact .inl ⟨⟨buf', w', hahead', hexec'⟩, hshort⟩
    · refine .inr ⟨by omega, exec_long tag _ _ left hline hahead₁ ?_⟩
      rw [hmarker _ htagged, Option.getD_none]
      omega
  · have hempty : len "" = 0 := rfl
    exact .inr ⟨by omega, herror⟩

/-- A last line with a literal in it is not seen to be one: the reader waits for another. -/
theorem exec_tagged_literal (htag : IsTag tag) {r : Response} (hr : r.WellFormed tag)
    (hword : ∀ o ∈ r.literals, o.length < 2 ^ 64) (hmarker : r.NoFalseMarker)
    (hlast : r.tagged.literals ≠ []) (hahead : Ahead buf w r.wire) :
    ∃ e w', (readResponse tag buf).exec Wire.answer w = .error e w' := by
  have hquiet : ∀ p ∈ r.pieces, Quiet tag p := by
    intro p hp
    obtain ⟨l, hl, hp⟩ := List.mem_flatMap.mp hp
    refine quiet_pieces (hr.lines l hl) (hmarker l hl) ?_ p hp
    rcases List.mem_append.mp hl with hl | hl
    · exact not_ends_of_untagged htag hr hl
    · obtain rfl := List.mem_singleton.mp hl
      exact not_ends_of_literals htag hr (List.mem_append_right _ (List.mem_singleton_self _)) hlast
  rw [← List.append_nil r.wire] at hahead
  rw [readResponse]
  by_cases hmany : maxResponseBytes < r.pieces.length
  · exact exec_many tag "" [] _ hquiet hword hmany hahead
  obtain ⟨left, hleft⟩ : ∃ left, maxResponseBytes + 1 = left + 1 + r.pieces.length :=
    ⟨maxResponseBytes - r.pieces.length, by omega⟩
  rw [hleft]
  rcases exec_quiets tag "" [] (left + 1) hquiet hword hahead with
    ⟨buf₁, w₁, hahead₁, hexec⟩ | ⟨-, herror⟩
  · rw [hexec]
    exact ⟨.unexpectedEof, exec_eof tag _ _ _ hahead₁⟩
  · exact herror

/-! ## Dialogues -/

/-- Nothing stops what we send, before the handshake and behind it. -/
structure Open (s : Except Error Side) (w : Wire) : Prop where
  sends : w.side.sends = []
  session : w.session = s
  behind : ∀ side, s = .ok side → side.sends = []

variable {s : Except Error Side}

theorem Open.answer (h : Open s w) (op : Op) : Open s (Wire.answer op w).2 := by
  obtain ⟨hsends, hsession, hbehind⟩ := h
  cases op with
  | handshake host =>
    cases hs : s with
    | ok side =>
      exact ⟨by simp [Wire.answer, hsession, hs, hbehind side hs],
        by simp [Wire.answer, hsession, hs], hs ▸ hbehind⟩
    | error e =>
      exact ⟨by simp [Wire.answer, hsession, hs, hsends],
        by simp [Wire.answer, hsession, hs], hs ▸ hbehind⟩
  | send bytes => exact ⟨by simp [Wire.answer, Side.write, hsends], hsession, hbehind⟩
  | _ => exact ⟨hsends, hsession, hbehind⟩

theorem Open.exec {α : Type} {t : Session α} (h : Open s w) :
    Open s (t.exec Wire.answer w).state := by
  induction t generalizing w with
  | done a => exact h
  | fail e => exact h
  | ask op next ih => exact ih _ (h.answer op)

theorem exec_sendText (h : Open s w) (line : String) :
    (sendText line).exec Wire.answer w = .ok () w := by
  obtain ⟨peers, buffer, ⟨reads, sends⟩, secure, session, data⟩ := w
  obtain rfl := h.sends
  rfl

theorem isTag_tag (n : Nat) : IsTag (Imap.tag n) := by
  have htag : (Imap.tag n).toList =
      'a' :: (List.replicate (3 - n.repr.length) '0' ++ Nat.toDigits 10 n) := by
    simp [Imap.tag, Nat.repr]
  refine ⟨by simp [htag], fun c hc => ?_⟩
  rw [htag] at hc
  rcases List.mem_cons.mp hc with rfl | hc
  · decide
  rcases List.mem_append.mp hc with hc | hc
  · rw [List.eq_of_mem_replicate hc]
    decide
  · obtain ⟨h0, h9⟩ :=
      Char.isDigit_iff_toNat.mp (Nat.isDigit_of_mem_toDigits (by decide) (by decide) hc)
    have hzero : '0'.toNat = 0x30 := rfl
    have hnine : '9'.toNat = 0x39 := rfl
    omega

/-- A response of one line. -/
theorem exec_oneLine (tag s : String) (htag : IsTag tag)
    (hpre : asBytes (tag ++ " ") <+: asBytes s) (hline : ¬crlf <:+: asBytes s)
    (hsize : extractLiteralSize s = none) (hshort : len s + 2 ≤ maxResponseBytes)
    (hahead : Ahead buf w (asBytes s ++ (crlf ++ rest))) :
    ∃ buf' w', Ahead buf' w' rest ∧
      (readResponse tag buf).exec Wire.answer w = .ok (s ++ "\r\n", [], buf') w' := by
  have hends := ends_tagged htag hpre
  have hlen : len "" + (size (lossyChars (asBytes s)) + 2) ≤ maxResponseBytes := by
    rw [← len_fromUtf8Lossy, fromUtf8Lossy_asBytes]
    exact (Nat.zero_add _).trans_le hshort
  rw [← fromUtf8Lossy_asBytes s] at hsize
  obtain ⟨buf', w', hahead', hexec⟩ :=
    exec_end tag "" [] maxResponseBytes hline hahead hsize hlen hends
  rw [String.empty_append, fromUtf8Lossy_asBytes] at hexec
  exact ⟨buf', w', hahead', hexec⟩

/-- A command, and a response without literals. -/
theorem exec_exchange {n : Nat} {cmd what : String} {buf rest : Bytes} {r : Response}
    (hopen : Open s w) (hr : r.WellFormed (Imap.tag n)) (hmarker : r.NoFalseMarker)
    (hliterals : r.literals = []) (hlast : r.tagged.literals = [])
    (hroom : len r.text ≤ maxResponseBytes) (hdone : requireOk r.text (Imap.tag n) what = .ok ())
    (hahead : Ahead buf w (r.wire ++ rest)) :
    ∃ buf' w', (exchange n cmd what buf).exec Wire.answer w = .ok (r.text, [], buf') w' ∧
      Open s w' ∧ Ahead buf' w' rest := by
  have hword : ∀ o ∈ r.literals, o.length < 2 ^ 64 := by simp [hliterals]
  rcases exec_response (isTag_tag n) hr hword hmarker hlast hahead with
    ⟨⟨buf', w', hahead', hexec⟩, -⟩ | ⟨hlong, -⟩
  · have hopen' : Open s ((readResponse (Imap.tag n) buf).exec Wire.answer w).state := hopen.exec
    rw [hexec] at hopen'
    rw [hliterals] at hexec
    refine ⟨buf', w', ?_, hopen', hahead'⟩
    rw [exchange, Talk.exec_bind, exec_sendText hopen]
    simp only [Outcome.andThen, Talk.exec_bind, hexec, hdone]
    rfl
  · omega

/-- The response is read for its literals and for no more than it is, however it arrives and
whatever comes behind it. -/
def ReadsBack (tag : String) (r : Response) : Prop :=
  ∀ rest buf w, Ahead buf w (r.wire ++ rest) → ∃ text buf' w', Ahead buf' w' rest ∧
    (readResponse tag buf).exec Wire.answer w = .ok (text, r.literals, buf') w'

theorem exists_ahead (bytes : Bytes) : ∃ w, Ahead bytes w bytes :=
  ⟨.delivering [], fun _ h => absurd h List.not_mem_nil, List.append_nil bytes⟩

theorem readsBack_iff (htag : IsTag tag) {r : Response} (hr : r.WellFormed tag)
    (hword : ∀ o ∈ r.literals, o.length < 2 ^ 64) (hmarker : r.NoFalseMarker) :
    ReadsBack tag r ↔ len r.text ≤ maxResponseBytes ∧ r.tagged.literals = [] := by
  constructor
  · intro h
    obtain ⟨w, hahead⟩ := exists_ahead r.wire
    obtain ⟨text, buf', w', -, hexec⟩ := h [] r.wire w (by rwa [List.append_nil])
    have hlast : r.tagged.literals = [] := by
      by_contra hlast
      obtain ⟨e, w'', herror⟩ := exec_tagged_literal htag hr hword hmarker hlast hahead
      rw [herror] at hexec
      cases hexec
    rw [← List.append_nil r.wire] at hahead
    rcases exec_response htag hr hword hmarker hlast hahead with ⟨-, hshort⟩ | ⟨-, e, w'', herror⟩
    · exact ⟨hshort, hlast⟩
    · rw [List.append_nil, hexec] at herror
      cases herror
  · rintro ⟨hshort, hlast⟩ rest buf w hahead
    rcases exec_response htag hr hword hmarker hlast hahead with
      ⟨⟨buf', w', hahead', hexec⟩, -⟩ | ⟨hlong, -⟩
    · exact ⟨r.text, buf', w', hahead', hexec⟩
    · omega

theorem length_le_of_literal {r : Response} {o : Bytes} (ho : o ∈ r.literals) :
    o.length ≤ r.wire.length := by
  obtain ⟨p, hp, ho⟩ := List.mem_filterMap.mp ho
  obtain ⟨front, back, hpieces⟩ := List.append_of_mem hp
  rw [Response.wire, hpieces, List.flatMap_append, List.flatMap_cons, Piece.wire, ho]
  simp only [List.length_append, Option.getD_some]
  omega

/-- Responses whose last segments are not taken for announcements are read just where there is room
for what they are decoded to, and the last line holds no literal. -/
theorem reader_exact {tag : String} (htag : IsTag tag) {r : Response} (hr : r.WellFormed tag)
    (hroom : r.wire.length ≤ maxResponseBytes) (hmarker : r.NoFalseMarker) :
    ReadsBack tag r ↔ len r.text ≤ maxResponseBytes ∧ r.tagged.literals = [] := by
  have hmax : maxResponseBytes < 2 ^ 64 := by decide
  refine readsBack_iff htag hr (fun o ho => ?_) hmarker
  exact (length_le_of_literal ho).trans_lt (hroom.trans_lt hmax)

theorem not_announces {seg : Bytes} (h : seg.getLast? ≠ some 0x7d) (n : Nat) :
    ¬Announces seg n := by
  rintro ⟨front, ds, plus, rfl, -⟩
  refine h ?_
  have hbrace : String.utf8EncodeChar '}' = [0x7d] := rfl
  rw [marker, List.flatMap_append, ← List.append_assoc, List.flatMap_singleton, hbrace,
    List.getLast?_concat]

/-- A line of one segment. -/
def plainLine (seg : String) : LogicalLine := ⟨[], asBytes seg⟩

/-- A line with one literal. -/
def literalLine (front : String) (octets : Bytes) (last : String) : LogicalLine :=
  ⟨[(asBytes front ++ (marker (Nat.toDigits 10 octets.length) false).flatMap String.utf8EncodeChar,
    octets)], asBytes last⟩

theorem plainLine_wellFormed {seg : String} (h : ¬crlf <:+: asBytes seg)
    (hlast : (asBytes seg).getLast? ≠ some 0x7d) : (plainLine seg).WellFormed where
  unbroken p hp := by
    obtain rfl := List.mem_singleton.mp hp
    exact h
  announced p hp := nomatch hp
  ended := not_announces hlast

theorem literalLine_wellFormed {front last : String} {octets : Bytes}
    (h : ∀ p ∈ (literalLine front octets last).pieces, ¬crlf <:+: p.1)
    (hlast : (asBytes last).getLast? ≠ some 0x7d) : (literalLine front octets last).WellFormed where
  unbroken := h
  announced p hp := by
    obtain rfl := List.mem_singleton.mp hp
    exact ⟨asBytes front, _, false, rfl, Nat.toDigits_ne_nil,
      fun c hc => Nat.isDigit_of_mem_toDigits (by decide) (by decide) hc,
      Nat.ofDigitChars_ten_toDigits⟩
  ended := not_announces hlast

theorem reader_exact_fetch : ReadsBack "a001"
    ⟨[literalLine "* 1 FETCH (BODY[] " (asBytes "a\r\n") ")"], plainLine "a001 OK"⟩ := by
  have hlit : (literalLine "* 1 FETCH (BODY[] " (asBytes "a\r\n") ")").WellFormed :=
    literalLine_wellFormed (by decide) (by decide)
  have hplain : (plainLine "a001 OK").WellFormed :=
    plainLine_wellFormed (by decide) (by decide)
  have htag : IsTag "a001" := ⟨by simp, by simp⟩
  refine (reader_exact htag ⟨?_, ?_, ?_, ?_⟩ ?_ ?_).mpr ⟨?_, rfl⟩
  · exact List.forall_mem_cons.mpr ⟨hlit, List.forall_mem_singleton.mpr hplain⟩
  · decide
  · decide
  · decide
  · decide
  · refine List.forall_mem_cons.mpr ⟨?_, List.forall_mem_singleton.mpr ?_⟩
    · decide
    · decide
  · decide

/-- The last line has a literal. -/
def refusal : Response := ⟨[], literalLine "a001 NO [BADCHARSET (" (asBytes "UTF-8") ")] no"⟩

/-- The first line has a blank behind what would be a marker. -/
def notice : Response := ⟨[plainLine "* OK {1} "], plainLine "a001 OK"⟩

theorem refusal_wellFormed : refusal.WellFormed "a001" where
  lines := List.forall_mem_singleton.mpr
    (literalLine_wellFormed (by decide) (by decide))
  untagged := by decide
  tagged := by decide
  later := by decide

theorem notice_wellFormed : notice.WellFormed "a001" where
  lines := List.forall_mem_cons.mpr
    ⟨plainLine_wellFormed (by decide) (by decide), List.forall_mem_singleton.mpr
      (plainLine_wellFormed (by decide) (by decide))⟩
  untagged := by decide
  tagged := by decide
  later := by decide

/-- The blank is trimmed, and the tag is read as part of a literal. -/
theorem exec_notice (hahead : Ahead buf w notice.wire) :
    ∃ w', (readResponse "a001" buf).exec Wire.answer w = .error .unexpectedEof w' := by
  have hwire : notice.wire =
      asBytes "* OK {1} " ++ (crlf ++ ([0x61] ++ (asBytes "001 OK" ++ (crlf ++ [])))) := by
    decide
  rw [hwire] at hahead
  obtain ⟨buf₁, w₁, hahead₁, hexec₁⟩ := exec_literal "a001" "" [] maxResponseBytes
    (by decide) hahead (by decide) (by decide)
  obtain ⟨left, hleft⟩ : ∃ left, maxResponseBytes = left + 1 + 1 := ⟨maxResponseBytes - 2, rfl⟩
  have hends : ¬Ends "a001" (fromUtf8Lossy (asBytes "001 OK")) :=
    not_ends_later ⟨by simp, by simp⟩ (by decide) (by decide)
  rw [readResponse, hexec₁, hleft]
  obtain ⟨buf₂, w₂, hahead₂, hexec₂⟩ := exec_plain "a001"
    ("" ++ fromUtf8Lossy (asBytes "* OK {1} ") ++ "\r\n" ++ fromUtf8Lossy [0x61]) ([] ++ [[0x61]])
    (left + 1) (by decide) hahead₁ (by decide) (by decide) hends
  rw [hexec₂]
  exact exec_eof _ _ _ _ hahead₂

/-- Neither response is read, though both are as they should be. -/
theorem not_readsBack :
    (refusal.WellFormed "a001" ∧ refusal.wire.length ≤ maxResponseBytes ∧
      ¬ReadsBack "a001" refusal) ∧
    notice.WellFormed "a001" ∧ notice.wire.length ≤ maxResponseBytes ∧
      ¬ReadsBack "a001" notice := by
  have htag : IsTag "a001" := ⟨by simp, by simp⟩
  have hrefusal : refusal.wire.length ≤ maxResponseBytes := by decide
  have hnotice : notice.wire.length ≤ maxResponseBytes := by decide
  refine ⟨⟨refusal_wellFormed, hrefusal, fun h => ?_⟩, notice_wellFormed, hnotice, fun h => ?_⟩
  · have hmarker : refusal.NoFalseMarker := List.forall_mem_singleton.mpr (by decide)
    have hlast := ((readsBack_iff htag refusal_wellFormed (by decide) hmarker).mp h).2
    cases hlast
  · obtain ⟨w, hahead⟩ := exists_ahead notice.wire
    obtain ⟨text, buf', w', -, hexec⟩ := h [] notice.wire w (by rwa [List.append_nil])
    obtain ⟨w'', herror⟩ := exec_notice hahead
    rw [herror] at hexec
    cases hexec

end Rsurl.Mail.Imap
