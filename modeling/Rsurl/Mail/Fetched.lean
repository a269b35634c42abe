import Rsurl.Ascii
import Rsurl.Mail.LineReader

/-!
# Fetching a message over IMAP

The answer to the request for a message is made of untagged data, in which the server may say more
than it has been asked for: about other messages, other items, the mailbox. What is asked for is told
by the message and the name of the item, in whichever form of a string it is sent; what is returned
is the first literal of the answer, whatever it is of.
-/

namespace Rsurl.Mail.Imap

open Library Text Net
open Http2 (Url)

/-! ## The run up to the request -/

/-- `UID` or `MAILINDEX` of a path. -/
inductive Message where
  | uid (n : Nat)
  | index (n : Nat)
  deriving DecidableEq, Repr

def ImapPath.message (p : ImapPath) : Option Message :=
  (p.uid.map Message.uid).or (p.mailindex.map Message.index)

def fetchCommand (m : Message) (target : ImapPath) : String :=
  let bodySection := target.section.getD ""
  match m with
  | .uid uid => s!"UID FETCH {uid} BODY[{bodySection}]"
  | .index index => s!"FETCH {index} BODY[{bodySection}]"

/-- Up to the authentication: whether it is made already, the next tag, and the capabilities. -/
def welcome (plain : Bool) (url : Url) (requireTls : Bool) :
    Session (Bool × Nat × Caps × Bytes) := do
  let (greeting, _, buf) ← readResponse "*" []
  let first := (lines greeting).head?.getD ""
  if !startsWith "* OK" first && !startsWith "* PREAUTH" first then
    Talk.fail (.badResponse s!"imap greeting was not OK: {first}")
  else
    let preauth := startsWith "* PREAUTH" first
    let (caps, n, buf) ← discover (greetingCaps greeting first) buf
    if plain && caps.has "STARTTLS" then
      let (caps, buf) ← startTls url.host n buf
      return (preauth, n + 2, caps, buf)
    else
      Talk.ofExcept (requireTlsOk requireTls plain)
      return (preauth, n, caps, buf)

/-- Up to the request for the message: the number of its tag. -/
def askFor (plain : Bool) (url : Url) (requireTls : Bool) (target : ImapPath) (mbox : String)
    (m : Message) : Session (Nat × Bytes) := do
  let (preauth, n, caps, buf) ← welcome plain url requireTls
  let (n, buf) ← identify url preauth n caps buf
  Talk.ofExcept (rejectField "imap mailbox" target.mailbox)
  Talk.ofExcept (rejectField "imap section" target.section)
  Talk.ofExcept (rejectField "imap search query" target.query)
  let buf ← selectMailbox n mbox target.uidvalidity buf
  sendText s!"{tag (n + 1)} {fetchCommand m target}"
  return (n + 1, buf)

/-- From the request on. -/
def readFetched (n : Nat) (buf : Bytes) : Session Bytes := do
  let (resp, literals, buf) ← readResponse (tag n) buf
  Talk.ofExcept (requireOk resp (tag n) "FETCH")
  logout (n + 1) buf
  return literals.head?.getD []

variable {plain requireTls : Bool} {url : Url} {target : ImapPath} {mbox : String} {m : Message}

theorem run_eq_welcome (plain : Bool) (url : Url) (requireTls : Bool) :
    run plain url requireTls = (do
      let (preauth, n, caps, buf) ← welcome plain url requireTls
      retrieve url preauth n caps buf) := by
  rw [run, welcome, bind_assoc]
  refine congrArg (readResponse "*" [] >>= ·) (funext fun ⟨greeting, _, buf⟩ => ?_)
  dsimp only
  split
  · rfl
  rw [bind_assoc]
  refine congrArg (discover _ buf >>= ·) (funext fun ⟨caps, n, buf⟩ => ?_)
  dsimp only
  split
  · simp only [bind_assoc, pure_bind]
  · simp only [bind_assoc, pure_bind]

theorem request_eq (hmbox : target.mailbox = some mbox) (hmsg : target.message = some m) (n : Nat)
    (buf : Bytes) : request n target buf = (do
      let buf ← selectMailbox n mbox target.uidvalidity buf
      let (_, literals, buf) ←
        exchange (n + 1) (fetchCommand m target) "FETCH" buf
      return (literals.head?.getD [], n + 2, buf)) := by
  rw [request, hmbox]
  refine congrArg (selectMailbox n mbox target.uidvalidity buf >>= ·) (funext fun buf => ?_)
  cases huid : target.uid with
  | some uid =>
    obtain rfl : Message.uid uid = m := by simpa [ImapPath.message, huid] using hmsg
    rfl
  | none =>
    cases hindex : target.mailindex with
    | some index =>
      obtain rfl : Message.index index = m := by
        simpa [ImapPath.message, huid, hindex] using hmsg
      rfl
    | none => simp [ImapPath.message, huid, hindex] at hmsg

/-- A run for a message asks for it, and goes on to read the answer. -/
theorem run_eq_askFor (hpath : parsePath url.path = .ok target)
    (hmbox : target.mailbox = some mbox) (hmsg : target.message = some m) :
    run plain url requireTls = (do
      let (n, buf) ← askFor plain url requireTls target mbox m
      readFetched n buf) := by
  have htarget : (Talk.ofExcept (parsePath url.path) : Session ImapPath) = pure target := by
    rw [hpath]
    rfl
  rw [run_eq_welcome, askFor]
  simp only [retrieve, htarget, request_eq hmbox hmsg, exchange, readFetched, bind_assoc, pure_bind]

/-! ## What a server answers -/

/-- A keyword, in any case of its letters. -/
structure Keyword (word : String) where
  written : String
  named : eqIgnoreAsciiCase written word = true

/-- Text, or the octets of a literal. -/
inductive Part where
  | text (bytes : Bytes)
  | literal (octets : Bytes)

def Part.octets : Part → Bytes
  | text bytes => bytes
  | literal octets => octets

def Part.literal? : Part → Option Bytes
  | text _ => none
  | literal octets => some octets

/-- The line of these parts, behind what there is of it. -/
def assemble (front : Bytes) : List Part → LogicalLine
  | [] => ⟨[], front⟩
  | .text bytes :: parts => assemble (front ++ bytes) parts
  | .literal octets :: parts =>
    let announced := front ++
      (marker (Nat.toDigits 10 octets.length) false).flatMap String.utf8EncodeChar
    ⟨(announced, octets) :: (assemble [] parts).literals, (assemble [] parts).last⟩

/-- The forms in which a string is sent. -/
inductive NString where
  | nil (word : Keyword "NIL")
  | quoted (s : Bytes)
  | literal (octets : Bytes)

def quote (s : Bytes) : Bytes :=
  0x22 :: (s.flatMap fun b => if b = 0x22 ∨ b = 0x5c then [0x5c, b] else [b]) ++ [0x22]

namespace NString

def part : NString → Part
  | nil word => .text (asBytes word.written)
  | quoted s => .text (quote s)
  | literal octets => .literal octets

/-- NIL is no string, and has no octets. -/
def octets : NString → Bytes
  | nil _ => []
  | quoted s => s
  | literal octets => octets

end NString

/-- What is said of a message: its UID, a string of a name, or something else. -/
inductive Item where
  | uid (word : Keyword "UID") (n : Nat)
  | body (name : List Part) (value : NString)
  | other (parts : List Part)

def Item.parts : Item → List Part
  | uid word n => [.text (asBytes s!"{word.written} {n}")]
  | body name value => name ++ [.text (asBytes " "), value.part]
  | other parts => parts

/-- What is said of the message of a number, or something else. -/
inductive Untagged where
  | fetch (word : Keyword "FETCH") (seq : Nat) (items : List Item)
  | other (parts : List Part)

def Untagged.parts : Untagged → List Part
  | fetch word seq items =>
    .text (asBytes s!"* {seq} {word.written} (") ::
      [Part.text (asBytes " ")].intercalate (items.map Item.parts) ++ [.text (asBytes ")")]
  | other parts => parts

/-- The answer to a request that is fulfilled. -/
structure Answer where
  untagged : List Untagged
  status : Keyword "OK"
  text : String

section

-- `isItem` says which names are the one of the item that has been asked for
variable (isItem : List Part → Bool)

/-- The string that is asked for, if the item is of it. -/
def Item.string? : Item → Option NString
  | body name value => if isItem name then some value else none
  | _ => none

def Item.isUid (uid : Nat) : Item → Bool
  | .uid _ n => n = uid
  | _ => false

/-- What is said of the message that is asked for. -/
def Untagged.itemsOf (m : Message) : Untagged → List Item
  | fetch _ seq items => match m with
    | .index index => if seq = index then items else []
    | .uid uid => if items.any (Item.isUid uid) then items else []
  | other _ => []

/-- The octets that are asked for: none without the item, or the message. -/
def Answer.requested (m : Message) (a : Answer) : Bytes :=
  match (a.untagged.flatMap (Untagged.itemsOf m)).findSome? (Item.string? isItem) with
  | some value => value.octets
  | none => []

end

namespace Answer

def tagged (n : Nat) (a : Answer) : String := s!"{tag n} {a.status.written} {a.text}"

def response (n : Nat) (a : Answer) : Response :=
  ⟨a.untagged.map fun u => assemble [] u.parts, plainLine (a.tagged n)⟩

/-- The octets of the literals of the answer, whatever they are of. -/
def literals (a : Answer) : List Bytes :=
  (a.untagged.flatMap Untagged.parts).filterMap Part.literal?

/-- The answer is as the syntax has it: literals have a length of 32 bits, and the text is of the
last line. -/
structure Conforms (n : Nat) (a : Answer) : Prop where
  wellFormed : (a.response n).WellFormed (tag n)
  literals : ∀ o ∈ a.literals, o.length < 2 ^ 32
  text : '\n' ∉ a.text.toList ∧ '\r' ∉ a.text.toList

end Answer

/-! ## The answer is read -/

theorem literals_assemble (front : Bytes) (parts : List Part) :
    (assemble front parts).pieces.filterMap Prod.snd = parts.filterMap Part.literal? := by
  induction parts generalizing front with
  | nil => rfl
  | cons p parts ih =>
    cases p with
    | text bytes => exact ih (front ++ bytes)
    | literal octets => exact congrArg (octets :: ·) (ih [])

theorem literals_response (n : Nat) (a : Answer) : (a.response n).literals = a.literals := by
  have hlast : (plainLine (a.tagged n)).pieces.filterMap Prod.snd = [] := rfl
  rw [Response.literals, Response.pieces, Response.lines, Answer.response, Answer.literals,
    List.flatMap_append, List.filterMap_append, List.flatMap_singleton, hlast, List.append_nil,
    List.flatMap_map, List.filterMap_flatMap, List.filterMap_flatMap]
  exact List.flatMap_congr fun u _ => literals_assemble [] u.parts

/-- What follows the last line feed but the one at the end. -/
theorem lastLine_append {before line : List Char}
    (hbefore : before = [] ∨ ∃ s, before = s ++ ['\n']) (hne : line ≠ []) (hline : '\n' ∉ line) :
    lastLine (String.ofList (before ++ (line ++ ['\r', '\n']))) = String.ofList line := by
  have hend : (line ++ ['\r', '\n']).splitOn '\n' = [line ++ ['\r'], []] := by
    have hcr : '\n' ∉ line ++ ['\r'] := by simp [hline]
    rw [← List.singleton_append, ← List.append_assoc,
      List.splitOn_append_cons_self_of_not_mem hcr, List.splitOn_nil]
  obtain ⟨parts, hparts⟩ : ∃ parts, (before ++ (line ++ ['\r', '\n'])).splitOn '\n' =
      parts ++ [line ++ ['\r']] ++ [[]] := by
    rcases hbefore with rfl | ⟨s, rfl⟩
    · exact ⟨[], hend⟩
    · refine ⟨s.splitOn '\n', ?_⟩
      rw [List.append_assoc, List.singleton_append, List.splitOn_append_cons_self, hend]
      simp
  have hstrip : stripCarriage (line ++ ['\r']) = line := by simp [stripCarriage]
  have hfull : (!(String.ofList line).isEmpty) = true := by simpa [String.isEmpty_iff] using hne
  simp only [lastLine, lines, String.toList_ofList, hparts, List.dropLast_concat,
    List.getLast?_concat, List.map_append, List.map_singleton, hstrip, List.append_nil,
    List.reverse_append, List.reverse_singleton, List.singleton_append, List.find?_cons, hfull]
  rfl

theorem text_pieces (l : LogicalLine) :
    ∃ s, (String.join (l.pieces.map Piece.text)).toList = s ++ ['\n'] := by
  have hlast : (Piece.text (l.last, none)).toList = lossyChars l.last ++ ['\r', '\n'] := by
    have hnil : lossyChars [] = [] := rfl
    simp [Piece.text, fromUtf8Lossy, hnil]
  refine ⟨(String.join (l.literals.map fun p => Piece.text (p.1, some p.2))).toList ++
    (lossyChars l.last ++ ['\r']), ?_⟩
  simp [LogicalLine.pieces, hlast, Function.comp_def]

/-- The text is the last line behind others. -/
theorem text_response (n : Nat) (a : Answer) :
    ∃ before, (before = [] ∨ ∃ s, before = s ++ ['\n']) ∧ (a.response n).text =
      String.ofList (before ++ ((a.tagged n).toList ++ ['\r', '\n'])) := by
  have hnil : fromUtf8Lossy [] = "" := rfl
  have hline : (a.response n).text = String.join (((a.response n).untagged.flatMap
      LogicalLine.pieces).map Piece.text) ++ (a.tagged n ++ "\r\n") := by
    simp [Response.text, Response.pieces, Response.lines, Answer.response, plainLine,
      LogicalLine.pieces, Piece.text, hnil, fromUtf8Lossy_asBytes]
  refine ⟨(String.join (((a.response n).untagged.flatMap
      LogicalLine.pieces).map Piece.text)).toList, ?_, ?_⟩
  · rcases List.eq_nil_or_concat (a.response n).untagged with h | ⟨ls, l, h⟩
    · exact .inl (by rw [h]; rfl)
    · obtain ⟨s, hs⟩ := text_pieces l
      refine .inr ⟨(String.join ((ls.flatMap LogicalLine.pieces).map Piece.text)).toList ++ s, ?_⟩
      rw [h]
      simp [hs]
  · rw [hline]
    apply String.toList_injective
    simp

theorem visible_of_isUpper {c : Char} (h : c.isUpper = true) : 0x21 ≤ c.toNat ∧ c.toNat ≤ 0x7e := by
  simp only [Char.isUpper, decide_eq_true_eq, UInt32.le_iff_toNat_le] at h
  have hA : 'A'.val.toNat = 0x41 := rfl
  have hZ : 'Z'.val.toNat = 0x5a := rfl
  change 0x21 ≤ c.val.toNat ∧ c.val.toNat ≤ 0x7e
  omega

theorem Keyword.not_blank {word : String} (k : Keyword word)
    (h : ∀ c ∈ word.toList, isWhitespace c.toLower = false) :
    ∀ c ∈ k.written.toList, isWhitespace c = false := by
  intro c hc
  have hlower := congrArg String.toList (eqIgnoreAsciiCase_iff.mp k.named)
  rw [toList_toAsciiLowercase, toList_toAsciiLowercase] at hlower
  have hmem : c.toLower ∈ word.toList.map Char.toLower := hlower ▸ List.mem_map_of_mem hc
  obtain ⟨d, hd, heq⟩ := List.mem_map.mp hmem
  by_contra hblank
  have hupper : ¬c.isUpper := fun hupper =>
    hblank (isWhitespace_of_visible (visible_of_isUpper hupper))
  have hsame := h d hd
  rw [heq, Char.toLower_eq_of_not_isUpper hupper] at hsame
  exact hblank hsame

theorem toList_tagged (n : Nat) (a : Answer) : (a.tagged n).toList =
    (tag n).toList ++ ' ' :: (a.status.written.toList ++ ' ' :: a.text.toList) := by
  change (tag n ++ " " ++ a.status.written ++ " " ++ a.text).toList = _
  simp

theorem requireOk_response {n : Nat} {a : Answer} (h : a.Conforms n) (what : String) :
    requireOk (a.response n).text (tag n) what = .ok () := by
  have hok : ∀ c ∈ a.status.written.toList, isWhitespace c = false :=
    a.status.not_blank fun c hc => by
      simp at hc
      rcases hc with rfl | rfl
      · decide
      · decide
  have htag : ∀ c ∈ (tag n).toList, isWhitespace c = false := fun c hc =>
    isWhitespace_of_visible ((isTag_tag n).2 c hc)
  have hfeed : isWhitespace '\n' = true := by decide
  have hspace : isWhitespace ' ' = true := by decide
  have hline : '\n' ∉ (a.tagged n).toList := by
    intro hin
    rw [toList_tagged] at hin
    rcases List.mem_append.mp hin with hin | hin
    · exact absurd (htag _ hin) (by simp [hfeed])
    · simp only [List.mem_cons, List.mem_append] at hin
      rcases hin with hin | hin | hin | hin
      · exact absurd hin (by decide)
      · exact absurd (hok _ hin) (by simp [hfeed])
      · exact absurd hin (by decide)
      · exact h.text.1 hin
  obtain ⟨before, hbefore, htext⟩ := text_response n a
  have hne : (a.tagged n).toList ≠ [] := by simp [toList_tagged]
  have hlast : lastLine (a.response n).text = a.tagged n := by
    rw [htext, lastLine_append hbefore hne hline, String.ofList_toList]
  have hafter : afterPrefix (tag n) (a.tagged n) =
      some (String.ofList (' ' :: (a.status.written.toList ++ ' ' :: a.text.toList))) := by
    simp [afterPrefix, startsWith, toList_tagged]
  have hstatus : a.status.written.toList ≠ [] := by
    intro hnil
    have hnamed := congrArg String.toList (eqIgnoreAsciiCase_iff.mp a.status.named)
    rw [toList_toAsciiLowercase, toList_toAsciiLowercase, hnil] at hnamed
    cases hnamed
  obtain ⟨c, cs, hcs⟩ := List.exists_cons_of_ne_nil hstatus
  have htrim : trimStart
      (String.ofList (' ' :: (a.status.written.toList ++ ' ' :: a.text.toList))) =
      String.ofList (a.status.written.toList ++ ' ' :: a.text.toList) := by
    have hc : isWhitespace c = false := hok c (by simp [hcs])
    simp [trimStart, hcs, hspace, hc]
  have hhead : (splitWhitespace
      (String.ofList (a.status.written.toList ++ ' ' :: a.text.toList))).head? =
        some a.status.written := by
    have hfull : (!a.status.written.toList.isEmpty) = true := by simpa using hstatus
    rw [splitWhitespace, String.toList_ofList,
      List.splitOnP_append_cons_of_forall_mem hok ' ' hspace, List.filter_cons, if_pos hfull, List.map_cons, List.head?_cons, String.ofList_toList]
  rw [requireOk, hlast, hafter, Option.getD_some, htrim, hhead, Option.getD_some, a.status.named]
  rfl

theorem exec_logout (n : Nat) (buf : Bytes) (w : Wire) :
    ∃ w', (logout n buf).exec Wire.answer w = .ok () w' := by
  unfold logout
  rw [Talk.exec_bind, Talk.exec_attempt, Outcome.andThen, Talk.exec_bind, Talk.exec_attempt,
    Outcome.andThen]
  exact ⟨_, rfl⟩

variable {w : Wire} {n : Nat} {buf rest : Bytes} {a : Answer}

/-- The answer is read for its first literal, if there is room for what it is decoded to. -/
theorem exec_readFetched (h : a.Conforms n) (hmarker : (a.response n).NoFalseMarker)
    (hahead : Ahead buf w ((a.response n).wire ++ rest)) :
    (∃ w', (readFetched n buf).exec Wire.answer w = .ok (a.literals.head?.getD []) w') ∧
        len (a.response n).text ≤ maxResponseBytes ∨
      maxResponseBytes < len (a.response n).text ∧
        ∃ e w', (readFetched n buf).exec Wire.answer w = .error e w' := by
  have hword : ∀ o ∈ (a.response n).literals, o.length < 2 ^ 64 := by
    intro o ho
    rw [literals_response] at ho
    exact (h.literals o ho).trans (by decide)
  rcases exec_response (isTag_tag n) h.wellFormed hword hmarker rfl hahead with
    ⟨⟨buf', w', -, hexec⟩, hshort⟩ | ⟨hlong, e, w', herror⟩
  · obtain ⟨w'', hlogout⟩ := exec_logout (n + 1) buf' w'
    refine .inl ⟨⟨w'', ?_⟩, hshort⟩
    rw [literals_response] at hexec
    rw [readFetched, Talk.exec_bind, hexec]
    simp only [Outcome.andThen, Talk.exec_bind, requireOk_response h, Talk.ofExcept, Talk.exec,
      hlogout, Talk.pure_eq]
  · refine .inr ⟨hlong, e, w', ?_⟩
    rw [readFetched, Talk.exec_bind, herror]
    rfl

theorem exec_run_asked (hpath : parsePath url.path = .ok target) (hmbox : target.mailbox = some mbox)
    (hmsg : target.message = some m) {w₁ : Wire}
    (hasked : (askFor plain url requireTls target mbox m).exec Wire.answer w = .ok (n, buf) w₁) :
    (run plain url requireTls).exec Wire.answer w = (readFetched n buf).exec Wire.answer w₁ := by
  rw [run_eq_askFor hpath hmbox hmsg, Talk.exec_bind, hasked]
  rfl

/-- A run that has asked for a message returns the octets of its item just where there is room for
what the answer is decoded to and its first literal has these octets, or the item has none and
nothing is sent as a literal. -/
theorem fetch_exact (hpath : parsePath url.path = .ok target) (hmbox : target.mailbox = some mbox)
    (hmsg : target.message = some m) {w₁ : Wire}
    (hasked : (askFor plain url requireTls target mbox m).exec Wire.answer w = .ok (n, buf) w₁)
    (isItem : List Part → Bool) (ha : a.Conforms n) (hmarker : (a.response n).NoFalseMarker)
    (hahead : Ahead buf w₁ ((a.response n).wire ++ rest)) :
    (∃ w', (run plain url requireTls).exec Wire.answer w = .ok (a.requested isItem m) w') ↔
      len (a.response n).text ≤ maxResponseBytes ∧
        a.literals.head?.getD [] = a.requested isItem m := by
  rw [exec_run_asked hpath hmbox hmsg hasked]
  rcases exec_readFetched ha hmarker hahead with ⟨⟨w', hexec⟩, hshort⟩ | ⟨hlong, e, w', herror⟩
  · rw [hexec]
    constructor
    · rintro ⟨w'', h⟩
      exact ⟨hshort, (Outcome.ok.inj h).1⟩
    · rintro ⟨-, h⟩
      exact ⟨w', by rw [h]⟩
  · rw [herror]
    constructor
    · rintro ⟨w'', h⟩
      cases h
    · rintro ⟨hshort, -⟩
      omega

theorem announces_assemble (front : Bytes) (parts : List Part) :
    ∀ p ∈ (assemble front parts).literals, Announces p.1 p.2.length := by
  induction parts generalizing front with
  | nil => exact fun p hp => nomatch hp
  | cons part parts ih =>
    cases part with
    | text bytes => exact ih (front ++ bytes)
    | literal octets =>
      refine List.forall_mem_cons.mpr ⟨⟨front, _, false, rfl, Nat.toDigits_ne_nil, fun c hc =>
        Nat.isDigit_of_mem_toDigits (by decide) (by decide) hc, ?_⟩, ih []⟩
      exact Nat.ofDigitChars_ten_toDigits

def keyword (word : String) : Keyword word := ⟨word, by simp [eqIgnoreAsciiCase]⟩

/-- `BODY[…]`, with what is sent as literals in its place. -/
def isBody (bodySection : String) (name : List Part) : Bool :=
  name.flatMap Part.octets == asBytes s!"BODY[{bodySection}]"

/-- A message with its UID. -/
def fetched (seq uid : Nat) (value : NString) : Untagged :=
  .fetch (keyword "FETCH") seq
    [.uid (keyword "UID") uid, .body [.text (asBytes "BODY[]")] value]

/-- The message, and nothing else. -/
def plainAnswer : Answer :=
  ⟨[fetched 2 5 (.literal (asBytes "hi"))], keyword "OK", "done"⟩

/-- Another message before it, and the message as a quoted string. -/
def mixedAnswer : Answer :=
  ⟨[fetched 1 4 (.literal (asBytes "no")), fetched 2 5 (.quoted (asBytes "hi"))],
    keyword "OK", "done"⟩

def inbox : Url := ⟨"imaps", none, "mail.example", 993, "/INBOX;UID=5"⟩

/-- A server that need not be told who we are. -/
def server (a : Answer) : Wire :=
  .delivering [.data 0x2a (asBytes (" PREAUTH [CAPABILITY IMAP4rev1] ready\r\n" ++
    "a001 OK done\r\n") ++ (a.response 2).wire)]

theorem plainAnswer_conforms : plainAnswer.Conforms 2 where
  wellFormed := {
    lines := by
      refine List.forall_mem_cons.mpr ⟨⟨?_, announces_assemble _ _, not_announces ?_⟩,
        List.forall_mem_singleton.mpr (plainLine_wellFormed ?_ ?_)⟩
      · decide
      · decide
      · decide
      · decide
    untagged := by decide
    tagged := by decide
    later := by decide }
  literals := by decide
  text := by decide

theorem mixedAnswer_conforms : mixedAnswer.Conforms 2 where
  wellFormed := {
    lines := by
      refine List.forall_mem_cons.mpr ⟨⟨?_, announces_assemble _ _, not_announces ?_⟩,
        List.forall_mem_cons.mpr ⟨⟨?_, announces_assemble _ _, not_announces ?_⟩,
          List.forall_mem_singleton.mpr (plainLine_wellFormed ?_ ?_)⟩⟩
      · decide
      · decide
      · decide
      · decide
      · decide
      · decide
    untagged := by decide
    tagged := by decide
    later := by decide }
  literals := by decide
  text := by decide

def inboxPath : ImapPath := ⟨some "INBOX", none, some 5, none, none, none⟩

theorem parsePath_inbox : parsePath inbox.path = .ok inboxPath := by decide

def asked : Outcome Wire (Nat × Bytes) :=
  (askFor false inbox false inboxPath "INBOX" (.uid 5)).exec Wire.answer (server plainAnswer)

theorem ahead_server (a : Answer) : Ahead [] (server a)
    (asBytes "* PREAUTH [CAPABILITY IMAP4rev1] ready" ++ (crlf ++
      (asBytes "a001 OK done" ++ (crlf ++ ((a.response 2).wire ++ []))))) := by
  have hbytes :
      0x2a :: asBytes (" PREAUTH [CAPABILITY IMAP4rev1] ready\r\n" ++ "a001 OK done\r\n") =
        asBytes "* PREAUTH [CAPABILITY IMAP4rev1] ready" ++
          (crlf ++ (asBytes "a001 OK done" ++ crlf)) := by
    decide +kernel
  have hunread : unread (server a).side.reads =
      (0x2a :: asBytes (" PREAUTH [CAPABILITY IMAP4rev1] ready\r\n" ++ "a001 OK done\r\n")) ++
        (a.response 2).wire := by
    simp [server, Wire.delivering, unread, Framing.Read.bytes]
  refine ⟨by simp [server, Wire.delivering, Delivers], ?_⟩
  rw [hunread, hbytes]
  simp

theorem welcome_preauth {s : Except Error Side} {w : Wire} {rest : Bytes} (hopen : Open s w) (hahead : Ahead [] w
    (asBytes "* PREAUTH [CAPABILITY IMAP4rev1] ready" ++ (crlf ++ rest))) :
    ∃ buf w', (welcome false inbox false).exec Wire.answer w =
      .ok (true, 1, ⟨["IMAP4REV1"]⟩, buf) w' ∧ Open s w' ∧ Ahead buf w' rest := by
  have hsize : extractLiteralSize "* PREAUTH [CAPABILITY IMAP4rev1] ready" = none :=
    extractLiteralSize_of_last "* PREAUTH [CAPABILITY IMAP4rev1] read".toList 'y'
      (by simp) (by decide) (by decide) (by decide)
  obtain ⟨buf, w', hahead', hexec⟩ := exec_oneLine "*" _ ⟨by decide, by simp⟩ (by decide +kernel)
    (by decide +kernel) hsize (by decide +kernel) hahead
  have hopen' : Open s ((readResponse "*" []).exec Wire.answer w).state := hopen.exec
  rw [hexec] at hopen'
  have hfirst : (lines ("* PREAUTH [CAPABILITY IMAP4rev1] ready" ++ "\r\n")).head?.getD "" =
      "* PREAUTH [CAPABILITY IMAP4rev1] ready" := by decide +kernel
  have hcaps : greetingCaps ("* PREAUTH [CAPABILITY IMAP4rev1] ready" ++ "\r\n")
      "* PREAUTH [CAPABILITY IMAP4rev1] ready" = ⟨["IMAP4REV1"]⟩ := by decide +kernel
  have hpreauth : startsWith "* PREAUTH" "* PREAUTH [CAPABILITY IMAP4rev1] ready" = true := by
    decide +kernel
  refine ⟨buf, w', ?_, hopen', hahead'⟩
  rw [welcome, Talk.exec_bind, hexec]
  simp only [Outcome.andThen, hfirst, hcaps, hpreauth]
  rfl

theorem select_inbox {s : Except Error Side} {w : Wire} {buf rest : Bytes} (hopen : Open s w)
    (hahead : Ahead buf w (asBytes "a001 OK done" ++ (crlf ++ rest))) :
    ∃ buf' w', (selectMailbox 1 "INBOX" none buf).exec Wire.answer w = .ok buf' w' ∧
      Open s w' ∧ Ahead buf' w' rest := by
  have hsize : extractLiteralSize "a001 OK done" = none :=
    extractLiteralSize_of_last "a001 OK don".toList 'e'
      (by simp) (by decide) (by decide) (by decide)
  obtain ⟨buf', w', hahead', hexec⟩ := exec_oneLine (tag 1) _ (isTag_tag 1) (by decide +kernel)
    (by decide +kernel) hsize (by decide +kernel) hahead
  have hopen' : Open s ((readResponse (tag 1) buf).exec Wire.answer w).state := hopen.exec
  rw [hexec] at hopen'
  have hdone : requireOk ("a001 OK done" ++ "\r\n") (tag 1) "SELECT" = .ok () := by decide +kernel
  refine ⟨buf', w', ?_, hopen', hahead'⟩
  rw [selectMailbox, exchange, Talk.exec_bind, Talk.exec_bind, exec_sendText hopen]
  simp only [Outcome.andThen, Talk.exec_bind, hexec, hdone]
  rfl

/-- What the server answers is ahead of us when we have asked for the message. -/
theorem asked_inbox (a : Answer) : ∃ buf w',
    (askFor false inbox false inboxPath "INBOX" (.uid 5)).exec Wire.answer (server a) =
      .ok (2, buf) w' ∧ Ahead buf w' ((a.response 2).wire ++ []) := by
  have hopen : Open (.error .unexpectedEof) (server a) := ⟨rfl, rfl, fun _ h => nomatch h⟩
  obtain ⟨buf, w, hwelcome, hopen, hahead⟩ := welcome_preauth hopen (ahead_server a)
  obtain ⟨buf', w', hselect, hopen', hahead'⟩ := select_inbox hopen hahead
  have hmailbox : rejectField "imap mailbox" inboxPath.mailbox = .ok () := by decide
  have hsection : rejectField "imap section" inboxPath.section = .ok () := rfl
  have hquery : rejectField "imap search query" inboxPath.query = .ok () := rfl
  have huidvalidity : inboxPath.uidvalidity = none := rfl
  refine ⟨buf', w', ?_, hahead'⟩
  rw [askFor, Talk.exec_bind, hwelcome]
  simp only [Outcome.andThen, identify, Talk.exec_bind, hmailbox, hsection, hquery, huidvalidity,
    Talk.pure_eq, Talk.ofExcept, Talk.exec, hselect, exec_sendText hopen']

theorem fetch_exact_plain : ∃ w', (run false inbox false).exec Wire.answer (server plainAnswer) =
    .ok (asBytes "hi") w' := by
  obtain ⟨buf, w₁, hexec, hahead⟩ := asked_inbox plainAnswer
  have hasked : asked = .ok (2, buf) w₁ := hexec
  have hmarker : (plainAnswer.response 2).NoFalseMarker :=
    List.forall_mem_cons.mpr ⟨by decide, List.forall_mem_singleton.mpr (by decide)⟩
  exact (fetch_exact parsePath_inbox rfl rfl hasked (isBody "")
    plainAnswer_conforms hmarker hahead).mpr ⟨by decide, by decide⟩

/-- What is returned is of another message; what is asked for is no literal. -/
theorem not_requested : mixedAnswer.Conforms 2 ∧
    mixedAnswer.requested (isBody "") (.uid 5) = asBytes "hi" ∧
    ((run false inbox false).exec Wire.answer (server mixedAnswer)).result = .ok (asBytes "no") := by
  refine ⟨mixedAnswer_conforms, by decide, ?_⟩
  obtain ⟨buf, w₁, hasked, hahead⟩ := asked_inbox mixedAnswer
  have hmarker : (mixedAnswer.response 2).NoFalseMarker :=
    List.forall_mem_cons.mpr ⟨by decide, List.forall_mem_cons.mpr
      ⟨by decide, List.forall_mem_singleton.mpr (by decide)⟩⟩
  rw [exec_run_asked parsePath_inbox rfl rfl hasked]
  rcases exec_readFetched mixedAnswer_conforms hmarker hahead with ⟨⟨w', hexec⟩, -⟩ | ⟨hlong, -⟩
  · rw [hexec]
    rfl
  · exact absurd hlong (by decide)

end Rsurl.Mail.Imap
